import Depot.Instances

/-!
# Archive members

What every archive format gives: entries in order, those that are files or directories among them
as members. An archive may break off, so an entry list says whether it is complete.
-/

namespace Depot.Archive

/-- The content of a member as far as it can be read; `failed` if reading it ends in an error. -/
structure Content where
  data : ByteArray
  failed : Bool
  deriving DecidableEq

structure Member where
  name : String
  isDirectory : Bool
  mode : Nat
  content : Content
  deriving DecidableEq

inductive Entry where
  | member (m : Member)
  /-- Neither a file nor a directory. -/
  | skipped
  deriving DecidableEq

/-- The entries of an archive up to its end, or up to where it is damaged. -/
structure Entries where
  list : List Entry
  isComplete : Bool
  deriving DecidableEq

end Depot.Archive
