import Depot.Location

/-!
# What an extraction selects

`Options` say which members are wanted and `Report` which were found; `hint?` explains why there
were none.
-/

namespace Depot.Archive

structure Options where
  /-- Tested against the whole path of a member; without one all members are wanted. -/
  pattern : Option String
  /-- How many names are taken off the front of each path. -/
  strip : Nat
  /-- Select only and write nothing. -/
  test : Bool
  deriving DecidableEq, Repr

def Options.default : Options := ⟨none, 0, false⟩

structure Report where
  /-- Where the selected members go, in the order of the archive. -/
  selected : List Location
  members : Nat
  /-- How many of them have paths that lead out of the destination. -/
  unsafeMembers : Nat
  test : Bool
  deriving DecidableEq, Repr

namespace Report

def start (test : Bool) : Report := ⟨[], 0, 0, test⟩

def count (r : Report) : Nat := r.selected.length

/-- Why nothing was selected. -/
def hint? (r : Report) (o : Options) : Option String :=
  if r.selected ≠ [] then none
  else if r.members = 0 then some "the archive is empty"
  else
    let verb := if r.test then "would be" else "were"
    some <| match o.pattern with
    | some p =>
      if o.strip > 0 then
        s!"all members {verb} excluded by the pattern \"{p}\" and/or "
          ++ s!"stripping {o.strip} path components"
      else s!"no member matched the pattern \"{p}\""
    | none =>
      if o.strip > 0 then
        s!"all member paths {verb} consumed by stripping {o.strip} path components"
      else if r.unsafeMembers > 0 then s!"all members {verb} skipped as unsafe"
      else "the archive contains no extractable members"

end Report

end Depot.Archive
