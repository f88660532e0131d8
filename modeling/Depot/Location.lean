/-!
# Paths

`Location` is the place of a file: the names on the way to it from the root of the tree. Paths come
in as text, where empty names and single dots mean nothing and a leading slash starts at the root.
-/

namespace Depot

/-- The names from the root on; the last one is the file's own. -/
abbrev Location := List String

namespace Location

def segments (text : String) : List (List Char) :=
  go [] text.toList
where
  go (acc : List Char) : List Char → List (List Char)
    | [] => [acc.reverse]
    | '/' :: r => acc.reverse :: go [] r
    | c :: r => go (c :: acc) r

/-- The names in `text`, parents (`..`) among them. -/
def names (text : String) : List String :=
  ((segments text).map String.ofList).filter fun s => s ≠ "" ∧ s ≠ "."

/-- The steps that `text` takes, where a slash at the end asks for a directory. -/
def steps (text : String) : List String :=
  names text ++ if text.endsWith "/" || text.endsWith "/." then ["."] else []

def isAbsolute (text : String) : Bool :=
  text.toList.head? == some '/'

/-- Where `text` leads from the directory `base`. -/
def ofText (base : Location) (text : String) : Location :=
  if isAbsolute text then names text else base ++ names text

def render (l : Location) : String :=
  String.join (l.map ("/" ++ ·))

def join (base name : String) : String :=
  if isAbsolute name then name
  else if base = "" ∨ base.endsWith "/" then base ++ name
  else base ++ "/" ++ name

def fileName? (text : String) : Option String :=
  (names text).getLast?.filter (· ≠ "..")

end Location

end Depot
