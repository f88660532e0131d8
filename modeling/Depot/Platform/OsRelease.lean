import Depot.Text.Blank
import Depot.Text.Lowercase

/-!
# The os-release file

Assignments stand on lines of their own, with blanks allowed around the key, the equals sign and
the value. A value is quoted text, which may run over several lines, or a run of characters that
are neither quotes nor blanks. The first assignment of a key counts, and an empty value is none.
-/

namespace Depot.Platform

open Depot.Text

inductive Error where
  | unreadable (path : String)
  | missingField (key : String)
  | unknownDistribution (id : String)
  | unmappedVersion (distribution version : String)
  deriving DecidableEq, Repr

def Error.message : Error → String
  | .unreadable path => s!"unable to read {path}"
  | .missingField key => s!"os-release has no {key} field"
  | .unknownDistribution id => s!"unknown distribution: {id}"
  | .unmappedVersion distribution version => s!"no download target for {distribution} {version}"

def Error.isRetryable (_ : Error) : Bool := false

/-- What identifies the system; `id` is in lower case. -/
structure OsRelease where
  id : String
  versionId : Option String
  deriving DecidableEq, Repr

namespace OsRelease

/-- `cs` from the start of each of its lines on. -/
def lineStarts : List Char → List (List Char)
  | [] => [[]]
  | cs => cs :: afterBreaks cs
where
  afterBreaks : List Char → List (List Char)
    | [] => []
    | '\n' :: r => r :: afterBreaks r
    | _ :: r => afterBreaks r

def skipBlanks (cs : List Char) : List Char :=
  cs.dropWhile isLineBlank

/-- Only blanks and a carriage return stand before the end of the line or of the text. -/
def endsLine (cs : List Char) : Bool :=
  match skipBlanks cs with
  | [] | ['\r'] | '\n' :: _ | '\r' :: '\n' :: _ => true
  | _ => false

def isBare (c : Char) : Bool :=
  !isBlank c && c != '"' && c != '\''

/-- The value at the start of `cs`, without its quotes, if the line ends behind it. -/
def value? (cs : List Char) : Option (List Char) :=
  match cs with
  | '"' :: r => quoted '"' r
  | '\'' :: r => quoted '\'' r
  | _ => if endsLine (cs.dropWhile isBare) then some (cs.takeWhile isBare) else none
where
  quoted (mark : Char) (r : List Char) : Option (List Char) :=
    match r.dropWhile (· ≠ mark) with
    | _ :: rest => if endsLine rest then some (r.takeWhile (· ≠ mark)) else none
    | [] => none

/-- The value assigned to `key` by an assignment at the start of `cs`. -/
def assigned? (key cs : List Char) : Option (List Char) := do
  let cs ← key.isPrefixOf? (skipBlanks cs)
  match skipBlanks cs with
  | '=' :: cs => value? (skipBlanks cs)
  | _ => none

def field? (key content : String) : Option String :=
  match (lineStarts content.toList).findSome? (assigned? key.toList) with
  | none | some [] => none
  | some value => some (String.ofList value)

def parse (content : String) : Except Error OsRelease :=
  match field? "ID" content with
  | none => .error (.missingField "ID")
  | some id => .ok ⟨lowercase id, field? "VERSION_ID" content⟩

end OsRelease

end Depot.Platform
