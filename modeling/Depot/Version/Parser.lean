import Depot.Text.Digit
import Depot.Version.Basic

/-!
# Reading versions

A version reads `N.N`, `N.N.N` or `N.N.N-TN` with a tag of small letters. Digits of any script fit
the shape, but only ASCII digits below 2^32 have a value. The numbers before the tag are checked
first, then the tag, then its number.
-/

namespace Depot.Version

open Depot.Text

structure Shape where
  major : List Char
  minor : List Char
  patch : Option (List Char)
  /-- The tag and the digits behind it; only after a patch number. -/
  pre : Option (List Char × List Char)
  deriving DecidableEq, Repr

/-- The longest nonempty run at the start of `cs` whose characters satisfy `p`, and the rest. -/
def run? (p : Char → Bool) (cs : List Char) : Option (List Char × List Char) :=
  if cs.takeWhile p = [] then none else some (cs.takeWhile p, cs.dropWhile p)

/-- The digits behind the tag, which end the text. -/
def Shape.readPre? (cs : List Char) : Option (List Char × List Char) := do
  let (tag, cs) ← run? Char.isLower cs
  let (number, cs) ← run? isDecimalDigit cs
  if cs = [] then some (tag, number) else none

def Shape.read? (cs : List Char) : Option Shape := do
  let (major, cs) ← run? isDecimalDigit cs
  match cs with
  | '.' :: cs =>
    let (minor, cs) ← run? isDecimalDigit cs
    match cs with
    | [] => some ⟨major, minor, none, none⟩
    | '.' :: cs =>
      let (patch, cs) ← run? isDecimalDigit cs
      match cs with
      | [] => some ⟨major, minor, some patch, none⟩
      | '-' :: cs => (Shape.readPre? cs).map fun pre => ⟨major, minor, some patch, some pre⟩
      | _ => none
    | _ => none
  | _ => none

/-- Numbers have 32 bits. -/
def number? (cs : List Char) : Option Nat :=
  (value? cs).filter (· < 2 ^ 32)

/-- The version of that shape; `text` is what an error quotes. -/
def ofShape (text : String) (s : Shape) : Except Error Version := do
  let number (cs : List Char) : Except Error Nat :=
    match number? cs with
    | some n => .ok n
    | none => .error (.malformed text)
  let major ← number s.major
  let minor ← number s.minor
  match s.patch with
  | none => .ok ⟨major, minor, 0, .series, 0⟩
  | some patch =>
    let patch ← number patch
    match s.pre with
    | none => .ok ⟨major, minor, patch, .release, 0⟩
    | some (tag, pre) =>
      match Stage.ofTag? (String.ofList tag) with
      | none => .error (.unknownTag text (String.ofList tag))
      | some stage => .ok ⟨major, minor, patch, stage, ← number pre⟩

def parse (text : String) : Except Error Version :=
  match Shape.read? text.toList with
  | none => .error (.malformed text)
  | some s => ofShape text s

def parse? (text : String) : Option Version :=
  (parse text).toOption

/-- Texts that are no version come before all versions, in the order of their characters. -/
def collate (a b : String) : Ordering :=
  match parse? a, parse? b with
  | some v, some w => v.compare w
  | none, some _ => .lt
  | some _, none => .gt
  | none, none => Ord.compare a b

/-- Stable, so texts that read as the same version keep their order. -/
def sortTexts (texts : List String) : List String :=
  texts.mergeSort fun a b => (collate a b).isLE

end Depot.Version
