import Depot.Text.Blank
import Depot.Text.Escape

/-!
# Values of environment variables

A variable holds a truth value, a number, a quoted text or character, or a list or table of such;
anything else is a text. Settings only take numbers and texts, so the others are not told apart.
-/

namespace Depot.Settings

open Depot.Text

/-- A value that some layer gives to a setting. -/
inductive Literal where
  | text (s : String)
  | integer (n : Int)
  | other
  deriving DecidableEq, Repr

namespace Literal

def isSeparator (c : Char) : Bool :=
  c == ',' || c == '\x7b' || c == '\x7d' || c == '[' || c == ']'

def isKeyChar (c : Char) : Bool :=
  c.isAlphanum || c == '_' || c == '-'

def skipBlanks (cs : List Char) : List Char := cs.dropWhile isAsciiBlank

/-- The text up to the closing quote, and what follows it. -/
def quoted? : List Char → Option (List Char × List Char)
  | [] => none
  | '"' :: r => some ([], r)
  | '\\' :: 'u' :: a :: b :: c :: d :: r => do
    let x ← scalar? [a, b, c, d]
    let (cs, r) ← quoted? r
    some (x :: cs, r)
  | '\\' :: 'U' :: a :: b :: c :: d :: e :: f :: g :: h :: r => do
    let x ← scalar? [a, b, c, d, e, f, g, h]
    let (cs, r) ← quoted? r
    some (x :: cs, r)
  | '\\' :: c :: r => do
    let x ← escaped? c
    let (cs, r) ← quoted? r
    some (x :: cs, r)
  | c :: r => do
    if c = '\\' ∨ ¬ (c = '\t' ∨ (' ' ≤ c ∧ c ≠ '\x7f')) then none
    let (cs, r) ← quoted? r
    some (c :: cs, r)

/-- Whether `cs` is a floating point number. -/
def isFloat (cs : List Char) : Bool :=
  let r := match cs with
    | '-' :: r | '+' :: r => r
    | _ => cs
  let isMark (c : Char) : Bool := c == 'e' || c == 'E'
  let mantissa := r.takeWhile (!isMark ·)
  let exponent := match r.dropWhile (!isMark ·) with
    | [] => true
    | _ :: '-' :: ds | _ :: '+' :: ds | _ :: ds => (Text.value? ds).isSome
  let ds := mantissa.filter (· ≠ '.')
  ds ≠ [] && ds.all Char.isDigit && (mantissa.filter (· = '.')).length ≤ 1 && exponent

def bare (cs : List Char) : Literal :=
  if cs.contains '.' ∧ isFloat cs then .other
  else
    match unsigned? (2 ^ 64) cs, signed64? cs with
    | some n, _ => .integer n
    | none, some n => .integer n
    | none, none => .text (String.ofList cs)

mutual

def value? : (fuel : Nat) → List Char → Option (Literal × List Char)
  | 0, _ => none
  | fuel + 1, cs => do
    let cs := skipBlanks cs
    let (v, r) ← match "true".toList.isPrefixOf? cs, "false".toList.isPrefixOf? cs with
      | some r, _ => some (.other, r)
      | none, some r => some (.other, r)
      | none, none =>
        match cs with
        | '\x7b' :: r => (series? true fuel r).map fun r => (.other, r)
        | '[' :: r => (series? false fuel r).map fun r => (.other, r)
        | '"' :: r => (quoted? r).map fun (s, r) => (.text (String.ofList s), r)
        | '\'' :: c :: '\'' :: r => some (.text (String.ofList [c]), r)
        | '\'' :: _ => none
        | _ => some (bare (trimBy isBlank (cs.takeWhile (!isSeparator ·))),
            cs.dropWhile (!isSeparator ·))
    some (v, skipBlanks r)

/-- Past the items of a list or the pairs of a table, and the bracket that closes it. -/
def series? (table : Bool) : (fuel : Nat) → List Char → Option (List Char)
  | 0, _ => none
  | fuel + 1, cs =>
    match table, cs with
    | true, '\x7d' :: r | false, ']' :: r => some r
    | _, _ => do
      let cs ← if table then key? cs else some cs
      let (_, r) ← value? fuel cs
      match table, r with
      | _, ',' :: r => series? table fuel r
      | true, '\x7d' :: r | false, ']' :: r => some r
      | _, _ => none

/-- Past a key and its equals sign. -/
def key? (cs : List Char) : Option (List Char) := do
  let cs := skipBlanks cs
  let r ← match cs with
    | '"' :: r => (quoted? r).map (·.2)
    | _ => if cs.takeWhile isKeyChar = [] then none else some (cs.dropWhile isKeyChar)
  match skipBlanks r with
  | '=' :: r => some r
  | _ => none

end

/-- The value of a variable. What cannot be read to its end is a text as it stands. -/
def ofText (s : String) : Literal :=
  match value? (2 * s.length + 2) s.toList with
  | some (v, []) => v
  | _ => .text s

end Literal

end Depot.Settings
