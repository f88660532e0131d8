import Depot.Text.Digit

/-!
# Numbers and moments

What a bare word of a TOML document may be besides a truth value: an integer of 64 bits, a floating
point number, or a date or time. Underscores may stand between digits.
-/

namespace Depot.Toml

open Depot.Text

/-- The digits of a number, without the underscores that stand between two of them. -/
def digits? (p : Char → Bool) (cs : List Char) : Option (List Char) :=
  match cs with
  | [] => none
  | '_' :: _ => none
  | _ => go cs
where
  go : List Char → Option (List Char)
    | [] => some []
    | '_' :: c :: r => if p c then (go r).map (c :: ·) else none
    | c :: r => if p c then (go r).map (c :: ·) else none

def signed (cs : List Char) : Bool × List Char :=
  match cs with
  | '-' :: r => (true, r)
  | '+' :: r => (false, r)
  | _ => (false, cs)

/-- Decimal digits, of which several do not start with zero. -/
def decimal? (cs : List Char) : Option (List Char) := do
  match ← digits? Char.isDigit cs with
  | '0' :: _ :: _ => none
  | ds => some ds

def isHexDigit (c : Char) : Bool := (hexDigit? c).isSome

def isOctalDigit (c : Char) : Bool := '0' ≤ c && c ≤ '7'

def isBinaryDigit (c : Char) : Bool := c == '0' || c == '1'

/-- An integer in any of four bases. -/
def integer? (cs : List Char) : Option Int := do
  let n : Int ← match cs with
    | '0' :: 'x' :: r => ((digits? isHexDigit r).bind (valueIn? 16)).map Int.ofNat
    | '0' :: 'o' :: r => ((digits? isOctalDigit r).bind (valueIn? 8)).map Int.ofNat
    | '0' :: 'b' :: r => ((digits? isBinaryDigit r).bind (valueIn? 2)).map Int.ofNat
    | _ =>
      let (negative, r) := signed cs
      ((decimal? r).bind value?).map fun n => if negative then -(n : Int) else n
  if -(2 ^ 63) ≤ n ∧ n < 2 ^ 63 then some n else none

/-- Whether `digits * 10 ^ scale` is more than a floating point number can be. -/
def isTooLarge (digits : List Char) (scale : Int) : Bool :=
  let n := (value? digits).getD 0
  n != 0 && digits.length + scale > 0 &&
    (decide (digits.length + scale > 400) ||
      decide (n * 10 ^ scale.toNat * 2 ^ 54 ≥ (2 ^ 54 - 1) * 2 ^ 1024 * 10 ^ (-scale).toNat))

/-- Digits alone are an integer, even one of too many bits. -/
def isFloat (cs : List Char) : Bool :=
  let (negative, r) := signed cs
  let isMark (c : Char) : Bool := c == 'e' || c == 'E'
  if r = ['i', 'n', 'f'] ∨ r = ['n', 'a', 'n'] then true
  else if ¬ r.any fun c => c == '.' || isMark c then false
  else
    let mantissa := r.takeWhile (!isMark ·)
    let whole := decimal? (mantissa.takeWhile (· ≠ '.'))
    let fraction := match mantissa.dropWhile (· ≠ '.') with
      | [] => some []
      | _ :: ds => digits? Char.isDigit ds
    let exponent : Option Int := match r.dropWhile (!isMark ·) with
      | [] => some 0
      | _ :: e =>
        let (below, ds) := signed e
        ((digits? Char.isDigit ds).bind value?).map fun n => if below then -(n : Int) else n
    match whole, fraction, exponent with
    | some w, some f, some e => negative || !isTooLarge (w ++ f) (e - f.length)
    | _, _, _ => false

def isLeapYear (y : Nat) : Bool :=
  y % 4 == 0 && (y % 100 != 0 || y % 400 == 0)

def daysIn (y m : Nat) : Nat :=
  if m = 2 then (if isLeapYear y then 29 else 28)
  else if m = 4 ∨ m = 6 ∨ m = 9 ∨ m = 11 then 30
  else 31

/-- Whether the first ten characters are a date, and what follows. -/
def date? : List Char → Option (List Char)
  | a :: b :: c :: d :: '-' :: e :: f :: '-' :: g :: h :: r => do
    let y ← value? [a, b, c, d]
    let m ← value? [e, f]
    let day ← value? [g, h]
    if 1 ≤ m ∧ m ≤ 12 ∧ 1 ≤ day ∧ day ≤ daysIn y m then some r else none
  | _ => none

/-- Whether `cs` starts with a time of day, and what follows. -/
def time? : List Char → Option (List Char)
  | a :: b :: ':' :: c :: d :: ':' :: e :: f :: r => do
    let hour ← value? [a, b]
    let minute ← value? [c, d]
    let second ← value? [e, f]
    if hour ≤ 23 ∧ minute ≤ 59 ∧ second ≤ 60 then
      match r with
      | '.' :: ds =>
        if ds.takeWhile Char.isDigit = [] then none else some (ds.dropWhile Char.isDigit)
      | _ => some r
    else none
  | _ => none

def isOffset : List Char → Bool
  | [] => true
  | ['Z'] | ['z'] => true
  | [s, a, b, ':', c, d] =>
    (s == '+' || s == '-') && (value? [a, b]).any (· ≤ 23) && (value? [c, d]).any (· ≤ 59)
  | _ => false

/-- Whether `cs` is a date, a time, or both with or without an offset. -/
def isMoment (cs : List Char) : Bool :=
  match date? cs with
  | some [] => true
  | some (t :: r) =>
    (t == 'T' || t == 't' || t == ' ') && (match time? r with
      | some o => isOffset o
      | none => false)
  | none => time? cs == some []

end Depot.Toml
