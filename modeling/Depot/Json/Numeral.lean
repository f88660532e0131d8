import Depot.Number.Shortest
import Depot.Text.Digit

/-!
# Numerals

A number in JSON as it is written, and what it stands for: an integer of 64 bits, signed or not,
or else a floating point number. Reading one is quick and not always exact: the digits that fit 64
bits are scaled by one rounded power of ten.
-/

namespace Depot.Json

open Depot.Text

inductive Number where
  | int (n : Int)
  | float (negative : Bool) (x : Binary64)
  deriving DecidableEq, Repr

structure Numeral where
  negative : Bool
  whole : List Nat
  fraction : List Nat
  exponent : Option (Bool × List Nat)
  deriving DecidableEq, Repr

namespace Numeral

def digitsOf (cs : List Char) : List Nat :=
  cs.map digitValue

/-- The exponent at the end of a numeral, which may be missing. -/
def readExponent? : List Char → Option (Option (Bool × List Nat))
  | [] => some none
  | c :: cs =>
    if c = 'e' ∨ c = 'E' then
      let (negative, ds) := match cs with
        | '-' :: ds => (true, ds)
        | '+' :: ds => (false, ds)
        | ds => (false, ds)
      if ds ≠ [] ∧ ds.all Char.isDigit then some (some (negative, digitsOf ds)) else none
    else none

def readFraction? : List Char → Option (List Nat × List Char)
  | '.' :: cs =>
    if cs.takeWhile Char.isDigit = [] then none
    else some (digitsOf (cs.takeWhile Char.isDigit), cs.dropWhile Char.isDigit)
  | cs => some ([], cs)

/-- A whole part of several digits does not start with zero. -/
def readWhole? (cs : List Char) : Option (List Nat × List Char) :=
  match cs.takeWhile Char.isDigit with
  | [] => none
  | '0' :: _ :: _ => none
  | ds => some (digitsOf ds, cs.dropWhile Char.isDigit)

def read? (cs : List Char) : Option Numeral := do
  let (negative, cs) := match cs with
    | '-' :: cs => (true, cs)
    | cs => (false, cs)
  let (whole, cs) ← readWhole? cs
  let (fraction, cs) ← readFraction? cs
  let exponent ← readExponent? cs
  some ⟨negative, whole, fraction, exponent⟩

/-- Takes digits as long as the number stays below `bound`; also what is left of them. -/
def absorb (bound : Nat) (n : Nat) : List Nat → Nat × List Nat
  | [] => (n, [])
  | d :: ds => if n * 10 + d < bound then absorb bound (n * 10 + d) ds else (n, d :: ds)

/-- Ten to a power that a floating point number can hold. -/
def powerOfTen? (k : Nat) : Option Binary64 :=
  if k ≤ 308 then Binary64.ofNat? (10 ^ k) else none

/-- `x / 10 ^ k`, in steps of at most 308 powers. -/
def divByPower? (x : Binary64) (k : Nat) : Option Binary64 :=
  if x.mantissa = 0 then some x
  else if h : k ≤ 308 then powerOfTen? k >>= x.div?
  else do divByPower? (← x.div? (← powerOfTen? 308)) (k - 308)
  termination_by k

/-- `significand * 10 ^ exponent`, unless that is too large. -/
def scale? (significand : Nat) (exponent : Int) : Option Binary64 := do
  let x ← Binary64.ofNat? significand
  if exponent < 0 then divByPower? x exponent.natAbs
  else if x.mantissa = 0 then some x
  else x.mul? (← powerOfTen? exponent.natAbs)

/-- Exponents have 32 bits. -/
def exponentBound : Nat := 2 ^ 31

def clampExponent (e : Int) : Int :=
  max (-(2 ^ 31)) (min e (2 ^ 31 - 1))

/-- The number of a significand with a decimal exponent and the written exponent on top. -/
def float? (significand : Nat) (scale : Int) (exponent : Option (Bool × List Nat)) :
    Option Binary64 :=
  match exponent with
  | none => scale? significand scale
  | some (negative, ds) =>
    match absorb exponentBound 0 ds with
    | (e, []) => scale? significand (clampExponent (if negative then scale - e else scale + e))
    | (_, _ :: _) => if significand = 0 ∨ negative then some ⟨0, 0⟩ else none

/-- What the numeral stands for, unless it is too large for a floating point number. -/
def value? (n : Numeral) : Option Number :=
  let (whole, dropped) := absorb (2 ^ 64) 0 n.whole
  if dropped = [] ∧ n.fraction = [] ∧ n.exponent = none ∧ (n.negative → 0 < whole ∧ whole ≤ 2 ^ 63)
  then some (.int (if n.negative then -whole else whole))
  else
    let (significand, rest) := absorb (2 ^ 64) whole n.fraction
    let scale : Int := (dropped.length : Int) - ((n.fraction.length : Int) - rest.length)
    (float? significand scale n.exponent).map (.float n.negative)

end Numeral

namespace Number

def digitsText (n : Nat) : List Char :=
  Nat.toDigits 10 n

/-- Positional from 10^-5 up to 10^16 and with an exponent outside. -/
def decimalText (d : Decimal) : List Char :=
  let ds := digitsText d.digits
  let point : Int := ds.length + d.exponent
  if 0 ≤ d.exponent ∧ point ≤ 16 then ds ++ List.replicate d.exponent.natAbs '0' ++ ['.', '0']
  else if 0 < point ∧ point ≤ 16 then ds.take point.natAbs ++ '.' :: ds.drop point.natAbs
  else if -5 < point ∧ point ≤ 0 then '0' :: '.' :: List.replicate point.natAbs '0' ++ ds
  else
    let e := point - 1
    let sign := if e < 0 then '-' else '+'
    ds.take 1 ++ (if ds.length = 1 then [] else '.' :: ds.drop 1)
      ++ 'e' :: sign :: digitsText e.natAbs

def render : Number → List Char
  | .int n => (if n < 0 then ['-'] else []) ++ digitsText n.natAbs
  | .float negative x => (if negative then ['-'] else []) ++ decimalText x.shortest

end Number

end Depot.Json
