import Depot.Number.Binary64

/-!
# Shortest decimals

`shortest` writes a number with the fewest digits that read back as that number, and of several
such decimals the nearest one. A decimal reads back if it lies between the halfway points to the
two neighbours, which count when the mantissa is even.
-/

namespace Depot

structure Decimal where
  digits : Nat
  exponent : Int
  deriving DecidableEq, Repr

namespace Decimal

/-- The order of `a * 10 ^ i` and `n * 2 ^ j`. -/
def compareScaled (a : Nat) (i : Int) (n : Nat) (j : Int) : Ordering :=
  compare (a * 10 ^ i.toNat * 2 ^ (-j).toNat) (n * 2 ^ j.toNat * 10 ^ (-i).toNat)

/-- Without zeros at the end; `fuel` bounds their number. -/
def strip : (fuel : Nat) → Decimal → Decimal
  | 0, d => d
  | fuel + 1, d =>
    if d.digits ≠ 0 ∧ d.digits % 10 = 0 then strip fuel ⟨d.digits / 10, d.exponent + 1⟩ else d

end Decimal

namespace Binary64

/-- The gap to the next smaller number is half the gap to the next larger one. -/
def isNarrowBelow (x : Binary64) : Bool :=
  x.mantissa == 2 ^ 52 && x.exponent > -1074

def readsBack (x : Binary64) (d : Decimal) : Bool :=
  let low := if x.isNarrowBelow then 4 * x.mantissa - 1 else 4 * x.mantissa - 2
  let even := x.mantissa % 2 == 0
  let below := Decimal.compareScaled d.digits d.exponent low (x.exponent - 2)
  let above := Decimal.compareScaled d.digits d.exponent (4 * x.mantissa + 2) (x.exponent - 2)
  (below == .gt || (even && below == .eq)) && (above == .lt || (even && above == .eq))

/-- The least `k`, from `k` on and with `fuel` steps up, such that the number is below `10 ^ k`. -/
def decimalScale (x : Binary64) : (fuel : Nat) → Int → Int
  | 0, k => k
  | fuel + 1, k =>
    if Decimal.compareScaled 1 k x.mantissa x.exponent == .gt then k
    else decimalScale x fuel (k + 1)

/-- The decimal with the given last place next to the number that reads back, if one does. -/
def onGrid? (x : Binary64) (place : Int) : Option Decimal :=
  let num := x.numerator * 10 ^ (-place).toNat
  let den := x.denominator * 10 ^ place.toNat
  let low : Decimal := ⟨num / den, place⟩
  let high : Decimal := ⟨num / den + 1, place⟩
  match x.readsBack low, x.readsBack high with
  | true, true => some (if 2 * num < (2 * (num / den) + 1) * den then low
      else if 2 * num > (2 * (num / den) + 1) * den then high
      else if low.digits % 2 = 0 then low else high)
  | true, false => some low
  | false, true => some high
  | false, false => none

def exactDecimal (x : Binary64) : Decimal :=
  if x.exponent ≥ 0 then ⟨x.numerator, 0⟩
  else ⟨x.mantissa * 5 ^ (-x.exponent).toNat, x.exponent⟩

def shortest (x : Binary64) : Decimal :=
  if x.mantissa = 0 then ⟨0, 0⟩
  else
    let low : Int := (log2 x.numerator x.denominator * 30103) / 100000
    let k := decimalScale x 4 (low - 1)
    let places := (List.range 17).map fun i => k - (i + 1 : Nat)
    ((places.findSome? x.onGrid?).getD x.exactDecimal).strip 400

end Binary64

end Depot
