import Depot.Instances

/-!
# Binary floating point

Finite non-negative numbers of 53 significant bits. Every operation is carried out exactly on
natural numbers and rounded once, to the nearest number and on a tie to the even one; `none` is a
result too large for the format.
-/

namespace Depot

/-- The nearest natural number to `num / den`, the even one of two. -/
def roundHalfEven (num den : Nat) : Nat :=
  let q := num / den
  let r := num % den
  if 2 * r > den ∨ (2 * r = den ∧ q % 2 = 1) then q + 1 else q

/-- The number `mantissa * 2 ^ exponent`. -/
structure Binary64 where
  mantissa : Nat
  exponent : Int
  deriving DecidableEq, Repr

namespace Binary64

/-- `num / den` times a power of two, as a fraction. -/
def scaled (num den : Nat) (exponent : Int) : Nat × Nat :=
  (num * 2 ^ exponent.toNat, den * 2 ^ (-exponent).toNat)

/-- The greatest `e` such that `2 ^ e` is at most `num / den`; both are positive. -/
def log2 (num den : Nat) : Int :=
  let e : Int := Nat.log2 num - Nat.log2 den
  let (n, d) := scaled num den (-e)
  if n < d then e - 1 else e

def ofRatio? (num den : Nat) : Option Binary64 :=
  if num = 0 then some ⟨0, 0⟩
  else
    let e := max (log2 num den - 52) (-1074)
    let (n, d) := scaled num den (-e)
    let m := roundHalfEven n d
    let (m, e) := if m = 2 ^ 53 then (2 ^ 52, e + 1) else (m, e)
    if e > 971 then none else some ⟨m, e⟩

def numerator (x : Binary64) : Nat := x.mantissa * 2 ^ x.exponent.toNat

def denominator (x : Binary64) : Nat := 2 ^ (-x.exponent).toNat

def ofNat? (n : Nat) : Option Binary64 := ofRatio? n 1

def mul? (x y : Binary64) : Option Binary64 :=
  ofRatio? (x.numerator * y.numerator) (x.denominator * y.denominator)

def add? (x y : Binary64) : Option Binary64 :=
  ofRatio? (x.numerator * y.denominator + y.numerator * x.denominator)
    (x.denominator * y.denominator)

/-- The divisor is not zero. -/
def div? (x y : Binary64) : Option Binary64 :=
  ofRatio? (x.numerator * y.denominator) (x.denominator * y.numerator)

end Binary64

end Depot
