import Depot.Instances

/-!
# Decimal digits

`isDecimalDigit` knows the digits of every script, `value?` reads ASCII digits alone.
-/

namespace Depot.Text

/-- The zeros of the decimal digit sequences of Unicode 16; the other nine digits follow each of
them. -/
def decimalZeros : List Nat := [
  48, 1632, 1776, 1984, 2406, 2534, 2662, 2790, 2918, 3046, 3174, 3302, 3430, 3558, 3664, 3792,
  3872, 4160, 4240, 6112, 6160, 6470, 6608, 6784, 6800, 6992, 7088, 7232, 7248, 42528, 43216, 43264,
  43472, 43504, 43600, 44016, 65296, 66720, 68912, 68928, 69734, 69872, 69942, 70096, 70384, 70736,
  70864, 71248, 71360, 71376, 71386, 71472, 71904, 72016, 72688, 72784, 73040, 73120, 73552, 90416,
  92768, 92864, 93008, 93552, 118000, 120782, 120792, 120802, 120812, 120822, 123200, 123632,
  124144, 124401, 125264, 130032]

def isDecimalDigit (c : Char) : Bool :=
  decimalZeros.any fun z => z ≤ c.toNat && c.toNat < z + 10

/-- The number that a run of digits stands for, in the given base, continuing from `n`. -/
def valueFrom (base : Nat) (n : Nat) : List Nat → Nat
  | [] => n
  | d :: ds => valueFrom base (n * base + d) ds

def digitValue (c : Char) : Nat :=
  c.toNat - '0'.toNat

def value? (cs : List Char) : Option Nat :=
  if cs ≠ [] ∧ cs.all Char.isDigit then some (valueFrom 10 0 (cs.map digitValue)) else none

def hexDigit? (c : Char) : Option Nat :=
  if c.isDigit then some (c.toNat - '0'.toNat)
  else if 'a' ≤ c && c ≤ 'f' then some (c.toNat - 'a'.toNat + 10)
  else if 'A' ≤ c && c ≤ 'F' then some (c.toNat - 'A'.toNat + 10)
  else none

/-- The value of a nonempty run of digits below `base`, which is at most sixteen. -/
def valueIn? (base : Nat) (cs : List Char) : Option Nat := do
  let ds ← cs.mapM fun c => (hexDigit? c).filter (· < base)
  if ds = [] then none else some (valueFrom base 0 ds)

/-- A number below `bound`, which may be written with a plus sign. -/
def unsigned? (bound : Nat) (cs : List Char) : Option Nat :=
  (value? (match cs with | '+' :: r => r | _ => cs)).filter (· < bound)

/-- A number of 64 bits with an optional sign. -/
def signed64? (cs : List Char) : Option Int :=
  match cs with
  | '-' :: r => ((value? r).filter (· ≤ 2 ^ 63)).map fun n => -(n : Int)
  | _ => (unsigned? (2 ^ 63) cs).map Int.ofNat

end Depot.Text
