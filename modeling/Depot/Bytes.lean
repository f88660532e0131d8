import Depot.Instances

/-!
# Reading bytes

Numbers and pieces at a place in an array of bytes.
-/

namespace Depot.Bytes

/-- `length` bytes from `start` on, fewer at the end of the array. -/
def slice (b : ByteArray) (start length : Nat) : ByteArray :=
  b.extract start (start + length)

def slice? (b : ByteArray) (start length : Nat) : Option ByteArray :=
  if start + length ≤ b.size then some (slice b start length) else none

/-- The number whose least byte is the first of `bytes`. -/
def little : List UInt8 → Nat
  | [] => 0
  | b :: r => b.toNat + 256 * little r

/-- The number whose greatest byte is the first. -/
def big (bytes : List UInt8) : Nat :=
  little bytes.reverse

/-- The number in `width` bytes from `start` on, its least byte first. -/
def little? (b : ByteArray) (start width : Nat) : Option Nat :=
  (slice? b start width).map fun s => little s.toList

def startsAt (b : ByteArray) (start : Nat) (piece : List UInt8) : Bool :=
  (slice b start piece.length).toList == piece

def toByte (n : Nat) : UInt8 := UInt8.ofNat n

/-- `n` in `width` bytes, its least byte first. -/
def ofLittle (width n : Nat) : List UInt8 :=
  match width with
  | 0 => []
  | w + 1 => toByte (n % 256) :: ofLittle w (n / 256)

end Depot.Bytes
