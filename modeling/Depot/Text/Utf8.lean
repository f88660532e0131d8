/-!
# Text from bytes

`decode` reads bytes as UTF-8. Where they are not well formed, `none` stands for each stretch that
begins a character and breaks off, and for each byte that begins none.
-/

namespace Depot.Text.Utf8

/-- A character that has begun: its bits so far, how many bytes are to come, and between which two
values the next one lies. -/
structure Pending where
  bits : Nat
  left : Nat
  low : UInt8
  high : UInt8

inductive Start where
  | whole (c : Char)
  | begun (p : Pending)
  | broken

def start (b : UInt8) : Start :=
  let n := b.toNat
  if n < 0x80 then .whole (Char.ofNat n)
  else if n < 0xC2 then .broken
  else if n < 0xE0 then .begun ⟨n - 0xC0, 1, 0x80, 0xBF⟩
  else if n < 0xF0 then
    .begun ⟨n - 0xE0, 2, if n = 0xE0 then 0xA0 else 0x80, if n = 0xED then 0x9F else 0xBF⟩
  else if n < 0xF5 then
    .begun ⟨n - 0xF0, 3, if n = 0xF0 then 0x90 else 0x80, if n = 0xF4 then 0x8F else 0xBF⟩
  else .broken

def decodeFrom : Option Pending → List UInt8 → List (Option Char)
  | none, [] => []
  | some _, [] => [none]
  | none, b :: r =>
    match start b with
    | .whole c => some c :: decodeFrom none r
    | .begun p => decodeFrom (some p) r
    | .broken => none :: decodeFrom none r
  | some p, b :: r =>
    if p.low ≤ b ∧ b ≤ p.high then
      let bits := p.bits * 64 + (b.toNat - 0x80)
      if p.left ≤ 1 then some (Char.ofNat bits) :: decodeFrom none r
      else decodeFrom (some ⟨bits, p.left - 1, 0x80, 0xBF⟩) r
    else
      match start b with
      | .whole c => none :: some c :: decodeFrom none r
      | .begun q => none :: decodeFrom (some q) r
      | .broken => none :: none :: decodeFrom none r

def decode (bytes : List UInt8) : List (Option Char) :=
  decodeFrom none bytes

def text? (bytes : ByteArray) : Option String :=
  ((decode bytes.toList).mapM id).map String.ofList

/-- The text with a replacement character for each stretch that is not well formed. -/
def lossy (bytes : List UInt8) : String :=
  String.ofList ((decode bytes).map (·.getD '\uFFFD'))

end Depot.Text.Utf8
