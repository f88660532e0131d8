import Depot.ByteStream
import Depot.Crc32
import Depot.Deflate

/-!
# Gzip streams

The first member of a gzip file as a stream of bytes. Data that ends early or has another checksum
than the file says is a fault that shows late.
-/

namespace Depot

namespace Gzip

/-- The place behind the first zero byte from `pos` on. -/
def afterZero? (b : ByteArray) : (fuel pos : Nat) → Option Nat
  | 0, _ => none
  | fuel + 1, pos =>
    if h : pos < b.size then
      if b[pos] = 0 then some (pos + 1) else afterZero? b fuel (pos + 1)
    else none

/-- The longest name or comment in a header. -/
def maxText : Nat := 65535

def afterHeader? (b : ByteArray) : Option Nat := do
  if !Bytes.startsAt b 0 [0x1F, 0x8B, 8] then none
  let flags ← Bytes.little? b 3 1
  if flags ≥ 0x20 ∨ b.size < 10 then none
  let has (n : Nat) : Bool := flags / n % 2 = 1
  let mut pos := 10
  if has 4 then
    pos := pos + 2 + (← Bytes.little? b pos 2)
  if has 8 then
    pos := ← afterZero? b (maxText + 1) pos
  if has 16 then
    pos := ← afterZero? b (maxText + 1) pos
  if has 2 then
    let sum ← Bytes.little? b pos 2
    if sum ≠ Crc32.checksum (Bytes.slice b 0 pos) % 2 ^ 16 then none
    pos := pos + 2
  if pos ≤ b.size then some pos else none

/-- Whether the checksum and the length behind the data are those of the data. -/
def isTrailer (b : ByteArray) (pos : Nat) (data : ByteArray) : Bool :=
  Bytes.little? b pos 4 == some (Crc32.checksum data)
    && Bytes.little? b (pos + 4) 4 == some (data.size % 2 ^ 32)

/-- The stream of the first member. A header that is not one makes the stream fail at once. -/
def stream (b : ByteArray) : ByteStream :=
  match afterHeader? b with
  | none => ⟨.empty, .late⟩
  | some pos =>
    match Deflate.inflate b pos with
    | (data, .complete next) => ⟨data, if isTrailer b next data then .none else .late⟩
    | (data, .cut) => ⟨data, .late⟩
    | (data, .corrupt) => ⟨data, .corrupt⟩

end Gzip

end Depot
