/-!
# Checksums

The cyclic redundancy check of 32 bits that gzip and zip store with their contents.
-/

namespace Depot.Crc32

/-- The remainder of `r` after `n` more bits that are zero. -/
def shift (n : Nat) (r : UInt32) : UInt32 :=
  match n with
  | 0 => r
  | n + 1 => shift n (if r &&& 1 = 1 then (r >>> 1) ^^^ 0xEDB88320 else r >>> 1)

/-- The remainders of all bytes. -/
def table : Array UInt32 :=
  (Array.range 256).map fun i => shift 8 (UInt32.ofNat i)

def step (r : UInt32) (b : UInt8) : UInt32 :=
  table[((r ^^^ b.toUInt32) &&& 0xFF).toNat]! ^^^ (r >>> 8)

def checksum (data : ByteArray) : Nat :=
  (data.foldl step 0xFFFFFFFF ^^^ 0xFFFFFFFF).toNat

end Depot.Crc32
