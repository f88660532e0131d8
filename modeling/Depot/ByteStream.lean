import Depot.Bytes

/-!
# Streams of bytes

A stream that may have a fault. One that shows late makes reading fail at the end of the data. A
corrupt stream fails any read that reaches the place where it is corrupt, and what that read would
have given before is lost.
-/

namespace Depot

inductive Fault where
  | none
  | late
  | corrupt
  deriving DecidableEq, Repr

structure ByteStream where
  data : ByteArray
  fault : Fault

namespace ByteStream

def size (s : ByteStream) : Nat := s.data.size

/-- What is read of the `length` bytes from `start` on in pieces of `piece` bytes, and whether
reading fails. -/
def readPieces (s : ByteStream) (piece start length : Nat) : ByteArray × Bool :=
  match s.fault with
  | .none => (Bytes.slice s.data start length, false)
  | .late => (Bytes.slice s.data start length, s.size < start + length)
  | .corrupt =>
    if length = 0 then (.empty, false)
    else if start + length < s.size then (Bytes.slice s.data start length, false)
    else (Bytes.slice s.data start ((s.size - start - 1) / piece * piece), true)

end ByteStream

end Depot
