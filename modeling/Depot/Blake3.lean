import Depot.Bytes

/-!
# The BLAKE3 hash

Bytes are cut into chunks and each chunk into blocks. Every chunk is a node, neighbouring nodes are
joined in pairs until one is left, and that one is turned into the digest.
-/

namespace Depot.Blake3

/-- The words of a state that are mixed with one another. -/
structure Column where
  a : UInt32
  b : UInt32
  c : UInt32
  d : UInt32

/-- Sixteen words in four columns. -/
structure State where
  c0 : Column
  c1 : Column
  c2 : Column
  c3 : Column

/-- Turns `w` to the right by `n` bits. -/
def turn (w n : UInt32) : UInt32 :=
  (w >>> n) ||| (w <<< (32 - n))

/-- Mixes two words of a message into a column. -/
def mix (s : Column) (x y : UInt32) : Column :=
  let a := s.a + s.b + x
  let d := turn (s.d ^^^ a) 16
  let c := s.c + d
  let b := turn (s.b ^^^ c) 12
  let a := a + b + y
  let d := turn (d ^^^ a) 8
  let c := c + d
  let b := turn (b ^^^ c) 7
  ⟨a, b, c, d⟩

namespace State

/-- The diagonals of `s` as columns. -/
def slant (s : State) : State :=
  ⟨⟨s.c0.a, s.c1.b, s.c2.c, s.c3.d⟩, ⟨s.c1.a, s.c2.b, s.c3.c, s.c0.d⟩,
    ⟨s.c2.a, s.c3.b, s.c0.c, s.c1.d⟩, ⟨s.c3.a, s.c0.b, s.c1.c, s.c2.d⟩⟩

def straighten (s : State) : State :=
  ⟨⟨s.c0.a, s.c3.b, s.c2.c, s.c1.d⟩, ⟨s.c1.a, s.c0.b, s.c3.c, s.c2.d⟩,
    ⟨s.c2.a, s.c1.b, s.c0.c, s.c3.d⟩, ⟨s.c3.a, s.c2.b, s.c1.c, s.c0.d⟩⟩

def words (s : State) : List UInt32 :=
  let row (f : Column → UInt32) := [f s.c0, f s.c1, f s.c2, f s.c3]
  row Column.a ++ row Column.b ++ row Column.c ++ row Column.d

end State

abbrev Message := Array UInt32

def Message.word (m : Message) (i : Nat) : UInt32 := m.getD i 0

/-- Mixes the words of `m` from number `i` on into the columns. -/
def mixColumns (s : State) (m : Message) (i : Nat) : State :=
  ⟨mix s.c0 (m.word i) (m.word (i + 1)), mix s.c1 (m.word (i + 2)) (m.word (i + 3)),
    mix s.c2 (m.word (i + 4)) (m.word (i + 5)), mix s.c3 (m.word (i + 6)) (m.word (i + 7))⟩

/-- The order in which the next round takes the words of a message. -/
def schedule : List Nat := [2, 6, 3, 10, 7, 0, 4, 13, 1, 11, 12, 5, 9, 14, 15, 8]

def Message.permute (m : Message) : Message := (schedule.map m.word).toArray

def rounds (s : State) (m : Message) : Nat → State
  | 0 => s
  | n + 1 => rounds (mixColumns (mixColumns s m 0).slant m 8).straighten m.permute n

/-- What all chains start from. -/
def seed : List UInt32 :=
  [0x6A09E667, 0xBB67AE85, 0x3C6EF372, 0xA54FF53A, 0x510E527F, 0x9B05688C, 0x1F83D9AB, 0x5BE0CD19]

/-- A block that is still to be compressed, after the eight words of `chain`. -/
structure Block where
  chain : List UInt32
  message : Message
  /-- The number of the chunk that the block is in. -/
  counter : Nat
  /-- How many bytes of the block are used. -/
  length : Nat
  flags : Nat

def chunkStart : Nat := 1
def chunkEnd : Nat := 2
def parentFlag : Nat := 4
def rootFlag : Nat := 8

def Block.compress (b : Block) : List UInt32 :=
  let h (i : Nat) : UInt32 := b.chain.getD i 0
  let v (i : Nat) : UInt32 := seed.getD i 0
  let start : State :=
    ⟨⟨h 0, h 4, v 0, .ofNat b.counter⟩, ⟨h 1, h 5, v 1, .ofNat (b.counter / 2 ^ 32)⟩,
      ⟨h 2, h 6, v 2, .ofNat b.length⟩, ⟨h 3, h 7, v 3, .ofNat b.flags⟩⟩
  let words := (rounds start b.message 7).words
  List.zipWith (· ^^^ ·) (words.take 8) (words.drop 8)

def blockBytes : Nat := 64
def chunkBytes : Nat := 1024

/-- `n` words from the place `i` on; there are zeros after the end. -/
def wordsAt (b : ByteArray) (i n : Nat) : List UInt32 :=
  (List.range n).map fun k => .ofNat (Bytes.little (Bytes.slice b (i + 4 * k) 4).toList)

/-- The pieces of `b` that are `size` bytes long, the last one at most; at least one piece. -/
def pieces (size : Nat) (b : ByteArray) : List ByteArray :=
  (List.range (max 1 ((b.size + size - 1) / size))).map fun i => Bytes.slice b (i * size) size

def blockOf (chain : List UInt32) (counter flags : Nat) (b : ByteArray) : Block :=
  ⟨chain, (wordsAt b 0 16).toArray, counter, b.size, flags⟩

/-- The last block of a chunk, with the others compressed before it. -/
def lastBlock (counter : Nat) (chain : List UInt32) (flags : Nat) : List ByteArray → Block
  | [] => blockOf chain counter (flags + chunkEnd) .empty
  | [b] => blockOf chain counter (flags + chunkEnd) b
  | b :: bs => lastBlock counter (blockOf chain counter flags b).compress 0 bs

/-- The node of chunk number `counter`. -/
def leaf (counter : Nat) (b : ByteArray) : Block :=
  lastBlock counter seed chunkStart (pieces blockBytes b)

def join (left right : Block) : Block :=
  ⟨seed, (left.compress ++ right.compress).toArray, 0, blockBytes, parentFlag⟩

/-- Joins neighbours; one that has none stays. -/
def pairUp : List Block → List Block
  | a :: b :: bs => join a b :: pairUp bs
  | bs => bs

theorem length_pairUp_le (bs : List Block) : (pairUp bs).length ≤ bs.length := by
  fun_induction pairUp bs with
  | case1 a b bs ih => simp only [List.length_cons]; omega
  | case2 => exact Nat.le_refl _

/-- The node that all others end in. -/
def top (first : Block) : List Block → Block
  | [] => first
  | second :: bs => top (join first second) (pairUp bs)
  termination_by bs => bs.length
  decreasing_by
    have h := length_pairUp_le bs
    simp only [List.length_cons]
    omega

/-- The chunks of `b` with their numbers. -/
def leaves (b : ByteArray) : List Block :=
  (pieces chunkBytes b).zipIdx.map fun (c, i) => leaf i c

/-- The 32 bytes of the hash of `b`. -/
def digest (b : ByteArray) : List UInt8 :=
  match leaves b with
  | [] => []
  | first :: bs =>
    let root := top first bs
    let root := { root with counter := 0, flags := root.flags + rootFlag }
    root.compress.flatMap fun w => Bytes.ofLittle 4 w.toNat

/-- Hexadecimal digits with small letters. -/
def hexDigits (n : UInt8) : List Char :=
  [Nat.digitChar (n.toNat / 16), Nat.digitChar (n.toNat % 16)]

def hex (b : ByteArray) : String :=
  String.ofList ((digest b).flatMap hexDigits)

end Depot.Blake3
