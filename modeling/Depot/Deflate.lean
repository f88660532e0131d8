import Depot.Bytes

/-!
# Deflate

`inflate` decompresses a stream of blocks, stored or coded. It gives what it could decompress and
how the stream ended: complete, cut short, or at a place where it says nothing valid.
-/

namespace Depot.Deflate

inductive Ending where
  /-- The stream ends before the byte at `next`. -/
  | complete (next : Nat)
  | cut
  | corrupt
  deriving DecidableEq, Repr

/-- Bytes that are read bit by bit, each from its least bit on; `at` counts bits. -/
def bit? (input : ByteArray) (pos : Nat) : Option Nat :=
  if pos / 8 < input.size then some ((input.get! (pos / 8)).toNat / 2 ^ (pos % 8) % 2) else none

/-- The number in `n` bits from `pos` on, its least bit first. -/
def bits? (input : ByteArray) (pos : Nat) : (n : Nat) → Option Nat
  | 0 => some 0
  | n + 1 => do return (← bit? input pos) + 2 * (← bits? input (pos + 1) n)

/-- A prefix code: how many codes there are of each length, and their symbols in order. -/
structure Code where
  counts : Array Nat
  symbols : Array Nat

namespace Code

def maxLength : Nat := 15

def ofLengths (lengths : List Nat) : Code :=
  let indexed := lengths.zipIdx
  let ofLength (n : Nat) := (indexed.filter (·.1 == n)).map (·.2)
  ⟨((List.range (maxLength + 1)).map fun n => if n = 0 then 0 else (ofLength n).length).toArray,
    ((List.range maxLength).flatMap fun n => ofLength (n + 1)).toArray⟩

/-- The codes of each length that are left over, or less than none if there are too many. -/
def surplus (c : Code) : Int :=
  (List.range maxLength).foldl (fun left n => left * 2 - c.counts.getD (n + 1) 0) 1

/-- Every string of bits begins with a code, or there is just the one code of one bit. -/
def isUsable (c : Code) : Bool :=
  c.surplus == 0 || (c.surplus > 0 && c.symbols.size == c.counts.getD 1 0 && c.symbols.size ≤ 1)

inductive Symbol where
  | found (symbol next : Nat)
  | cut
  | corrupt

/-- Compares the bits read with the codes of ever greater length; `first` is the first code of the
length and `index` its place among the symbols. -/
def decodeFrom (c : Code) (input : ByteArray) (pos : Nat) (length code first index : Nat) :
    (left : Nat) → Symbol
  | 0 => .corrupt
  | left + 1 =>
    match bit? input pos with
    | none => .cut
    | some b =>
      let code := code + b
      let count := c.counts.getD length 0
      if code < first + count then .found (c.symbols.getD (index + (code - first)) 0) (pos + 1)
      else decodeFrom c input (pos + 1) (length + 1) (2 * code) (2 * (first + count))
        (index + count) left

def decode (c : Code) (input : ByteArray) (pos : Nat) : Symbol :=
  decodeFrom c input pos 1 0 0 0 maxLength

end Code

/-- What a step gives: the output so far, and either where to go on or how the stream ended. -/
structure Step where
  output : ByteArray
  next : Ending ⊕ Nat

/-- The smallest length of each length symbol, and the bits to read on top. -/
def lengthCodes : Array (Nat × Nat) := #[
  (3, 0), (4, 0), (5, 0), (6, 0), (7, 0), (8, 0), (9, 0), (10, 0), (11, 1), (13, 1), (15, 1),
  (17, 1), (19, 2), (23, 2), (27, 2), (31, 2), (35, 3), (43, 3), (51, 3), (59, 3), (67, 4),
  (83, 4), (99, 4), (115, 4), (131, 5), (163, 5), (195, 5), (227, 5), (258, 0)]

def distanceCodes : Array (Nat × Nat) := #[
  (1, 0), (2, 0), (3, 0), (4, 0), (5, 1), (7, 1), (9, 2), (13, 2), (17, 3), (25, 3), (33, 4),
  (49, 4), (65, 5), (97, 5), (129, 6), (193, 6), (257, 7), (385, 7), (513, 8), (769, 8),
  (1025, 9), (1537, 9), (2049, 10), (3073, 10), (4097, 11), (6145, 11), (8193, 12), (12289, 12),
  (16385, 13), (24577, 13)]

/-- Appends `n` bytes, each the one `distance` before it. -/
def copyBack (distance : Nat) (out : ByteArray) : (n : Nat) → ByteArray
  | 0 => out
  | n + 1 => copyBack distance (out.push (out.get! (out.size - distance))) n

/-- A symbol's value: its smallest one and what the bits from `pos` on add. -/
def valueOf (codes : Array (Nat × Nat)) (symbol : Nat) (input : ByteArray) (pos : Nat) :
    Ending ⊕ Nat × Nat :=
  match codes[symbol]? with
  | none => .inl .corrupt
  | some (base, extra) =>
    match bits? input pos extra with
    | none => .inl .cut
    | some n => .inr (base + n, pos + extra)

/-- Reads symbols up to the end of a block. Each takes a bit at least, so `fuel` is their number. -/
def readSymbols (literals distances : Code) (input : ByteArray) :
    (fuel pos : Nat) → ByteArray → Step
  | 0, _, out => ⟨out, .inl .cut⟩
  | fuel + 1, pos, out =>
    match literals.decode input pos with
    | .cut => ⟨out, .inl .cut⟩
    | .corrupt => ⟨out, .inl .corrupt⟩
    | .found s pos =>
      if s < 256 then readSymbols literals distances input fuel pos (out.push (Bytes.toByte s))
      else if s = 256 then ⟨out, .inr pos⟩
      else
        match valueOf lengthCodes (s - 257) input pos with
        | .inl e => ⟨out, .inl e⟩
        | .inr (length, pos) =>
          match distances.decode input pos with
          | .cut => ⟨out, .inl .cut⟩
          | .corrupt => ⟨out, .inl .corrupt⟩
          | .found s pos =>
            match valueOf distanceCodes s input pos with
            | .inl e => ⟨out, .inl e⟩
            | .inr (distance, pos) =>
              if out.size < distance then ⟨out, .inl .corrupt⟩
              else readSymbols literals distances input fuel pos (copyBack distance out length)

/-- Copies a block that is stored as it is, from the next whole byte on. -/
def readStored (input : ByteArray) (pos : Nat) (out : ByteArray) : Step :=
  let start := (pos + 7) / 8
  match Bytes.little? input start 2, Bytes.little? input (start + 2) 2 with
  | some n, some m =>
    if n + m ≠ 0xFFFF then ⟨out, .inl .corrupt⟩
    else
      let data := Bytes.slice input (start + 4) n
      ⟨out ++ data, if data.size = n then .inr ((start + 4 + n) * 8) else .inl .cut⟩
  | _, _ => ⟨out, .inl .cut⟩

def fixedLiterals : Code :=
  .ofLengths (List.replicate 144 8 ++ List.replicate 112 9 ++ List.replicate 24 7
    ++ List.replicate 8 8)

def fixedDistances : Code :=
  .ofLengths (List.replicate 32 5)

/-- The order in which the lengths of the code for lengths are given. -/
def lengthOrder : List Nat :=
  [16, 17, 18, 0, 8, 7, 9, 6, 10, 5, 11, 4, 12, 3, 13, 2, 14, 1, 15]

/-- The lengths of the code for lengths, of which the first `n` in the order are given. -/
def lengthLengths? (input : ByteArray) (pos n : Nat) : Option (List Nat) := do
  let given ← (List.range n).mapM fun i => bits? input (pos + 3 * i) 3
  let table := lengthOrder.zip given
  return (List.range 19).map fun s => (table.lookup s).getD 0

/-- Reads `left` code lengths, the ones before them given backwards. -/
def readLengths (c : Code) (input : ByteArray) :
    (fuel left pos : Nat) → List Nat → Ending ⊕ List Nat × Nat
  | 0, _, _, _ => .inl .cut
  | fuel + 1, left, pos, lengths =>
    if left = 0 then .inr (lengths.reverse, pos)
    else
      match c.decode input pos with
      | .cut => .inl .cut
      | .corrupt => .inl .corrupt
      | .found s pos =>
        let again (length base extra : Nat) : Ending ⊕ List Nat × Nat :=
          match bits? input pos extra with
          | none => .inl .cut
          | some n =>
            if left < base + n then .inl .corrupt
            else readLengths c input fuel (left - (base + n)) (pos + extra)
              (List.replicate (base + n) length ++ lengths)
        if s < 16 then readLengths c input fuel (left - 1) pos (s :: lengths)
        else if s = 16 then
          match lengths with
          | [] => .inl .corrupt
          | length :: _ => again length 3 2
        else if s = 17 then again 0 3 3
        else again 0 11 7

def readCodes (input : ByteArray) (pos : Nat) : Ending ⊕ (Code × Code) × Nat :=
  match bits? input pos 5, bits? input (pos + 5) 5, bits? input (pos + 10) 4 with
  | some literals, some distances, some order =>
    if literals + 257 > 286 ∨ distances + 1 > 30 then .inl .corrupt
    else
      match lengthLengths? input (pos + 14) (order + 4) with
      | none => .inl .cut
      | some ls =>
        let c := Code.ofLengths ls
        if c.surplus ≠ 0 then .inl .corrupt
        else
          let n := literals + 257 + (distances + 1)
          match readLengths c input (n + 1) n (pos + 14 + 3 * (order + 4)) [] with
          | .inl e => .inl e
          | .inr (lengths, pos) =>
            let literalCode := Code.ofLengths (lengths.take (literals + 257))
            let distanceCode := Code.ofLengths (lengths.drop (literals + 257))
            if lengths.getD 256 0 = 0 ∨ !literalCode.isUsable ∨ !distanceCode.isUsable then
              .inl .corrupt
            else .inr ((literalCode, distanceCode), pos)
  | _, _, _ => .inl .cut

def readBlock (input : ByteArray) (kind pos : Nat) (out : ByteArray) : Step :=
  let fuel := input.size * 8 + 1
  match kind with
  | 0 => readStored input pos out
  | 1 => readSymbols fixedLiterals fixedDistances input fuel pos out
  | 2 =>
    match readCodes input pos with
    | .inl e => ⟨out, .inl e⟩
    | .inr ((literals, distances), pos) => readSymbols literals distances input fuel pos out
  | _ => ⟨out, .inl .corrupt⟩

/-- Reads blocks up to the last one. Each takes three bits at least. -/
def readBlocks (input : ByteArray) : (fuel pos : Nat) → ByteArray → ByteArray × Ending
  | 0, _, out => (out, .cut)
  | fuel + 1, pos, out =>
    match bit? input pos, bits? input (pos + 1) 2 with
    | some last, some kind =>
      match readBlock input kind (pos + 3) out with
      | ⟨out, .inl e⟩ => (out, e)
      | ⟨out, .inr pos⟩ =>
        if last = 1 then (out, .complete ((pos + 7) / 8)) else readBlocks input fuel pos out
    | _, _ => (out, .cut)

/-- Decompresses the stream that begins with the byte at `start`. -/
def inflate (input : ByteArray) (start : Nat) : ByteArray × Ending :=
  readBlocks input (input.size * 8 + 1) (start * 8) .empty

end Depot.Deflate
