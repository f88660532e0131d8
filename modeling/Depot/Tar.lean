import Depot.Archive.Member
import Depot.Gzip
import Depot.Text.Blank
import Depot.Text.Digit
import Depot.Text.Utf8

/-!
# Tar archives

A stream of blocks of 512 bytes: each entry is a header and its content, filled up to whole blocks.
Entries that describe the one after them give it a longer name or a size. A block of zeros or the
end of the stream ends the archive.
-/

namespace Depot.Tar

open Depot.Text Depot.Archive

def blockSize : Nat := 512

def untilZero (bytes : List UInt8) : List UInt8 :=
  bytes.takeWhile (· ≠ 0)

def octal? (field : List UInt8) : Option Nat := do
  let cs ← (Utf8.decode (untilZero field)).mapM id
  (valueIn? 8 (trimBy isBlank cs)).filter (· < 2 ^ 64)

/-- A number in octal digits, or in eight bytes where the first bit says so. -/
def number? (field : List UInt8) : Option Nat :=
  match field with
  | b :: _ => if b < 0x80 then octal? field else some (Bytes.big (field.drop (field.length - 8)))
  | [] => none

inductive Dialect where
  | old
  | ustar
  | gnu
  deriving DecidableEq, Repr

/-- A block read as a header. -/
structure Header where
  bytes : ByteArray

namespace Header

def field (h : Header) (start length : Nat) : List UInt8 :=
  (Bytes.slice h.bytes start length).toList

def dialect (h : Header) : Dialect :=
  if h.field 257 8 = "ustar\x0000".toUTF8.toList then .ustar
  else if h.field 257 8 = "ustar  \x00".toUTF8.toList then .gnu
  else .old

def flag (h : Header) : UInt8 := h.bytes.get! 156

def size? (h : Header) : Option Nat := number? (h.field 124 12)

def mode? (h : Header) : Option Nat := octal? (h.field 100 8)

/-- All bytes are added up, those of the sum itself as blanks. -/
def isSound (h : Header) : Bool :=
  let total (bytes : List UInt8) := bytes.foldl (fun n b => n + b.toNat) 0
  (octal? (h.field 148 8)).map (· % 2 ^ 32)
    == some (total (h.field 0 148) + total (h.field 156 356) + 8 * 32)

/-- The path, whose first part may stand in a field of its own. -/
def path (h : Header) : List UInt8 :=
  let name := untilZero (h.field 0 100)
  let parent := untilZero (h.field 345 155)
  if h.dialect = .ustar ∧ parent ≠ [] then parent ++ '/'.toUInt8 :: name else name

end Header

/-- The records of an extension: each a length, a key and a value on a line of its own, up to the
first empty line. -/
def records (data : List UInt8) : List (Option (List UInt8 × List UInt8)) :=
  ((lines [] data).takeWhile (· ≠ [])).map record?
where
  lines (acc : List UInt8) : List UInt8 → List (List UInt8)
    | [] => [acc.reverse]
    | b :: r => if b = 10 then acc.reverse :: lines [] r else lines (b :: acc) r
  record? (line : List UInt8) : Option (List UInt8 × List UInt8) := do
    let length := line.takeWhile (· ≠ 32)
    let pair := (line.dropWhile (· ≠ 32)).drop 1
    let cs ← (Utf8.decode length).mapM id
    if line.contains 32 ∧ pair.contains 61 ∧ unsigned? (2 ^ 64) cs = some (line.length + 1) then
      some (pair.takeWhile (· ≠ 61), (pair.dropWhile (· ≠ 61)).drop 1)
    else none

def recordValue? (key : String) (data : List UInt8) : Option (List UInt8) :=
  (((records data).filterMap id).find? (·.1 = key.toUTF8.toList)).map (·.2)

/-- The number under a key, if the records up to it can be read. -/
def recordNumber? (key : String) (data : List UInt8) : Option Nat := do
  let rs := records data
  let k := key.toUTF8.toList
  let r ← rs.find? fun r => r.all (·.1 = k)
  let (_, value) ← r
  let cs ← (Utf8.decode value).mapM id
  unsigned? (2 ^ 64) cs

/-- What entries before an entry say about it. -/
structure Pending where
  name : Option (List UInt8)
  linkName : Option (List UInt8)
  extension : Option (List UInt8)

def Pending.nothing : Pending := ⟨none, none, none⟩

def Pending.isNothing (p : Pending) : Bool :=
  p.name.isNone && p.linkName.isNone && p.extension.isNone

inductive Kind where
  | file
  | directory
  | other
  deriving DecidableEq, Repr

structure Entry where
  path : List UInt8
  kind : Kind
  /-- The mode of a file or a directory. -/
  mode : Nat
  content : Content

def Entry.toEntry (e : Entry) : Archive.Entry :=
  match e.kind with
  | .other => .skipped
  | kind => .member ⟨Utf8.lossy e.path, kind = .directory, e.mode, e.content⟩

def pieceSize : Nat := 8192

/-- The header at `pos`; `.inl true` at the end of the archive, `.inl false` where it is damaged. -/
def headerAt (s : ByteStream) (pos : Nat) : Bool ⊕ Header :=
  if s.fault ≠ .corrupt ∧ pos = s.size then .inl (s.fault = .none)
  else if pos + blockSize < s.size ∨ (s.fault ≠ .corrupt ∧ pos + blockSize = s.size) then
    let h : Header := ⟨Bytes.slice s.data pos blockSize⟩
    if h.bytes.toList.all (· = 0) then .inl true
    else if h.isSound then .inr h
    else .inl false
  else .inl false

/-- The parts of a sparse file: where each stands and how long it is. -/
def sparseParts (bytes : ByteArray) (start : Nat) (n : Nat) : List (List UInt8 × List UInt8) :=
  let field (place : Nat) : List UInt8 := (Bytes.slice bytes place 12).toList
  (List.range n).map fun i => (field (start + 24 * i), field (start + 24 * i + 12))

/-- How far the parts of a sparse file reach, and how much of the stored content is left. -/
structure Sparse where
  reach : Nat
  left : Nat

/-- Adds a part: parts stand in order, and each but the last fills whole blocks. -/
def Sparse.add? (stored : Nat) (s : Sparse) (part : List UInt8 × List UInt8) : Option Sparse := do
  if part.1.head? = some 0 ∨ part.2.head? = some 0 then some s
  else
    let offset ← octal? part.1
    let length ← octal? part.2
    if length ≠ 0 ∧ (stored - s.left) % blockSize ≠ 0 then none
    else if offset < s.reach ∨ 2 ^ 64 ≤ offset + length ∨ s.left < length then none
    else some ⟨offset + length, s.left - length⟩

/-- The blocks behind the header that list more parts, and the place behind them. -/
def moreParts? (s : ByteStream) (stored : Nat) : (fuel pos : Nat) → Sparse → Option (Sparse × Nat)
  | 0, _, _ => none
  | fuel + 1, pos, parts => do
    if s.size < pos + blockSize then none
    let block := Bytes.slice s.data pos blockSize
    let parts ← (sparseParts block 0 21).foldlM (Sparse.add? stored) parts
    if block.get! 504 = 1 then moreParts? s stored fuel (pos + blockSize) parts
    else some (parts, pos + blockSize)

/-- How many bytes the blocks that list the parts of a sparse file take behind its header, if they
fit together. -/
def sparseBlocks? (s : ByteStream) (h : Header) (stored pos : Nat) : Option Nat := do
  if h.dialect ≠ .gnu then none
  let parts ← (sparseParts h.bytes 386 4).foldlM (Sparse.add? stored) ⟨0, stored⟩
  let (parts, next) ← if h.bytes.get! 482 = 1 then
      moreParts? s stored (s.size / blockSize + 1) pos parts
    else some (parts, pos)
  if some parts.reach = octal? (h.field 483 12) ∧ parts.left = 0 then some (next - pos) else none

inductive Step where
  /-- The end, or a damaged place. -/
  | stop (complete : Bool)
  /-- An entry that says something about the one at `next`. -/
  | describe (pending : Pending) (next : Nat)
  | entry (e : Entry) (next : Nat)

/-- An extension that may be given once. -/
def describeOnce (old : Option (List UInt8)) (pending : Pending) (next : Nat) : Step :=
  if old.isSome then .stop false else .describe pending next

def kindOf (flag : UInt8) : Kind :=
  if flag = 0 ∨ flag = '0'.toUInt8 then .file
  else if flag = '5'.toUInt8 then .directory
  else .other

/-- The path of an entry: a longer name comes before a record, and both before the header. -/
def pathOf (h : Header) (pending : Pending) : List UInt8 :=
  match pending.name with
  | some name => if name.getLast? = some 0 then name.dropLast else name
  | none => (pending.extension.bind (recordValue? "path")).getD h.path

def otherEntry (path : List UInt8) : Entry := ⟨path, .other, 0, ⟨.empty, false⟩⟩

/-- The entry that `h` begins, with `size` bytes from `start` on. -/
def member (s : ByteStream) (h : Header) (pending : Pending) (start size next : Nat) : Step :=
  match kindOf h.flag, h.mode? with
  | .other, _ => .entry (otherEntry (pathOf h pending)) next
  | _, none => .stop false
  | kind, some mode =>
    let (content, failed) := s.readPieces pieceSize start size
    .entry ⟨pathOf h pending, kind, mode % 2 ^ 32, ⟨content, failed⟩⟩ next

/-- Sizes and places have 64 bits. -/
def placeBound : Nat := 2 ^ 64

def step (s : ByteStream) (pos : Nat) (pending : Pending) : Step :=
  match headerAt s pos with
  | .inl complete => .stop (complete && pending.isNothing)
  | .inr h =>
    match h.size? with
    | none => .stop false
    | some size =>
      let size := (pending.extension.bind (recordNumber? "size")).getD size
      let start := pos + blockSize
      let next := start + (size + blockSize - 1) / blockSize * blockSize
      let data := (Bytes.slice s.data start size).toList
      if placeBound ≤ next then .stop false
      else if h.dialect ≠ .old ∧ h.flag = 'L'.toUInt8 then
        describeOnce pending.name { pending with name := some data } next
      else if h.dialect ≠ .old ∧ h.flag = 'K'.toUInt8 then
        describeOnce pending.linkName { pending with linkName := some data } next
      else if h.dialect ≠ .old ∧ h.flag = 'x'.toUInt8 then
        describeOnce pending.extension { pending with extension := some data } next
      else if h.flag = 'S'.toUInt8 then
        match sparseBlocks? s h size start with
        | none => .stop false
        | some n => .entry (otherEntry (pathOf h pending)) (next + n)
      else member s h pending start size next

/-- The entries from `pos` on; the flag says whether the archive comes to its end. Each step takes
a block at least, so `fuel` is their number. -/
def scan (s : ByteStream) : (fuel pos : Nat) → Pending → List Entry × Bool
  | 0, _, _ => ([], false)
  | fuel + 1, pos, pending =>
    match step s pos pending with
    | .stop complete => ([], complete)
    | .describe pending next => scan s fuel next pending
    | .entry e next =>
      let (es, complete) := scan s fuel next .nothing
      (e :: es, complete)

def read (s : ByteStream) : Entries :=
  let (es, complete) := scan s (s.size / blockSize + 1) 0 .nothing
  ⟨es.map Entry.toEntry, complete⟩

end Depot.Tar
