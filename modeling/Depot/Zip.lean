import Depot.Archive.Member
import Depot.ByteStream
import Depot.Crc32
import Depot.Deflate
import Depot.Text.CodePage
import Depot.Text.Utf8

/-!
# Zip archives

The directory at the end of the file lists the members; each of them has a header of its own before
its content. What stands before the archive shifts it, what stands behind it is ignored.
-/

namespace Depot.Zip

open Depot.Text Depot.Archive

/-- The record behind the directory. -/
structure DirectoryEnd where
  position : Nat
  disk : Nat
  directoryDisk : Nat
  countOnDisk : Nat
  count : Nat
  offset : Nat
  deriving DecidableEq, Repr

def endMark : List UInt8 := [0x50, 0x4B, 5, 6]
def endMark64 : List UInt8 := [0x50, 0x4B, 6, 6]
def locatorMark64 : List UInt8 := [0x50, 0x4B, 6, 7]
def directoryMark : List UInt8 := [0x50, 0x4B, 1, 2]
def headerMark : List UInt8 := [0x50, 0x4B, 3, 4]

/-- The record at `pos`, whose comment must fit in the file. -/
def DirectoryEnd.read? (b : ByteArray) (pos : Nat) : Option DirectoryEnd := do
  if !Bytes.startsAt b pos endMark then none
  let number := fun k => Bytes.little? b (pos + k) 2
  let comment ← number 20
  if b.size < pos + 22 + comment then none
  return ⟨pos, ← number 4, ← number 6, ← number 8, ← number 10, ← Bytes.little? b (pos + 16) 4⟩

/-- Where the members are listed, how many there are, and how far the archive is shifted. -/
structure Directory where
  start : Nat
  count : Nat
  shift : Nat
  deriving DecidableEq, Repr

/-- The first place from `pos` on and before `limit` where `mark` stands. -/
def findMark? (b : ByteArray) (mark : List UInt8) (pos limit : Nat) : Option Nat :=
  ((List.range' pos (limit - pos)).find? fun i => i + mark.length ≤ limit ∧ Bytes.startsAt b i mark)

/-- The directory in the extended form, found by way of its locator. -/
def Directory.find64? (b : ByteArray) (locator : Nat) : Option Directory := do
  let position ← Bytes.little? b (locator + 8) 8
  let disk ← Bytes.little? b (locator + 4) 4
  let disks ← Bytes.little? b (locator + 16) 4
  if locator ≤ position ∨ 1 < disks then none
  (List.range' position (locator - position)).findSome? fun p => do
    if !Bytes.startsAt b p endMark64 then none
    let size ← Bytes.little? b (p + 4) 8
    let ownDisk ← Bytes.little? b (p + 16) 4
    let directoryDisk ← Bytes.little? b (p + 20) 4
    let count ← Bytes.little? b (p + 32) 8
    let offset ← Bytes.little? b (p + 48) 8
    if directoryDisk ≠ disk ∨ size + 12 ≠ locator - p ∨ p < count * 46 + offset
      ∨ ownDisk ≠ directoryDisk then none
    let shift := p - position
    some ⟨offset + shift, count, shift⟩

def Directory.find? (b : ByteArray) (e : DirectoryEnd) : Option Directory :=
  if (e.count = 0xFFFF ∨ e.offset = 0xFFFFFFFF) ∧ 20 ≤ e.position
    ∧ Bytes.startsAt b (e.position - 20) locatorMark64 then
    Directory.find64? b (e.position - 20)
  else if e.disk ≠ e.directoryDisk then none
  else if e.count = 0 then
    some ⟨max e.position e.offset, e.countOnDisk, e.position - e.offset⟩
  else if e.position ≤ e.offset then none
  else
    (findMark? b directoryMark e.offset e.position).map fun p => ⟨p, e.countOnDisk, p - e.offset⟩

structure Listed where
  name : String
  system : Nat
  attributes : Nat
  isEncrypted : Bool
  method : Nat
  checksum : Nat
  size : Nat
  fullSize : Nat
  header : Nat
  deriving DecidableEq, Repr

/-- A size or place that does not fit its field. -/
def overflow : Nat := 0xFFFFFFFF

/-- Sizes and places in an extra field, each there if the fields before it are full. -/
def Listed.widen? (m : Listed) (body : ByteArray) : Option Listed := do
  let all := 24 ≤ body.size
  let mut pos := 0
  let mut m := m
  if all ∨ m.fullSize = overflow then
    m := { m with fullSize := ← Bytes.little? body pos 8 }
    pos := pos + 8
  if all ∨ m.size = overflow then
    m := { m with size := ← Bytes.little? body pos 8 }
    pos := pos + 8
  if all ∨ m.header = overflow then
    m := { m with header := ← Bytes.little? body pos 8 }
  return m

/-- The times that an extra field of `body` holds are as many as its first byte says. -/
def isTimeField (body : ByteArray) : Bool :=
  match body.toList with
  | [] => false
  | flags :: _ =>
    let ones := ((List.range 8).filter fun i => flags.toNat.testBit i).length
    body.size == 5 || body.size == 1 + 4 * ones

/-- A text behind the checksum of the one that it replaces. -/
def renamed? (raw : ByteArray) (body : ByteArray) : Option String := do
  let sum ← Bytes.little? body 1 4
  if sum ≠ Crc32.checksum raw then none
  Utf8.text? (Bytes.slice body 5 body.size)

/-- Takes over what one extra field says. -/
def Listed.extend? (m : Listed) (raw comment : ByteArray) (kind : Nat) (body : ByteArray) :
    Option Listed :=
  match kind with
  | 0x0001 => m.widen? body
  | 0x000A =>
    if body.size = 32 ∧ Bytes.little? body 4 2 = some 1 ∧ Bytes.little? body 6 2 = some 24 then
      some m
    else none
  | 0x5455 => if isTimeField body then some m else none
  | 0x6375 => (renamed? comment body).map fun _ => m
  | 0x7075 => (renamed? raw body).map fun name => { m with name }
  | 0x9901 =>
    if body.size = 7 ∧ (Bytes.little? body 0 2).any (fun v => v = 1 ∨ v = 2)
      ∧ Bytes.little? body 2 2 = some 0x4541 ∧ (Bytes.little? body 4 1).any (fun k => 1 ≤ k ∧ k ≤ 3)
    then (Bytes.little? body 5 2).map fun method => { m with method, isEncrypted := true }
    else none
  | _ => some m

def Listed.extendAll? (raw comment extra : ByteArray) : (fuel pos : Nat) → Listed → Option Listed
  | 0, _, m => some m
  | fuel + 1, pos, m =>
    if extra.size < pos + 2 then some m
    else do
      let kind ← Bytes.little? extra pos 2
      let length ← Bytes.little? extra (pos + 2) 2
      let body ← Bytes.slice? extra (pos + 4) length
      Listed.extendAll? raw comment extra fuel (pos + 4 + length)
        (← m.extend? raw comment kind body)

/-- A method that only an extra field may name. -/
def encryptedMethod : Nat := 99

/-- The member listed at `pos` of an archive that is shifted, and the place behind it. -/
def Listed.read? (b : ByteArray) (shift pos : Nat) : Option (Listed × Nat) := do
  if !Bytes.startsAt b pos directoryMark then none
  let number := fun k n => Bytes.little? b (pos + k) n
  let flags ← number 8 2
  let nameLength ← number 28 2
  let extraLength ← number 30 2
  let commentLength ← number 32 2
  let raw ← Bytes.slice? b (pos + 46) nameLength
  let extra ← Bytes.slice? b (pos + 46 + nameLength) extraLength
  let comment ← Bytes.slice? b (pos + 46 + nameLength + extraLength) commentLength
  let name := if flags.testBit 11 then Utf8.lossy raw.toList else CodePage.decode raw.toList
  let m : Listed := ⟨name, (← number 4 2) / 256, ← number 38 4, flags.testBit 0, ← number 10 2,
    ← number 16 4, ← number 20 4, ← number 24 4, ← number 42 4⟩
  let m ← Listed.extendAll? raw comment extra (extra.size + 1) 0 m
  if m.method = encryptedMethod then none
  return ({ m with header := m.header + shift },
    pos + 46 + nameLength + extraLength + commentLength)

def readListed? (b : ByteArray) (shift : Nat) : (count pos : Nat) → Option (List Listed)
  | 0, _ => some []
  | n + 1, pos => do
    let (m, pos) ← Listed.read? b shift pos
    return m :: (← readListed? b shift n pos)

/-- Members of one name are one, in the place of the first and with the content of the last. -/
def merge (ms : List Listed) : List Listed :=
  ms.foldl (fun acc m =>
    if acc.any (·.name == m.name) then acc.map fun a => if a.name == m.name then m else a
    else acc ++ [m]) []

/-- The members of the archive. Of several records that may end the directory the last counts that
leads to one. -/
def listed? (b : ByteArray) : Option (List Listed) :=
  (List.range b.size).reverse.findSome? fun pos => do
    let e ← DirectoryEnd.read? b pos
    let d ← Directory.find? b e
    return merge (← readListed? b d.shift d.count d.start)

def unixSystem : Nat := 3
def dosSystem : Nat := 0

/-- The mode with the bits of the file's kind, if the member has one. -/
def Listed.mode? (m : Listed) : Option Nat :=
  if m.attributes = 0 then none
  else if m.system = unixSystem then some (m.attributes / 2 ^ 16)
  else if m.system = dosSystem then
    let mode := if m.attributes.testBit 4 then 0o40775 else 0o100664
    some (if m.attributes.testBit 0 then mode &&& 0o555 else mode)
  else none

def storedMethod : Nat := 0
def deflatedMethod : Nat := 8

def pieceSize : Nat := 8192

/-- The content, if the member can be opened. Reading fails where it is corrupt, with the piece in
which that shows, or at its end if the checksum is wrong. -/
def Listed.content? (b : ByteArray) (m : Listed) : Option Content := do
  if m.isEncrypted ∨ !Bytes.startsAt b m.header headerMark then none
  let nameLength ← Bytes.little? b (m.header + 26) 2
  let extraLength ← Bytes.little? b (m.header + 28) 2
  let stored := Bytes.slice b (m.header + 30 + nameLength + extraLength) m.size
  if m.method = storedMethod then
    return ⟨stored, Crc32.checksum stored ≠ m.checksum⟩
  else if m.method = deflatedMethod then
    match Deflate.inflate stored 0 with
    | (data, .corrupt) =>
      let (data, failed) := (ByteStream.mk data .corrupt).readPieces pieceSize 0 (data.size + 1)
      return ⟨data, failed⟩
    | (data, _) => return ⟨data, Crc32.checksum data ≠ m.checksum⟩
  else none

def defaultMode : Nat := 0o655

structure Entry where
  name : String
  mode : Option Nat
  content : Content
  deriving DecidableEq

/-- The bits of a mode that tell the kind of a file, and what they are for a symbolic link. -/
def Entry.isLink (e : Entry) : Bool :=
  e.mode.any fun m => m / 0o10000 % 16 = 0o12

def Entry.isDirectory (e : Entry) : Bool :=
  match e.name.toList.getLast? with
  | some '/' | some '\\' => true
  | _ => false

def Entry.toEntry (e : Entry) : Archive.Entry :=
  if e.isLink then .skipped
  else .member ⟨e.name, e.isDirectory, e.mode.getD defaultMode, e.content⟩

/-- The entries up to the first that cannot be opened. -/
def entries (b : ByteArray) : List Listed → List Entry × Bool
  | [] => ([], true)
  | m :: ms =>
    match m.content? b with
    | none => ([], false)
    | some content =>
      let (es, complete) := entries b ms
      (⟨m.name, m.mode?, content⟩ :: es, complete)

def read (b : ByteArray) : Entries :=
  match listed? b with
  | none => ⟨[], false⟩
  | some ms =>
    let (es, complete) := entries b ms
    ⟨es.map Entry.toEntry, complete⟩

end Depot.Zip
