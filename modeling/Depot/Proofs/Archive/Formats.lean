import Depot.Proofs.Archive.Visit
import Depot.Proofs.Text.Utf8

/-!
# One list of items in both formats

A zip file tells the kind of an item by the bits of its mode and by its name, a tar file by a type.
Both readings of the same items give the same members, up to bits of the mode that no file keeps
(`normal_toEntry`), so both archives are extracted to the same tree, with the same report or the
same error (`extract_same_items`).
-/

namespace Depot.Archive

open FileTree (permissions)

variable {es : Entries}

/-- The member with no more of its mode than a file keeps. -/
def Member.normal (m : Member) : Member := { m with mode := permissions m.mode }

def Entry.normal : Entry → Entry
  | .member m => .member m.normal
  | .skipped => .skipped

def Entries.normal (es : Entries) : Entries := ⟨es.list.map Entry.normal, es.isComplete⟩

theorem permissions_permissions (mode : Nat) : permissions (permissions mode) = permissions mode :=
  Nat.mod_mod mode _

theorem setMode_permissions (l : Location) (mode : Nat) :
    FileTree.setMode l (permissions mode) = FileTree.setMode l mode := by
  simp only [FileTree.setMode, permissions_permissions]

theorem place_normal (m : Member) : place m.normal = place m := by
  funext target
  simp only [place, Member.normal, setMode_permissions]

theorem store_normal (s : Selection) (m : Member) : store s m.normal = store s m := by
  simp only [store, place_normal]
  rfl

theorem storeAll_normal (s : Selection) (ms : List Member) (t : FileTree) :
    storeAll s (ms.map Member.normal) t = storeAll s ms t := by
  induction ms generalizing t with
  | nil => rfl
  | cons m ms ih => simp only [List.map_cons, storeAll_cons, store_normal, ih]

theorem report_normal (s : Selection) (ms : List Member) :
    s.report (ms.map Member.normal) = s.report ms := by
  simp only [Selection.report, List.filter_map, List.map_map, List.countP_map, List.length_map]
  rfl

theorem members_normal (es : Entries) : es.normal.members = es.members.map Member.normal := by
  rw [Entries.members, Entries.members, List.map_filterMap, Entries.normal, List.filterMap_map]
  refine List.filterMap_congr fun e _ => ?_
  rcases e with m | - <;> rfl

/-- Of a mode only the permissions count. -/
theorem extractEntries_normal (archive : String) (dest : Location) (o : Options)
    (pattern : Option Pattern) (es : Entries) (t : FileTree) :
    extractEntries archive dest o pattern es.normal t =
      extractEntries archive dest o pattern es t := by
  simp only [extractEntries_eq, members_normal, storeAll_normal, report_normal]
  rfl

/-- An archive that can be read to its end is not named in any error. -/
theorem extractEntries_complete (h : es.isComplete = true) (archive archive' : String)
    (dest : Location) (o : Options) (pattern : Option Pattern) (t : FileTree) :
    extractEntries archive dest o pattern es t = extractEntries archive' dest o pattern es t := by
  simp only [extractEntries_eq, h, if_true]

inductive ItemKind where
  | file
  | directory
  | link
  deriving DecidableEq, Repr

/-- The bits of a mode that tell a kind. -/
def ItemKind.bits : ItemKind → Nat
  | .file => 0o100000
  | .directory => 0o040000
  | .link => 0o120000

/-- What both formats can store: a directory is named with a slash at the end, a file without. -/
structure Item where
  name : String
  kind : ItemKind
  mode : Nat
  content : Content
  mode_lt : mode < 0o10000
  file_name : kind = .file → ∀ c ∈ name.toList.getLast?, c ≠ '/' ∧ c ≠ '\\'
  directory_name : kind = .directory → name.toList.getLast? = some '/'

namespace Item

variable {i : Item}

def zip (i : Item) : Zip.Entry := ⟨i.name, some (i.kind.bits + i.mode), i.content⟩

def tar (i : Item) : Tar.Entry :=
  let path := i.name.toUTF8.toList
  match i.kind with
  | .file => ⟨path, .file, i.mode, i.content⟩
  | .directory => ⟨path, .directory, i.mode, i.content⟩
  | .link => Tar.otherEntry path

theorem permissions_bits_add (i : Item) : permissions (i.kind.bits + i.mode) = i.mode := by
  have hmode := i.mode_lt
  rcases i.kind <;> simp only [permissions, ItemKind.bits] <;> omega

theorem isLink_zip (i : Item) : i.zip.isLink = true ↔ i.kind = .link := by
  have hmode := i.mode_lt
  simp only [zip, Zip.Entry.isLink, Option.any_some, decide_eq_true_eq]
  rcases i.kind <;> simp only [ItemKind.bits, reduceCtorEq, iff_false, iff_true] <;> omega

theorem isDirectory_zip_file (h : i.kind = .file) : i.zip.isDirectory = false := by
  have hname := i.file_name h
  rw [zip, Zip.Entry.isDirectory]
  split
  next hlast => exact absurd rfl (hname _ hlast).1
  next hlast => exact absurd rfl (hname _ hlast).2
  · rfl

theorem isDirectory_zip_directory (h : i.kind = .directory) : i.zip.isDirectory = true := by
  simp only [zip, Zip.Entry.isDirectory, i.directory_name h]

/-- The readings of an item differ in bits of its mode at most. -/
theorem normal_toEntry (i : Item) : i.zip.toEntry.normal = i.tar.toEntry := by
  -- A link is skipped in both; of the rest only what tells a directory differs.
  have hmember : ∀ isDirectory : Bool, i.kind ≠ .link → i.zip.isDirectory = isDirectory →
      i.zip.toEntry.normal = .member ⟨i.name, isDirectory, i.mode, i.content⟩ := by
    rintro _ hlink rfl
    rw [Zip.Entry.toEntry, if_neg (mt i.isLink_zip.1 hlink), Entry.normal, Member.normal]
    simp only [zip, Option.getD_some, permissions_bits_add]
  rcases hk : i.kind
  case file =>
    rw [hmember false (by simp [hk]) (isDirectory_zip_file hk), tar, hk]
    simp only [Tar.Entry.toEntry, Text.Utf8.lossy_toUTF8, reduceCtorEq, decide_false]
  case directory =>
    rw [hmember true (by simp [hk]) (isDirectory_zip_directory hk), tar, hk]
    simp only [Tar.Entry.toEntry, Text.Utf8.lossy_toUTF8, decide_true]
  case link =>
    rw [Zip.Entry.toEntry, if_pos (i.isLink_zip.2 hk), tar, hk]
    rfl

end Item

variable {items : List Item}

/-- The entries that a reader finds in a zip file up to its end. -/
def ZipHolds (b : ByteArray) (es : List Zip.Entry) : Prop :=
  ∃ ms, Zip.listed? b = some ms ∧ Zip.entries b ms = (es, true)

def TarHolds (s : ByteStream) (es : List Tar.Entry) : Prop :=
  Tar.scan s (s.size / Tar.blockSize + 1) 0 .nothing = (es, true)

theorem read_zip {b : ByteArray} {es : List Zip.Entry} (h : ZipHolds b es) :
    Zip.read b = ⟨es.map Zip.Entry.toEntry, true⟩ := by
  obtain ⟨ms, hlisted, hentries⟩ := h
  simp only [Zip.read, hlisted, hentries]

theorem read_tar {b : ByteStream} {es : List Tar.Entry} (h : TarHolds b es) :
    Tar.read b = ⟨es.map Tar.Entry.toEntry, true⟩ := by
  rw [TarHolds] at h
  simp only [Tar.read, h]

/-- The same items are extracted alike from both formats, whatever happens on the way. -/
theorem extract_same_items {zip : ByteArray} {tar : ByteStream}
    (hz : ZipHolds zip (items.map Item.zip)) (ht : TarHolds tar (items.map Item.tar))
    (dest : Location) (o : Options) (t : FileTree) :
    (∀ archive archive' pattern,
      extractEntries archive dest o pattern (Zip.read zip) t =
        extractEntries archive' dest o pattern (Tar.read tar) t) ∧
    ∀ tgz archive archive' source source' mode mode', Gzip.stream tgz = tar →
      Format.ofPath archive = .ok .zip → t.lookup source = .ok (.file zip mode) →
      Format.ofPath archive' = .ok .tarGzip → t.lookup source' = .ok (.file tgz mode') →
      extract archive source dest o t = extract archive' source' dest o t := by
  have hnormal : (Zip.read zip).normal = Tar.read tar := by
    rw [read_zip hz, read_tar ht]
    simp only [Entries.normal, List.map_map]
    congr 1
    exact List.map_congr_left fun i _ => i.normal_toEntry
  have hcomplete : (Zip.read zip).isComplete = true := by rw [read_zip hz]
  have hsame : ∀ archive archive' pattern,
      extractEntries archive dest o pattern (Zip.read zip) t =
        extractEntries archive' dest o pattern (Tar.read tar) t := by
    intro archive archive' pattern
    rw [← hnormal, extractEntries_normal, extractEntries_complete hcomplete]
  refine ⟨hsame, fun tgz archive archive' source source' _ _ hstream hf hl hf' hl' => ?_⟩
  rw [extract, extract, hf, hf']
  simp only [openAt, hl, hl', Format.read, hstream]
  rcases o.pattern.mapM Pattern.parse with e | pattern
  · rfl
  · exact hsame archive archive' pattern

section Sample

/-- A directory `d`, a file in it, and a link next to it. -/
def sampleItems : List Item :=
  [⟨"d/", .directory, 0o755, ⟨.empty, false⟩, by decide, by decide, by decide⟩,
    ⟨"d/f", .file, 0o640, ⟨⟨#[97]⟩, false⟩, by decide, by simp, by decide⟩,
    ⟨"d/l", .link, 0o777, ⟨⟨#[102]⟩, false⟩, by decide, by decide, by decide⟩]

def itemsZip : ByteArray :=
  ⟨#[80, 75, 3, 4, 20, 0, 0, 0, 0, 0, 0, 0, 33, 0, 0, 0, 0, 0, 0, 0, 0, 0, 0, 0, 0, 0, 2, 0, 0, 0,
    100, 47, 80, 75, 3, 4, 20, 0, 0, 0, 0, 0, 0, 0, 33, 0, 67, 190, 183, 232, 1, 0, 0, 0, 1, 0, 0,
    0, 3, 0, 0, 0, 100, 47, 102, 97, 80, 75, 3, 4, 20, 0, 0, 0, 0, 0, 0, 0, 33, 0, 224, 43, 211,
    118, 1, 0, 0, 0, 1, 0, 0, 0, 3, 0, 0, 0, 100, 47, 108, 102, 80, 75, 1, 2, 20, 3, 20, 0, 0, 0,
    0, 0, 0, 0, 33, 0, 0, 0, 0, 0, 0, 0, 0, 0, 0, 0, 0, 0, 2, 0, 0, 0, 0, 0, 0, 0, 0, 0, 0, 0,
    237, 65, 0, 0, 0, 0, 100, 47, 80, 75, 1, 2, 20, 3, 20, 0, 0, 0, 0, 0, 0, 0, 33, 0, 67, 190,
    183, 232, 1, 0, 0, 0, 1, 0, 0, 0, 3, 0, 0, 0, 0, 0, 0, 0, 0, 0, 0, 0, 160, 129, 32, 0, 0, 0,
    100, 47, 102, 80, 75, 1, 2, 20, 3, 20, 0, 0, 0, 0, 0, 0, 0, 33, 0, 224, 43, 211, 118, 1, 0, 0,
    0, 1, 0, 0, 0, 3, 0, 0, 0, 0, 0, 0, 0, 0, 0, 0, 0, 255, 161, 66, 0, 0, 0, 100, 47, 108, 80,
    75, 5, 6, 0, 0, 0, 0, 3, 0, 3, 0, 146, 0, 0, 0, 100, 0, 0, 0, 0, 0]⟩

def tarField (text : String) (length : Nat) : List UInt8 :=
  let bytes := text.toUTF8.toList
  bytes ++ List.replicate (length - bytes.length) 0

def tarHeader (name mode size sum flag : String) : List UInt8 :=
  tarField name 100 ++ tarField mode 24 ++ tarField size 24 ++ tarField sum 8 ++ tarField flag 356

def itemsTar : ByteStream where
  data := ⟨(tarHeader "d/" "755" "0" "1231" "5" ++ tarHeader "d/f" "640" "1" "1364" "0"
    ++ tarField "a" Tar.blockSize ++ tarHeader "d/l" "777" "0" "1406" "2").toArray⟩
  fault := .none

theorem zipHolds_sample : ZipHolds itemsZip (sampleItems.map Item.zip) :=
  ⟨(Zip.listed? itemsZip).getD [], by decide +kernel, by decide +kernel⟩

theorem field_eq (h : Tar.Header) (start length : Nat) :
    h.field start length = (h.bytes.data.toList.drop start).take length := by
  rw [Tar.Header.field, Bytes.toList_eq, Bytes.slice_eq]

deriving instance DecidableEq for Tar.Entry, Tar.Pending, Tar.Step

theorem headerAt_of_slice {stream : ByteStream} {h : Tar.Header} {pos : Nat}
    (hfault : stream.fault = .none) (hfit : pos + Tar.blockSize ≤ stream.size)
    (hslice : (stream.data.data.toList.drop pos).take Tar.blockSize = h.bytes.data.toList)
    (hzero : h.bytes.data.toList.all (· = 0) = false) (hsound : h.isSound = true) :
    Tar.headerAt stream pos = .inr h := by
  have hblock : 0 < Tar.blockSize := by decide
  have hh : (⟨Bytes.slice stream.data pos Tar.blockSize⟩ : Tar.Header) = h := by
    rw [Bytes.slice_eq, hslice]
  have hzero : ¬h.bytes.toList.all (· = 0) = true := by
    rw [Bytes.toList_eq, hzero]
    decide
  rw [Tar.headerAt, if_neg fun hend => by omega, if_pos, hh]
  · exact (if_neg hzero).trans (if_pos hsound)
  · rw [hfault]
    by_cases hlast : pos + Tar.blockSize = stream.size
    · exact .inr ⟨by decide, hlast⟩
    · exact .inl (by omega)

/-- The items as a tar archive stand at these places. -/
theorem step_itemsTar :
    Tar.step itemsTar 0 .nothing =
        .entry ⟨"d/".toUTF8.toList, .directory, 0o755, ⟨.empty, false⟩⟩ 512 ∧
      Tar.step itemsTar 512 .nothing =
        .entry ⟨"d/f".toUTF8.toList, .file, 0o640, ⟨⟨#[97]⟩, false⟩⟩ 1536 ∧
      Tar.step itemsTar 1536 .nothing = .entry (Tar.otherEntry "d/l".toUTF8.toList) 2048 := by
  have hdirectory : Tar.headerAt itemsTar 0 =
      .inr ⟨⟨(tarHeader "d/" "755" "0" "1231" "5").toArray⟩⟩ := by
    refine headerAt_of_slice rfl (by decide +kernel) (by decide +kernel) (by decide +kernel) ?_
    simp only [Tar.Header.isSound, field_eq]
    decide +kernel
  have hfile : Tar.headerAt itemsTar 512 =
      .inr ⟨⟨(tarHeader "d/f" "640" "1" "1364" "0").toArray⟩⟩ := by
    refine headerAt_of_slice rfl (by decide +kernel) (by decide +kernel) (by decide +kernel) ?_
    simp only [Tar.Header.isSound, field_eq]
    decide +kernel
  have hlink : Tar.headerAt itemsTar 1536 =
      .inr ⟨⟨(tarHeader "d/l" "777" "0" "1406" "2").toArray⟩⟩ := by
    refine headerAt_of_slice rfl (by decide +kernel) (by decide +kernel) (by decide +kernel) ?_
    simp only [Tar.Header.isSound, field_eq]
    decide +kernel
  rw [Tar.step, hdirectory, Tar.step, hfile, Tar.step, hlink]
  simp only [Tar.member, Tar.Header.size?, Tar.Header.mode?, Tar.Header.dialect, Tar.Header.path,
    Tar.pathOf, ByteStream.readPieces, field_eq, Bytes.slice_eq]
  decide +kernel

theorem scan_of_entry {stream : ByteStream} {pos next : Nat} {pending : Tar.Pending}
    {e : Tar.Entry} (h : Tar.step stream pos pending = .entry e next) (fuel : Nat) :
    Tar.scan stream (fuel + 1) pos pending =
      (e :: (Tar.scan stream fuel next .nothing).1, (Tar.scan stream fuel next .nothing).2) := by
  rw [Tar.scan, h]

theorem tarHolds_sample : TarHolds itemsTar (sampleItems.map Item.tar) := by
  have hsize : itemsTar.size = 2048 := by decide +kernel
  have hfuel : itemsTar.size / Tar.blockSize + 1 = 5 := by rw [hsize, Tar.blockSize]
  have hend : Tar.step itemsTar 2048 .nothing = .stop true := by
    rw [Tar.step, Tar.headerAt, if_pos ⟨by decide, hsize.symm⟩]
    rfl
  have hlast : Tar.scan itemsTar 2 2048 .nothing = ([], true) := by rw [Tar.scan, hend]
  obtain ⟨hdirectory, hfile, hlink⟩ := step_itemsTar
  rw [TarHolds, hfuel, scan_of_entry hdirectory, scan_of_entry hfile, scan_of_entry hlink, hlast]
  rfl

theorem extract_same_items_sample :
    ZipHolds itemsZip (sampleItems.map Item.zip) ∧ TarHolds itemsTar (sampleItems.map Item.tar) ∧
    extractEntries "a.zip" ["latest"] .default none (Zip.read itemsZip) sampleTree =
      extractEntries "a.tgz" ["latest"] .default none (Tar.read itemsTar) sampleTree ∧
    reportOf? (extractEntries "a.tgz" ["latest"] .default none (Tar.read itemsTar) sampleTree) =
      some ⟨[["latest", "d"], ["latest", "d", "f"]], 2, 0, false⟩ := by
  have hsame := (extract_same_items zipHolds_sample tarHolds_sample ["latest"] .default
    sampleTree).1 "a.zip" "a.tgz" none
  refine ⟨zipHolds_sample, tarHolds_sample, hsame, ?_⟩
  rw [read_tar tarHolds_sample]
  decide +kernel

end Sample

end Depot.Archive
