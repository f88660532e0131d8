import Depot.Proofs.Cache.Exchange
import Depot.Proofs.Cache.Open

/-!
# Room for files

In a fresh cache there is room for every file whose path is not too long (`Fresh.room`), and a file
that comes in leaves room for the others (`Stored.room`).
-/

namespace Depot.Cache

open FileTree

variable {c : Cache} {r root : Location} {w w' : World Origin} {url n n' : String}
  {ns ns' : List String} {t t' : FileTree} {data : ByteArray}

/-- What has been free stays free, unless it lies on the way to the new file. -/
theorem Stored.find?_of_not_prefix {l : Location} (h : Stored t t' root r ns n data)
    (hne : l ≠ r ++ ns ++ [n]) (hl : ¬ l <+: r ++ ns) : t'.find? l = t.find? l := by
  obtain ⟨t₁, hw, heq⟩ := h.rest
  rw [heq l hne]
  rcases hw l with hl' | ⟨-, -, -, hpre⟩
  · exact hl'
  · exact absurd hpre hl

theorem not_prefix_of_length {l : Location} (h : (r ++ ns).length < l.length) :
    ¬ l <+: r ++ ns := fun hpre => by
  have := hpre.length_le
  omega

/-- A file that comes in leaves room for another one in a directory of the same depth, unless it is
called like a staging file. -/
theorem Stored.room (h : Stored t t' root r ns n data) (hlen : ns'.length = ns.length)
    (hname : ∀ k, n ≠ stagingName k) (hr : Room t root r ns' n') : Room t' root r ns' n' where
  clear ms m hms := by
    obtain ⟨t₁, hw, heq⟩ := h.rest
    have hle := hms.length_le
    rw [List.length_append, List.length_singleton] at hle
    rw [heq]
    · rcases hw (r ++ ms ++ [m]) with hl | ⟨-, hl, -⟩
      · rw [hl]
        exact hr.clear ms m hms
      · exact .inr hl
    · intro hdest
      have := congrArg List.length hdest
      simp only [List.length_append, List.length_singleton] at this
      omega
  fits := hr.fits
  noDirectory := by
    by_cases hdest : r ++ ns' ++ [n'] = r ++ ns ++ [n]
    · rw [hdest, h.file]
      simp
    · rw [h.find?_of_not_prefix hdest (not_prefix_of_length (by simp [hlen]))]
      exact hr.noDirectory
  staging k hk := by
    have hfree : ∀ j,
        Free t' (r ++ ns') n' (stagingName j) ↔ Free t (r ++ ns') n' (stagingName j) :=
      fun j => by
        rw [Free, Free, h.find?_of_not_prefix _ (not_prefix_of_length (by simp [hlen]))]
        intro hdest
        exact hname j (by simpa using (List.append_inj' hdest rfl).2.symm)
    exact hr.staging k ⟨(hfree k).1 hk.1, fun j hj hf => hk.2 j hj ((hfree j).2 hf)⟩

theorem Brought.room {now : Int} {catalog : Catalog} {v : String}
    (h : Brought c r url now data catalog w w') (hn : c.nameOf? url = some n)
    (hname : ∀ k, n ≠ stagingName k) (hr : Room w.tree c.root r (c.directoryOf v) n') :
    Room w'.tree c.root r (c.directoryOf v) n' := by
  obtain ⟨m, hm, hst⟩ := h.tree
  obtain rfl : n = m := Option.some.inj (hn.symm.trans hm)
  exact hst.room rfl hname hr

theorem Fresh.room (h : Fresh c r w) (hfit : Fits c.root (c.directoryOf url ++ [n]))
    (hname : n ≠ stagingName 0) (hfit' : Fits c.root (c.directoryOf url ++ [stagingName 0])) :
    Room w.tree c.root r (c.directoryOf url) n := by
  have hempty : ∀ m, w.tree.find? (r ++ c.directoryOf url ++ [m]) = none := fun m => by
    refine h.empty _ (Base.below_child (prefix_below r _) m) fun heq => ?_
    have hlen := congrArg List.length heq
    simp [length_directoryOf] at hlen
  refine ⟨fun ms m hms => .inl ?_, hfit, ?_, fun k hk => ?_⟩
  · refine h.empty _ (Base.below_child (prefix_below r _) m) fun heq => ?_
    rw [List.append_assoc, List.append_cancel_left_eq] at heq
    rw [heq] at hms
    obtain ⟨rest, hrest⟩ := hms
    have : filesDirectory = databaseFile := (List.cons.inj hrest).1.symm
    exact absurd this (by decide)
  · rw [hempty]
    simp
  · have hzero : Free w.tree (r ++ c.directoryOf url) n (stagingName 0) := ⟨hempty _, hname.symm⟩
    obtain rfl : k = 0 := by
      by_contra hne
      exact hk.2 0 (Nat.pos_of_ne_zero hne) hzero
    exact hfit'

/-- The first fetch of a URL brings in the body that is served. -/
theorem fetch_first (hd : IsHexDigest c.digest) (hs : Sound c r w) (now : Int) (ho : w.isOpen)
    (hn : c.nameOf? url = some n) (hrec : w.database.index.records.get? url = none)
    (hpending : w.origin.pending url = 0) (hserves : Serves w.origin url data)
    (hroom : Room w.tree c.root r (c.directoryOf url) n) :
    ∃ w', c.fetch (Origin.transport c.digest) now url w =
        .ok ⟨true, c.root ++ (c.directoryOf url ++ [n])⟩ w' ∧
      Brought c r url now data w.database.index.catalog w w' := by
  have hknown : w.database.index.record? url = .ok none := by
    rw [Index.record?, hrec]
  have htag : tagOf w url ≠ some (Origin.etag c.digest data) := by
    rw [tagOf, hrec]
    simp
  rcases fetch_eq_ok hd hs.base now ho hn hknown hpending hserves (fun h => absurd h htag)
    (fun _ => hroom) with ⟨w', -, h⟩ | ⟨w', hok, h⟩
  · exact absurd h.tag htag
  · exact ⟨w', hok, h⟩

/-- What the origin does is nothing to a fresh cache. -/
theorem Fresh.withOrigin (h : Fresh c r w) (o : Origin) : Fresh c r { w with origin := o } :=
  ⟨h.toSound.withOrigin o, h.isOpen, h.index, h.empty⟩

/-- A place tells the directory and the name of the file. -/
theorem of_pathFor (hp : c.pathFor url = .ok (c.root ++ (ns ++ [n]))) :
    c.nameOf? url = some n ∧ c.directoryOf url = ns := by
  obtain ⟨m, hm, h⟩ := pathFor_eq_ok_iff.1 hp
  obtain ⟨hns, hn⟩ := List.append_inj' (List.append_cancel_left h) rfl
  exact ⟨List.singleton_inj.1 hn ▸ hm, hns.symm⟩

theorem pathFor_of_toOption {url : String} {p : Location}
    (h : (c.pathFor url).toOption = some p) : c.pathFor url = .ok p := by
  rcases hp : c.pathFor url with e | q <;> rw [hp] at h <;> cases h
  rfl

section Sample

def sample : Cache := ⟨["cache"], "https://h/m/list.json", Blake3.hex⟩

/-- A world with an empty directory and no files, where nothing is served. -/
def unused : World Origin := ⟨FileTree.empty.insert ["cache"] .directory, .new, false, .empty⟩

theorem emptyDirectory_unused : EmptyDirectory unused.tree sample.root sample.root where
  leads := by decide +kernel
  directory := rfl
  empty l hl := by
    obtain ⟨n, ns, rfl⟩ := hl
    have hne : sample.root ++ n :: ns ≠ ["cache"] := by simp [sample]
    exact (find?_insert_of_ne hne .empty .directory).trans rfl

theorem open_sample :
    ∃ w, sample.open unused = .ok () w ∧ Fresh sample sample.root w ∧ w.origin = .empty := by
  rcases open_of_empty emptyDirectory_unused with ⟨-, w, h⟩ | ⟨h, -⟩
  · exact ⟨w, h⟩
  · exact absurd (by decide +kernel) h

def firstUrl : String := "https://h/107/f"

/-- The hash of this URL begins with the same digits as that of `firstUrl`. -/
def secondUrl : String := "https://h/401/f"

def sharedPlace : Location := ["cache", "files", "5b05", "f"]

def firstBody : ByteArray := ⟨#[97]⟩

def secondBody : ByteArray := ⟨#[98]⟩

theorem pathFor_firstUrl : sample.pathFor firstUrl = .ok sharedPlace :=
  pathFor_of_toOption (by decide +kernel)

theorem pathFor_secondUrl : sample.pathFor secondUrl = .ok sharedPlace :=
  pathFor_of_toOption (by decide +kernel)

theorem directoryOf_shared (hp : sample.pathFor url = .ok sharedPlace) :
    sample.nameOf? url = some "f" ∧ sample.directoryOf url = ["files", "5b05"] :=
  of_pathFor (show sample.pathFor url = .ok (sample.root ++ (["files", "5b05"] ++ ["f"])) from hp)

theorem ne_stagingName {k : Nat} : "f" ≠ stagingName k := fun h => by
  have := congrArg String.toList h
  simp [stagingName, toString] at this

theorem hex_ne : Blake3.hex firstBody ≠ Blake3.hex secondBody := by decide +kernel

theorem room_sample (h : Fresh sample sample.root w) (hp : sample.pathFor url = .ok sharedPlace) :
    Room w.tree sample.root sample.root (sample.directoryOf url) "f" := by
  have hdir := (directoryOf_shared hp).2
  exact h.room (by rw [hdir]; decide) (by decide) (by rw [hdir]; decide)

theorem fetch_sample (h : Fresh sample sample.root w) (hp : sample.pathFor url = .ok sharedPlace)
    (now : Int) (hpending : w.origin.pending url = 0) (hs : Serves w.origin url data) :
    ∃ w', sample.fetch (Origin.transport Blake3.hex) now url w = .ok ⟨true, sharedPlace⟩ w' ∧
      Brought sample sample.root url now data w.database.index.catalog w w' := by
  have hd : IsHexDigest sample.digest := Blake3.isHexDigest_hex
  obtain ⟨hn, hdir⟩ := directoryOf_shared hp
  have hrec : w.database.index.records.get? url = none := by
    rw [h.index]
    rfl
  obtain ⟨w', hok, hw'⟩ := fetch_first hd h.toSound now h.isOpen hn hrec hpending hs
    (room_sample h hp)
  rw [hdir] at hok
  exact ⟨w', hok, hw'⟩

end Sample

end Depot.Cache
