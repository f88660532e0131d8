import Depot.Catalog.Rebuild
import Depot.Proofs.Catalog.Item
import Mathlib.Data.List.Range

/-!
# What a catalog holds after a rebuild

The rows of a table are numbered from one on as they are entered, and refer to rows that exist
(`Catalog.Orderly`). What is entered comes behind all that is there (`Enters`), so that the rows
of a rebuilt catalog are the items of the manifest, one by one and in order.
-/

namespace Depot

open Manifest

namespace Catalog

variable {c c' : Catalog}

/-- Whether the rows have the numbers from one on. -/
def Numbered {α : Type} (id : α → Nat) (l : List α) : Prop :=
  l.map id = List.range' 1 l.length

namespace Numbered

variable {α : Type} {id : α → Nat} {l : List α}

theorem append (h : Numbered id l) {x : α} (hx : id x = l.length + 1) :
    Numbered id (l ++ [x]) := by
  rw [Numbered, List.map_append, h, List.length_append, List.length_singleton,
    List.range'_1_concat, Nat.add_comm 1, ← hx]
  rfl

theorem nextId_eq (h : Numbered id l) : nextId (l.map id) = l.length + 1 := by
  suffices hmax : ∀ n, (List.range' 1 n).foldl max 0 = n by rw [nextId, h, hmax]
  intro n
  induction n with
  | zero => rfl
  | succ n ih =>
    rw [List.range'_1_concat, List.foldl_append, ih]
    simp only [List.foldl_cons, List.foldl_nil]
    omega

theorem le_length (h : Numbered id l) {x : α} (hx : x ∈ l) : id x ≤ l.length := by
  have hmem := List.mem_map_of_mem (f := id) hx
  rw [h, List.mem_range'_1] at hmem
  omega

theorem nodup (h : Numbered id l) : (l.map id).Nodup := by
  rw [h]
  exact List.nodup_range'

theorem pairwise (h : Numbered id l) : l.Pairwise fun x y => id x < id y := by
  rw [← List.pairwise_map, h]
  exact List.pairwise_lt_range'

theorem find? (h : Numbered id l) {x : α} (hx : x ∈ l) :
    l.find? (fun y => id y = id x) = some x := by
  have hnodup := h.nodup
  clear h
  induction l with
  | nil => exact absurd hx List.not_mem_nil
  | cons y l ih =>
    rw [List.map_cons, List.nodup_cons] at hnodup
    rcases List.mem_cons.1 hx with rfl | hx
    · rw [List.find?_cons_of_pos (by simp)]
    · have hne : id y ≠ id x := fun he => hnodup.1 (he ▸ List.mem_map_of_mem hx)
      rw [List.find?_cons_of_neg (by simpa using hne), ih hx hnodup.2]

end Numbered

structure Orderly (c : Catalog) : Prop where
  releases : Numbered ReleaseRow.id c.releases
  downloads : Numbered DownloadRow.id c.downloads
  components : Numbered ComponentRow.id c.components
  release : ∀ d ∈ c.downloads, ∃ r ∈ c.releases, r.id = d.release
  download : ∀ k ∈ c.components, ∃ d ∈ c.downloads, d.id = k.download
  /-- Components of one download stand together. -/
  grouped : c.components.Pairwise fun j k => j.download ≤ k.download

theorem orderly_empty : Orderly empty :=
  ⟨rfl, rfl, rfl, by simp [empty], by simp [empty], .nil⟩

/-! ## Rows -/

/-- The row of a component, if what it refers to exists. -/
def row? (c : Catalog) (k : ComponentRow) : Option Row := do
  let d ← c.downloads.find? (·.id = k.download)
  let r ← c.releases.find? (·.id = d.release)
  return ⟨r, d, k⟩

theorem rows_eq (c : Catalog) : c.rows = c.components.filterMap c.row? := rfl

theorem row?_eq (hc : c.Orderly) {r : ReleaseRow} {d : DownloadRow} {k : ComponentRow}
    (hr : r ∈ c.releases) (hd : d ∈ c.downloads) (hrd : r.id = d.release)
    (hdk : d.id = k.download) : c.row? k = some ⟨r, d, k⟩ := by
  rw [row?, ← hdk, hc.downloads.find? hd]
  change (c.releases.find? (·.id = d.release)).bind _ = _
  rw [← hrd, hc.releases.find? hr]
  rfl

theorem row?_of_subset (hc : c.Orderly) (hc' : c'.Orderly) (hr : c.releases ⊆ c'.releases)
    (hd : c.downloads ⊆ c'.downloads) {k : ComponentRow} (hk : k ∈ c.components) :
    c'.row? k = c.row? k := by
  obtain ⟨d, hdc, hdk⟩ := hc.download k hk
  obtain ⟨r, hrc, hrd⟩ := hc.release d hdc
  rw [row?_eq hc hrc hdc hrd hdk, row?_eq hc' (hr hrc) (hd hdc) hrd hdk]

theorem rows_append (hc : c.Orderly) (hc' : c'.Orderly) (hr : c.releases ⊆ c'.releases)
    (hd : c.downloads ⊆ c'.downloads) {new : List ComponentRow}
    (hk : c'.components = c.components ++ new) : c'.rows = c.rows ++ new.filterMap c'.row? := by
  rw [rows_eq, hk, List.filterMap_append, rows_eq]
  congr 1
  exact List.filterMap_congr fun k hk => row?_of_subset hc hc' hr hd hk

/-! ## Entering -/

structure ReleaseRow.Shows (row : ReleaseRow) (r : Release) : Prop where
  text : row.text = r.version
  version : Version.parse r.version = .ok row.version
  githash : row.githash = r.githash
  date : row.date = r.date

structure DownloadRow.Shows (row : DownloadRow) (d : Download) : Prop where
  target : row.target = d.targetName
  arch : row.arch = d.archName
  edition : row.edition = d.edition

structure Row.Shows (row : Row) (i : Item) : Prop where
  release : row.release.Shows i.release
  download : row.download.Shows i.download
  key : row.component.key = i.key
  data : row.component.data = i.data.render

/-- Whether `c'` is `c` with rows for the releases, downloads and items behind those of `c`. -/
structure Enters (c c' : Catalog) (rs : List Release) (ds : List Download) (is : List Item) :
    Prop where
  orderly : c'.Orderly
  releases : ∃ new, c'.releases = c.releases ++ new ∧ List.Forall₂ ReleaseRow.Shows new rs
  downloads : ∃ new, c'.downloads = c.downloads ++ new ∧ List.Forall₂ DownloadRow.Shows new ds
  rows : ∃ new, c'.rows = c.rows ++ new ∧ List.Forall₂ Row.Shows new is

namespace Enters

variable {rs rs' : List Release} {ds ds' : List Download} {is is' : List Item}

theorem refl (hc : c.Orderly) : Enters c c [] [] [] :=
  ⟨hc, ⟨[], by simp, .nil⟩, ⟨[], by simp, .nil⟩, ⟨[], by simp, .nil⟩⟩

theorem trans {c'' : Catalog} (h : Enters c c' rs ds is) (h' : Enters c' c'' rs' ds' is') :
    Enters c c'' (rs ++ rs') (ds ++ ds') (is ++ is') := by
  obtain ⟨-, ⟨r, hr, hrs⟩, ⟨d, hd, hds⟩, ⟨i, hi, his⟩⟩ := h
  obtain ⟨ho, ⟨r', hr', hrs'⟩, ⟨d', hd', hds'⟩, ⟨i', hi', his'⟩⟩ := h'
  exact ⟨ho, ⟨r ++ r', by rw [hr', hr, List.append_assoc], List.rel_append hrs hrs'⟩,
    ⟨d ++ d', by rw [hd', hd, List.append_assoc], List.rel_append hds hds'⟩,
    ⟨i ++ i', by rw [hi', hi, List.append_assoc], List.rel_append his his'⟩⟩

theorem subset (h : Enters c c' rs ds is) : c.releases ⊆ c'.releases := by
  obtain ⟨new, hnew, -⟩ := h.releases
  rw [hnew]
  exact List.subset_append_left _ _

/-- Tables that were empty hold what has been entered and nothing else. -/
theorem of_empty (h : Enters empty c rs ds is) :
    List.Forall₂ ReleaseRow.Shows c.releases rs ∧ List.Forall₂ DownloadRow.Shows c.downloads ds
      ∧ List.Forall₂ Row.Shows c.rows is := by
  obtain ⟨-, ⟨r, hr, hrs⟩, ⟨d, hd, hds⟩, ⟨i, hi, his⟩⟩ := h
  have hr' : c.releases = r := hr
  have hd' : c.downloads = d := hd
  have hi' : c.rows = i := hi
  rw [hr', hd', hi']
  exact ⟨hrs, hds, his⟩

end Enters

theorem insertRelease_spec (hc : c.Orderly) {r : Release} {v : Version}
    (hv : Version.parse r.version = .ok v) :
    ∃ c' row, insertRelease r c = .ok row.id c' ∧ Enters c c' [r] [] [] ∧ row ∈ c'.releases
      ∧ row.Shows r := by
  let row : ReleaseRow := ⟨c.releases.length + 1, r.version, v, r.githash, r.date⟩
  let c' : Catalog := { c with releases := c.releases ++ [row] }
  have hrow : row.Shows r := ⟨rfl, hv, rfl, rfl⟩
  have hc' : c'.Orderly :=
    { hc with
      releases := hc.releases.append rfl
      release := fun d hd => by
        obtain ⟨s, hs, hsd⟩ := hc.release d hd
        exact ⟨s, List.mem_append_left _ hs, hsd⟩ }
  refine ⟨c', row, ?_,
    ⟨hc', ⟨[row], rfl, .cons hrow .nil⟩, ⟨[], by simp [c'], .nil⟩, ⟨[], ?_, .nil⟩⟩,
    List.mem_append_right _ List.mem_cons_self, hrow⟩
  · rw [insertRelease, hv, hc.releases.nextId_eq]
  · exact rows_append hc hc' (List.subset_append_left _ _) (fun _ => id) (List.append_nil _).symm

theorem insertDownload_spec (hc : c.Orderly) {row : ReleaseRow} (hrow : row ∈ c.releases)
    (d : Download) :
    ∃ c' drow, insertDownload row.id d c = .ok drow.id c' ∧ Enters c c' [] [d] []
      ∧ drow ∈ c'.downloads ∧ drow.Shows d ∧ drow.release = row.id
      ∧ drow.id = c'.downloads.length ∧ ∀ k ∈ c'.components, k.download ≠ drow.id := by
  let drow : DownloadRow :=
    ⟨c.downloads.length + 1, row.id, d.targetName, d.archName, d.edition⟩
  let c' : Catalog := { c with downloads := c.downloads ++ [drow] }
  have hdrow : drow.Shows d := ⟨rfl, rfl, rfl⟩
  have hc' : c'.Orderly :=
    { hc with
      downloads := hc.downloads.append rfl
      release := fun e he => by
        rcases List.mem_append.1 he with he | he
        · exact hc.release e he
        · obtain rfl := List.mem_singleton.1 he
          exact ⟨row, hrow, rfl⟩
      download := fun k hk => by
        obtain ⟨e, he, hek⟩ := hc.download k hk
        exact ⟨e, List.mem_append_left _ he, hek⟩ }
  refine ⟨c', drow, ?_,
    ⟨hc', ⟨[], by simp [c'], .nil⟩, ⟨[drow], rfl, .cons hdrow .nil⟩, ⟨[], ?_, .nil⟩⟩,
    List.mem_append_right _ List.mem_cons_self, hdrow, rfl, by simp [c', drow], ?_⟩
  · have hany : (c.releases.any fun s => s.id == row.id) = true :=
      List.any_eq_true.2 ⟨row, hrow, by simp⟩
    rw [insertDownload, if_pos hany, hc.downloads.nextId_eq]
  · exact rows_append hc hc' (fun _ => id) (List.subset_append_left _ _) (List.append_nil _).symm
  · intro k hk hkd
    obtain ⟨e, he, hek⟩ := hc.download k hk
    have hle := hc.downloads.le_length he
    have hnew : drow.id = c.downloads.length + 1 := rfl
    omega

theorem insertComponent_spec (hc : c.Orderly) {r : Release} {d : Download} {row : ReleaseRow}
    {drow : DownloadRow} (hr : row ∈ c.releases) (hrow : row.Shows r) (hd : drow ∈ c.downloads)
    (hdrow : drow.Shows d) (hrd : row.id = drow.release) (hlast : drow.id = c.downloads.length)
    {key : String} (hkey : ∀ k ∈ c.components, k.download = drow.id → k.key ≠ key)
    (v : Json.Value) :
    ∃ c', insertComponent drow.id key v c = .ok () c' ∧ Enters c c' [] [] [⟨r, d, key, v⟩]
      ∧ c'.downloads = c.downloads
      ∧ ∀ k ∈ c'.components, k ∈ c.components ∨ k.key = key := by
  let k : ComponentRow := ⟨c.components.length + 1, drow.id, key, v.render⟩
  let c' : Catalog := { c with components := c.components ++ [k] }
  have hc' : c'.Orderly :=
    { hc with
      components := hc.components.append rfl
      download := fun j hj => by
        rcases List.mem_append.1 hj with hj | hj
        · exact hc.download j hj
        · obtain rfl := List.mem_singleton.1 hj
          exact ⟨drow, hd, rfl⟩
      grouped := by
        refine List.pairwise_append.2 ⟨hc.grouped, List.pairwise_singleton _ _, ?_⟩
        intro j hj k' hk'
        obtain rfl := List.mem_singleton.1 hk'
        obtain ⟨e, he, hej⟩ := hc.download j hj
        have hle := hc.downloads.le_length he
        change j.download ≤ drow.id
        omega }
  have hnew : c'.row? k = some ⟨row, drow, k⟩ := row?_eq hc' hr hd hrd rfl
  have hshows : Row.Shows ⟨row, drow, k⟩ ⟨r, d, key, v⟩ := ⟨hrow, hdrow, rfl, rfl⟩
  refine ⟨c', ?_, ⟨hc', ⟨[], by simp [c'], .nil⟩, ⟨[], by simp [c'], .nil⟩,
    ⟨[⟨row, drow, k⟩], ?_, .cons hshows .nil⟩⟩, rfl, ?_⟩
  · have hany : (c.downloads.any fun e => e.id == drow.id) = true :=
      List.any_eq_true.2 ⟨drow, hd, by simp⟩
    have hfree : ¬(c.components.any fun k => k.download == drow.id && k.key == key) = true := by
      simpa using hkey
    rw [insertComponent, if_pos ⟨hany, hfree⟩, hc.components.nextId_eq]
  · rw [rows_append hc hc' (fun _ => id) (fun _ => id) rfl]
    simp [hnew]
  · intro j hj
    exact (List.mem_append.1 hj).imp_right fun hj => by rw [List.mem_singleton.1 hj]

theorem bind_of_ok {α β : Type} {x : Change α} {a : α} (h : x c = .ok a c') (f : α → Change β) :
    (x >>= f) c = f a c' := by
  change EStateM.bind x f c = f a c'
  rw [EStateM.bind, h]

theorem forM_cons_of_ok {α : Type} {f : α → Change Unit} {x : α} (h : f x c = .ok () c')
    (xs : List α) : (x :: xs).forM f c = xs.forM f c' :=
  bind_of_ok h _

section Loops

variable {r : Release} {d : Download} {row : ReleaseRow} {drow : DownloadRow}

theorem insertComponents_spec (hc : c.Orderly) (hr : row ∈ c.releases) (hrow : row.Shows r)
    (hd : drow ∈ c.downloads) (hdrow : drow.Shows d) (hrd : row.id = drow.release)
    (hlast : drow.id = c.downloads.length) {fs : List (String × Json.Value)}
    (hfs : Json.Value.Ascending fs)
    (hfree : ∀ f ∈ fs, ∀ k ∈ c.components, k.download = drow.id → k.key ≠ f.1) :
    ∃ c', fs.forM (fun f => insertComponent drow.id f.1 f.2) c = .ok () c'
      ∧ Enters c c' [] [] (fs.map fun f => ⟨r, d, f.1, f.2⟩) := by
  induction fs generalizing c with
  | nil => exact ⟨c, rfl, .refl hc⟩
  | cons f fs ih =>
    obtain ⟨hhead, hrest⟩ := List.pairwise_cons.1 hfs
    obtain ⟨c₁, hstep, h₁, hd₁, hk₁⟩ := insertComponent_spec hc hr hrow hd hdrow hrd hlast
      (hfree f List.mem_cons_self) f.2
    have hfree₁ : ∀ g ∈ fs, ∀ k ∈ c₁.components, k.download = drow.id → k.key ≠ g.1 := by
      intro g hg k hk hkd
      rcases hk₁ k hk with hk | hk
      · exact hfree g (List.mem_cons_of_mem _ hg) k hk hkd
      · rw [hk]
        exact (hhead g hg).ne
    obtain ⟨c₂, hloop, h₂⟩ := ih h₁.orderly (h₁.subset hr) (hd₁ ▸ hd) (hd₁ ▸ hlast) hrest hfree₁
    refine ⟨c₂, Eq.trans ?_ hloop, h₁.trans h₂⟩
    exact forM_cons_of_ok (x := f) hstep fs

theorem addDownload_spec (hc : c.Orderly) (hr : row ∈ c.releases) (hrow : row.Shows r)
    (hd : d.WellFormed) :
    ∃ c', addDownload row.id d c = .ok () c' ∧ Enters c c' [] [d] (d.items r) := by
  obtain ⟨c₁, drow, hstep, h₁, hmem, hdrow, hrd, hlast, hfree⟩ := insertDownload_spec hc hr d
  obtain ⟨c₂, hloop, h₂⟩ := insertComponents_spec h₁.orderly (h₁.subset hr) hrow hmem hdrow
    hrd.symm hlast hd.components fun _ _ k hk hkd => absurd hkd (hfree k hk)
  exact ⟨c₂, (bind_of_ok hstep _).trans hloop, h₁.trans h₂⟩

/-- A loop of steps that each enter something enters all of it in order. -/
theorem Enters.forM {α : Type} {P : Catalog → Prop} {f : α → Change Unit} {rs : α → List Release}
    {ds : α → List Download} {is : α → List Item} {xs : List α}
    (hP : ∀ c c' rs ds is, Enters c c' rs ds is → P c → P c')
    (hf : ∀ x ∈ xs, ∀ c, c.Orderly → P c →
      ∃ c', f x c = .ok () c' ∧ Enters c c' (rs x) (ds x) (is x))
    (hc : c.Orderly) (h : P c) :
    ∃ c', xs.forM f c = .ok () c'
      ∧ Enters c c' (xs.flatMap rs) (xs.flatMap ds) (xs.flatMap is) := by
  induction xs generalizing c with
  | nil => exact ⟨c, rfl, .refl hc⟩
  | cons x xs ih =>
    obtain ⟨c₁, hstep, h₁⟩ := hf x List.mem_cons_self c hc h
    obtain ⟨c₂, hloop, h₂⟩ := ih (fun y hy => hf y (List.mem_cons_of_mem _ hy)) h₁.orderly
      (hP _ _ _ _ _ h₁ h)
    exact ⟨c₂, (forM_cons_of_ok hstep xs).trans hloop, h₁.trans h₂⟩

theorem addRelease_spec (hc : c.Orderly) {v : Version} (hv : Version.parse r.version = .ok v)
    (hds : ∀ d ∈ r.downloads, d.WellFormed) :
    ∃ c', addRelease r c = .ok () c' ∧ Enters c c' [r] r.downloads r.items := by
  obtain ⟨c₁, row, hstep, h₁, hmem, hrow⟩ := insertRelease_spec hc hv
  have hdownload : ∀ d ∈ r.downloads, ∀ c : Catalog, c.Orderly → row ∈ c.releases →
      ∃ c', addDownload row.id d c = .ok () c' ∧ Enters c c' [] [d] (d.items r) :=
    fun d hd c hc hr => addDownload_spec hc hr hrow (hds d hd)
  obtain ⟨c₂, hloop, h₂⟩ :=
    Enters.forM (fun _ _ _ _ _ h hr => h.subset hr) hdownload h₁.orderly hmem
  refine ⟨c₂, (bind_of_ok hstep _).trans hloop, ?_⟩
  have hnone : r.downloads.flatMap (fun _ => ([] : List Release)) = [] :=
    List.flatMap_eq_nil_iff.2 fun _ _ => rfl
  simpa [Release.items, hnone] using h₁.trans h₂

end Loops

theorem rebuild_spec {m : Manifest} (hm : m.WellFormed) (c : Catalog) :
    ∃ c', rebuild m c = .ok (countsOf m) c'
      ∧ Enters empty c' m.releases (m.releases.flatMap (·.downloads)) m.items := by
  have hrelease : ∀ r ∈ m.releases, ∀ c : Catalog, c.Orderly → True →
      ∃ c', addRelease r c = .ok () c' ∧ Enters c c' [r] r.downloads r.items := by
    intro r hr c hc _
    obtain ⟨v, hv⟩ := hm.version r hr
    exact addRelease_spec hc hv (hm.download r hr)
  obtain ⟨c', hloop, h⟩ :=
    Enters.forM (fun _ _ _ _ _ _ _ => trivial) hrelease orderly_empty trivial
  refine ⟨c', ?_, by simpa [Manifest.items] using h⟩
  have hset : (set empty : Change PUnit) c = .ok () empty := rfl
  rw [rebuild, bind_of_ok hset, bind_of_ok hloop]
  rfl

end Catalog

end Depot
