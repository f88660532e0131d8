import Depot.Proofs.Catalog.Rebuild
import Depot.Proofs.Json.RoundTrip
import Depot.Proofs.Version.Order
import Mathlib.Data.List.Forall2

/-!
# Answers of a rebuilt catalog

Rows stand in the order of the manifest, so that sorting them by version and then by their numbers
is to sort by version and leave the rest as it is (`mergeSort_compare`). With what is written into
the tables read back unchanged, the answer to a query is that of the manifest (`query_rebuild`).
-/

namespace Depot.Catalog

open Manifest

variable {c : Catalog} {rows : List Row} {is : List Item} {q : Query}

/-! ## The order of the rows -/

/-- Whether the rows are in the order in which they were entered. -/
def InOrder (rows : List Row) : Prop :=
  rows.Pairwise fun a b => a.download.id ≤ b.download.id ∧ a.component.id < b.component.id

theorem of_row? {k : ComponentRow} {r : Row} (h : c.row? k = some r) :
    r.component = k ∧ r.download.id = k.download := by
  obtain ⟨d, hd, h⟩ := Option.bind_eq_some_iff.1 h
  obtain ⟨s, -, h⟩ := Option.bind_eq_some_iff.1 h
  obtain rfl := Option.some.inj h
  exact ⟨rfl, by simpa using List.find?_some hd⟩

theorem Orderly.inOrder (hc : c.Orderly) : InOrder c.rows := by
  rw [InOrder, rows_eq, List.pairwise_filterMap]
  refine (hc.grouped.and hc.components.pairwise).imp fun {j k} h a ha b hb => ?_
  obtain ⟨hja, hda⟩ := of_row? ha
  obtain ⟨hkb, hdb⟩ := of_row? hb
  rw [hda, hdb, hja, hkb]
  exact h

theorem InOrder.filter (h : InOrder rows) (p : Row → Bool) : InOrder (rows.filter p) :=
  List.Pairwise.filter p h

theorem compare_ids_lt {a b : Row}
    (h : a.download.id ≤ b.download.id ∧ a.component.id < b.component.id) :
    (Ord.compare a.download.id b.download.id).then (Ord.compare a.component.id b.component.id)
      = .lt := by
  rw [Nat.compare_eq_lt.2 h.2]
  rcases Nat.lt_or_eq_of_le h.1 with hlt | heq
  · rw [Nat.compare_eq_lt.2 hlt]
    rfl
  · rw [Nat.compare_eq_eq.2 heq]
    rfl

/-- The numbers of two rows compare as their places. -/
theorem InOrder.compare_ids (h : InOrder rows) {a b : Row} {i j : Nat} (ha : rows[i]? = some a)
    (hb : rows[j]? = some b) :
    (Ord.compare a.download.id b.download.id).then (Ord.compare a.component.id b.component.id)
      = Ord.compare i j := by
  obtain ⟨hi, rfl⟩ := List.getElem?_eq_some_iff.1 ha
  obtain ⟨hj, rfl⟩ := List.getElem?_eq_some_iff.1 hb
  have hids := List.pairwise_iff_getElem.1 h
  rcases Nat.lt_trichotomy i j with hij | rfl | hij
  · rw [compare_ids_lt (hids i j hi hj hij), Nat.compare_eq_lt.2 hij]
  · simp
  · have hlt := congrArg Ordering.swap (compare_ids_lt (hids j i hj hi hij))
    rw [Ordering.swap_then, Nat.compare_swap, Nat.compare_swap] at hlt
    rw [hlt, Nat.compare_eq_gt.2 hij]
    rfl

/-- Rows in order are sorted by version alone: their numbers only keep them in order. -/
theorem mergeSort_compare (h : InOrder rows)
    (hv : ∀ r ∈ rows, Version.parse r.release.text = .ok r.release.version) :
    (rows.mergeSort fun a b => (a.compare b).isLE)
      = rows.mergeSort fun a b => (b.release.version.compare a.release.version).isLE := by
  symm
  rw [← List.mergeSort_zipIdx, List.map_mergeSort, List.zipIdx_map_fst]
  rintro ⟨a, i⟩ ha ⟨b, j⟩ hb
  have hi := List.mem_zipIdx_iff_getElem?.1 ha
  have hj := List.mem_zipIdx_iff_getElem?.1 hb
  have hcollate := Version.collate_of_parse (hv b (List.mem_of_getElem? hj))
    (hv a (List.mem_of_getElem? hi))
  have hcompare : a.compare b
      = (b.release.version.compare a.release.version).then (Ord.compare i j) := by
    rw [Row.compare, hcollate, h.compare_ids hi hj]
  have hswap := Version.compare_swap b.release.version a.release.version
  simp only [hcompare, List.zipIdxLE, ← hswap]
  cases b.release.version.compare a.release.version with
  | lt => rfl
  | eq =>
    have hle : decide (i ≤ j) = (Ord.compare i j).isLE := by
      rw [Bool.eq_iff_iff, decide_eq_true_eq, Nat.isLE_compare]
    simpa using hle
  | gt => rfl

/-! ## Rows and items -/

theorem Row.Shows.version {r : Row} {i : Item} (h : r.Shows i) : i.version = r.release.version :=
  Item.version_eq h.release.version

theorem Row.Shows.accepts_iff {r : Row} {i : Item} (h : r.Shows i) (f : VersionFilter) :
    f.accepts r.release.text (some r.release.version) = true ↔ i.passes f = true := by
  rw [← h.version, h.release.text]
  cases f with
  | latest | latestStable | rapid => exact Iff.rfl
  | series major minor => simp [VersionFilter.accepts, Item.passes]
  | exact text =>
    rw [VersionFilter.accepts, Item.passes, beq_iff_eq, decide_eq_true_eq]
    exact eq_comm

theorem matchesText_iff {filter : Option String} {text : String} :
    matchesText filter text = true ↔ ∀ s ∈ filter, text = s := by
  cases filter with
  | none => simp [matchesText]
  | some s => simpa [matchesText] using (eq_comm : s = text ↔ text = s)

theorem Row.Shows.matches_eq {r : Row} {i : Item} (h : r.Shows i) (q : Query) :
    r.matches q = i.meets q := by
  have hversion : q.version.all (·.accepts r.release.text (some r.release.version)) = true
      ↔ ∀ f ∈ q.version, i.passes f = true := by
    cases q.version with
    | none => simp
    | some f => simpa using h.accepts_iff f
  rw [Bool.eq_iff_iff, Row.matches, Item.meets]
  simp only [Bool.and_eq_true, matchesText_iff, hversion, decide_eq_true_eq, and_assoc]
  rw [h.key, h.download.target, h.download.arch, h.download.edition]
  rfl

theorem forall₂_mergeSort {α β : Type} {R : α → β → Prop} {le : α → α → Bool}
    {le' : β → β → Bool} (hle : ∀ a a' b b', R a b → R a' b' → le a a' = le' b b')
    {as : List α} {bs : List β} (h : List.Forall₂ R as bs) :
    List.Forall₂ R (as.mergeSort le) (bs.mergeSort le') := by
  -- the pairs are sorted once, and both lists along with them
  have hfst : (as.zip bs).map Prod.fst = as := List.map_fst_zip h.length_eq.le
  have hsnd : (as.zip bs).map Prod.snd = bs := List.map_snd_zip h.length_eq.ge
  have hR : ∀ p ∈ as.zip bs, R p.1 p.2 := fun p hp => List.forall₂_zip h hp
  let lePair := fun p p' : α × β => le p.1 p'.1
  have has : ((as.zip bs).mergeSort lePair).map Prod.fst = as.mergeSort le := by
    rw [List.map_mergeSort (s := le) (fun _ _ _ _ => rfl), hfst]
  have hbs : ((as.zip bs).mergeSort lePair).map Prod.snd = bs.mergeSort le' := by
    rw [List.map_mergeSort (s := le') fun p hp p' hp' => hle _ _ _ _ (hR p hp) (hR p' hp'), hsnd]
  rw [← has, ← hbs, List.forall₂_map_left_iff, List.forall₂_map_right_iff, List.forall₂_same]
  exact fun p hp => hR p (List.mem_mergeSort.1 hp)

theorem Row.Shows.entry_eq {r : Row} {i : Item} (h : r.Shows i)
    (hdata : Json.Value.parse? i.data.render = some i.data) : r.entry = .ok i.entry := by
  rw [Row.entry, h.data, hdata]
  simp only [h.release.text, h.release.githash, h.release.date, h.download.target,
    h.download.arch, h.download.edition, h.key]
  rfl

theorem mapM_entry (h : List.Forall₂ Row.Shows rows is)
    (hdata : ∀ i ∈ is, Json.Value.parse? i.data.render = some i.data) :
    rows.mapM Row.entry = .ok (is.map Item.entry) := by
  induction h with
  | nil => rfl
  | cons hr _ ih =>
    rw [List.mapM_cons, hr.entry_eq (hdata _ List.mem_cons_self),
      ih fun i hi => hdata i (List.mem_cons_of_mem _ hi)]
    rfl

theorem exists_shown (h : List.Forall₂ Row.Shows rows is) {r : Row} (hr : r ∈ rows) :
    ∃ i ∈ is, r.Shows i := by
  induction h with
  | nil => exact absurd hr List.not_mem_nil
  | cons hs _ ih =>
    rcases List.mem_cons.1 hr with rfl | hr
    · exact ⟨_, List.mem_cons_self, hs⟩
    · obtain ⟨i, hi, hri⟩ := ih hr
      exact ⟨i, List.mem_cons_of_mem _ hi, hri⟩

/-- A catalog whose rows are the items of the manifest answers as the manifest does. -/
theorem query_of_shows {m : Manifest} (hc : c.Orderly) (h : List.Forall₂ Row.Shows c.rows m.items)
    (hdata : ∀ i ∈ m.items, Json.Value.parse? i.data.render = some i.data) (q : Query) :
    c.query q = .ok (m.answer q) := by
  have hrows : ∀ r ∈ c.rows, Version.parse r.release.text = .ok r.release.version := by
    intro r hr
    obtain ⟨i, -, hi⟩ := exists_shown h hr
    rw [hi.release.text, hi.release.version]
  have hfilter :
      List.Forall₂ Row.Shows (c.rows.filter (·.matches q)) (m.items.filter (·.meets q)) := by
    refine List.rel_filter (fun r i hr => ?_) h
    simp only [hr.matches_eq q]
  have hsort : List.Forall₂ Row.Shows
      ((c.rows.filter (·.matches q)).mergeSort fun a b =>
        (b.release.version.compare a.release.version).isLE)
      ((m.items.filter (·.meets q)).mergeSort fun i j => (j.version.compare i.version).isLE) :=
    forall₂_mergeSort (fun a b i j hi hj => by rw [hi.version, hj.version]) hfilter
  rw [query, mergeSort_compare (hc.inOrder.filter _) fun r hr => hrows r (List.mem_filter.1 hr).1]
  refine mapM_entry hsort fun i hi => hdata i ?_
  exact (List.mem_filter.1 (List.mem_mergeSort.1 hi)).1

theorem parse?_data {m : Manifest} (hm : m.WellFormed)
    (hw : ∀ i ∈ m.items, ∀ n ∈ i.data.numbers, n.Whole) {i : Item} (hi : i ∈ m.items) :
    Json.Value.parse? i.data.render = some i.data := by
  obtain ⟨hr, hd, hf⟩ := mem_items hi
  have hfields := Json.Value.nestedFields_iff.1 (hm.download _ hr _ hd).2
  have hnested := hfields _ (Download.mem_fields_of_mem_components hf)
  exact Json.Value.parse?_render (hnested.mono (by decide) _) (hw _ hi)

/-- After a rebuild from a manifest that was read, whatever the catalog held before, every query
is answered as the manifest itself would: the items that meet it, in the order in which they are
listed but with greater versions first. -/
theorem query_rebuild {bytes : ByteArray} {m : Manifest} (hm : Manifest.parse bytes = .ok m)
    (hw : ∀ i ∈ m.items, ∀ n ∈ i.data.numbers, n.Whole) (c : Catalog) (q : Query) :
    (∃ c', rebuild m c = .ok (countsOf m) c' ∧ c'.query q = .ok (m.answer q)) ∧
      (∀ i ∈ m.items, Version.parse i.release.version = .ok i.version) ∧
      ∀ r ∈ m.releases, ∀ d ∈ r.downloads, d.components.Pairwise fun f g => f.1 < g.1 := by
  have hwell := wellFormed_of_parse hm
  obtain ⟨c', hrebuild, hentered⟩ := rebuild_spec hwell c
  obtain ⟨rows, hrows, hshows⟩ := hentered.rows
  have hall : c'.rows = rows := hrows
  refine ⟨⟨c', hrebuild, query_of_shows hentered.orderly (hall ▸ hshows) ?_ q⟩, ?_, ?_⟩
  · exact fun i hi => parse?_data hwell hw hi
  · intro i hi
    obtain ⟨v, hv⟩ := hwell.version i.release (mem_items hi).1
    rw [Item.version_eq hv, hv]
  · exact fun r hr d hd => (hwell.download r hr d hd).components

/-- Two releases, the greater one last, each with a component; one of them holds a number. -/
def twoReleases : ByteArray :=
  ⟨(("\x7b\"versions\":[\x7b\"version\":\"6.0.9\",\"downloads\":[\x7b\"edition\":\"base\","
    ++ "\"archive\":\x7b\"url\":\"http://h/6.tgz\",\"size\":12\x7d\x7d]\x7d,"
    ++ "\x7b\"version\":\"7.0.1\",\"downloads\":[\x7b\"edition\":\"base\","
    ++ "\"archive\":\x7b\"url\":\"http://h/7.tgz\"\x7d\x7d]\x7d]\x7d").toList.map fun c =>
    UInt8.ofNat c.toNat).toArray⟩

theorem query_rebuild_twoReleases :
    ∃ m, Manifest.parse twoReleases = .ok m ∧
      m.items.map (·.release.version) = ["6.0.9", "7.0.1"] ∧
      (∀ i ∈ m.items, ∀ n ∈ i.data.numbers, n.Whole) ∧
      ∃ c, rebuild m empty = .ok (countsOf m) c ∧ c.query .all = .ok (m.answer .all) := by
  obtain ⟨m, hm, hversions, hw⟩ : ∃ m, Manifest.parse twoReleases = .ok m ∧
      m.items.map (·.release.version) = ["6.0.9", "7.0.1"] ∧
        ∀ i ∈ m.items, ∀ n ∈ i.data.numbers, n.Whole :=
    Manifest.exists_parse (by decide +kernel)
  exact ⟨m, hm, hversions, hw, (query_rebuild hm hw empty .all).1⟩

end Depot.Catalog
