import Depot.Catalog.Query
import Depot.Proofs.Catalog.Consistent
import Depot.Proofs.Catalog.Rebuild
import Depot.Proofs.Text.ByteOrder
import Depot.Proofs.Version.Order

/-!
# Choices of a rebuilt catalog

A catalog made from a manifest counts what the manifest lists and offers what stands in it, each
text once and in order (`Choices.Describe`). An entry that a query finds is read from rows of the
tables, so what it says is among the choices, whatever the tables hold (`choices_include`).
-/

namespace Depot

def Manifest.downloads (m : Manifest) : List Download :=
  m.releases.flatMap (·.downloads)

def Manifest.components (m : Manifest) : List (String × Json.Value) :=
  m.downloads.flatMap (·.components)

namespace Catalog

variable {c c' : Catalog} {texts : List String}

/-! ## Lists without repetition -/

/-- Whether every one of the texts is listed, once, and nothing else. -/
structure Lists (listed texts : List String) : Prop where
  nodup : listed.Nodup
  mem_iff : ∀ s, s ∈ listed ↔ s ∈ texts

def Ascending (listed : List String) : Prop :=
  listed.Pairwise fun s t => s.toUTF8.toList < t.toUTF8.toList

theorem nodup_eraseDups (texts : List String) : texts.eraseDups.Nodup := by
  match texts with
  | [] => exact .nil
  | s :: texts =>
    rw [List.eraseDups_cons, List.nodup_cons]
    exact ⟨by simp [List.mem_eraseDups], nodup_eraseDups _⟩
termination_by texts.length
decreasing_by exact Nat.lt_succ_of_le (List.length_filter_le _ _)

theorem lists_eraseDups (texts : List String) : Lists texts.eraseDups texts :=
  ⟨nodup_eraseDups texts, fun _ => List.mem_eraseDups⟩

theorem Lists.of_perm {listed listed' : List String} (h : Lists listed texts)
    (hp : listed'.Perm listed) : Lists listed' texts :=
  ⟨hp.nodup_iff.2 h.nodup, fun s => hp.mem_iff.trans (h.mem_iff s)⟩

theorem lists_distinct (texts : List String) : Lists (distinct texts) texts :=
  (lists_eraseDups texts).of_perm (List.mergeSort_perm _ _)

theorem lists_sortTexts (texts : List String) :
    Lists (Version.sortTexts texts.eraseDups) texts :=
  (lists_eraseDups texts).of_perm (Version.sortTexts_perm _)

theorem ascending_distinct (texts : List String) : Ascending (distinct texts) := by
  have htrans : ∀ s t u : String, decide (s ≤ t) = true → decide (t ≤ u) = true →
      decide (s ≤ u) = true := fun s t u hst htu =>
    decide_eq_true (String.le_trans (of_decide_eq_true hst) (of_decide_eq_true htu))
  have htotal : ∀ s t : String, (decide (s ≤ t) || decide (t ≤ s)) = true := fun s t => by
    simpa using String.le_total s t
  have hle : (distinct texts).Pairwise (· ≤ ·) :=
    (List.pairwise_mergeSort htrans htotal texts.eraseDups).imp of_decide_eq_true
  refine (hle.and (lists_distinct texts).nodup).imp fun {s t} h => Text.Utf8.toUTF8_lt ?_
  exact String.not_le.1 fun hts => h.2 (String.le_antisymm h.1 hts)

/-! ## Entries -/

/-- Whether what the entry says is among the choices. -/
structure Choices.Include (choices : Choices) (e : Entry) : Prop where
  arch : e.arch ∈ choices.arches
  target : e.target ∈ choices.targets
  edition : e.edition ∈ choices.editions
  version : e.version ∈ choices.versions
  component : e.component ∈ choices.components

theorem mem_of_mapM_ok {α β ε : Type} {f : α → Except ε β} {xs : List α} {ys : List β}
    (h : xs.mapM f = .ok ys) {y : β} (hy : y ∈ ys) : ∃ x ∈ xs, f x = .ok y := by
  induction xs generalizing ys with
  | nil =>
    cases h
    exact absurd hy List.not_mem_nil
  | cons x xs ih =>
    rw [List.mapM_cons] at h
    cases hx : f x with
    | error e =>
      rw [hx] at h
      cases h
    | ok z =>
      cases hxs : xs.mapM f with
      | error e =>
        rw [hx, hxs] at h
        cases h
      | ok zs =>
        rw [hx, hxs] at h
        cases h
        rcases List.mem_cons.1 hy with rfl | hy
        · exact ⟨x, List.mem_cons_self, hx⟩
        · obtain ⟨w, hw, hwy⟩ := ih hxs hy
          exact ⟨w, List.mem_cons_of_mem _ hw, hwy⟩

/-- The rows that are joined are rows of the tables. -/
theorem mem_of_mem_rows {r : Row} (h : r ∈ c.rows) :
    r.release ∈ c.releases ∧ r.download ∈ c.downloads ∧ r.component ∈ c.components := by
  rw [rows_eq] at h
  obtain ⟨k, hk, hrow⟩ := List.mem_filterMap.1 h
  obtain ⟨d, hd, hrow⟩ := Option.bind_eq_some_iff.1 hrow
  obtain ⟨s, hs, hrow⟩ := Option.bind_eq_some_iff.1 hrow
  obtain rfl := Option.some.inj hrow
  exact ⟨List.mem_of_find?_eq_some hs, List.mem_of_find?_eq_some hd, hk⟩

theorem exists_row_of_mem_query {q : Query} {es : List Entry} (h : c.query q = .ok es) {e : Entry}
    (he : e ∈ es) : ∃ r ∈ c.rows, r.entry = .ok e := by
  obtain ⟨r, hr, hre⟩ := mem_of_mapM_ok h he
  exact ⟨r, (List.mem_filter.1 (List.mem_mergeSort.1 hr)).1, hre⟩

theorem choices_include {q : Query} {es : List Entry} (h : c.query q = .ok es) {e : Entry}
    (he : e ∈ es) : c.choices.Include e := by
  obtain ⟨r, hr, hre⟩ := exists_row_of_mem_query h he
  obtain ⟨hrelease, hdownload, hcomponent⟩ := mem_of_mem_rows hr
  unfold Row.entry at hre
  split at hre <;> cases hre
  exact
    { arch := ((lists_distinct _).mem_iff _).2 (List.mem_map_of_mem hdownload)
      target := ((lists_distinct _).mem_iff _).2 (List.mem_map_of_mem hdownload)
      edition := ((lists_distinct _).mem_iff _).2 (List.mem_map_of_mem hdownload)
      version := ((lists_sortTexts _).mem_iff _).2 (List.mem_map_of_mem hrelease)
      component := ((lists_distinct _).mem_iff _).2 (List.mem_map_of_mem hcomponent) }

/-! ## What a manifest lists -/

/-- Whether the choices are what stands in the manifest. Versions that compare as equal are all
listed when they are written differently. -/
structure Choices.Describe (choices : Choices) (m : Manifest) : Prop where
  arches : Lists choices.arches (m.downloads.map (·.archName))
  targets : Lists choices.targets (m.downloads.map (·.targetName))
  editions : Lists choices.editions (m.downloads.map (·.edition))
  versions : Lists choices.versions (m.releases.map (·.version))
  components : Lists choices.components (m.components.map (·.1))
  ascending : ∀ listed ∈ [choices.arches, choices.targets, choices.editions, choices.components],
    Ascending listed
  collated : choices.versions.Pairwise fun s t => Version.collate s t ≠ .gt

theorem map_eq_of_forall₂ {α β γ : Type} {R : α → β → Prop} {f : α → γ} {g : β → γ}
    (hfg : ∀ a b, R a b → f a = g b) {as : List α} {bs : List β} (h : List.Forall₂ R as bs) :
    as.map f = bs.map g := by
  rw [← List.forall₂_eq_eq_eq, List.forall₂_map_left_iff, List.forall₂_map_right_iff]
  exact h.imp hfg

theorem map_key_items (m : Manifest) : m.items.map (·.key) = m.components.map (·.1) := by
  simp only [Manifest.items, Release.items, Download.items, Manifest.components,
    Manifest.downloads, List.map_flatMap, List.flatMap_assoc, List.map_map, Function.comp_def]

/-- Every component is joined with what it belongs to. -/
theorem map_component_rows (hc : c.Orderly) : c.rows.map (·.component) = c.components := by
  have hrow : ∀ k ∈ c.components, (c.row? k).map (·.component) = some k := by
    intro k hk
    obtain ⟨d, hd, hdk⟩ := hc.download k hk
    obtain ⟨r, hr, hrd⟩ := hc.release d hd
    rw [row?_eq hc hr hd hrd hdk]
    rfl
  rw [rows_eq, List.map_filterMap, List.filterMap_congr hrow, List.filterMap_some]

section Entered

variable {m : Manifest} (h : Enters empty c m.releases m.downloads m.items)

include h

theorem counts_of_enters :
    c.counts = ⟨m.releases.length, m.downloads.length, m.components.length⟩ := by
  obtain ⟨hrs, hds, his⟩ := h.of_empty
  have hcomponents : c.components.length = m.components.length := by
    have hkeys := congrArg List.length (map_key_items m)
    rw [List.length_map, List.length_map] at hkeys
    rw [← map_component_rows h.orderly, List.length_map, his.length_eq, hkeys]
  rw [counts, hrs.length_eq, hds.length_eq, hcomponents]

theorem describe_of_enters : c.choices.Describe m := by
  obtain ⟨hrs, hds, his⟩ := h.of_empty
  have hkeys : c.components.map (·.key) = m.components.map (·.1) := by
    rw [← map_component_rows h.orderly, List.map_map, ← map_key_items]
    exact map_eq_of_forall₂ (fun _ _ hi => hi.key) his
  refine
    { arches := ?_, targets := ?_, editions := ?_, versions := ?_, components := ?_,
      ascending := ?_, collated := ?_ }
  · rw [← map_eq_of_forall₂ (fun _ _ hd => hd.arch) hds]
    exact lists_distinct _
  · rw [← map_eq_of_forall₂ (fun _ _ hd => hd.target) hds]
    exact lists_distinct _
  · rw [← map_eq_of_forall₂ (fun _ _ hd => hd.edition) hds]
    exact lists_distinct _
  · rw [← map_eq_of_forall₂ (fun _ _ hr => hr.text) hrs]
    exact lists_sortTexts _
  · rw [← hkeys]
    exact lists_distinct _
  · intro listed hl
    simp only [choices, List.mem_cons, List.not_mem_nil, or_false] at hl
    rcases hl with rfl | rfl | rfl | rfl <;> exact ascending_distinct _
  · exact (Version.sortTexts_pairwise _).imp Ordering.ne_gt_iff_isLE.2

end Entered

/-- After a rebuild from a manifest that was read the catalog is the one that a rebuild of an empty
catalog would leave, whatever it held before. It counts as many releases, downloads and components
as the manifest has, which is also what the rebuild tells, its rows refer to one another, its
choices are what stands in the manifest, and every entry that a query finds is made of choices. -/
theorem rebuild_replaces {bytes : ByteArray} {m : Manifest} (hm : Manifest.parse bytes = .ok m)
    (c : Catalog) :
    ∃ n c', rebuild m c = .ok n c' ∧ rebuild m empty = .ok n c' ∧ c'.counts = n
      ∧ n = ⟨m.releases.length, m.downloads.length, m.components.length⟩ ∧ c'.Consistent
      ∧ c'.choices.Describe m
      ∧ ∀ q es, c'.query q = .ok es → ∀ e ∈ es, c'.choices.Include e := by
  obtain ⟨c', hrebuild, hentered⟩ := rebuild_spec (Manifest.wellFormed_of_parse hm) c
  have hcounts : c'.counts = countsOf m := counts_of_enters hentered
  exact ⟨countsOf m, c', hrebuild, hrebuild, hcounts, rfl, consistent_of_rebuild hrebuild,
    describe_of_enters hentered, fun q es h e he => choices_include h he⟩

/-- Two spellings of one version before a smaller one, and a download without a target. -/
def spellings : ByteArray :=
  ⟨(("\x7b\"versions\":[\x7b\"version\":\"7.0\",\"downloads\":[\x7b\"edition\":\"base\","
    ++ "\"archive\":\x7b\"url\":\"http://h/7.tgz\"\x7d\x7d]\x7d,\x7b\"version\":\"07.0\"\x7d,"
    ++ "\x7b\"version\":\"6.0.9\",\"downloads\":[\x7b\"edition\":\"base\",\"target\":\"t\","
    ++ "\"archive\":\x7b\"url\":\"http://h/6.tgz\"\x7d\x7d]\x7d]\x7d").toList.map fun c =>
    UInt8.ofNat c.toNat).toArray⟩

/-- A catalog of one release without downloads. -/
def stale : Catalog :=
  ⟨[⟨1, "5.0.1", ⟨5, 0, 1, .release, 0⟩, "", ""⟩], [], []⟩

theorem rebuild_replaces_spellings :
    ∃ m, Manifest.parse spellings = .ok m
      ∧ m.releases.map (·.version) = ["7.0", "07.0", "6.0.9"]
      ∧ m.downloads.map (·.targetName) = ["null", "t"]
      ∧ ∃ n c', rebuild m stale = .ok n c' ∧ rebuild m empty = .ok n c' ∧ c'.counts = n
        ∧ n = ⟨m.releases.length, m.downloads.length, m.components.length⟩ ∧ c'.Consistent
        ∧ c'.choices.Describe m
        ∧ ∀ q es, c'.query q = .ok es → ∀ e ∈ es, c'.choices.Include e := by
  obtain ⟨m, hm, hversions, htargets⟩ : ∃ m, Manifest.parse spellings = .ok m ∧
      m.releases.map (·.version) = ["7.0", "07.0", "6.0.9"] ∧
        m.downloads.map (·.targetName) = ["null", "t"] :=
    Manifest.exists_parse (by decide +kernel)
  exact ⟨m, hm, hversions, htargets, rebuild_replaces hm stale⟩

end Catalog

end Depot
