import Depot.Proofs.Catalog.Consistent
import Depot.Proofs.Catalog.Query

/-!
# Catalogs that can be read

Components are stored as text that every query reads again. One that could be stored and not read
would make queries fail, so a catalog should be `Legible`. It is so when it has been made from a
manifest that was read and whose numbers are whole (`rebuild_legible`).
-/

namespace Depot

/-- Whether there are only whole numbers in what can be downloaded. -/
def Manifest.Whole (m : Manifest) : Prop :=
  ∀ i ∈ m.items, ∀ n ∈ i.data.numbers, n.Whole

/-- Only fields with a URL are components. -/
theorem Manifest.Item.url?_entry {m : Manifest} {i : Item} (h : i ∈ m.items) :
    i.entry.url?.isSome := by
  obtain ⟨-, -, hf⟩ := mem_items h
  exact (List.mem_filter.1 hf).2

theorem Manifest.url?_of_mem_answer {m : Manifest} {q : Query} {e : Entry} (h : e ∈ m.answer q) :
    e.url?.isSome := by
  obtain ⟨i, hi, rfl⟩ := List.mem_map.1 h
  exact Item.url?_entry (List.mem_filter.1 (List.mem_mergeSort.1 hi)).1

namespace Catalog

/-- Whether every query is answered, and every entry of an answer has a URL. -/
def Legible (c : Catalog) : Prop :=
  ∀ q, ∃ es, c.query q = .ok es ∧ ∀ e ∈ es, e.url?.isSome

theorem legible_empty : empty.Legible := fun q =>
  ⟨[], by simp only [query, rows, empty, List.filterMap_nil, List.filter_nil, List.mergeSort_nil]
          rfl, by simp⟩

theorem legible_of_enters {m : Manifest} {c : Catalog} (hm : m.WellFormed) (hw : m.Whole)
    (h : Enters empty c m.releases (m.releases.flatMap (·.downloads)) m.items) : c.Legible := by
  intro q
  have hquery := query_of_shows h.orderly h.of_empty.2.2 (fun i hi => parse?_data hm hw hi) q
  exact ⟨m.answer q, hquery, fun e he => Manifest.url?_of_mem_answer he⟩

/-- A rebuild from a manifest that was read succeeds whatever the catalog held before. -/
theorem rebuild_legible {bytes : ByteArray} {m : Manifest} (hm : Manifest.parse bytes = .ok m)
    (hw : m.Whole) (old : Catalog) :
    ∃ n c, rebuild m old = .ok n c ∧ c.Consistent ∧ c.Legible := by
  have hwell := Manifest.wellFormed_of_parse hm
  obtain ⟨c, hrebuild, hentered⟩ := rebuild_spec hwell old
  exact ⟨countsOf m, c, hrebuild, consistent_of_rebuild hrebuild,
    legible_of_enters hwell hw hentered⟩

end Catalog

end Depot
