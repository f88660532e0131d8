import Depot.Catalog.Query
import Depot.Proofs.Manifest

/-!
# What a manifest offers

The components of a manifest in the order in which it lists them, and what a query asks of them,
without tables: `Manifest.answer` is the answer that a catalog of the manifest has to give.
-/

namespace Depot

open Json

namespace Manifest

/-- A component with the release and the download that list it. -/
structure Item where
  release : Release
  download : Download
  key : String
  data : Value

end Manifest

open Manifest

def Download.items (r : Release) (d : Download) : List Item :=
  d.components.map fun (k, v) => ⟨r, d, k, v⟩

def Release.items (r : Release) : List Item :=
  r.downloads.flatMap (Download.items r)

def Manifest.items (m : Manifest) : List Item :=
  m.releases.flatMap Release.items

theorem Manifest.mem_items {m : Manifest} {i : Item} (h : i ∈ m.items) :
    i.release ∈ m.releases ∧ i.download ∈ i.release.downloads
      ∧ (i.key, i.data) ∈ i.download.components := by
  obtain ⟨r, hr, hri⟩ := List.mem_flatMap.1 h
  obtain ⟨d, hd, hdi⟩ := List.mem_flatMap.1 hri
  obtain ⟨f, hf, rfl⟩ := List.mem_map.1 hdi
  exact ⟨hr, hd, hf⟩

namespace Manifest.Item

/-- The version of the release; in a manifest that is read, each of them is one. -/
def version (i : Item) : Version :=
  (Version.parse? i.release.version).getD ⟨0, 0, 0, .series, 0⟩

theorem version_eq {i : Item} {v : Version} (h : Version.parse i.release.version = .ok v) :
    i.version = v := by
  rw [version, Version.parse?, h]
  rfl

def passes (i : Item) : VersionFilter → Bool
  | .latest => true
  | .latestStable => i.version.isStable
  | .rapid => i.version.isRapid
  | .series major minor => i.version.major = major ∧ i.version.minor = minor
  | .exact text => i.release.version = text

/-- Whether the item is as the filters that are set ask for. -/
def meets (q : Query) (i : Item) : Bool :=
  (∀ k ∈ q.component, i.key = k) ∧ (∀ t ∈ q.target, i.download.target.getD "null" = t)
    ∧ (∀ a ∈ q.arch, i.download.arch.getD "null" = a)
    ∧ (∀ e ∈ q.edition, i.download.edition = e) ∧ ∀ f ∈ q.version, i.passes f

def entry (i : Item) : Entry :=
  ⟨i.release.version, i.release.githash, i.release.date, i.download.target.getD "null",
    i.download.arch.getD "null", i.download.edition, i.key, i.data⟩

end Manifest.Item

/-- The items that meet the query, those of one version as listed and greater versions first. -/
def Manifest.answer (m : Manifest) (q : Query) : List Entry :=
  ((m.items.filter (·.meets q)).mergeSort fun i j => (j.version.compare i.version).isLE).map
    Item.entry

theorem Manifest.answer_singleton {m : Manifest} {q : Query} {i : Manifest.Item}
    (h : m.items.filter (·.meets q) = [i]) : m.answer q = [i.entry] := by
  rw [answer, h, List.mergeSort_singleton, List.map_singleton]

end Depot
