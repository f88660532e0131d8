import Depot.Manifest
import Depot.Proofs.Json.Value

/-!
# What manifests are read

Every version of a manifest that is read is one, and the fields of its downloads are values as
they are read, in the order of their names (`Manifest.WellFormed`).
-/

namespace Depot

open Json

/-- Whether the fields are as they are read. -/
def Download.WellFormed (d : Download) : Prop :=
  Value.Ascending d.fields ∧ Value.NestedFields Manifest.fieldDepth d.fields

theorem Download.WellFormed.components {d : Download} (h : d.WellFormed) :
    Value.Ascending d.components :=
  h.1.filter _

theorem Download.mem_fields_of_mem_components {d : Download} {f : String × Value}
    (h : f ∈ d.components) : f ∈ d.fields :=
  (List.mem_filter.1 h).1

namespace Manifest

structure WellFormed (m : Manifest) : Prop where
  version : ∀ r ∈ m.releases, ∃ v, Version.parse r.version = .ok v
  download : ∀ r ∈ m.releases, ∀ d ∈ r.downloads, d.WellFormed

theorem mem_of_mapM {α β : Type} {f : α → Option β} {xs : List α} {ys : List β}
    (h : xs.mapM f = some ys) {y : β} (hy : y ∈ ys) : ∃ x ∈ xs, f x = some y := by
  induction xs generalizing ys with
  | nil =>
    obtain rfl := Option.some.inj h
    exact absurd hy List.not_mem_nil
  | cons x xs ih =>
    simp only [List.mapM_cons, Option.bind_eq_bind, Option.bind_eq_some_iff, Option.pure_def,
      Option.some.injEq] at h
    obtain ⟨y', hy', ys', hys', rfl⟩ := h
    rcases List.mem_cons.1 hy with rfl | hy
    · exact ⟨x, List.mem_cons_self, hy'⟩
    · obtain ⟨z, hz, hzy⟩ := ih hys' hy
      exact ⟨z, List.mem_cons_of_mem _ hz, hzy⟩

theorem mem_of_readArray? {α : Type} {read : Node → Option α} {n : Node} {xs : List α}
    (h : readArray? read n = some xs) {x : α} (hx : x ∈ xs) : ∃ k, read k = some x := by
  unfold readArray? at h
  split at h
  · obtain ⟨k, -, hk⟩ := mem_of_mapM h hx
    exact ⟨k, hk⟩
  · contradiction

theorem wellFormed_of_readDownload? {n : Node} {d : Download} (h : readDownload? n = some d) :
    d.WellFormed := by
  unfold readDownload? at h
  split at h
  · simp only [Option.bind_eq_bind, Option.bind_eq_some_iff, Option.some.injEq] at h
    obtain ⟨fields, -, -, -, target, -, -, -, arch, -, -, -, edition, -, others, hothers, rfl⟩ := h
    refine ⟨Value.ascending_ofFields others, Value.nestedFields_iff.2 fun f hf => ?_⟩
    obtain ⟨⟨k, n⟩, -, hf⟩ := mem_of_mapM hothers (Value.mem_ofFields hf)
    obtain ⟨v, hv, rfl⟩ := Option.map_eq_some_iff.1 hf
    exact Value.nested_of_ofNode? n hv
  · contradiction

theorem wellFormed_of_readRelease? {n : Node} {r : Release} (h : readRelease? n = some r) :
    ∀ d ∈ r.downloads, d.WellFormed := by
  simp only [readRelease?, Option.bind_eq_bind, Option.bind_eq_some_iff] at h
  obtain ⟨fields, -, h⟩ := h
  split at h
  · next version githash date downloads =>
    simp only [Option.bind_eq_some_iff, Option.some.injEq] at h
    obtain ⟨_, -, _, -, _, -, ds, hds, rfl⟩ := h
    intro d hd
    cases downloads with
    | none =>
      obtain rfl := Option.some.inj hds
      exact absurd hd List.not_mem_nil
    | some k =>
      obtain ⟨n, hn⟩ := mem_of_readArray? hds hd
      exact wellFormed_of_readDownload? hn
  · contradiction

theorem wellFormed_of_ofNode? {n : Node} {m : Manifest} (h : ofNode? n = some m) :
    ∀ r ∈ m.releases, ∀ d ∈ r.downloads, d.WellFormed := by
  simp only [ofNode?, Option.bind_eq_bind, Option.bind_eq_some_iff] at h
  obtain ⟨fields, -, h⟩ := h
  split at h
  · simp only [Option.bind_eq_some_iff, Option.some.injEq] at h
    obtain ⟨rs, hrs, rfl⟩ := h
    intro r hr
    obtain ⟨versions, -, hread⟩ := Option.bind_eq_some_iff.1 hrs
    obtain ⟨k, hk⟩ := mem_of_readArray? hread hr
    exact wellFormed_of_readRelease? hk
  · contradiction

theorem version_of_badVersion? {m : Manifest} (h : m.badVersion? = none) :
    ∀ r ∈ m.releases, ∃ v, Version.parse r.version = .ok v := by
  intro r hr
  have hgood := List.findSome?_eq_none_iff.1 h r hr
  cases hv : Version.parse r.version with
  | ok v => exact ⟨v, rfl⟩
  | error e => simp [hv] at hgood

/-- A list that passes a test when it is read is read. -/
theorem exists_parse {bytes : ByteArray} {p : Manifest → Prop} [DecidablePred p]
    (h : (parse bytes).toOption.any (fun m => p m) = true) : ∃ m, parse bytes = .ok m ∧ p m := by
  rcases hm : parse bytes with e | m <;> rw [hm] at h
  · cases h
  · exact ⟨m, rfl, of_decide_eq_true h⟩

theorem wellFormed_of_parse {bytes : ByteArray} {m : Manifest} (h : parse bytes = .ok m) :
    m.WellFormed := by
  unfold parse at h
  split at h
  · contradiction
  · next hread =>
    split at h
    · contradiction
    · next hversions =>
      cases h
      obtain ⟨n, -, hn⟩ := Option.bind_eq_some_iff.1 hread
      exact ⟨version_of_badVersion? hversions, wellFormed_of_ofNode? hn⟩

end Manifest

end Depot
