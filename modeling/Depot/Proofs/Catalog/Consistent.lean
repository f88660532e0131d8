import Depot.Catalog.Rebuild

/-!
# Rows that refer to one another

A download refers to a release and a component to a download, and no download has two components of
a name. An insertion that would break this fails, so whatever is made of insertions keeps it
(`Keeps`), and every catalog that is made holds to it (`consistent_of_rebuild`).
-/

namespace Depot.Catalog

variable {c c' : Catalog} {α β : Type}

structure Consistent (c : Catalog) : Prop where
  release : ∀ d ∈ c.downloads, ∃ r ∈ c.releases, r.id = d.release
  download : ∀ k ∈ c.components, ∃ d ∈ c.downloads, d.id = k.download
  unique : c.components.Pairwise fun j k => j.download = k.download → j.key ≠ k.key

theorem consistent_empty : empty.Consistent :=
  ⟨by simp [empty], by simp [empty], .nil⟩

def Keeps (x : Change α) : Prop :=
  ∀ c a c', c.Consistent → x c = .ok a c' → c'.Consistent

theorem Keeps.bind {x : Change α} {f : α → Change β} (hx : Keeps x) (hf : ∀ a, Keeps (f a)) :
    Keeps (x >>= f) := by
  intro c b c' hc h
  change EStateM.bind x f c = .ok b c' at h
  rw [EStateM.bind] at h
  split at h
  · next a c₁ hstep => exact hf a c₁ b c' (hx c a c₁ hc hstep) h
  · cases h

theorem Keeps.forM {f : α → Change Unit} (hf : ∀ x, Keeps (f x)) (xs : List α) :
    Keeps (xs.forM f) := by
  induction xs with
  | nil =>
    intro c a c' hc h
    cases h
    exact hc
  | cons x xs ih => exact (hf x).bind fun _ => ih

theorem keeps_insertRelease (r : Release) : Keeps (insertRelease r) := by
  intro c id c' hc h
  unfold insertRelease at h
  split at h <;> cases h
  refine { hc with release := fun d hd => ?_ }
  obtain ⟨s, hs, hsd⟩ := hc.release d hd
  exact ⟨s, List.mem_append_left _ hs, hsd⟩

theorem keeps_insertDownload (release : Nat) (d : Download) :
    Keeps (insertDownload release d) := by
  intro c id c' hc h
  unfold insertDownload at h
  split at h <;> cases h
  next hany =>
  obtain ⟨r, hr, hrd⟩ := List.any_eq_true.1 hany
  refine { hc with release := fun e he => ?_, download := fun k hk => ?_ }
  · rcases List.mem_append.1 he with he | he
    · exact hc.release e he
    · obtain rfl := List.mem_singleton.1 he
      exact ⟨r, hr, beq_iff_eq.1 hrd⟩
  · obtain ⟨e, he, hek⟩ := hc.download k hk
    exact ⟨e, List.mem_append_left _ he, hek⟩

theorem keeps_insertComponent (download : Nat) (key : String) (v : Json.Value) :
    Keeps (insertComponent download key v) := by
  intro c u c' hc h
  unfold insertComponent at h
  split at h <;> cases h
  next hguard =>
  obtain ⟨d, hd, hdk⟩ := List.any_eq_true.1 hguard.1
  refine { hc with download := fun k hk => ?_, unique := ?_ }
  · rcases List.mem_append.1 hk with hk | hk
    · exact hc.download k hk
    · obtain rfl := List.mem_singleton.1 hk
      exact ⟨d, hd, beq_iff_eq.1 hdk⟩
  · refine List.pairwise_append.2 ⟨hc.unique, List.pairwise_singleton _ _, ?_⟩
    intro j hj k hk hdownload hkey
    obtain rfl := List.mem_singleton.1 hk
    refine hguard.2 (List.any_eq_true.2 ⟨j, hj, ?_⟩)
    rw [hdownload, hkey, beq_self_eq_true, beq_self_eq_true, Bool.and_self]

theorem keeps_addDownload (release : Nat) (d : Download) : Keeps (addDownload release d) :=
  (keeps_insertDownload release d).bind fun id =>
    .forM (fun f => keeps_insertComponent id f.1 f.2) d.components

theorem keeps_addRelease (r : Release) : Keeps (addRelease r) :=
  (keeps_insertRelease r).bind fun id => .forM (keeps_addDownload id) r.downloads

/-- Whatever the catalog held before, what a rebuild leaves is consistent. -/
theorem consistent_of_rebuild {m : Manifest} {n : Counts} (h : rebuild m c = .ok n c') :
    c'.Consistent := by
  have hkeeps : Keeps (m.releases.forM addRelease >>= fun _ => pure (countsOf m)) := by
    refine (Keeps.forM keeps_addRelease _).bind fun _ c a c' hc h => ?_
    cases h
    exact hc
  exact hkeeps empty n c' consistent_empty h

end Depot.Catalog
