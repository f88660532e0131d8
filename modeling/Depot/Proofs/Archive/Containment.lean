import Depot.Proofs.Archive.Place

/-!
# Extraction stays inside the destination

Each member that is stored changes places inside the destination only, and makes the directories
that lead to it (`Placed.contained`). Both go on to hold from member to member, so they hold of
every extraction of every archive, wherever it stops (`extract_confined`).
-/

namespace Depot.Archive

open FileTree (Grows OnWay Unlinked)

variable {t t' t'' : FileTree} {dest : Location} {ns : List String} {s : Selection} {m : Member}

/-- Some names further down from `r`. -/
def Inside (r l : Location) : Prop :=
  ∃ ns, ns ≠ [] ∧ (∀ n ∈ ns, Downward n) ∧ l = r ++ ns

/-- Only places inside the destination have changed, but for new directories on the way to it. -/
def Contained (dest : Location) (t t' : FileTree) : Prop :=
  ∀ q, t'.find? q = t.find? q ∨ (∃ r, t'.resolve true dest = .ok r ∧ Inside r q) ∨
    t.find? q = none ∧ t'.find? q = some .directory ∧ OnWay t' dest q

theorem Contained.refl (dest : Location) (t : FileTree) : Contained dest t t := fun _ => .inl rfl

theorem Contained.trans (h : Contained dest t t') (h' : Contained dest t' t'') (hg : Grows t' t'') :
    Contained dest t t'' := by
  intro q
  rcases h q with heq | ⟨r, hr, hin⟩ | ⟨hnone, hdir, hway⟩
  · rw [← heq]
    exact h' q
  · exact .inr (.inl ⟨r, FileTree.resolve_true_of_grows hg hr, hin⟩)
  · exact .inr (.inr ⟨hnone, hg.directory q hdir, hway.grows hg⟩)

theorem Placed.contained (hu : Unlinked t dest) (hns : ns ≠ []) (hd : ∀ n ∈ ns, Downward n)
    (h : Placed m (dest ++ ns) t t') : Contained dest t t' := by
  have hu' := hu.grows h.grows
  intro q
  rcases h.find?_cases q with heq | ⟨hnone, hdir, hway⟩ | ⟨-, hr⟩
  · exact .inl heq
  · rcases hu'.onWay_cases (plain_of_downward hd) hway with hway | ⟨r, ms, hr, hms, hpre, rfl⟩
    · exact .inr (.inr ⟨hnone, hdir, hway⟩)
    · exact .inr (.inl ⟨r, hr, ms, hms, fun n hn => hd n (hpre.subset hn), rfl⟩)
  · obtain ⟨r, hdest, -, rfl⟩ := hu'.resolve_append (plain_of_downward hd) hns hr
    exact .inr (.inl ⟨r, hdest, ns, hns, hd, rfl⟩)

theorem store_contained (hu : Unlinked t s.dest) (m : Member) :
    Contained s.dest t (treeAfter (store s m t)) := by
  rcases store_cases hu m with heq | ⟨hw, hp⟩
  · rw [heq]
    exact .refl _ t
  · exact hp.contained hu (s.way_ne_nil hw) fun _ => s.downward_of_mem_way hw

theorem storeAll_contained (hu : Unlinked t s.dest) (ms : List Member) :
    Contained s.dest t (treeAfter (storeAll s ms t)) := by
  induction ms generalizing t with
  | nil => exact .refl _ t
  | cons m ms ih =>
    have hstep := store_contained hu m
    have hg := store_grows hu m
    rw [storeAll_cons]
    rcases h : store s m t with ⟨⟨⟩, t₁⟩ | ⟨e, t₁⟩ <;> simp only [h, treeAfter] at hstep hg ⊢
    · have hu₁ := hu.grows hg
      exact hstep.trans (ih hu₁) (storeAll_grows hu₁ ms)
    · exact hstep

/-- The entries without the members whose paths escape. -/
def Entries.confined (es : Entries) : Entries :=
  ⟨es.list.filter fun e => e.member?.all fun m => ¬Escapes m.name, es.isComplete⟩

theorem members_confined (es : Entries) :
    es.confined.members = es.members.filter fun m => ¬Escapes m.name := by
  rw [Entries.members, Entries.confined, Entries.members, List.filterMap_filter,
    List.filter_filterMap]
  congr 1
  funext e
  rcases e with m | -
  · by_cases he : Escapes m.name <;> simp [he, Option.filter]
  · rfl

/-- What an extraction of `es` to `dest` may come to. -/
structure Confined (archive : String) (dest : Location) (o : Options) (pattern : Option Pattern)
    (es : Entries) (t : FileTree) (x : EStateM.Result Error FileTree Report) : Prop where
  contained : Contained dest t (treeAfter x)
  selected : ∀ r ∈ reportOf? x, ∀ l ∈ r.selected, Inside dest l
  /-- Members that escape are as good as missing. -/
  unwritten : treeAfter x = treeAfter (extractEntries archive dest o pattern es.confined t)
  /-- Those and no others are counted. -/
  counted : ∀ r ∈ reportOf? x, r.unsafeMembers = es.members.countP fun m => Escapes m.name

theorem treeAfter_extractEntries (archive : String) (dest : Location) (o : Options)
    (pattern : Option Pattern) (es : Entries) (t : FileTree) :
    treeAfter (extractEntries archive dest o pattern es t) =
      treeAfter (storeAll (o.selection dest pattern) es.members t) := by
  rw [extractEntries_eq]
  rcases storeAll (o.selection dest pattern) es.members t with ⟨⟨⟩, t'⟩ | ⟨e, t'⟩
  · cases es.isComplete <;> rfl
  · rfl

theorem extractEntries_confined (hu : Unlinked t dest) (archive : String) (o : Options)
    (pattern : Option Pattern) (es : Entries) :
    Confined archive dest o pattern es t (extractEntries archive dest o pattern es t) where
  contained := by
    rw [treeAfter_extractEntries]
    exact storeAll_contained (s := o.selection dest pattern) hu es.members
  selected r hr l hl := by
    obtain ⟨-, -, rfl⟩ := extractEntries_eq_ok_iff.1 (reportOf?_eq_some hr)
    obtain ⟨m, hm, rfl⟩ := List.mem_map.1 hl
    have hw : (o.selection dest pattern).Wants m := of_decide_eq_true (List.mem_filter.1 hm).2
    exact ⟨_, Selection.way_ne_nil hw, fun _ => Selection.downward_of_mem_way hw, rfl⟩
  unwritten := by
    rw [treeAfter_extractEntries, treeAfter_extractEntries, members_confined, storeAll_filter]
    exact fun m hw => by simpa using hw.1
  counted r hr := by
    obtain ⟨-, -, rfl⟩ := extractEntries_eq_ok_iff.1 (reportOf?_eq_some hr)
    rfl

/-- Whatever the archive and whether or not the extraction succeeds: nothing changes outside the
destination, and members that escape are counted and not written. -/
theorem extract_confined (hu : Unlinked t dest) (archive : String) (source : Location)
    (o : Options) :
    Contained dest t (treeAfter (extract archive source dest o t)) ∧
      (∀ pattern es, opened t archive source o.pattern = .ok (pattern, es) →
        Confined archive dest o pattern es t (extract archive source dest o t)) ∧
      ∀ pattern es,
        Confined archive dest o pattern es t (extractEntries archive dest o pattern es t) := by
  refine ⟨?_, fun pattern es ho => ?_, extractEntries_confined hu archive o⟩
  · rw [extract_eq]
    rcases opened t archive source o.pattern with e | ⟨pattern, es⟩
    · exact .refl dest t
    · exact (extractEntries_confined hu archive o pattern es).contained
  · rw [extract_eq, ho]
    exact extractEntries_confined hu archive o pattern es

section Sample

/-- The sample is extracted through a link to the destination. -/
theorem extract_confined_sample : Unlinked sampleTree ["latest"] ∧
    Confined "a.zip" ["latest"] (sampleOptions false) samplePattern sampleEntries sampleTree
      (extract "a.zip" ["a.zip"] ["latest"] (sampleOptions false) sampleTree) ∧
    reportOf? (extract "a.zip" ["a.zip"] ["latest"] (sampleOptions false) sampleTree) =
      some ⟨[["latest", "d", "f"], ["latest", "d", "f"]], 3, 1, false⟩ := by
  obtain ⟨-, h, -⟩ := extract_confined unlinked_sample "a.zip" ["a.zip"] (sampleOptions false)
  exact ⟨unlinked_sample, h _ _ opened_sample, reportOf?_sample⟩

end Sample

end Depot.Archive
