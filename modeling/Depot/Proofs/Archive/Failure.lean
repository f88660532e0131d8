import Depot.Proofs.Archive.Place

/-!
# Where an extraction fails

An extraction fails at one entry: it cannot be read, or its member cannot be put at its place. The
entries before it, as an archive of their own, are extracted without an error, and from the tree
that this leaves nothing differs but the target of the failing member and the directories above it
(`extract_failed`).
-/

namespace Depot.Archive

open FileTree (OnWay Unlinked)

variable {s : Selection} {t t' t₀ : FileTree} {dest : Location} {o : Options} {m : Member}
  {archive : String} {pattern : Option Pattern} {es : Entries} {e : Error} {l : List Entry}

/-- The first `k` entries as an archive of their own. -/
def Entries.first (es : Entries) (k : Nat) : Entries := ⟨es.list.take k, true⟩

theorem members_first (es : Entries) (k : Nat) :
    (es.first k).members = (es.list.take k).filterMap Entry.member? := rfl

theorem Placed.other {target q : Location} (h : Placed m target t t') (hq : ¬OnWay t' target q) :
    t'.find? q = t.find? q := by
  rcases h.find?_cases q with heq | ⟨-, -, hway⟩ | ⟨-, hr⟩
  · exact heq
  · exact absurd hway hq
  · exact absurd ⟨target, List.prefix_refl _, hr⟩ hq

/-- A member that cannot be stored may leave a part of itself, and new directories above it. -/
theorem store_error {e : FileTree.Error} (hu : Unlinked t s.dest) (h : store s m t = .error e t') :
    s.Wants m ∧ ∀ q, ¬OnWay t' (s.goal m) q → t'.find? q = t.find? q := by
  have hw : s.Wants m := by
    by_contra hw
    rw [store_of_not_wants hw] at h
    cases h
  have hcases := store_cases hu m
  rw [h] at hcases
  refine ⟨hw, fun q hq => ?_⟩
  rcases hcases with rfl | ⟨-, hp⟩
  · rfl
  · exact hp.other hq

/-- A run that fails has stored what comes before some member, and fails at that one. -/
theorem storeAll_error {e : FileTree.Error}
    (h : storeAll s (l.filterMap Entry.member?) t = .error e t') :
    ∃ k m t₀, l[k]? = some (.member m) ∧
      storeAll s ((l.take k).filterMap Entry.member?) t = .ok () t₀ ∧
      store s m t₀ = .error e t' := by
  induction l generalizing t with
  | nil => cases h
  | cons x l ih =>
    rcases x with m | -
    · rw [List.filterMap_cons_some (Entry.member?_member m), storeAll_cons] at h
      rcases hm : store s m t with ⟨⟨⟩, t₁⟩ | ⟨e', t₁⟩
      · simp only [hm] at h
        -- The first entry is stored, so the one that fails is among the others.
        obtain ⟨k, m', t₀, hk, hbefore, hfail⟩ := ih h
        refine ⟨k + 1, m', t₀, hk, ?_, hfail⟩
        rw [List.take_succ_cons, List.filterMap_cons_some (Entry.member?_member m), storeAll_cons]
        simp only [hm, hbefore]
      · simp only [hm] at h
        cases h
        exact ⟨0, m, t, rfl, rfl, hm⟩
    · rw [List.filterMap_cons_none Entry.member?_skipped] at h
      obtain ⟨k, m', t₀, hk, hbefore, hfail⟩ := ih h
      refine ⟨k + 1, m', t₀, hk, ?_, hfail⟩
      rw [List.take_succ_cons, List.filterMap_cons_none Entry.member?_skipped, hbefore]

theorem storeAll_concat {ms : List Member} (h : storeAll s ms t = .ok () t₀) (m : Member) :
    storeAll s (ms ++ [m]) t = store s m t₀ := by
  induction ms generalizing t with
  | nil =>
    cases h
    rw [List.nil_append, storeAll_cons]
    rcases store s m t₀ with ⟨⟨⟩, t₁⟩ | ⟨e, t₁⟩ <;> rfl
  | cons m' ms ih =>
    obtain ⟨t₁, hstep, h⟩ := storeAll_cons_eq_ok_iff.1 h
    rw [List.cons_append, storeAll_cons]
    simp only [hstep]
    exact ih h

/-- Why an extraction of `es` fails at entry `k` and what it leaves, where `t₀` is the tree after
the entries before. -/
inductive FailsAt (archive : String) (dest : Location) (o : Options) (pattern : Option Pattern)
    (es : Entries) (t t₀ t' : FileTree) : Nat → Error → Prop
  | unreadable (h : es.isComplete = false) (heq : t' = t₀) :
      FailsAt archive dest o pattern es t t₀ t' es.list.length (.invalidArchive archive)
  | unplaced {k : Nat} {m : Member} (hk : es.list[k]? = some (.member m))
      (hw : (o.selection dest pattern).Wants m)
      (hnext : extractEntries archive dest o pattern (es.first (k + 1)) t = .error .io t')
      (hother : ∀ q, ¬OnWay t' ((o.selection dest pattern).goal m) q → t'.find? q = t₀.find? q) :
      FailsAt archive dest o pattern es t t₀ t' k .io

/-- There is an entry at which the extraction fails, and those before it can be extracted. -/
def FailsClean (archive : String) (dest : Location) (o : Options) (pattern : Option Pattern)
    (es : Entries) (t t' : FileTree) (e : Error) : Prop :=
  ∃ k r t₀, extractEntries archive dest o pattern (es.first k) t = .ok r t₀ ∧
    (k = 0 → t₀ = t) ∧ FailsAt archive dest o pattern es t t₀ t' k e

theorem extractEntries_failed (hu : Unlinked t dest)
    (h : extractEntries archive dest o pattern es t = .error e t') :
    FailsClean archive dest o pattern es t t' e := by
  have hok : ∀ {k t₀}, storeAll (o.selection dest pattern) (es.first k).members t = .ok () t₀ →
      extractEntries archive dest o pattern (es.first k) t =
        .ok ((o.selection dest pattern).report (es.first k).members) t₀ := fun hs =>
    extractEntries_eq_ok_iff.2 ⟨hs, rfl, rfl⟩
  have hzero : ∀ {k t₀}, storeAll (o.selection dest pattern) (es.first k).members t = .ok () t₀ →
      k = 0 → t₀ = t := by
    rintro k t₀ hs rfl
    cases hs
    rfl
  rw [extractEntries_eq] at h
  rcases hs : storeAll (o.selection dest pattern) es.members t with ⟨⟨⟩, t₁⟩ | ⟨e₁, t₁⟩ <;>
    simp only [hs] at h
  · split at h
    · cases h
    next hcomplete =>
      cases h
      have hall : (es.first es.list.length).members = es.members := by
        rw [members_first, List.take_length, Entries.members]
      rw [← hall] at hs
      exact ⟨_, _, _, hok hs, hzero hs, .unreadable (by simpa using hcomplete) rfl⟩
  · cases h
    obtain ⟨k, m, t₀, hk, hbefore, hfail⟩ := storeAll_error hs
    rw [← members_first] at hbefore
    have hu₀ : Unlinked t₀ dest :=
      hu.grows (storeAll_grows_of_ok (s := o.selection dest pattern) hu hbefore)
    obtain ⟨hw, hother⟩ := store_error hu₀ hfail
    refine ⟨k, _, t₀, hok hbefore, hzero hbefore, .unplaced hk hw ?_ hother⟩
    have hmembers : (es.first (k + 1)).members = (es.first k).members ++ [m] := by
      rw [members_first, List.take_add_one, hk, List.filterMap_append]
      rfl
    rw [extractEntries_eq, hmembers, storeAll_concat hbefore, hfail]

/-- An extraction that fails has either not begun, and then the tree is as it was, or it fails at
some entry, after the ones before it and without a trace elsewhere. -/
theorem extract_failed (hu : Unlinked t dest) (o : Options) (archive : String)
    (source : Location) :
    (∀ pattern es e t', extractEntries archive dest o pattern es t = .error e t' →
      FailsClean archive dest o pattern es t t' e) ∧
    ∀ e t', extract archive source dest o t = .error e t' →
      opened t archive source o.pattern = .error e ∧ t' = t ∨
        ∃ pattern es, opened t archive source o.pattern = .ok (pattern, es) ∧
          FailsClean archive dest o pattern es t t' e := by
  refine ⟨fun pattern es e t' => extractEntries_failed hu, fun e t' h => ?_⟩
  rw [extract_eq] at h
  rcases hopen : opened t archive source o.pattern with e' | ⟨pattern, es⟩ <;>
    simp only [hopen] at h
  · cases h
    exact .inl ⟨rfl, rfl⟩
  · exact .inr ⟨pattern, es, rfl, extractEntries_failed hu h⟩

section Sample

/-- The content of `e/h` breaks off. -/
def brokenEntries : Entries where
  list := [.member ⟨"d/f", false, 0o640, ⟨⟨#[97]⟩, false⟩⟩, .skipped,
    .member ⟨"e/h", false, 0o600, ⟨⟨#[98]⟩, true⟩⟩, .member ⟨"i", false, 0o644, ⟨.empty, false⟩⟩]
  isComplete := true

/-- In the place of `e/h` there is what could be read of it. -/
def brokenTree : FileTree where
  nodes := [(["out", "e", "h"], .file ⟨#[98]⟩ 0o644), (["out", "e"], .directory),
    (["out", "d", "f"], .file ⟨#[97]⟩ 0o640), (["a.zip"], .file sampleZip 0o644),
    (["latest"], .link "out"), (["out"], .directory), (["out", "d"], .directory),
    (["out", "g"], .file ⟨#[100]⟩ 0o600)]

theorem extract_failed_sample : Unlinked sampleTree ["latest"] ∧
    extractEntries "a.zip" ["latest"] .default none brokenEntries sampleTree =
      .error .io brokenTree ∧
    FailsClean "a.zip" ["latest"] .default none brokenEntries sampleTree brokenTree .io := by
  have h : extractEntries "a.zip" ["latest"] .default none brokenEntries sampleTree =
      .error .io brokenTree := by decide +kernel
  exact ⟨unlinked_sample, h,
    (extract_failed unlinked_sample .default "a.zip" ["a.zip"]).1 _ _ _ _ h⟩

end Sample

end Depot.Archive
