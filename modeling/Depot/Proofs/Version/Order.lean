import Depot.Version.Parser

/-!
# The order of versions

Versions are linearly ordered (`compare_eq_iff` with the instance of `Std.TransCmp`). `collate`
orders texts that are versions as the versions are ordered, with all other texts before them: a
total preorder (`collate_preorder`), so that sorting by it orders any list of texts.
-/

namespace Depot

theorem Stage.rank_injective {a b : Stage} (h : a.rank = b.rank) : a = b := by
  cases a <;> cases b <;> first | rfl | cases h

namespace Version

theorem compare_swap (a b : Version) : (a.compare b).swap = b.compare a := by
  simp only [compare, Ordering.swap_then, Nat.compare_swap]

theorem parse?_eq_some_iff {text : String} {v : Version} :
    parse? text = some v ↔ parse text = .ok v := by
  rw [parse?]
  rcases parse text with e | w <;> simp [Except.toOption]

theorem parse?_of_error {text : String} {e : Error} (h : parse text = .error e) :
    parse? text = none := by
  rw [parse?, h]
  rfl

theorem collate_of_parse {a b : String} {v w : Version} (ha : parse a = .ok v)
    (hb : parse b = .ok w) : collate a b = v.compare w := by
  rw [collate, parse?_eq_some_iff.2 ha, parse?_eq_some_iff.2 hb]

theorem collate_of_error {a b : String} {e e' : Error} (ha : parse a = .error e)
    (hb : parse b = .error e') : collate a b = Ord.compare a b := by
  rw [collate, parse?_of_error ha, parse?_of_error hb]

theorem collate_of_error_of_parse {a b : String} {e : Error} {w : Version}
    (ha : parse a = .error e) (hb : parse b = .ok w) : collate a b = .lt := by
  rw [collate, parse?_of_error ha, parse?_eq_some_iff.2 hb]

/-- The order is the lexicographic one of the five parts. -/
instance : Std.TransCmp compare :=
  inferInstanceAs <| Std.TransCmp <|
    compareLex (compareOn major) <| compareLex (compareOn minor) <|
    compareLex (compareOn patch) <| compareLex (compareOn (·.stage.rank)) (compareOn number)

theorem compare_eq_iff {v w : Version} : v.compare w = .eq ↔ v = w := by
  constructor
  · intro h
    simp only [compare, Ordering.then_eq_eq, Nat.compare_eq_eq] at h
    obtain ⟨hmajor, hminor, hpatch, hrank, hnumber⟩ := h
    have hstage := Stage.rank_injective hrank
    cases v
    cases w
    simp_all only
  · rintro rfl
    exact Std.ReflCmp.compare_self

theorem collate_swap (a b : String) : collate a b = (collate b a).swap := by
  cases ha : parse? a <;> cases hb : parse? b <;> simp only [collate, ha, hb]
  · exact Std.OrientedCmp.eq_swap
  · rfl
  · rfl
  · exact (compare_swap _ _).symm

/-- A text that is no version has only such texts before it. -/
instance : Std.TransCmp collate where
  eq_swap := collate_swap _ _
  isLE_trans {a b c} hab hbc := by
    cases ha : parse? a <;> cases hb : parse? b <;> cases hc : parse? c <;>
      simp only [collate, ha, hb, hc] at hab hbc ⊢
    case none.none.none => exact Std.TransCmp.isLE_trans hab hbc
    case some.some.some => exact Std.TransCmp.isLE_trans hab hbc
    all_goals first | rfl | exact absurd hab (by decide) | exact absurd hbc (by decide)

theorem isLE_collate_total (a b : String) : (collate a b).isLE ∨ (collate b a).isLE := by
  rw [collate_swap b a]
  cases collate a b <;> simp

theorem sortTexts_perm (texts : List String) : (sortTexts texts).Perm texts :=
  List.mergeSort_perm ..

theorem sortTexts_pairwise (texts : List String) :
    (sortTexts texts).Pairwise fun a b => (collate a b).isLE := by
  refine List.pairwise_mergeSort (fun a b c => Std.TransCmp.isLE_trans) (fun a b => ?_) texts
  simpa using isLE_collate_total a b

/-- `collate` is a total preorder: the texts that are no version come first, in the order of their
characters, and then the versions in theirs. Sorting by it orders any list of texts. -/
theorem collate_preorder :
    (∀ a b, collate b a = (collate a b).swap) ∧
      (∀ a b c, collate a b ≠ .gt → collate b c ≠ .gt → collate a c ≠ .gt) ∧
      (∀ a b c, collate a b = .eq → collate a c = collate b c) ∧
      (∀ a b e w, parse a = .error e → parse b = .ok w → collate a b = .lt) ∧
      (∀ a b v w, parse a = .ok v → parse b = .ok w → collate a b = v.compare w) ∧
      (∀ a b e e', parse a = .error e → parse b = .error e' → (collate a b = .eq ↔ a = b)) ∧
      (∀ v w : Version, v.compare w = .eq ↔ v = w) ∧
      ∀ texts, (sortTexts texts).Perm texts ∧
        (sortTexts texts).Pairwise fun a b => collate a b ≠ .gt := by
  refine ⟨fun a b => collate_swap b a, fun a b c hab hbc => ?_, fun a b c h => ?_,
    fun a b e w => collate_of_error_of_parse, fun a b v w => collate_of_parse,
    fun a b e e' ha hb => ?_, fun v w => compare_eq_iff, fun texts => ⟨sortTexts_perm texts, ?_⟩⟩
  · have hab := Ordering.ne_gt_iff_isLE.1 hab
    have hbc := Ordering.ne_gt_iff_isLE.1 hbc
    exact Ordering.ne_gt_iff_isLE.2 (Std.TransCmp.isLE_trans hab hbc)
  · exact Std.TransCmp.congr_left h
  · rw [collate_of_error ha hb]
    exact Std.LawfulEqCmp.compare_eq_iff_eq
  · exact (sortTexts_pairwise texts).imp Ordering.ne_gt_iff_isLE.2

/-- A text that overflows is no version, and a leading zero makes no difference. -/
theorem collate_preorder_sample :
    collate "4294967296.0" "7.0" ≠ .gt ∧ collate "7.0" "7.0.0-rc1" ≠ .gt ∧
      collate "4294967296.0" "7.0.0-rc1" ≠ .gt ∧
      collate "7.0.01" "7.0.1" = .eq ∧ collate "7.0.01" "7.0" = collate "7.0.1" "7.0" ∧
      parse "4294967296.0" = .error (.malformed "4294967296.0") ∧
      parse "7.0" = .ok ⟨7, 0, 0, .series, 0⟩ ∧ collate "4294967296.0" "7.0" = .lt ∧
      parse "7.0.0-rc1" = .ok ⟨7, 0, 0, .releaseCandidate, 1⟩ ∧
      collate "7.0" "7.0.0-rc1" =
        compare ⟨7, 0, 0, .series, 0⟩ ⟨7, 0, 0, .releaseCandidate, 1⟩ ∧
      parse "7.0.0-x1" = .error (.unknownTag "7.0.0-x1" "x") ∧
      (collate "4294967296.0" "7.0.0-x1" = .eq ↔ "4294967296.0" = "7.0.0-x1") := by
  obtain ⟨-, htrans, hcongr, hlt, hversions, hother, -⟩ := collate_preorder
  have h₁ : parse "4294967296.0" = .error (.malformed "4294967296.0") := rfl
  have h₂ : parse "7.0" = .ok ⟨7, 0, 0, .series, 0⟩ := rfl
  have h₃ : parse "7.0.0-rc1" = .ok ⟨7, 0, 0, .releaseCandidate, 1⟩ := rfl
  have h₄ : parse "7.0.0-x1" = .error (.unknownTag "7.0.0-x1" "x") := rfl
  have hab : collate "4294967296.0" "7.0" ≠ .gt := by decide
  have hbc : collate "7.0" "7.0.0-rc1" ≠ .gt := by decide
  have heq : collate "7.0.01" "7.0.1" = .eq := by decide
  exact ⟨hab, hbc, htrans _ _ _ hab hbc, heq, hcongr _ _ _ heq, h₁, h₂, hlt _ _ _ _ h₁ h₂, h₃,
    hversions _ _ _ _ h₂ h₃, h₄, hother _ _ _ _ h₁ h₄⟩

end Version

end Depot
