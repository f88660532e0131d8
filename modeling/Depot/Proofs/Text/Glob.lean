import Depot.Text.Glob
import Mathlib.Data.Char

/-!
# Names that two patterns share

`Glob.apart` compares two patterns token by token and finds out whether any name can match both, up
to the first run of any characters (`not_matchList_of_apart`).
-/

namespace Depot.Text

/-- Whether the pattern is one and matches the name. -/
def Covers (pattern name : String) : Prop :=
  ∃ g, Glob.parse? pattern = some g ∧ g.matches name = true

namespace Glob

variable {t u : Token} {ts us : List Token} {c : Char} {cs : List Char}

/-- Whether no character belongs to both. -/
def Token.apart : Token → Token → Bool
  | .one a, t | t, .one a => !t.accepts a
  | .within ss, .within ts => ss.all fun s => ts.all fun t => s.last < t.first || t.last < s.first
  | _, _ => false

/-- Whether two patterns differ in length or in some character before a run of any characters. -/
def apart : List Token → List Token → Bool
  | [], [] => false
  | t :: _, [] | [], t :: _ => t ≠ .anyRun
  | t :: ts, u :: us => t ≠ .anyRun && u ≠ .anyRun && (t.apart u || apart ts us)

theorem CharSpan.not_contains_of_lt {s t : CharSpan} (h : s.last < t.first)
    (hs : s.contains c = true) : t.contains c = false := by
  simp only [CharSpan.contains, Bool.and_eq_true, decide_eq_true_eq] at hs
  simp only [CharSpan.contains, Bool.and_eq_false_imp, decide_eq_true_eq]
  intro ht
  exact absurd (lt_of_le_of_lt hs.2 h) (not_lt.2 ht)

theorem CharSpan.not_contains_of_gt {s t : CharSpan} (h : t.last < s.first)
    (hs : s.contains c = true) : t.contains c = false := by
  by_contra ht
  rw [Bool.not_eq_false] at ht
  rw [not_contains_of_lt h ht] at hs
  cases hs

theorem Token.not_accepts_of_apart (h : t.apart u = true) (ht : t.accepts c = true) :
    u.accepts c = false := by
  unfold Token.apart at h
  split at h
  · next a =>
    rw [← eq_of_beq ht]
    simpa using h
  · next a _ =>
    by_contra hu
    rw [Bool.not_eq_false] at hu
    rw [eq_of_beq hu, ht] at h
    cases h
  · next ss ts =>
    obtain ⟨s, hs, hsc⟩ := List.any_eq_true.1 ht
    refine List.any_eq_false.2 fun t' ht' => ?_
    rw [Bool.not_eq_true]
    have hst := List.all_eq_true.1 (List.all_eq_true.1 h s hs) t' ht'
    rw [Bool.or_eq_true, decide_eq_true_eq, decide_eq_true_eq] at hst
    rcases hst with hst | hst
    · exact CharSpan.not_contains_of_lt hst hsc
    · exact CharSpan.not_contains_of_gt hst hsc
  · cases h

theorem matchList_cons_nil (ht : t ≠ .anyRun) : matchList (t :: ts) [] = false := by
  rw [matchList]
  exact ht

theorem matchList_cons_cons (ht : t ≠ .anyRun) :
    matchList (t :: ts) (c :: cs) = (t.accepts c && matchList ts cs) := by
  rw [matchList]
  exact ht

/-- No name matches two patterns that are apart. -/
theorem not_matchList_of_apart (h : apart ts us = true) (hts : matchList ts cs = true) :
    matchList us cs = false := by
  fun_induction apart ts us generalizing cs with
  | case1 => cases h
  | case2 t ts =>
    rcases cs with _ | ⟨c, cs⟩
    · rw [matchList_cons_nil (of_decide_eq_true h)] at hts
      cases hts
    · rw [matchList, List.isEmpty_cons]
  | case3 u us =>
    rw [matchList] at hts
    obtain rfl := List.isEmpty_iff.1 hts
    exact matchList_cons_nil (of_decide_eq_true h)
  | case4 t ts u us ih =>
    simp only [Bool.and_eq_true, decide_eq_true_eq, Bool.or_eq_true] at h
    obtain ⟨⟨ht, hu⟩, h⟩ := h
    rcases cs with _ | ⟨c, cs⟩
    · exact matchList_cons_nil hu
    rw [matchList_cons_cons ht, Bool.and_eq_true] at hts
    rw [matchList_cons_cons hu, Bool.and_eq_false_iff]
    rcases h with h | h
    · exact .inl (Token.not_accepts_of_apart h hts.1)
    · exact .inr (ih h hts.2)

end Glob

end Depot.Text
