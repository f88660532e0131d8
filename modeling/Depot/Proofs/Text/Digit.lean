import Depot.Text.Digit
import Mathlib.Data.List.Basic

/-!
# Writing and reading digits

What `Nat.toDigits` writes has ASCII digits only, no zero in front, and reads as the number
itself. It is the only such run of digits for a number (`toDigits_ofDigitChars_iff`).
-/

namespace Depot.Text

theorem le_valueFrom {base : Nat} (hb : 0 < base) (n : Nat) (ds : List Nat) :
    n ≤ valueFrom base n ds := by
  induction ds generalizing n with
  | nil => exact Nat.le_refl n
  | cons d ds ih =>
    have hn : n ≤ n * base := Nat.le_mul_of_pos_right n hb
    have hrest := ih (n * base + d)
    rw [valueFrom]
    omega

theorem valueFrom_map_digitValue (n : Nat) (cs : List Char) :
    valueFrom 10 n (cs.map digitValue) = Nat.ofDigitChars 10 cs n := by
  induction cs generalizing n with
  | nil => rfl
  | cons c cs ih =>
    rw [List.map_cons, valueFrom, ih, Nat.ofDigitChars_cons, Nat.mul_comm, digitValue]

theorem valueFrom_toDigits (n : Nat) :
    valueFrom 10 0 ((Nat.toDigits 10 n).map digitValue) = n := by
  rw [valueFrom_map_digitValue, Nat.ofDigitChars_toDigits (by decide) (by decide)]

theorem toDigits_eq_zero_cons {n : Nat} {cs : List Char} (h : Nat.toDigits 10 n = '0' :: cs) :
    n = 0 ∧ cs = [] := by
  induction n using Nat.strongRecOn generalizing cs with
  | _ n ih =>
    by_cases hn : n < 10
    · rw [Nat.toDigits_of_lt_base hn] at h
      simpa using h
    · -- the first digit is that of `n / 10`, which is not zero
      rw [Nat.toDigits_of_base_le (by decide) (by omega)] at h
      obtain ⟨c, ds, hds⟩ :=
        List.exists_cons_of_ne_nil (Nat.toDigits_ne_nil (n := n / 10) (b := 10))
      rw [hds, List.cons_append, List.cons.injEq] at h
      have := (ih (n / 10) (by omega) (h.1 ▸ hds)).1
      omega

/-- A run of digits with a zero in front that the number does not need. -/
def Padded (cs : List Char) : Prop :=
  ∃ c rest, cs = '0' :: c :: rest

theorem not_padded_toDigits (n : Nat) : ¬ Padded (Nat.toDigits 10 n) := by
  rintro ⟨c, rest, h⟩
  cases (toDigits_eq_zero_cons h).2

theorem digitValue_lt {c : Char} (h : c.isDigit) : digitValue c < 10 := by
  have hhigh : c.toNat ≤ 57 := by
    rw [Char.isDigit, Bool.and_eq_true, decide_eq_true_eq] at h
    exact of_decide_eq_true h.2
  rw [digitValue, show '0'.toNat = 48 from rfl]
  omega

theorem toDigits_digitValue {c : Char} (h : c.isDigit) : Nat.toDigits 10 (digitValue c) = [c] := by
  have hlow : 48 ≤ c.toNat := by
    rw [Char.isDigit, Bool.and_eq_true, decide_eq_true_eq] at h
    exact h.1
  have hchar : (digitValue c).digitChar = c := by
    rw [← Char.toNat_inj, Nat.toNat_digitChar_of_lt_ten (digitValue_lt h), digitValue,
      show '0'.toNat = 48 from rfl]
    omega
  rw [Nat.toDigits_of_lt_base (digitValue_lt h), hchar]

/-- Behind a number that is not zero, a digit is added as it is. -/
theorem toDigits_append {cs : List Char} (hcs : ∀ c ∈ cs, c.isDigit) {n : Nat} (hn : 0 < n) :
    Nat.toDigits 10 (Nat.ofDigitChars 10 cs n) = Nat.toDigits 10 n ++ cs := by
  induction cs generalizing n with
  | nil => simp
  | cons c cs ih =>
    obtain ⟨hc, hcs⟩ := List.forall_mem_cons.1 hcs
    calc Nat.toDigits 10 (Nat.ofDigitChars 10 (c :: cs) n)
        = Nat.toDigits 10 (Nat.ofDigitChars 10 cs (10 * n + digitValue c)) := by
          rw [Nat.ofDigitChars_cons, digitValue]
      _ = Nat.toDigits 10 (10 * n + digitValue c) ++ cs := ih hcs (by omega)
      _ = Nat.toDigits 10 n ++ Nat.toDigits 10 (digitValue c) ++ cs := by
          rw [Nat.toDigits_append_toDigits (by decide) hn (digitValue_lt hc)]
      _ = Nat.toDigits 10 n ++ c :: cs := by
          rw [toDigits_digitValue hc, List.append_assoc, List.singleton_append]

theorem toDigits_ofDigitChars_iff {cs : List Char} (hne : cs ≠ []) (hcs : ∀ c ∈ cs, c.isDigit) :
    Nat.toDigits 10 (Nat.ofDigitChars 10 cs 0) = cs ↔ ¬ Padded cs := by
  refine ⟨fun h => h ▸ not_padded_toDigits _, fun hpad => ?_⟩
  obtain ⟨c, rest, rfl⟩ := List.exists_cons_of_ne_nil hne
  obtain ⟨hc, hrest⟩ := List.forall_mem_cons.1 hcs
  have hfirst : Nat.ofDigitChars 10 (c :: rest) 0 = Nat.ofDigitChars 10 rest (digitValue c) := by
    rw [Nat.ofDigitChars_cons, Nat.mul_zero, Nat.zero_add, digitValue]
  rw [hfirst]
  rcases Nat.eq_zero_or_pos (digitValue c) with hzero | hpos
  · -- a zero stands alone, since more digits behind it would be a padded run
    have hc0 : c = '0' := by simpa [hzero] using (toDigits_digitValue hc).symm
    cases rest with
    | nil => rw [Nat.ofDigitChars_nil, toDigits_digitValue hc]
    | cons d rest => exact absurd ⟨d, rest, by rw [hc0]⟩ hpad
  · rw [toDigits_append hrest hpos, toDigits_digitValue hc, List.singleton_append]

end Depot.Text
