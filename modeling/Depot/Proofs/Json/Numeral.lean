import Depot.Json.Numeral
import Depot.Proofs.Text.Digit
import Mathlib.Data.List.TakeWhile

/-!
# Integers as numerals

An integer of 64 bits is written as a numeral that reads as the same integer.
-/

namespace Depot.Json

open Depot.Text

/-- Whether the number is an integer of 64 bits, signed or not. -/
def Number.Whole : Number → Prop
  | .int n => -(2 ^ 63) ≤ n ∧ n < 2 ^ 64
  | .float _ _ => False

instance : DecidablePred Number.Whole
  | .int n => inferInstanceAs (Decidable (-(2 ^ 63) ≤ n ∧ n < 2 ^ 64))
  | .float _ _ => inferInstanceAs (Decidable False)

namespace Numeral

theorem absorb_of_lt {bound n : Nat} {ds : List Nat} (h : valueFrom 10 n ds < bound) :
    absorb bound n ds = (valueFrom 10 n ds, []) := by
  induction ds generalizing n with
  | nil => rfl
  | cons d ds ih =>
    have hle := le_valueFrom (by decide : 0 < 10) (n * 10 + d) ds
    rw [valueFrom] at h ⊢
    rw [absorb, if_pos (by omega), ih h]

/-- The numeral that an integer is written as. -/
def ofInt (n : Int) : Numeral :=
  ⟨decide (n < 0), digitsOf (Number.digitsText n.natAbs), [], none⟩

theorem readWhole?_toDigits (n : Nat) :
    readWhole? (Nat.toDigits 10 n) = some (digitsOf (Nat.toDigits 10 n), []) := by
  have hdigits : ∀ c ∈ Nat.toDigits 10 n, c.isDigit = true :=
    fun c => Nat.isDigit_of_mem_toDigits (by decide) (by decide)
  have htake := List.takeWhile_eq_self_iff.2 hdigits
  have hdrop := List.dropWhile_eq_nil_iff.2 hdigits
  unfold readWhole?
  rw [htake, hdrop]
  split
  · next h => exact absurd h Nat.toDigits_ne_nil
  · next h => exact absurd (toDigits_eq_zero_cons h).2 (by simp)
  · rfl

theorem read?_toDigits (n : Nat) :
    read? (Nat.toDigits 10 n) = some ⟨false, digitsOf (Nat.toDigits 10 n), [], none⟩ := by
  have hhead : ∀ cs, Nat.toDigits 10 n ≠ '-' :: cs := by
    intro cs h
    have hminus : '-' ∈ Nat.toDigits 10 n := h ▸ List.mem_cons_self
    exact absurd (Nat.isDigit_of_mem_toDigits (by decide) (by decide) hminus) (by decide)
  unfold read?
  split
  next negative cs h =>
  split at h
  · next h' => exact absurd h' (hhead _)
  · cases h
    rw [readWhole?_toDigits]
    rfl

theorem read?_minus_toDigits (n : Nat) :
    read? ('-' :: Nat.toDigits 10 n) = some ⟨true, digitsOf (Nat.toDigits 10 n), [], none⟩ := by
  simp only [read?, readWhole?_toDigits]
  rfl

theorem read?_render (n : Int) : read? (Number.render (.int n)) = some (ofInt n) := by
  rw [Number.render, Number.digitsText, ofInt]
  by_cases hn : n < 0
  · rw [if_pos hn, decide_eq_true hn]
    exact read?_minus_toDigits n.natAbs
  · rw [if_neg hn, decide_eq_false hn]
    exact read?_toDigits n.natAbs

theorem value?_ofInt {n : Int} (h : (Number.int n).Whole) : (ofInt n).value? = some (.int n) := by
  obtain ⟨hlow, hhigh⟩ := h
  have hread : valueFrom 10 0 (digitsOf (Number.digitsText n.natAbs)) = n.natAbs :=
    valueFrom_toDigits n.natAbs
  have habsorb : absorb (2 ^ 64) 0 (digitsOf (Number.digitsText n.natAbs)) = (n.natAbs, []) := by
    rw [absorb_of_lt (by rw [hread]; omega), hread]
  unfold value? ofInt
  simp only [habsorb, decide_eq_true_eq]
  rw [if_pos ⟨trivial, trivial, trivial, fun hn => by omega⟩]
  by_cases hn : n < 0
  · rw [if_pos hn, show -(n.natAbs : Int) = n by omega]
  · rw [if_neg hn, show (n.natAbs : Int) = n by omega]

end Numeral

end Depot.Json
