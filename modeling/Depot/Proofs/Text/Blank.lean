import Depot.Text.Blank
import Mathlib.Data.List.Basic
import Mathlib.Data.List.TakeWhile

/-!
# Runs of characters

Where a run of characters ends, and what trimming leaves of a text with a character that stays.
-/

namespace Depot.Text

variable {p : Char → Bool} {a cs g r : List Char} {m : Char}

theorem takeWhile_run (hg : ∀ c ∈ g, p c = true) (hr : ∀ c ∈ r.head?, p c = false) :
    (g ++ r).takeWhile p = g := by
  rw [List.takeWhile_append_of_pos hg]
  cases r with
  | nil => rw [List.takeWhile_nil, List.append_nil]
  | cons c r => rw [List.takeWhile_cons_of_neg (by simp [hr c rfl]), List.append_nil]

theorem dropWhile_run (hg : ∀ c ∈ g, p c = true) (hr : ∀ c ∈ r.head?, p c = false) :
    (g ++ r).dropWhile p = r := by
  rw [List.dropWhile_append_of_pos hg]
  cases r with
  | nil => rfl
  | cons c r => rw [List.dropWhile_cons_of_neg (by simp [hr c rfl])]

theorem head_dropWhile {c : Char} (h : c ∈ (cs.dropWhile p).head?) : p c = false := by
  have hn := List.head?_dropWhile_not p cs
  rwa [h] at hn

/-- Nothing is dropped from a character that stays on. -/
theorem dropWhile_append_cons (hm : p m = false) (a r : List Char) :
    (a ++ m :: r).dropWhile p = a.dropWhile p ++ m :: r := by
  induction a with
  | nil => exact List.dropWhile_cons_of_neg (by simp [hm])
  | cons c a ih =>
    rw [List.cons_append, List.dropWhile_cons, List.dropWhile_cons, ih]
    split <;> rfl

theorem takeWhile_append_cons (hm : p m = false) (a r : List Char) :
    (a ++ m :: r).takeWhile p = a.takeWhile p := by
  induction a with
  | nil => exact List.takeWhile_cons_of_neg (by simp [hm])
  | cons c a ih => rw [List.cons_append, List.takeWhile_cons, List.takeWhile_cons, ih]

theorem trimBy_append_cons (hm : p m = false) (a r : List Char) :
    trimBy p (a ++ m :: r) = a.dropWhile p ++ m :: (r.reverse.dropWhile p).reverse := by
  rw [trimBy, dropWhile_append_cons hm, List.reverse_append, List.reverse_cons, List.append_assoc,
    List.singleton_append, dropWhile_append_cons hm, List.reverse_append, List.reverse_cons,
    List.reverse_reverse, List.append_assoc, List.singleton_append]

theorem trimBy_eq_dropWhile (ha : ∀ c ∈ a.getLast?, p c = false) :
    trimBy p a = a.dropWhile p := by
  rcases List.eq_nil_or_concat a with rfl | ⟨b, c, rfl⟩
  · rfl
  · have hc : p c = false := ha c (by simp)
    rw [List.concat_eq_append, trimBy_append_cons hc, dropWhile_append_cons hc]
    rfl

end Depot.Text
