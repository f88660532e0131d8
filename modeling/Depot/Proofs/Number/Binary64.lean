import Depot.Number.Binary64
import Mathlib.Algebra.Order.Field.Power
import Mathlib.Algebra.Order.Ring.Rat
import Mathlib.Tactic.FieldSimp
import Mathlib.Tactic.NormNum
import Mathlib.Tactic.Positivity
import Mathlib.Tactic.Ring

/-!
# How far rounding goes

Rounding does not take a quotient past a number of the format (`ofRatio?_le`), and it leaves natural
numbers of up to 53 bits as they are (`ofNat?_exact`).
-/

namespace Depot

theorem roundHalfEven_le {n d c : Nat} (hd : 0 < d) (h : n ≤ c * d) : roundHalfEven n d ≤ c := by
  have hq : n / d ≤ c := Nat.div_le_of_le_mul (by rwa [Nat.mul_comm])
  have hdiv := Nat.div_add_mod n d
  rw [roundHalfEven]
  rcases Nat.lt_or_eq_of_le hq with hlt | heq
  · split_ifs <;> omega
  · have hmod : n % d = 0 := by
      rw [heq, Nat.mul_comm] at hdiv
      omega
    rw [hmod, if_neg (by omega), heq]

theorem roundHalfEven_one (n : Nat) : roundHalfEven n 1 = n := by
  simp [roundHalfEven, Nat.mod_one]

namespace Binary64

variable {num den n : Nat} {x y z : Binary64}

/-- What `x` stands for. -/
def value (x : Binary64) : ℚ := x.mantissa * 2 ^ x.exponent

theorem two_zpow (e : Int) : (2 : ℚ) ^ e = 2 ^ e.toNat / 2 ^ (-e).toNat := by
  rcases e with n | n
  · simp
  · simp [Int.neg_negSucc, zpow_negSucc]

theorem value_eq (x : Binary64) : x.value = x.numerator / x.denominator := by
  rw [value, two_zpow, numerator, denominator]
  push_cast
  ring

theorem denominator_pos (x : Binary64) : 0 < x.denominator := Nat.two_pow_pos _

theorem scaled_div (num den : Nat) (e : Int) :
    ((scaled num den e).1 : ℚ) / (scaled num den e).2 = num / den * 2 ^ e := by
  rw [two_zpow, scaled]
  push_cast
  field_simp

theorem scaled_pos (num : Nat) (hden : 0 < den) (e : Int) : 0 < (scaled num den e).2 :=
  Nat.mul_pos hden (Nat.two_pow_pos _)

theorem log2_le (hnum : 0 < num) (hden : 0 < den) : (2 : ℚ) ^ log2 num den ≤ num / den := by
  have hn : (2 : ℚ) ^ num.log2 ≤ num := by exact_mod_cast Nat.log2_self_le hnum.ne'
  have hd : (den : ℚ) < 2 ^ (den.log2 + 1) := by exact_mod_cast Nat.lt_log2_self
  have hden' : (0 : ℚ) < den := by exact_mod_cast hden
  rw [log2]
  dsimp only
  split_ifs with hlt
  · have he : (2 : ℚ) ^ ((num.log2 : Int) - den.log2 - 1) = 2 ^ num.log2 / 2 ^ (den.log2 + 1) := by
      rw [sub_sub, zpow_sub₀ two_ne_zero]
      exact_mod_cast rfl
    rw [he]
    gcongr
  · have hs := scaled_div num den (-((num.log2 : Int) - den.log2))
    have hpos := scaled_pos num hden (-((num.log2 : Int) - den.log2))
    have hone : (1 : ℚ) ≤ num / den * 2 ^ (-((num.log2 : Int) - den.log2)) := by
      rw [← hs, one_le_div (by exact_mod_cast hpos)]
      exact_mod_cast Nat.le_of_not_lt hlt
    rw [zpow_neg] at hone
    rwa [← div_eq_mul_inv, one_le_div (by positivity)] at hone

/-- A normal number. -/
structure Normal (x : Binary64) : Prop where
  le_mantissa : 2 ^ 52 ≤ x.mantissa
  mantissa_lt : x.mantissa < 2 ^ 53
  le_exponent : -1074 ≤ x.exponent
  exponent_le : x.exponent ≤ 971

/-! ### Some numbers -/

def one : Binary64 := ⟨2 ^ 52, -52⟩

/-- The greatest number below 2^64. -/
def belowWord : Binary64 := ⟨2 ^ 53 - 1, 11⟩

/-- The number 2^63. -/
def halfWord : Binary64 := ⟨2 ^ 52, 11⟩

theorem one_normal : one.Normal := by
  constructor <;> decide

theorem value_one : one.value = 1 := by
  norm_num [one, value]

theorem halfWord_normal : halfWord.Normal := by
  constructor <;> decide

theorem value_halfWord : halfWord.value = 2 ^ 63 := by
  norm_num [halfWord, value]

theorem belowWord_normal : belowWord.Normal := by
  constructor <;> decide

theorem value_belowWord : belowWord.value = 2 ^ 64 - 2 ^ 11 := by
  norm_num [belowWord, value]

/-! ### Rounding -/

theorem value_zero (e : Int) : (⟨0, e⟩ : Binary64).value = 0 := by
  simp [value]

theorem value_nonneg (x : Binary64) : 0 ≤ x.value := by
  rw [value]
  positivity

/-- The exponent of the result is at most that of a number which the quotient does not pass. -/
theorem log2_le_of_le (hnum : 0 < num) (hden : 0 < den) (hy : y.Normal)
    (h : (num : ℚ) / den ≤ y.value) : log2 num den ≤ 52 + y.exponent := by
  have hlt : (2 : ℚ) ^ log2 num den < 2 ^ (53 + y.exponent) := by
    refine ((log2_le hnum hden).trans h).trans_lt ?_
    rw [value, zpow_add₀ two_ne_zero]
    gcongr
    exact_mod_cast hy.mantissa_lt
  have := (zpow_lt_zpow_iff_right₀ one_lt_two).1 hlt
  omega

/-- A number that the quotient does not pass, in units of the result. -/
theorem roundHalfEven_scaled_le {e : Int} {k : Nat} (hden : 0 < den) (hk : e + k = y.exponent)
    (h : (num : ℚ) / den ≤ y.value) :
    roundHalfEven (scaled num den (-e)).1 (scaled num den (-e)).2 ≤ y.mantissa * 2 ^ k := by
  have hpos : (0 : ℚ) < (scaled num den (-e)).2 := by exact_mod_cast scaled_pos num hden (-e)
  have hunits : (num : ℚ) / den * 2 ^ (-e) ≤ (y.mantissa * 2 ^ k : Nat) := by
    rw [zpow_neg, ← div_eq_mul_inv, div_le_iff₀ (by positivity)]
    refine h.trans_eq ?_
    rw [value, ← hk, zpow_add₀ two_ne_zero, zpow_natCast]
    push_cast
    ring
  refine roundHalfEven_le (scaled_pos num hden _) ?_
  rw [← scaled_div, div_le_iff₀ hpos] at hunits
  exact_mod_cast hunits

theorem ofRatio?_le (hden : 0 < den) (hy : y.Normal) (h : (num : ℚ) / den ≤ y.value) :
    ∃ x, ofRatio? num den = some x ∧ x.value ≤ y.value := by
  rw [ofRatio?]
  split_ifs with hnum
  · exact ⟨_, rfl, (value_zero 0).trans_le y.value_nonneg⟩
  set e := max (log2 num den - 52) (-1074) with he
  have hlog := log2_le_of_le (Nat.pos_of_ne_zero hnum) hden hy h
  have hlow := hy.le_exponent
  have hhigh := hy.exponent_le
  obtain ⟨k, hk⟩ := Int.le.dest (show e ≤ y.exponent by omega)
  have hround := roundHalfEven_scaled_le hden hk h
  have hvalue : y.value = (y.mantissa * 2 ^ k : Nat) * 2 ^ e := by
    rw [value, ← hk, zpow_add₀ two_ne_zero, zpow_natCast]
    push_cast
    ring
  dsimp only
  set m := roundHalfEven (scaled num den (-e)).1 (scaled num den (-e)).2
  by_cases hm : m = 2 ^ 53
  · -- The number has a smaller mantissa, so it is of a greater exponent.
    have hk0 : k ≠ 0 := by
      rintro rfl
      have := hy.mantissa_lt
      omega
    refine ⟨⟨2 ^ 52, e + 1⟩, by rw [if_pos hm, if_neg (by omega)], ?_⟩
    rw [hvalue, value, zpow_add₀ two_ne_zero]
    have : (2 ^ 53 : ℚ) ≤ (y.mantissa * 2 ^ k : Nat) := by exact_mod_cast hm ▸ hround
    calc ((2 ^ 52 : Nat) : ℚ) * (2 ^ e * 2 ^ (1 : Int)) = 2 ^ 53 * 2 ^ e := by
          push_cast
          ring
      _ ≤ (y.mantissa * 2 ^ k : Nat) * 2 ^ e := by gcongr
  · refine ⟨⟨m, e⟩, by rw [if_neg hm, if_neg (by omega)], ?_⟩
    rw [hvalue, value]
    gcongr

theorem mul?_le (hz : z.Normal) (h : x.value * y.value ≤ z.value) :
    ∃ w, x.mul? y = some w ∧ w.value ≤ z.value := by
  refine ofRatio?_le (Nat.mul_pos x.denominator_pos y.denominator_pos) hz ?_
  rw [value_eq, value_eq, div_mul_div_comm] at h
  exact_mod_cast h

theorem add?_le (hz : z.Normal) (h : x.value + y.value ≤ z.value) :
    ∃ w, x.add? y = some w ∧ w.value ≤ z.value := by
  have hx : (x.denominator : ℚ) ≠ 0 := by exact_mod_cast x.denominator_pos.ne'
  have hy : (y.denominator : ℚ) ≠ 0 := by exact_mod_cast y.denominator_pos.ne'
  refine ofRatio?_le (Nat.mul_pos x.denominator_pos y.denominator_pos) hz ?_
  rw [x.value_eq, y.value_eq, div_add_div _ _ hx hy, mul_comm (x.denominator : ℚ)] at h
  exact_mod_cast h

theorem div?_le (hy : 0 < y.value) (hz : z.Normal) (h : x.value / y.value ≤ z.value) :
    ∃ w, x.div? y = some w ∧ w.value ≤ z.value := by
  have hpos : 0 < y.numerator := by
    rw [value_eq] at hy
    refine Nat.pos_of_ne_zero fun h0 => ?_
    simp [h0] at hy
  refine ofRatio?_le (Nat.mul_pos x.denominator_pos hpos) hz ?_
  rw [x.value_eq, y.value_eq, div_div_div_eq] at h
  exact_mod_cast h

/-- A natural number of up to 53 bits is a number of the format. -/
theorem ofNat?_exact (h : n < 2 ^ 53) : ∃ x, ofNat? n = some x ∧ x.value = n := by
  rw [ofNat?, ofRatio?]
  split_ifs with hn
  · exact ⟨_, rfl, by rw [hn, value_zero, Nat.cast_zero]⟩
  have hlog : n.log2 < 53 := (Nat.log2_lt hn).2 h
  have hself : n < 2 ^ (n.log2 + 1) := Nat.lt_log2_self
  have hexp : log2 n 1 = n.log2 := by
    have hone : Nat.log2 1 = 0 := by decide
    simp [log2, scaled, hone, Nat.log2_self_le hn]
  obtain ⟨k, hk⟩ := Nat.le.dest (Nat.le_of_lt_succ hlog)
  have he : max (log2 n 1 - 52) (-1074) = -k := by omega
  have hm : roundHalfEven (scaled n 1 k).1 (scaled n 1 k).2 = n * 2 ^ k := by
    simp [scaled, roundHalfEven_one]
  have hlt : n * 2 ^ k < 2 ^ 53 := by
    calc n * 2 ^ k < 2 ^ (n.log2 + 1) * 2 ^ k := by gcongr
      _ = 2 ^ 53 := by rw [← pow_add]; congr 1; omega
  simp only [he, neg_neg, hm]
  refine ⟨⟨n * 2 ^ k, -k⟩, by rw [if_neg hlt.ne, if_neg (by omega)], ?_⟩
  rw [value, zpow_neg, zpow_natCast]
  push_cast
  field_simp

end Binary64

end Depot
