import Depot.Proofs.Text.Utf8

/-!
# The order of bytes

Texts are ordered by their characters. Their bytes are in the same order (`toUTF8_lt`): the first
byte of a character tells how many there are, more for greater characters, and the others hold its
digits to the base 64 from the greatest on.
-/

namespace Depot.Text.Utf8

theorem utf8EncodeChar_append_lt {c d : Char} (h : c < d) (xs ys : List UInt8) :
    String.utf8EncodeChar c ++ xs < String.utf8EncodeChar d ++ ys := by
  have hc : c.val.toNat < 0xD800 ∨ 0xDFFF < c.val.toNat ∧ c.val.toNat < 0x110000 := c.valid
  have hd : d.val.toNat < 0xD800 ∨ 0xDFFF < d.val.toNat ∧ d.val.toNat < 0x110000 := d.valid
  have hlt : c.val.toNat < d.val.toNat := h
  fun_cases String.utf8EncodeChar c <;> fun_cases String.utf8EncodeChar d <;>
    simp only [List.cons_append, List.nil_append, List.cons_lt_cons_iff, UInt8.lt_iff_toNat_lt,
      ← UInt8.toNat_inj, UInt8.toNat_ofNat']
  case case4.case4 v _ _ _ w _ _ _ =>
    -- too many digits to be compared at once
    rcases Nat.lt_or_eq_of_le (show v / 64 ^ 3 ≤ w / 64 ^ 3 by omega) with h₃ | h₃
    · exact .inl (by omega)
    refine .inr ⟨by omega, ?_⟩
    rcases Nat.lt_or_eq_of_le (show v / 64 ^ 2 ≤ w / 64 ^ 2 by omega) with h₂ | h₂
    · exact .inl (by omega)
    refine .inr ⟨by omega, ?_⟩
    rcases Nat.lt_or_eq_of_le (show v / 64 ≤ w / 64 by omega) with h₁ | h₁
    · exact .inl (by omega)
    exact .inr ⟨by omega, .inl (by omega)⟩
  all_goals omega

theorem flatMap_utf8EncodeChar_lt {cs ds : List Char} (h : cs < ds) :
    cs.flatMap String.utf8EncodeChar < ds.flatMap String.utf8EncodeChar := by
  induction h with
  | @nil d ds =>
    obtain ⟨b, bs, hd⟩ := List.exists_cons_of_ne_nil (String.utf8EncodeChar_ne_nil (c := d))
    rw [List.flatMap_nil, List.flatMap_cons, hd]
    exact List.nil_lt_cons _ _
  | cons _ ih =>
    rw [List.flatMap_cons, List.flatMap_cons]
    exact List.append_left_lt ih
  | rel h => exact utf8EncodeChar_append_lt h _ _

theorem toUTF8_lt {s t : String} (h : s < t) : s.toUTF8.toList < t.toUTF8.toList := by
  rw [toList_toUTF8, toList_toUTF8]
  exact flatMap_utf8EncodeChar_lt (String.lt_iff.1 h)

end Depot.Text.Utf8
