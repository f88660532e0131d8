import Depot.Text.Utf8
import Depot.Proofs.Bytes
import Mathlib.Tactic.SplitIfs

/-!
# Reading text that is well formed

The bytes of a text are read as that text, whatever follows (`decodeFrom_utf8EncodeChar`), so no
character of it is replaced (`lossy_toUTF8`). A character has up to four bytes; the first one sets
bounds for the second, and what is written keeps to them.
-/

namespace Depot.Text.Utf8

variable {n : Nat} {p : Pending} {c : Char}

theorem toNat_ofNat (h : n < 256) : (UInt8.ofNat n).toNat = n :=
  UInt8.toNat_ofNat_of_lt h

theorem start_of_one (h : n < 0x80) : start (UInt8.ofNat n) = .whole (Char.ofNat n) := by
  have hn : (UInt8.ofNat n).toNat = n := toNat_ofNat (by omega)
  simp only [start, hn]
  rw [if_pos h]

theorem start_of_two (h : 0xC2 ≤ n) (h' : n < 0xE0) :
    start (UInt8.ofNat n) = .begun ⟨n - 0xC0, 1, 0x80, 0xBF⟩ := by
  have hn : (UInt8.ofNat n).toNat = n := toNat_ofNat (by omega)
  simp only [start, hn]
  rw [if_neg (by omega), if_neg (by omega), if_pos h']

theorem start_of_three (h : 0xE0 ≤ n) (h' : n < 0xF0) :
    start (UInt8.ofNat n) =
      .begun ⟨n - 0xE0, 2, if n = 0xE0 then 0xA0 else 0x80, if n = 0xED then 0x9F else 0xBF⟩ := by
  have hn : (UInt8.ofNat n).toNat = n := toNat_ofNat (by omega)
  simp only [start, hn]
  rw [if_neg (by omega), if_neg (by omega), if_neg (by omega), if_pos h']

theorem start_of_four (h : 0xF0 ≤ n) (h' : n < 0xF5) :
    start (UInt8.ofNat n) =
      .begun ⟨n - 0xF0, 3, if n = 0xF0 then 0x90 else 0x80, if n = 0xF4 then 0x8F else 0xBF⟩ := by
  have hn : (UInt8.ofNat n).toNat = n := toNat_ofNat (by omega)
  simp only [start, hn]
  rw [if_neg (by omega), if_neg (by omega), if_neg (by omega), if_neg (by omega), if_pos h']

/-- A byte that continues a character, and the last one of it if none is left. -/
theorem decodeFrom_continue (hlow : p.low.toNat ≤ n) (hhigh : n ≤ p.high.toNat) (r : List UInt8) :
    decodeFrom (some p) (UInt8.ofNat n :: r) =
      if p.left ≤ 1 then some (Char.ofNat (p.bits * 64 + (n - 0x80))) :: decodeFrom none r
      else decodeFrom (some ⟨p.bits * 64 + (n - 0x80), p.left - 1, 0x80, 0xBF⟩) r := by
  have hbound : p.high.toNat < 256 := p.high.toNat_lt
  have hn : (UInt8.ofNat n).toNat = n := toNat_ofNat (by omega)
  have hin : p.low ≤ UInt8.ofNat n ∧ UInt8.ofNat n ≤ p.high :=
    ⟨UInt8.le_iff_toNat_le.2 (by omega), UInt8.le_iff_toNat_le.2 (by omega)⟩
  rw [decodeFrom, if_pos hin, hn]

theorem decodeFrom_utf8EncodeChar (c : Char) (r : List UInt8) :
    decodeFrom none (String.utf8EncodeChar c ++ r) = some c :: decodeFrom none r := by
  have hvalid : c.val.toNat < 0xD800 ∨ 0xDFFF < c.val.toNat ∧ c.val.toNat < 0x110000 := c.valid
  have hnat : c.toNat = c.val.toNat := rfl
  have hchar : ∀ {k}, k = c.val.toNat → Char.ofNat k = c := fun hk => by
    rw [hk]
    exact Char.ofNat_toNat c
  fun_cases String.utf8EncodeChar c with
  | case1 v h =>
    rw [List.cons_append, decodeFrom, start_of_one (by omega), hchar rfl]
    rfl
  | case2 v h1 h2 =>
    rw [List.cons_append, decodeFrom, start_of_two (by omega) (by omega)]
    simp only [List.cons_append, List.nil_append]
    rw [decodeFrom_continue (by simp) (by simp; omega), if_pos (by simp), hchar (by simp; omega)]
  | case3 v h1 h2 h3 =>
    rw [List.cons_append, decodeFrom, start_of_three (by omega) (by omega)]
    simp only [List.cons_append, List.nil_append]
    rw [decodeFrom_continue (by split_ifs <;> simp <;> omega) (by split_ifs <;> simp <;> omega),
      if_neg (by simp), decodeFrom_continue (by simp) (by simp; omega), if_pos (by simp),
      hchar (by simp; omega)]
  | case4 v h1 h2 h3 =>
    rw [List.cons_append, decodeFrom, start_of_four (by omega) (by omega)]
    simp only [List.cons_append, List.nil_append]
    rw [decodeFrom_continue (by split_ifs <;> simp <;> omega) (by split_ifs <;> simp <;> omega),
      if_neg (by simp), decodeFrom_continue (by simp) (by simp; omega), if_neg (by simp),
      decodeFrom_continue (by simp) (by simp; omega), if_pos (by simp), hchar (by simp; omega)]

theorem decode_flatMap (cs : List Char) :
    decode (cs.flatMap String.utf8EncodeChar) = cs.map some := by
  rw [decode]
  induction cs with
  | nil => rfl
  | cons c cs ih => rw [List.flatMap_cons, decodeFrom_utf8EncodeChar, ih, List.map_cons]

theorem toList_toUTF8 (s : String) :
    s.toUTF8.toList = s.toList.flatMap String.utf8EncodeChar := by
  have hof : String.ofList s.toList = s := String.ofList_toList
  have hbytes : s.toUTF8 = (String.ofList s.toList).toByteArray := by
    rw [hof, String.toUTF8_eq_toByteArray]
  rw [hbytes, Bytes.toList_eq]
  exact List.toList_data_toByteArray

/-- Nothing is replaced in a text that is well formed. -/
theorem lossy_toUTF8 (s : String) : lossy s.toUTF8.toList = s := by
  rw [lossy, toList_toUTF8, decode_flatMap, List.map_map]
  exact (congrArg String.ofList (List.map_id s.toList)).trans String.ofList_toList

end Depot.Text.Utf8
