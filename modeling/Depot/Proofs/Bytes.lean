import Depot.Bytes
import Mathlib.Data.List.Basic

/-!
# The bytes of an array

`toList` walks through an array; what comes out is the list behind it (`toList_eq`), and a slice is
a part of that list (`slice_eq`).
-/

namespace Depot.Bytes

theorem toList_loop (b : ByteArray) (i : Nat) (acc : List UInt8) :
    ByteArray.toList.loop b i acc = acc.reverse ++ b.data.toList.drop i := by
  fun_induction ByteArray.toList.loop b i acc with
  | case1 i acc h ih =>
    have hi : i < b.data.toList.length := h
    have hget : b.get! i = b.data.toList[i] := by
      rw [ByteArray.get!, getElem!_pos b.data i h, Array.getElem_toList]
    rw [ih, List.reverse_cons, List.append_assoc, List.drop_eq_getElem_cons hi, hget]
    rfl
  | case2 i acc h =>
    have hi : b.data.toList.length ≤ i := Nat.le_of_not_lt h
    rw [List.drop_eq_nil_of_le hi, List.append_nil]

theorem toList_eq (b : ByteArray) : b.toList = b.data.toList := by
  rw [ByteArray.toList, toList_loop]
  rfl

theorem slice_eq (b : ByteArray) (start length : Nat) :
    slice b start length = ⟨((b.data.toList.drop start).take length).toArray⟩ := by
  apply ByteArray.ext
  apply Array.ext'
  rw [slice, ByteArray.data_extract, Array.toList_extract, List.extract_eq_take_drop,
    Nat.add_sub_cancel_left]

theorem length_toList (b : ByteArray) : b.toList.length = b.size := by
  rw [toList_eq]
  rfl

end Depot.Bytes
