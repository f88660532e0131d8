import Depot.Blake3
import Mathlib.Data.List.Basic

/-!
# What a hash looks like

Hashes of 64 digits in hexadecimal is all that the places of cached files depend on
(`IsHexDigest`); `Blake3.hex` gives such hashes.
-/

namespace Depot

/-- Whether `digest` gives 64 hexadecimal digits for all bytes. -/
def IsHexDigest (digest : ByteArray → String) : Prop :=
  ∀ b, (digest b).toList.length = 64 ∧ ∀ c ∈ (digest b).toList, c ∈ "0123456789abcdef".toList

namespace Blake3

theorem length_ofLittle (width n : Nat) : (Bytes.ofLittle width n).length = width := by
  induction width generalizing n with
  | zero => rfl
  | succ width ih => rw [Bytes.ofLittle, List.length_cons, ih]

theorem length_words (s : State) : s.words.length = 16 := rfl

theorem length_compress (b : Block) : b.compress.length = 8 := by
  simp [Block.compress, length_words]

theorem pieces_ne_nil (size : Nat) (b : ByteArray) : pieces size b ≠ [] := by
  simp [pieces]

theorem leaves_ne_nil (b : ByteArray) : leaves b ≠ [] := by
  simpa [leaves] using pieces_ne_nil chunkBytes b

theorem length_digest (b : ByteArray) : (digest b).length = 32 := by
  obtain ⟨first, bs, h⟩ := List.exists_cons_of_ne_nil (leaves_ne_nil b)
  simp [digest, h, List.length_flatMap, length_ofLittle, length_compress]

theorem length_hexDigits (n : UInt8) : (hexDigits n).length = 2 := rfl

theorem digitChar_mem : ∀ n < 16, Nat.digitChar n ∈ "0123456789abcdef".toList := by decide

theorem mem_hexDigits {n : UInt8} {c : Char} (h : c ∈ hexDigits n) :
    c ∈ "0123456789abcdef".toList := by
  have hn := n.toNat_lt
  rcases List.mem_pair.1 h with rfl | rfl
  · exact digitChar_mem _ (by omega)
  · exact digitChar_mem _ (by omega)

theorem isHexDigest_hex : IsHexDigest hex := by
  intro b
  rw [hex, String.toList_ofList]
  constructor
  · simp [List.length_flatMap, length_hexDigits, length_digest]
  · intro c hc
    obtain ⟨n, -, hn⟩ := List.mem_flatMap.1 hc
    exact mem_hexDigits hn

end Blake3

end Depot
