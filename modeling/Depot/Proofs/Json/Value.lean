import Depot.Json.Value
import Depot.Proofs.Json.Numeral
import Mathlib.Data.String.Basic

/-!
# What values are read

The objects of a value that is read have their keys in order, each of them once, and it is nested
no deeper than allowed (`Value.Nested`).
-/

namespace Depot.Json.Value

section Fields

variable {α : Type}

theorem mem_insert {k : String} {v : α} {fs : List (String × α)} {f : String × α}
    (h : f ∈ insert k v fs) : f = (k, v) ∨ f ∈ fs := by
  induction fs with
  | nil => exact .inl (List.mem_singleton.1 h)
  | cons g fs ih =>
    obtain ⟨k', v'⟩ := g
    rw [insert] at h
    split at h
    · exact (List.mem_cons.1 h).imp_right id
    · exact (List.mem_cons.1 h).imp_right (List.mem_cons_of_mem _)
    · rcases List.mem_cons.1 h with rfl | h
      · exact .inr List.mem_cons_self
      · exact (ih h).imp_right (List.mem_cons_of_mem _)

/-- Whether the fields are in the order of their keys, with no key twice. -/
def Ascending (fs : List (String × α)) : Prop :=
  fs.Pairwise fun f g => f.1 < g.1

theorem ascending_insert (k : String) (v : α) {fs : List (String × α)} (h : Ascending fs) :
    Ascending (insert k v fs) := by
  induction fs with
  | nil => exact List.pairwise_singleton _ _
  | cons f fs ih =>
    obtain ⟨k', v'⟩ := f
    obtain ⟨hhead, hrest⟩ := List.pairwise_cons.1 h
    rw [insert]
    split
    · next hlt =>
      have hk : k < k' := compare_lt_iff_lt.1 hlt
      refine List.pairwise_cons.2 ⟨fun g hg => ?_, h⟩
      rcases List.mem_cons.1 hg with rfl | hg
      · exact hk
      · exact hk.trans (hhead g hg)
    · next heq =>
      obtain rfl := compare_eq_iff_eq.1 heq
      exact List.pairwise_cons.2 ⟨hhead, hrest⟩
    · next hgt =>
      have hk : k' < k := compare_gt_iff_gt.1 hgt
      refine List.pairwise_cons.2 ⟨fun g hg => ?_, ih hrest⟩
      rcases mem_insert hg with rfl | hg
      · exact hk
      · exact hhead g hg

theorem insert_of_forall_lt {k : String} (v : α) {fs : List (String × α)}
    (h : ∀ f ∈ fs, f.1 < k) : insert k v fs = fs ++ [(k, v)] := by
  induction fs with
  | nil => rfl
  | cons f fs ih =>
    obtain ⟨k', v'⟩ := f
    have hk : compare k k' = .gt := compare_gt_iff_gt.2 (h (k', v') List.mem_cons_self)
    rw [insert, hk, ih fun f hf => h f (List.mem_cons_of_mem _ hf)]
    rfl

theorem ascending_foldl (fs : List (String × α)) {acc : List (String × α)} (h : Ascending acc) :
    Ascending (fs.foldl (fun acc (k, v) => insert k v acc) acc) := by
  induction fs generalizing acc with
  | nil => exact h
  | cons f fs ih => exact ih (ascending_insert f.1 f.2 h)

theorem ascending_ofFields (fs : List (String × α)) : Ascending (ofFields fs) :=
  ascending_foldl fs .nil

theorem foldl_insert (acc : List (String × α)) {fs : List (String × α)}
    (h : Ascending (acc ++ fs)) : fs.foldl (fun acc (k, v) => insert k v acc) acc
      = acc ++ fs := by
  induction fs generalizing acc with
  | nil => rw [List.foldl_nil, List.append_nil]
  | cons f fs ih =>
    obtain ⟨k, v⟩ := f
    have hlt : ∀ g ∈ acc, g.1 < k :=
      fun g hg => (List.pairwise_append.1 h).2.2 g hg (k, v) List.mem_cons_self
    have hsorted : Ascending ((acc ++ [(k, v)]) ++ fs) := by rwa [List.append_assoc]
    change fs.foldl _ (insert k v acc) = _
    rw [insert_of_forall_lt v hlt, ih _ hsorted, List.append_assoc]
    rfl

theorem ofFields_of_ascending {fs : List (String × α)} (h : Ascending fs) : ofFields fs = fs :=
  foldl_insert [] h

theorem mem_ofFields {fs : List (String × α)} {f : String × α} (h : f ∈ ofFields fs) : f ∈ fs := by
  suffices hmem : ∀ acc, f ∈ fs.foldl (fun acc (k, v) => insert k v acc) acc → f ∈ acc ∨ f ∈ fs by
    simpa using hmem [] h
  clear h
  induction fs with
  | nil => exact fun acc h => .inl h
  | cons g fs ih =>
    intro acc h
    rcases ih _ h with h | h
    · rcases mem_insert h with rfl | h
      · exact .inr List.mem_cons_self
      · exact .inl h
    · exact .inr (List.mem_cons_of_mem _ h)

end Fields

mutual

/-- All numbers in the value. -/
def numbers : Value → List Number
  | .number n => [n]
  | .array vs => itemNumbers vs
  | .object fs => fieldNumbers fs
  | .null | .bool _ | .text _ => []

def itemNumbers : List Value → List Number
  | [] => []
  | v :: vs => numbers v ++ itemNumbers vs

def fieldNumbers : List (String × Value) → List Number
  | [] => []
  | (_, v) :: fs => numbers v ++ fieldNumbers fs

end

mutual

/-- Whether the value has its keys in order and may stand where `depth` more arrays and objects
may be nested. -/
def Nested (depth : Nat) : Value → Prop
  | .array vs => 0 < depth ∧ NestedItems (depth - 1) vs
  | .object fs => 0 < depth ∧ Ascending fs ∧ NestedFields (depth - 1) fs
  | .null | .bool _ | .text _ | .number _ => True

def NestedItems (depth : Nat) : List Value → Prop
  | [] => True
  | v :: vs => Nested depth v ∧ NestedItems depth vs

def NestedFields (depth : Nat) : List (String × Value) → Prop
  | [] => True
  | (_, v) :: fs => Nested depth v ∧ NestedFields depth fs

end

theorem nestedFields_iff {depth : Nat} {fs : List (String × Value)} :
    NestedFields depth fs ↔ ∀ f ∈ fs, Nested depth f.2 := by
  induction fs with
  | nil => simp [NestedFields]
  | cons f fs ih => simp [NestedFields, ih]

mutual

theorem Nested.mono {depth depth' : Nat} (hd : depth ≤ depth') :
    (v : Value) → Nested depth v → Nested depth' v
  | .array vs, h => ⟨h.1.trans_le hd, NestedItems.mono (Nat.sub_le_sub_right hd 1) vs h.2⟩
  | .object fs, h =>
    ⟨h.1.trans_le hd, h.2.1, NestedFields.mono (Nat.sub_le_sub_right hd 1) fs h.2.2⟩
  | .null, _ | .bool _, _ | .text _, _ | .number _, _ => trivial

theorem NestedItems.mono {depth depth' : Nat} (hd : depth ≤ depth') :
    (vs : List Value) → NestedItems depth vs → NestedItems depth' vs
  | [], _ => trivial
  | v :: vs, h => ⟨Nested.mono hd v h.1, NestedItems.mono hd vs h.2⟩

theorem NestedFields.mono {depth depth' : Nat} (hd : depth ≤ depth') :
    (fs : List (String × Value)) → NestedFields depth fs → NestedFields depth' fs
  | [], _ => trivial
  | (_, v) :: fs, h => ⟨Nested.mono hd v h.1, NestedFields.mono hd fs h.2⟩

end

mutual

theorem nested_of_ofNode? {depth : Nat} {v : Value} :
    (n : Node) → ofNode? depth n = some v → Nested depth v
  | .word .null, h | .word .true, h | .word .false, h => by
    obtain rfl := Option.some.inj h
    trivial
  | .number _, h => by
    obtain ⟨k, -, rfl⟩ := Option.map_eq_some_iff.1 h
    trivial
  | .text _, h => by
    obtain ⟨s, -, rfl⟩ := Option.map_eq_some_iff.1 h
    trivial
  | .array items, h => by
    rw [ofNode?] at h
    split at h
    · contradiction
    · next hd =>
      obtain ⟨vs, hvs, rfl⟩ := Option.map_eq_some_iff.1 h
      exact ⟨Nat.pos_of_ne_zero hd, nested_of_ofItems? items hvs⟩
  | .object fields, h => by
    rw [ofNode?] at h
    split at h
    · contradiction
    · next hd =>
      obtain ⟨fs, hfs, rfl⟩ := Option.map_eq_some_iff.1 h
      have hall := nestedFields_iff.1 (nested_of_ofPairs? fields hfs)
      exact ⟨Nat.pos_of_ne_zero hd, ascending_ofFields fs,
        nestedFields_iff.2 fun f hf => hall f (mem_ofFields hf)⟩

theorem nested_of_ofItems? {depth : Nat} {vs : List Value} :
    (ns : List Node) → ofItems? depth ns = some vs → NestedItems depth vs
  | [], h => by
    obtain rfl := Option.some.inj h
    trivial
  | n :: ns, h => by
    simp only [ofItems?, Option.bind_eq_bind, Option.bind_eq_some_iff, Option.pure_def,
      Option.some.injEq] at h
    obtain ⟨v, hv, vs', hvs, rfl⟩ := h
    exact ⟨nested_of_ofNode? n hv, nested_of_ofItems? ns hvs⟩

theorem nested_of_ofPairs? {depth : Nat} {fs : List (String × Value)} :
    (ns : List (List Glyph × Node)) → ofPairs? depth ns = some fs → NestedFields depth fs
  | [], h => by
    obtain rfl := Option.some.inj h
    trivial
  | (_, n) :: ns, h => by
    simp only [ofPairs?, Option.bind_eq_bind, Option.bind_eq_some_iff, Option.pure_def,
      Option.some.injEq] at h
    obtain ⟨k, -, v, hv, fs', hfs, rfl⟩ := h
    exact ⟨nested_of_ofNode? n hv, nested_of_ofPairs? ns hfs⟩

end

end Depot.Json.Value
