/-!
# Tables

Values by name. Each name has at most one value, and a new value replaces the old one.
-/

namespace Depot

abbrev Table (α : Type) := List (String × α)

namespace Table

variable {α : Type}

def get? (t : Table α) (k : String) : Option α := t.lookup k

def set (t : Table α) (k : String) (v : α) : Table α :=
  (k, v) :: t.filter (·.1 ≠ k)

@[simp] theorem get?_nil (k : String) : get? ([] : Table α) k = none := rfl

theorem get?_cons (k k' : String) (v : α) (t : Table α) :
    get? ((k', v) :: t) k = if k = k' then some v else get? t k := by
  by_cases h : k = k'
  · simp [get?, h]
  · have hb : (k == k') = false := by simpa using h
    simp [get?, List.lookup_cons, hb, h]

@[simp] theorem get?_set_self (t : Table α) (k : String) (v : α) : (t.set k v).get? k = some v := by
  simp [set, get?_cons]

theorem get?_filter_ne {k k' : String} (h : k' ≠ k) (t : Table α) :
    get? (t.filter (·.1 ≠ k)) k' = t.get? k' := by
  induction t with
  | nil => rfl
  | cons p t ih =>
    obtain ⟨i, v⟩ := p
    by_cases hi : i = k
    · subst hi
      simp [get?_cons, h, ← ih]
    · simp [get?_cons, hi, ← ih]

theorem get?_set_of_ne {k k' : String} (h : k' ≠ k) (t : Table α) (v : α) :
    (t.set k v).get? k' = t.get? k' := by
  rw [set, get?_cons, if_neg h, get?_filter_ne h]

end Table

end Depot
