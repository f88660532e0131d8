import Depot.Toml.Parser
import Mathlib.Data.List.Nodup

/-!
# The keys of a document

A document that says something twice is refused, so the keys of what is read are distinct
(`parse?_nodup`).
-/

namespace Depot.Toml

variable {k : String} {fs fs' : List (String × Item)}

namespace Item

/-- An update keeps the keys, or it adds one that was not there. -/
theorem update?_keys {f : Option Item → Option Item} (h : update? k f fs = some fs') :
    fs'.map Prod.fst = fs.map Prod.fst ∨
      k ∉ fs.map Prod.fst ∧ fs'.map Prod.fst = fs.map Prod.fst ++ [k] := by
  induction fs generalizing fs' with
  | nil =>
    obtain ⟨i, -, rfl⟩ := Option.map_eq_some_iff.1 h
    exact .inr ⟨List.not_mem_nil, rfl⟩
  | cons field fs ih =>
    obtain ⟨k', i⟩ := field
    rw [update?] at h
    split_ifs at h with hk
    · obtain ⟨i', -, rfl⟩ := Option.map_eq_some_iff.1 h
      exact .inl (by rw [List.map_cons, List.map_cons, hk])
    · obtain ⟨rest, hrest, rfl⟩ := Option.map_eq_some_iff.1 h
      simp only [List.map_cons, List.mem_cons, List.cons_append, List.cons.injEq, true_and]
      rcases ih hrest with hsame | ⟨hnew, hadded⟩
      · exact .inl hsame
      · exact .inr ⟨not_or.2 ⟨Ne.symm hk, hnew⟩, hadded⟩

theorem update?_nodup {f : Option Item → Option Item} (hfs : (fs.map Prod.fst).Nodup)
    (h : update? k f fs = some fs') : (fs'.map Prod.fst).Nodup := by
  rcases update?_keys h with hsame | ⟨hnew, hadded⟩
  · rwa [hsame]
  · rw [hadded]
    exact hfs.append (List.nodup_singleton k) (List.disjoint_singleton.2 hnew)

theorem assign?_nodup {v : Value} {origin : Origin} {below : Bool} {path : List String}
    (hfs : (fs.map Prod.fst).Nodup) (h : assign? v k origin below path fs = some fs') :
    (fs'.map Prod.fst).Nodup := by
  cases path with
  | nil =>
    rw [assign?] at h
    split_ifs at h
    exact update?_nodup hfs h
  | cons k' path =>
    rw [assign?] at h
    exact update?_nodup hfs h

theorem descend?_nodup {f : Option Item → Option Item} {path : List String}
    (hfs : (fs.map Prod.fst).Nodup) (h : descend? f k path fs = some fs') :
    (fs'.map Prod.fst).Nodup := by
  cases path with
  | nil =>
    rw [descend?] at h
    exact update?_nodup hfs h
  | cons k' path =>
    rw [descend?] at h
    exact update?_nodup hfs h

theorem toFields_keys (fs : List (String × Item)) :
    (toFields fs).map Prod.fst = fs.map Prod.fst := by
  induction fs with
  | nil => rfl
  | cons field fs ih => rw [toFields, List.map_cons, List.map_cons, ih]

end Item

/-- What a step keeps is kept by a loop of steps that may fail. -/
theorem foldlM_keeps {σ β : Type} {P : σ → Prop} {step : σ → β → Option σ}
    (hstep : ∀ s b s', P s → step s b = some s' → P s') {s s' : σ} {bs : List β} (hs : P s)
    (h : bs.foldlM step s = some s') : P s' := by
  induction bs generalizing s with
  | nil =>
    cases h
    exact hs
  | cons b bs ih =>
    rw [List.foldlM_cons] at h
    obtain ⟨s₁, hs₁, h⟩ := Option.bind_eq_some_iff.1 h
    exact ih (hstep s b s₁ hs hs₁) h

theorem Document.fields?_nodup {d : Document} {fields : List (String × Value)}
    (h : d.fields? = some fields) : (fields.map Prod.fst).Nodup := by
  obtain ⟨root, hroot, h⟩ := Option.bind_eq_some_iff.1 h
  obtain ⟨fs, hfs, h⟩ := Option.bind_eq_some_iff.1 h
  cases h
  rw [Item.toFields_keys]
  have hnodup : (root.map Prod.fst).Nodup :=
    foldlM_keeps (P := fun fs => (fs.map Prod.fst).Nodup) (fun _ _ _ => Item.assign?_nodup)
      List.nodup_nil hroot
  exact foldlM_keeps (P := fun fs => (fs.map Prod.fst).Nodup) (fun _ _ _ => Item.descend?_nodup)
    hnodup hfs

theorem parse?_nodup {cs : List Char} {fields : List (String × Value)}
    (h : parse? cs = some fields) : (fields.map Prod.fst).Nodup := by
  obtain ⟨d, -, hd⟩ := Option.bind_eq_some_iff.1 h
  exact d.fields?_nodup hd

end Depot.Toml
