import Depot.Settings.Load
import Depot.Proofs.Settings.Values
import Depot.Proofs.Toml.Keys
import Mathlib.Data.List.Pairwise

/-!
# Which value counts

The value that the layers give to a setting is that of its variable if there is one, and else that
of the file (`find?_layers`).
-/

namespace Depot.Settings

def lowerPrefix : List Char := variablePrefix.toList.map Char.toLower

/-- Whether a variable is one for settings, in upper case or not. -/
def Prefixed (name : String) : Prop := lowerPrefix <+: name.toList.map Char.toLower

/-- Whether a variable is the one for `f`. -/
def Names (name : String) (f : Field) : Prop :=
  name.toList.map Char.toLower = lowerPrefix ++ f.key.toList

instance (name : String) : Decidable (Prefixed name) :=
  inferInstanceAs (Decidable (_ <+: _))

instance (name : String) (f : Field) : Decidable (Names name f) :=
  inferInstanceAs (Decidable (_ = _))

/-- Every variable for settings is the one for some setting, and no setting has two. -/
structure WellNamed (env : Environment) : Prop where
  named : ∀ v ∈ env, Prefixed v.1 → ∃ f, Names v.1 f
  once : env.Pairwise fun v w => ∀ f, Names v.1 f → ¬ Names w.1 f

/-- What the variable for `f` holds. -/
def given? (env : Environment) (f : Field) : Option String :=
  (env.find? fun v => Names v.1 f).map (·.2)

/-- The value of a setting in the environment or in the file. -/
def chosen? (file : Layer) (env : Environment) (f : Field) : Option Literal :=
  ((given? env f).map Literal.ofText).or (file.lookup f.key)

variable {name value : String} {f g : Field} {env : Environment} {file : Layer}

theorem Names.prefixed (h : Names name f) : Prefixed name := ⟨_, h.symm⟩

theorem Names.unique (hf : Names name f) (hg : Names name g) : f = g := by
  have h := List.append_cancel_left (hf.symm.trans hg)
  exact Field.key_injective (String.toList_injective h)

theorem setting?_of_names (h : Names name f) (value : String) :
    setting? name value = some (f.key, Literal.ofText value) := by
  rw [setting?, h]
  cases f <;> rfl

theorem setting?_of_not_prefixed (h : ¬ Prefixed name) (value : String) :
    setting? name value = none := by
  have hafter : lowerPrefix.isPrefixOf? (name.toList.map Char.toLower) = none :=
    Option.eq_none_iff_forall_ne_some.2 fun r hr =>
      h ⟨r, List.append_eq_of_isPrefixOf?_eq_some hr⟩
  rw [lowerPrefix] at hafter
  simp only [setting?, hafter, Option.bind_eq_bind, Option.bind_none]

theorem environmentLayer_cons (v : String × String) (env : Environment) :
    environmentLayer (v :: env) = (setting? v.1 v.2).toList ++ environmentLayer env := by
  obtain ⟨name, value⟩ := v
  rw [environmentLayer, List.filterMap_cons]
  dsimp only
  cases setting? name value <;> rfl

theorem WellNamed.tail {v : String × String} (h : WellNamed (v :: env)) : WellNamed env where
  named w hw := h.named w (List.mem_cons_of_mem v hw)
  once := (List.pairwise_cons.1 h.once).2

/-- A variable gives its setting a value, or it gives nothing. -/
theorem WellNamed.setting? (h : WellNamed env) {v : String × String} (hv : v ∈ env) :
    (∃ g, Names v.1 g ∧ setting? v.1 v.2 = some (g.key, Literal.ofText v.2)) ∨
      (∀ g, ¬ Names v.1 g) ∧ setting? v.1 v.2 = none := by
  by_cases hp : Prefixed v.1
  · obtain ⟨g, hg⟩ := h.named v hv hp
    exact .inl ⟨g, hg, setting?_of_names hg v.2⟩
  · exact .inr ⟨fun g hg => hp hg.prefixed, setting?_of_not_prefixed hp v.2⟩

theorem WellNamed.mem_keys (h : WellNamed env) {k : String}
    (hk : k ∈ (environmentLayer env).map Prod.fst) : ∃ v ∈ env, ∃ g, Names v.1 g ∧ g.key = k := by
  obtain ⟨⟨k', x⟩, hx, rfl⟩ := List.mem_map.1 hk
  obtain ⟨v, hv, hset⟩ := List.mem_filterMap.1 hx
  rcases h.setting? hv with ⟨g, hg, hgiven⟩ | ⟨-, hnone⟩
  · cases hgiven.symm.trans hset
    exact ⟨v, hv, g, hg, rfl⟩
  · cases hnone.symm.trans hset

theorem WellNamed.nodup (h : WellNamed env) : ((environmentLayer env).map Prod.fst).Nodup := by
  induction env with
  | nil => exact List.nodup_nil
  | cons v env ih =>
    rw [environmentLayer_cons]
    rcases h.setting? List.mem_cons_self with ⟨g, hg, hset⟩ | ⟨-, hset⟩
    · rw [hset]
      refine List.nodup_cons.2 ⟨fun hmem => ?_, ih h.tail⟩
      obtain ⟨w, hw, g', hg', hkey⟩ := h.tail.mem_keys hmem
      obtain rfl := Field.key_injective hkey
      exact (List.pairwise_cons.1 h.once).1 w hw g' hg hg'
    · rw [hset]
      exact ih h.tail

theorem WellNamed.lookup (h : WellNamed env) (f : Field) :
    (environmentLayer env).lookup f.key = (given? env f).map Literal.ofText := by
  induction env with
  | nil => rfl
  | cons v env ih =>
    rw [environmentLayer_cons, given?, List.find?_cons]
    rcases h.setting? List.mem_cons_self with ⟨g, hg, hset⟩ | ⟨hno, hset⟩
    · rw [hset]
      by_cases hf : Names v.1 f
      · obtain rfl := hg.unique hf
        simp [hf]
      · have hne : f.key ≠ g.key := fun hkey => hf (Field.key_injective hkey ▸ hg)
        simp only [hf, decide_false, Option.toList_some, List.singleton_append, List.lookup_cons,
          beq_false_of_ne hne]
        exact ih h.tail
    · rw [hset]
      simp only [hno f, decide_false]
      exact ih h.tail

/-- Where the keys are distinct, the last value is the first. -/
theorem lookup_reverse {l : Layer} (h : (l.map Prod.fst).Nodup) (k : String) :
    l.reverse.lookup k = l.lookup k := by
  induction l with
  | nil => rfl
  | cons field l ih =>
    obtain ⟨k', x⟩ := field
    obtain ⟨hnew, hl⟩ := List.nodup_cons.1 h
    rw [List.reverse_cons, List.lookup_append, ih hl, List.lookup_cons, List.lookup_cons]
    by_cases hk : k = k'
    · subst hk
      have hnone : l.lookup k = none := by
        refine List.lookup_eq_none_iff.2 fun p hp => bne_iff_ne.2 fun hkey => hnew ?_
        exact List.mem_map.2 ⟨p, hp, hkey.symm⟩
      rw [hnone, Option.none_or, BEq.rfl]
    · rw [beq_false_of_ne hk, List.lookup_nil, Option.or_none]

theorem fileLayer?_nodup {bytes : ByteArray} (h : fileLayer? bytes = some file) :
    (file.map Prod.fst).Nodup := by
  obtain ⟨text, -, h⟩ := Option.bind_eq_some_iff.1 h
  obtain ⟨fields, hfields, h⟩ := Option.bind_eq_some_iff.1 h
  cases h
  rw [List.map_map]
  exact Toml.parse?_nodup hfields

theorem find?_layers (hfile : (file.map Prod.fst).Nodup) (henv : WellNamed env) (f : Field) :
    find? [file, environmentLayer env] f.key = chosen? file env f := by
  rw [find?, chosen?, ← henv.lookup, ← lookup_reverse hfile, ← lookup_reverse henv.nodup]
  simp only [List.reverse_cons, List.reverse_nil, List.nil_append, List.singleton_append,
    List.findSome?_cons, List.findSome?_nil]
  rcases (environmentLayer env).reverse.lookup f.key with _ | x
  · rcases file.reverse.lookup f.key with _ | y <;> rfl
  · rfl

end Depot.Settings
