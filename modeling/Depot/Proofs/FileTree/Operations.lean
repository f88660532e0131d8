import Depot.Proofs.FileTree.Walk
import Mathlib.Data.List.Induction

/-!
# What the operations do below a directory

Below a `Base` each operation either fails and leaves the tree, or changes the one node that its
path names. `makeDirectories` may leave directories behind when it fails: `Widened` is what it does
in either case.
-/

namespace Depot.FileTree

variable {t t' t'' : FileTree} {root r p : Location} {ns : List String} {n : String}
  {data body : ByteArray} {mode : Nat} {node : Node}

theorem bind_apply {ε σ α β : Type} (x : EStateM ε σ α) (f : α → EStateM ε σ β) (s : σ) :
    (x >>= f) s =
      match x s with
      | .ok a s => f a s
      | .error e s => .error e s := rfl

theorem get_apply (t : FileTree) : (get : Action FileTree) t = .ok t t := rfl

theorem makeDirectory_apply (l : Location) (t : FileTree) :
    makeDirectory l t =
      match t.resolve false l with
      | .error e => .error e t
      | .ok p =>
        match t.find? p with
        | none => .ok () (t.insert p .directory)
        | some _ => .error .exists t := by
  rw [makeDirectory, bind_apply, place]
  rcases t.resolve false l with e | p
  · rfl
  · simp only [bind_apply, node?]
    rcases t.find? p with _ | node <;> rfl

theorem create_apply (l : Location) (t : FileTree) :
    create l t =
      match t.resolve true l with
      | .error e => .error e t
      | .ok p =>
        match t.find? p with
        | some .directory => .error .isDirectory t
        | some (.file _ mode) => .ok p (t.insert p (.file .empty mode))
        | _ => .ok p (t.insert p (.file .empty newFileMode)) := by
  rw [create, bind_apply, place]
  rcases t.resolve true l with e | p
  · rfl
  · simp only [bind_apply, node?]
    rcases t.find? p with _ | ⟨data, mode⟩ | _ | target <;> rfl

theorem fill_apply (p : Location) (data : ByteArray) (t : FileTree) :
    fill p data t =
      match t.find? p with
      | some (.file _ mode) => .ok () (t.insert p (.file data mode))
      | _ => .error .missing t := by
  rw [fill, bind_apply, node?]
  rcases t.find? p with _ | ⟨data, mode⟩ | _ | target <;> rfl

theorem setMode_apply (l : Location) (mode : Nat) (t : FileTree) :
    setMode l mode t =
      match t.resolve true l with
      | .error e => .error e t
      | .ok p =>
        match t.find? p with
        | none => .error .missing t
        | some (.file data _) => .ok () (t.insert p (.file data (permissions mode)))
        | some _ => .ok () t := by
  rw [setMode, bind_apply, place]
  rcases t.resolve true l with e | p
  · rfl
  · simp only [bind_apply, node?]
    rcases t.find? p with _ | ⟨data, mode⟩ | _ | target <;> rfl

theorem remove_apply (l : Location) (t : FileTree) :
    remove l t =
      match t.resolve false l with
      | .error e => .error e t
      | .ok p =>
        match t.find? p with
        | none => .error .missing t
        | some .directory => .error .isDirectory t
        | some _ => .ok () (t.erase p) := by
  rw [remove, bind_apply, place]
  rcases t.resolve false l with e | p
  · rfl
  · simp only [bind_apply, node?]
    rcases t.find? p with _ | ⟨data, mode⟩ | _ | target <;> rfl

theorem rename_apply (source dest : Location) (t : FileTree) :
    rename source dest t =
      match t.resolve false source, t.resolve false dest with
      | .error e, _ => .error e t
      | .ok _, .error e => .error e t
      | .ok p, .ok q =>
        match t.find? p, t.find? q with
        | none, _ => .error .missing t
        | _, some .directory => .error .isDirectory t
        | some n, _ => .ok () ((t.erase p).insert q n) := by
  rw [rename, bind_apply, place]
  rcases t.resolve false source with e | p
  · rfl
  · simp only [bind_apply, place]
    rcases t.resolve false dest with e | q
    · rfl
    · simp only [node?]
      rcases t.find? p with _ | ⟨data, mode⟩ | _ | target <;>
        rcases t.find? q with _ | ⟨data', mode'⟩ | _ | target' <;> rfl

/-- `t'` is `t` with directories at some places on the way from `r` along `ns` that were free. -/
def Widened (r : Location) (ns : List String) (t t' : FileTree) : Prop :=
  ∀ l, t'.find? l = t.find? l ∨
    t.find? l = none ∧ t'.find? l = some .directory ∧ r <+: l ∧ l <+: r ++ ns

namespace Widened

theorem refl (r : Location) (ns : List String) (t : FileTree) : Widened r ns t t :=
  fun _ => .inl rfl

theorem trans (h : Widened r ns t t') (h' : Widened r ns t' t'') : Widened r ns t t'' := by
  intro l
  rcases h l with hl | ⟨h1, h2, h3, h4⟩
  · rw [← hl]
    exact h' l
  · rcases h' l with hl' | ⟨hl', -⟩
    · exact .inr ⟨h1, hl'.trans h2, h3, h4⟩
    · rw [h2] at hl'
      cases hl'

theorem mono {ms : List String} (h : Widened r ns t t') (hms : ns <+: ms) :
    Widened r ms t t' := by
  intro l
  rcases h l with hl | ⟨h1, h2, h3, h4⟩
  · exact .inl hl
  · exact .inr ⟨h1, h2, h3, h4.trans ((List.prefix_append_right_inj r).2 hms)⟩

theorem congr (h : Widened r ns t t') (ht : ∀ l, t''.find? l = t'.find? l) :
    Widened r ns t t'' := by
  intro l
  rw [ht]
  exact h l

/-- Files are neither made nor changed. -/
theorem file_iff (h : Widened r ns t t') (l : Location) :
    t'.find? l = some (.file data mode) ↔ t.find? l = some (.file data mode) := by
  rcases h l with hl | ⟨h1, h2, -⟩
  · rw [hl]
  · rw [h1, h2]
    simp

end Widened

/-- Whether a path to `n` in the directory `ns` below `root` leads anywhere. -/
def Reaches (t : FileTree) (root r : Location) (ns : List String) (n : String) : Prop :=
  Fits root (ns ++ [n]) ∧ t.find? (r ++ ns) = some .directory

theorem find?_insert_self (t : FileTree) (l : Location) (n : String) (node : Node) :
    (t.insert (l ++ [n]) node).find? (l ++ [n]) = some node := by
  rw [find?_insert, if_pos ⟨rfl, by simp⟩]

theorem find?_insert_of_ne {l l' : Location} (hl : l' ≠ l) (t : FileTree) (node : Node) :
    (t.insert l node).find? l' = t.find? l' := by
  rw [find?_insert, if_neg (fun hc => hl hc.1)]

theorem find?_erase_of_ne {l l' : Location} (hl : l' ≠ l) (t : FileTree) :
    (t.erase l).find? l' = t.find? l' := by
  rw [find?_erase, if_neg (fun hc => hl hc.1)]

theorem ne_append_singleton (l : Location) (n : String) : l ≠ l ++ [n] := by simp

theorem prefix_below (r : Location) (ns : List String) : r <+: r ++ ns := List.prefix_append r ns

theorem isFile_iff (t : FileTree) (l : Location) : t.isFile l ↔ ∃ data, t.read l = .ok data := by
  unfold isFile read
  rcases t.lookup l with e | ⟨data, mode⟩ | _ | _ <;> simp

namespace Base

variable (h : Base t root r) (hp : Plain (ns ++ [n]))

include h hp

theorem resolve_of_reaches (follow : Bool) (hr : Reaches t root r ns n) :
    t.resolve follow (root ++ (ns ++ [n])) = .ok (r ++ ns ++ [n]) := by
  rw [h.resolve_eq_ok_iff hp]
  exact ⟨List.append_assoc .., hr⟩

theorem resolve_of_not_reaches (follow : Bool) (hr : ¬ Reaches t root r ns n) :
    ∃ e, t.resolve follow (root ++ (ns ++ [n])) = .error e := by
  rcases hw : t.resolve follow (root ++ (ns ++ [n])) with e | p
  · exact ⟨e, rfl⟩
  · exact absurd ((h.resolve_eq_ok_iff hp).1 hw).2 hr

theorem place_of_reaches (follow : Bool) (hr : Reaches t root r ns n) :
    place follow (root ++ (ns ++ [n])) t = .ok (r ++ ns ++ [n]) t := by
  rw [place, h.resolve_of_reaches hp _ hr]

theorem lookup_of_reaches (hr : Reaches t root r ns n) :
    t.lookup (root ++ (ns ++ [n])) =
      match t.find? (r ++ ns ++ [n]) with
      | none => .error .missing
      | some node => .ok node := by
  cases hf : t.find? (r ++ ns ++ [n]) with
  | none => simp only [lookup, h.resolve_of_reaches hp _ hr, hf]
  | some node => simp only [lookup, h.resolve_of_reaches hp _ hr, hf]

theorem isDirectory_iff :
    t.isDirectory (root ++ (ns ++ [n])) ↔
      Reaches t root r ns n ∧ t.find? (r ++ ns ++ [n]) = some .directory := by
  by_cases hr : Reaches t root r ns n
  · rw [isDirectory, h.lookup_of_reaches hp hr]
    rcases t.find? (r ++ ns ++ [n]) with _ | ⟨_⟩ | _ | _ <;> simp [hr]
  · obtain ⟨e, he⟩ := h.resolve_of_not_reaches hp true hr
    simp [isDirectory, lookup, he, hr]

/-- What stands somewhere below `root` is a file that can be read. -/
theorem read_eq_ok_iff :
    t.read (root ++ (ns ++ [n])) = .ok data ↔
      Fits root (ns ++ [n]) ∧ ∃ mode, t.find? (r ++ ns ++ [n]) = some (.file data mode) := by
  have hd : ∀ mode, t.find? (r ++ ns ++ [n]) = some (.file data mode) →
      t.find? (r ++ ns) = some .directory := fun mode hm =>
    h.parent _ n (prefix_below r ns) (by rw [hm]; simp)
  by_cases hr : Reaches t root r ns n
  · rw [read, h.lookup_of_reaches hp hr]
    rcases t.find? (r ++ ns ++ [n]) with _ | ⟨data', mode⟩ | _ | _ <;> simp [hr.1, eq_comm]
  · obtain ⟨e, he⟩ := h.resolve_of_not_reaches hp true hr
    simp only [read, lookup, he, reduceCtorEq, false_iff]
    rintro ⟨hf, mode, hm⟩
    exact hr ⟨hf, hd mode hm⟩

theorem create_of_none (hr : Reaches t root r ns n) (hf : t.find? (r ++ ns ++ [n]) = none) :
    create (root ++ (ns ++ [n])) t =
      .ok (r ++ ns ++ [n]) (t.insert (r ++ ns ++ [n]) (.file .empty newFileMode)) := by
  rw [create_apply, h.resolve_of_reaches hp _ hr]
  simp only [hf]

theorem write_of_none (hr : Reaches t root r ns n) (hf : t.find? (r ++ ns ++ [n]) = none)
    (data : ByteArray) :
    write (root ++ (ns ++ [n])) data t =
      .ok () ((t.insert (r ++ ns ++ [n]) (.file .empty newFileMode)).insert (r ++ ns ++ [n])
        (.file data newFileMode)) := by
  rw [write, bind_apply, h.create_of_none hp hr hf]
  simp only [fill_apply, find?_insert_self]

theorem create_of_file (hr : Reaches t root r ns n)
    (hf : t.find? (r ++ ns ++ [n]) = some (.file data mode)) :
    create (root ++ (ns ++ [n])) t =
      .ok (r ++ ns ++ [n]) (t.insert (r ++ ns ++ [n]) (.file .empty mode)) := by
  rw [create_apply, h.resolve_of_reaches hp _ hr]
  simp only [hf]

theorem setMode_of_file {bits : Nat} (hr : Reaches t root r ns n)
    (hf : t.find? (r ++ ns ++ [n]) = some (.file data mode)) :
    setMode (root ++ (ns ++ [n])) bits t =
      .ok () (t.insert (r ++ ns ++ [n]) (.file data (permissions bits))) := by
  rw [setMode_apply, h.resolve_of_reaches hp _ hr]
  simp only [hf]

theorem remove_of_file (hr : Reaches t root r ns n)
    (hf : t.find? (r ++ ns ++ [n]) = some (.file data mode)) :
    remove (root ++ (ns ++ [n])) t = .ok () (t.erase (r ++ ns ++ [n])) := by
  rw [remove_apply, h.resolve_of_reaches hp _ hr]
  simp only [hf]

theorem remove_of_none (hf : t.find? (r ++ ns ++ [n]) = none) :
    ∃ e, remove (root ++ (ns ++ [n])) t = .error e t := by
  by_cases hr : Reaches t root r ns n
  · refine ⟨.missing, ?_⟩
    rw [remove_apply, h.resolve_of_reaches hp false hr]
    simp only [hf]
  · obtain ⟨e, he⟩ := h.resolve_of_not_reaches hp false hr
    exact ⟨e, by rw [remove_apply, he]⟩

theorem ensureDirectory_spec :
    ∃ t', Base t' root r ∧ Widened r (ns ++ [n]) t t' ∧
      (ensureDirectory (root ++ (ns ++ [n])) t = .ok () t' ∧ Fits root (ns ++ [n]) ∧
          t'.find? (r ++ ns ++ [n]) = some .directory ∨
        ∃ e, ensureDirectory (root ++ (ns ++ [n])) t = .error e t') := by
  have hdir := h.isDirectory_iff hp
  by_cases hr : Reaches t root r ns n
  · rcases hf : t.find? (r ++ ns ++ [n]) with _ | node
    · refine ⟨t.insert (r ++ ns ++ [n]) .directory, ?_, ?_, .inl ⟨?_, hr.1, ?_⟩⟩
      · exact h.insert (prefix_below r ns) hr.2 (by simp) (.inl rfl)
      · intro l
        rw [find?_insert]
        split_ifs with hl
        · refine .inr ⟨hl.1 ▸ hf, rfl, ?_, ?_⟩
          · rw [hl.1, List.append_assoc]
            exact prefix_below r _
          · simp [hl.1]
        · exact .inl rfl
      · simp only [ensureDirectory, makeDirectory_apply, h.resolve_of_reaches hp _ hr, hf]
      · rw [find?_insert, if_pos ⟨rfl, by simp⟩]
    · refine ⟨t, h, .refl r _ t, ?_⟩
      simp only [ensureDirectory, makeDirectory_apply, h.resolve_of_reaches hp _ hr, hf]
      split_ifs with hd
      · exact .inl ⟨rfl, hr.1, hf ▸ (hdir.1 hd).2⟩
      · exact .inr ⟨_, rfl⟩
  · obtain ⟨e, he⟩ := h.resolve_of_not_reaches hp false hr
    refine ⟨t, h, .refl r _ t, .inr ⟨e, ?_⟩⟩
    simp only [ensureDirectory, makeDirectory_apply, he]
    rw [if_neg]
    exact fun hd => hr (hdir.1 hd).1

end Base

theorem makeDirectory_error {l : Location} {e : Error} (h : makeDirectory l t = .error e t') :
    t' = t := by
  rw [makeDirectory_apply] at h
  split at h
  · cases h
    rfl
  · split at h <;> cases h
    rfl

/-- Only a missing directory above makes a difference to `ensureDirectory`. -/
theorem makeDirectories_of_ne_missing {l : Location}
    (hm : makeDirectory l t ≠ .error .missing t) : makeDirectories l t = ensureDirectory l t := by
  rcases h : makeDirectory l t with ⟨⟨⟩, t'⟩ | ⟨e, t'⟩
  · rw [makeDirectories, ensureDirectory, h]
  · obtain rfl := makeDirectory_error h
    rw [makeDirectories, ensureDirectory, h]
    cases e <;> simp_all

theorem makeDirectories_of_missing {l : Location} (hl : l ≠ [])
    (hm : makeDirectory l t = .error .missing t) :
    makeDirectories l t =
      match makeDirectories l.dropLast t with
      | .ok () t => ensureDirectory l t
      | .error e t => .error e t := by
  rw [makeDirectories, hm]
  exact dif_neg hl

theorem makeDirectories_of_directory (h : t.resolve true l = .ok r)
    (hr : t.find? r = some .directory) : makeDirectories l t = .ok () t := by
  obtain ⟨p, hp, hne⟩ := resolve_noFollow h (by rw [hr]; simp)
  obtain ⟨node, hnode⟩ := Option.ne_none_iff_exists'.1 hne
  have hmake : makeDirectory l t = .error .exists t := by
    rw [makeDirectory_apply, hp]
    simp only [hnode]
  have hdir : t.isDirectory l := by
    rw [isDirectory, lookup, h]
    simp only [hr]
  rw [makeDirectories, hmake]
  simp only [hdir, if_true]

theorem Plain.init {ms ns : List String} (h : Plain (ms ++ ns)) : Plain ms :=
  fun n hn => h n (List.mem_append_left _ hn)

/-- A name directly below `root` may be too long, but the directory that it stands in is there. -/
theorem Base.makeDirectory_child (h : Base t root r) (hn : n ≠ ".." ∧ n ≠ ".") :
    makeDirectory (root ++ [n]) t ≠ .error .missing t := by
  rw [makeDirectory_apply]
  rcases h.resolve_child false hn with hr | hr <;> rw [hr]
  · rcases hf : t.find? (r ++ [n]) with _ | node <;> simp [hf]
  · simp

/-- `makeDirectories` makes directories on the way and nothing else; if it succeeds then the last
one is there. -/
theorem Base.makeDirectories_spec :
    ∀ (ns : List String) {n : String} {t : FileTree}, Base t root r → Plain (ns ++ [n]) →
      ∃ t', Base t' root r ∧ Widened r (ns ++ [n]) t t' ∧
        (makeDirectories (root ++ (ns ++ [n])) t = .ok () t' ∧ Fits root (ns ++ [n]) ∧
            t'.find? (r ++ ns ++ [n]) = some .directory ∨
          ∃ e, makeDirectories (root ++ (ns ++ [n])) t = .error e t') := by
  intro ns
  induction ns using List.reverseRecOn with
  | nil =>
    intro n t h hp
    have hm : makeDirectory (root ++ ([] ++ [n])) t ≠ .error .missing t :=
      h.makeDirectory_child (hp n (by simp))
    rw [makeDirectories_of_ne_missing hm]
    exact h.ensureDirectory_spec hp
  | append_singleton ns m ih =>
    intro n t h hp
    by_cases hm : makeDirectory (root ++ (ns ++ [m] ++ [n])) t = .error .missing t
    case neg =>
      rw [makeDirectories_of_ne_missing hm]
      exact h.ensureDirectory_spec hp
    have hdl : (root ++ (ns ++ [m] ++ [n])).dropLast = root ++ (ns ++ [m]) := by
      rw [← List.append_assoc, List.dropLast_concat]
    rw [makeDirectories_of_missing (by simp) hm, hdl]
    obtain ⟨t₁, h₁, hw₁, ⟨hok, -, -⟩ | ⟨e, he⟩⟩ := ih h hp.init
    · obtain ⟨t₂, h₂, hw₂, hres⟩ := h₁.ensureDirectory_spec hp
      refine ⟨t₂, h₂, (hw₁.mono (List.prefix_append ..)).trans hw₂, ?_⟩
      rw [hok]
      exact hres
    · refine ⟨t₁, h₁, hw₁.mono (List.prefix_append ..), .inr ⟨e, ?_⟩⟩
      rw [he]

end Depot.FileTree
