import Depot.Proofs.FileTree.Clear

/-!
# Where paths lead while a tree grows

A walk passes through directories and links only. So while those stay (`Grows`), a path that leads
to a file, to a directory or to a free place goes on leading there, whatever becomes of the files
(`resolve_of_grows`). Every path above one that leads somewhere leads to a directory
(`resolve_above`). Making directories adds directories only (`Widens`), at places on the way to the
last of them (`makeDirectories_paved`), and writing a file makes a tree grow (`write_grows`).
-/

namespace Depot.FileTree

variable {t t' t'' : FileTree} {l p q r here : Location} {follow : Bool} {links : Nat}
  {xs ys : List String} {name : String} {node : Node}

/-- Directories stay, and links neither come nor go. -/
structure Grows (t t' : FileTree) : Prop where
  directory : ∀ l, t.find? l = some .directory → t'.find? l = some .directory
  link : ∀ l target, t'.find? l = some (.link target) ↔ t.find? l = some (.link target)

namespace Grows

theorem refl (t : FileTree) : Grows t t := ⟨fun _ h => h, fun _ _ => Iff.rfl⟩

theorem trans (h : Grows t t') (h' : Grows t' t'') : Grows t t'' :=
  ⟨fun l hl => h'.directory l (h.directory l hl), fun l target => (h'.link l target).trans
    (h.link l target)⟩

end Grows

/-- From `t` to `t'` there are new directories and nothing else. -/
def Widens (t t' : FileTree) : Prop :=
  ∀ q, t'.find? q = t.find? q ∨ t.find? q = none ∧ t'.find? q = some .directory

namespace Widens

theorem refl (t : FileTree) : Widens t t := fun _ => .inl rfl

theorem trans (h : Widens t t') (h' : Widens t' t'') : Widens t t'' := by
  intro q
  rcases h q with heq | ⟨hnone, hdir⟩
  · rw [← heq]
    exact h' q
  · rcases h' q with heq' | ⟨hnone', -⟩
    · exact .inr ⟨hnone, heq'.trans hdir⟩
    · rw [hdir] at hnone'
      cases hnone'

theorem grows (h : Widens t t') : Grows t t' := by
  refine ⟨fun q hq => ?_, fun q target => ?_⟩
  · rcases h q with heq | ⟨hnone, -⟩
    · rw [heq, hq]
    · rw [hnone] at hq
      cases hq
  · rcases h q with heq | ⟨hnone, hdir⟩
    · rw [heq]
    · simp [hnone, hdir]

end Widens

/-- There is neither a directory nor a link at `p`. -/
def Bare (t : FileTree) (p : Location) : Prop :=
  t.find? p ≠ some .directory ∧ ∀ target, t.find? p ≠ some (.link target)

theorem bare_of_none (h : t.find? p = none) : Bare t p := by
  simp [Bare, h]

theorem bare_of_file {data : ByteArray} {mode : Nat} (h : t.find? p = some (.file data mode)) :
    Bare t p := by
  simp [Bare, h]

theorem Bare.ne_nil (h : Bare t p) : p ≠ [] := by
  rintro rfl
  exact h.1 rfl

/-- Trees that differ at `p` only, where neither has a directory or a link. -/
structure Swapped (p : Location) (t t' : FileTree) : Prop where
  other : ∀ q, q ≠ p → t'.find? q = t.find? q
  before : Bare t p
  after : Bare t' p

theorem Swapped.trans (h : Swapped p t t') (h' : Swapped p t' t'') : Swapped p t t'' :=
  ⟨fun q hq => (h'.other q hq).trans (h.other q hq), h.before, h'.after⟩

theorem Swapped.grows (h : Swapped p t t') : Grows t t' := by
  refine ⟨fun l hl => ?_, fun l target => ?_⟩
  · rw [h.other l, hl]
    rintro rfl
    exact h.before.1 hl
  · rcases eq_or_ne l p with rfl | hlp
    · exact iff_of_false (h.after.2 target) (h.before.2 target)
    · rw [h.other l hlp]

theorem swapped_insert {data : ByteArray} {mode : Nat} (h : Bare t p) :
    Swapped p t (t.insert p (.file data mode)) := by
  have hf : (t.insert p (.file data mode)).find? p = some (.file data mode) := by
    rw [find?_insert, if_pos ⟨rfl, h.ne_nil⟩]
  exact ⟨fun q hq => find?_insert_of_ne hq t _, h, bare_of_file hf⟩

theorem swapped_erase (h : Bare t p) : Swapped p t (t.erase p) := by
  refine ⟨fun q hq => find?_erase_of_ne hq t, h, bare_of_none ?_⟩
  rw [find?_erase, if_pos ⟨rfl, h.ne_nil⟩]

/-- `l` and everything above it are directories. -/
def Standing (t : FileTree) (l : Location) : Prop :=
  ∀ p, p <+: l → t.find? p = some .directory

namespace Standing

theorem nil (t : FileTree) : Standing t [] := by
  intro p hp
  rw [List.prefix_nil.1 hp, find?_nil]

theorem directory (h : Standing t l) : t.find? l = some .directory := h l (List.prefix_refl l)

theorem dropLast (h : Standing t l) : Standing t l.dropLast :=
  fun p hp => h p (hp.trans (List.dropLast_prefix l))

theorem concat (h : Standing t l) (hd : t.find? (l ++ [name]) = some .directory) :
    Standing t (l ++ [name]) := by
  intro p hp
  rcases List.prefix_concat_iff.1 hp with rfl | hp
  · exact hd
  · exact h p hp

theorem start (h : Standing t here) (target : String) :
    Standing t (if Location.isAbsolute target then [] else here) := by
  split
  · exact nil t
  · exact h

end Standing

theorem walk_ne_link (hs : Standing t here) (h : walk t true links here xs = .ok p)
    (target : String) : t.find? p ≠ some (.link target) := by
  fun_induction walk t true links here xs with
  | case1 links here =>
    cases h
    rw [hs.directory]
    simp
  | case2 links here rest ih => exact ih hs.dropLast h
  | case3 links here rest hn ih => exact ih hs h
  | case5 links here name _ _ _ l hl =>
    obtain rfl : here ++ [name] = p := Except.ok.inj h
    rw [hl]
    simp
  | case7 links here name rest _ _ _ l hl ih => exact ih (hs.concat hl) h
  | case8 links here name _ _ _ l data mode hl =>
    obtain rfl : here ++ [name] = p := Except.ok.inj h
    rw [hl]
    simp
  | case10 links here name rest _ _ _ l target hl hc => simp at hc
  | case12 here name rest _ _ _ l target hl hc links start ih => exact ih (hs.start target) h
  | _ => cases h

/-- The first part of a path that leads somewhere leads to a directory. -/
theorem walk_above (hs : Standing t here) (h : walk t follow links here (xs ++ ys) = .ok p)
    (hys : ys ≠ []) : ∃ r, walk t true links here xs = .ok r ∧ Standing t r := by
  -- wherever the walk along `xs` alone would stop, the longer one fails
  fun_induction walk t true links here xs with
  | case1 links here => exact ⟨here, rfl, hs⟩
  | case2 links here rest ih =>
    rw [List.cons_append, walk_cons, if_pos rfl] at h
    exact ih hs.dropLast h
  | case3 links here rest hn ih =>
    rw [List.cons_append, walk_cons, if_neg hn, if_pos rfl] at h
    exact ih hs h
  | case4 links here name rest h1 h2 h3 =>
    rw [List.cons_append, walk_cons, if_neg h1, if_neg h2, if_pos h3] at h
    cases h
  | case5 links here name h1 h2 h3 l hl =>
    rw [List.cons_append, walk_none h1 h2 h3 hl, if_neg (by simp [hys])] at h
    cases h
  | case6 links here name rest h1 h2 h3 l hl hr =>
    rw [List.cons_append, walk_none h1 h2 h3 hl, if_neg (by simp [hr])] at h
    cases h
  | case7 links here name rest h1 h2 h3 l hl ih =>
    rw [List.cons_append, walk_directory h1 h2 h3 hl] at h
    exact ih (hs.concat hl) h
  | case8 links here name h1 h2 h3 l data mode hl =>
    rw [List.cons_append, walk_file h1 h2 h3 hl, if_neg (by simp [hys])] at h
    cases h
  | case9 links here name rest h1 h2 h3 l data mode hl hr =>
    rw [List.cons_append, walk_file h1 h2 h3 hl, if_neg (by simp [hr])] at h
    cases h
  | case10 links here name rest h1 h2 h3 l target hl hc => simp at hc
  | case11 here name rest h1 h2 h3 l target hl hc =>
    have hne : ¬(rest ++ ys = [] ∧ !follow) := fun hc => hys (List.append_eq_nil_iff.1 hc.1).2
    rw [List.cons_append, walk_cons, if_neg h1, if_neg h2, if_neg h3] at h
    simp only [show t.find? (here ++ [name]) = _ from hl, if_neg hne] at h
    cases h
  | case12 here name rest h1 h2 h3 l target hl hc links start ih =>
    have hne : ¬(rest ++ ys = [] ∧ !follow) := fun hc => hys (List.append_eq_nil_iff.1 hc.1).2
    rw [List.cons_append, walk_link h1 h2 h3 hl hne, ← List.append_assoc] at h
    exact ih (hs.start target) h

/-- What is reached stays reached, and also if now the last link on a path is followed. -/
theorem walk_of_grows {follow' : Bool} (hg : Grows t t') (hf : follow → follow')
    (h : walk t follow links here xs = .ok p) (hp : ∀ target, t'.find? p ≠ some (.link target)) :
    walk t' follow' links here xs = .ok p := by
  fun_induction walk t follow links here xs with
  | case1 links here => rw [walk, h]
  | case2 links here rest ih => rw [walk_cons, if_pos rfl, ih h]
  | case3 links here rest hn ih => rw [walk_cons, if_neg hn, if_pos rfl, ih h]
  | case5 links here name h1 h2 h3 l hl =>
    obtain rfl : here ++ [name] = p := Except.ok.inj h
    exact walk_last h1 h2 h3 hp
  | case7 links here name rest h1 h2 h3 l hl ih =>
    rw [walk_directory h1 h2 h3 (hg.directory _ hl), ih h]
  | case8 links here name h1 h2 h3 l data mode hl =>
    obtain rfl : here ++ [name] = p := Except.ok.inj h
    exact walk_last h1 h2 h3 hp
  | case10 links here name rest h1 h2 h3 l target hl hc =>
    obtain rfl : here ++ [name] = p := Except.ok.inj h
    exact absurd ((hg.link _ _).2 hl) (hp target)
  | case12 here name rest h1 h2 h3 l target hl hc links start ih =>
    have hc' : ¬(rest = [] ∧ !follow') := by
      rintro ⟨hr, hf'⟩
      cases follow with
      | true => simp [hf rfl] at hf'
      | false => exact hc ⟨hr, rfl⟩
    rw [walk_link h1 h2 h3 ((hg.link _ _).2 hl) hc']
    exact ih h
  | _ => cases h

section Resolve

theorem resolve_ne_link (h : t.resolve true l = .ok p) (target : String) :
    t.find? p ≠ some (.link target) := by
  exact walk_ne_link (Standing.nil t) (walk_of_resolve h) target

theorem resolve_above (h : t.resolve follow (l ++ ys) = .ok p) (hys : ys ≠ []) :
    ∃ r, t.resolve true l = .ok r ∧ Standing t r := by
  rw [resolve] at h ⊢
  split_ifs at h with hlong
  have hle : l.render.utf8ByteSize ≤ (l ++ ys).render.utf8ByteSize := by
    rw [render_append, String.utf8ByteSize_append]
    omega
  rw [if_neg (by omega)]
  exact walk_above (Standing.nil t) h hys

theorem resolve_of_grows (hg : Grows t t') (h : t.resolve follow l = .ok p)
    (hp : ∀ target, t'.find? p ≠ some (.link target)) : t'.resolve follow l = .ok p := by
  rw [resolve] at h ⊢
  split_ifs at h ⊢
  exact walk_of_grows hg id h hp

theorem resolve_true_of_grows (hg : Grows t t') (h : t.resolve true l = .ok p) :
    t'.resolve true l = .ok p :=
  resolve_of_grows hg h fun target hl => resolve_ne_link h target ((hg.link p target).1 hl)

theorem resolve_follow (h : t.resolve false l = .ok p)
    (hp : ∀ target, t.find? p ≠ some (.link target)) : t.resolve true l = .ok p := by
  rw [resolve] at h ⊢
  split_ifs at h ⊢
  exact walk_of_grows (.refl t) (by simp) h hp

theorem lookup_eq_ok_iff :
    t.lookup l = .ok node ↔ ∃ p, t.resolve true l = .ok p ∧ t.find? p = some node := by
  rw [lookup]
  rcases t.resolve true l with e | p
  · simp
  · rcases hf : t.find? p with _ | n <;> simp [hf]

theorem isDirectory_eq_true_iff :
    t.isDirectory l ↔ ∃ r, t.resolve true l = .ok r ∧ t.find? r = some .directory := by
  rw [← lookup_eq_ok_iff, isDirectory]
  rcases t.lookup l with e | ⟨data, mode⟩ | _ | target <;> simp

theorem isFile_eq_true_iff :
    t.isFile l ↔
      ∃ p data mode, t.resolve true l = .ok p ∧ t.find? p = some (.file data mode) := by
  have hlook : t.isFile l ↔ ∃ data mode, t.lookup l = .ok (.file data mode) := by
    rw [isFile]
    rcases t.lookup l with e | ⟨data, mode⟩ | _ | target <;> simp
  simp only [hlook, lookup_eq_ok_iff]
  exact ⟨fun ⟨data, mode, p, h⟩ => ⟨p, data, mode, h⟩, fun ⟨p, data, mode, h⟩ => ⟨data, mode, p, h⟩⟩

theorem isDirectory_of_grows (hg : Grows t t') (h : t.isDirectory l) : t'.isDirectory l := by
  obtain ⟨r, hr, hd⟩ := isDirectory_eq_true_iff.1 h
  exact isDirectory_eq_true_iff.2 ⟨r, resolve_true_of_grows hg hr, hg.directory r hd⟩

theorem isDirectory_above (h : t.resolve follow (l ++ ys) = .ok p) (hys : ys ≠ []) :
    t.isDirectory l := by
  obtain ⟨r, hr, hs⟩ := resolve_above h hys
  exact isDirectory_eq_true_iff.2 ⟨r, hr, hs.directory⟩

end Resolve

theorem create_cases (l : Location) (t : FileTree) :
    ((∃ e, create l t = .error e t) ∧ ∀ p, t.resolve true l = .ok p → t.find? p ≠ none) ∨
      ∃ p mode, t.resolve true l = .ok p ∧ Bare t p ∧
        create l t = .ok p (t.insert p (.file .empty mode)) := by
  rw [create_apply]
  rcases hr : t.resolve true l with e | p
  · exact .inl ⟨⟨e, rfl⟩, nofun⟩
  rcases hf : t.find? p with _ | ⟨data, mode⟩ | _ | target
  · exact .inr ⟨p, newFileMode, rfl, bare_of_none hf, by simp only [hf]⟩
  · exact .inr ⟨p, mode, rfl, bare_of_file hf, by simp only [hf]⟩
  · refine .inl ⟨⟨.isDirectory, by simp only [hf]⟩, ?_⟩
    rintro _ ⟨⟩
    simp [hf]
  · exact absurd hf (resolve_ne_link hr target)

theorem write_grows {data : ByteArray} (h : write l data t = .ok () t') : Grows t t' := by
  rw [write, bind_apply] at h
  obtain ⟨⟨e, he⟩, -⟩ | ⟨p, mode, -, hb, hc⟩ := create_cases l t
  · rw [he] at h
    cases h
  have hf : (t.insert p (.file .empty mode)).find? p = some (.file .empty mode) := by
    rw [find?_insert, if_pos ⟨rfl, hb.ne_nil⟩]
  rw [hc] at h
  simp only [fill_apply, hf] at h
  cases h
  exact (swapped_insert hb).grows.trans (swapped_insert (bare_of_file hf)).grows

/-- `l`, or a path above it, leads to `q`. -/
def OnWay (t : FileTree) (l q : Location) : Prop :=
  ∃ a, a <+: l ∧ t.resolve true a = .ok q

theorem OnWay.of_prefix (h : OnWay t p q) (hp : p <+: l) : OnWay t l q := by
  obtain ⟨a, ha, hr⟩ := h
  exact ⟨a, ha.trans hp, hr⟩

theorem OnWay.grows (h : OnWay t l q) (hg : Grows t t') : OnWay t' l q := by
  obtain ⟨a, ha, hr⟩ := h
  exact ⟨a, ha, resolve_true_of_grows hg hr⟩

/-- From `t` to `t'` there are new directories, all of them on the way to `l`. -/
def Paved (l : Location) (t t' : FileTree) : Prop :=
  ∀ q, t'.find? q = t.find? q ∨
    t.find? q = none ∧ t'.find? q = some .directory ∧ OnWay t' l q

namespace Paved

theorem refl (l : Location) (t : FileTree) : Paved l t t := fun _ => .inl rfl

theorem widens (h : Paved l t t') : Widens t t' :=
  fun q => (h q).imp_right fun ⟨hnone, hdir, _⟩ => ⟨hnone, hdir⟩

theorem grows (h : Paved l t t') : Grows t t' := h.widens.grows

theorem trans (h : Paved l t t') (h' : Paved l t' t'') : Paved l t t'' := by
  intro q
  rcases h q with heq | ⟨hnone, hdir, hway⟩
  · rw [← heq]
    exact h' q
  · exact .inr ⟨hnone, h'.grows.directory q hdir, hway.grows h'.grows⟩

theorem of_prefix (h : Paved p t t') (hp : p <+: l) : Paved l t t' :=
  fun q => (h q).imp_right fun ⟨hnone, hdir, hway⟩ => ⟨hnone, hdir, hway.of_prefix hp⟩

end Paved

theorem makeDirectory_paved (h : makeDirectory l t = .ok () t') :
    Paved l t t' ∧ t'.isDirectory l := by
  rw [makeDirectory_apply] at h
  rcases hr : t.resolve false l with e | p <;> simp only [hr] at h
  · cases h
  rcases hp : t.find? p with _ | node <;> simp only [hp] at h <;> cases h
  have hne : p ≠ [] := (bare_of_none hp).ne_nil
  have hother : ∀ q, q ≠ p → (t.insert p .directory).find? q = t.find? q := fun q hq =>
    find?_insert_of_ne hq t _
  have hself : (t.insert p .directory).find? p = some .directory := by
    rw [find?_insert, if_pos ⟨rfl, hne⟩]
  have hw : Widens t (t.insert p .directory) := fun q => by
    rcases eq_or_ne q p with rfl | hqp
    · exact .inr ⟨hp, hself⟩
    · exact .inl (hother q hqp)
  have hr' : (t.insert p .directory).resolve true l = .ok p :=
    resolve_of_grows hw.grows (resolve_follow hr (by simp [hp])) (by simp [hself])
  refine ⟨fun q => ?_, isDirectory_eq_true_iff.2 ⟨p, hr', hself⟩⟩
  rcases eq_or_ne q p with rfl | hqp
  · exact .inr ⟨hp, hself, l, List.prefix_refl l, hr'⟩
  · exact .inl (hother q hqp)

theorem ensureDirectory_paved (l : Location) (t : FileTree) :
    ∃ t', Paved l t t' ∧ (ensureDirectory l t = .ok () t' ∧ t'.isDirectory l ∨
      ∃ e, ensureDirectory l t = .error e t') := by
  rw [ensureDirectory]
  rcases h : makeDirectory l t with ⟨⟨⟩, t'⟩ | ⟨e, t'⟩
  · obtain ⟨hp, hd⟩ := makeDirectory_paved h
    exact ⟨t', hp, .inl ⟨rfl, hd⟩⟩
  · obtain rfl := makeDirectory_error h
    refine ⟨t', .refl l t', ?_⟩
    by_cases hd : t'.isDirectory l
    · exact .inl ⟨if_pos hd, hd⟩
    · exact .inr ⟨e, if_neg hd⟩

/-- `makeDirectories` makes directories on the way and nothing else, also when it fails. -/
theorem makeDirectories_paved (l : Location) (t : FileTree) :
    ∃ t', Paved l t t' ∧ (makeDirectories l t = .ok () t' ∧ t'.isDirectory l ∨
      ∃ e, makeDirectories l t = .error e t') := by
  induction l using List.reverseRecOn generalizing t with
  | nil =>
    rw [makeDirectories_of_directory (r := []) (by rw [resolve, if_neg (by decide), walk]) rfl]
    exact ⟨t, .refl [] t, .inl ⟨rfl, isDirectory_eq_true_iff.2
      ⟨[], by rw [resolve, if_neg (by decide), walk], rfl⟩⟩⟩
  | append_singleton l n ih =>
    by_cases hm : makeDirectory (l ++ [n]) t = .error .missing t
    case neg =>
      rw [makeDirectories_of_ne_missing hm]
      exact ensureDirectory_paved (l ++ [n]) t
    rw [makeDirectories_of_missing (by simp) hm, List.dropLast_concat]
    obtain ⟨t₁, h₁, ⟨hok, -⟩ | ⟨e, he⟩⟩ := ih t
    · obtain ⟨t₂, h₂, hres⟩ := ensureDirectory_paved (l ++ [n]) t₁
      refine ⟨t₂, (h₁.of_prefix (List.prefix_append l [n])).trans h₂, ?_⟩
      rw [hok]
      exact hres
    · exact ⟨t₁, h₁.of_prefix (List.prefix_append l [n]), .inr ⟨e, by rw [he]⟩⟩

end Depot.FileTree
