import Depot.Proofs.FileTree.Growth

/-!
# What stands at a path itself

`nodeAt?` looks at the end of a path and does not follow a link there. No path leads on from a file,
from a link to one, or from a free place (`DeadEnd`), so when a file takes such a place all other
paths go on leading where they did (`DeadEnd.resolve`).
-/

namespace Depot.FileTree

variable {t t' t'' : FileTree} {l l' p q r here : Location} {follow : Bool} {links : Nat}
  {xs : List String} {name target : String} {data : ByteArray} {mode : Nat} {node : Node}

/-- What stands at `l` itself. -/
def nodeAt? (t : FileTree) (l : Location) : Option Node :=
  match t.resolve false l with
  | .ok p => t.find? p
  | .error _ => none

theorem nodeAt?_of_resolve (h : t.resolve false l = .ok p) : t.nodeAt? l = t.find? p := by
  simp only [nodeAt?, h]

theorem nodeAt?_eq_some_iff :
    t.nodeAt? l = some node ↔ ∃ p, t.resolve false l = .ok p ∧ t.find? p = some node := by
  rw [nodeAt?]
  rcases t.resolve false l with e | p <;> simp

/-- At `l` itself there is a regular file. -/
def HoldsFile (t : FileTree) (l : Location) : Prop :=
  ∃ data mode, t.nodeAt? l = some (.file data mode)

/-- At `l` itself there is a link. -/
def HoldsLink (t : FileTree) (l : Location) : Prop :=
  ∃ target, t.nodeAt? l = some (.link target)

/-- At `l` there is a link to a place where nothing is, but where a file can be made. -/
def Dangles (t : FileTree) (l : Location) : Prop :=
  t.HoldsLink l ∧ ∃ p, t.resolve true l = .ok p ∧ t.find? p = none

theorem HoldsLink.not_holdsFile (h : t.HoldsLink l) : ¬ t.HoldsFile l := by
  obtain ⟨target, hl⟩ := h
  rintro ⟨data, mode, hf⟩
  cases hl.symm.trans hf

/-! ### Walks that do not follow the last link -/

theorem walk_link_zero {rest : List String} (h1 : name ≠ "..") (h2 : name ≠ ".")
    (h3 : ¬isTooLong name) (h : t.find? (here ++ [name]) = some (.link target))
    (hr : ¬(rest = [] ∧ !follow)) :
    walk t follow 0 here (name :: rest) = .error .tooManyLinks := by
  rw [walk_cons, if_neg h1, if_neg h2, if_neg h3]
  simp only [h, if_neg hr]

/-- How many links may be followed makes no difference to where a path leads. -/
theorem walk_unique (h : walk t follow links here xs = .ok p) :
    ∀ links', walk t follow links' here xs = .ok q → p = q := by
  fun_induction walk t follow links here xs with
  | case1 links here =>
    intro links' h'
    rw [walk] at h'
    exact Except.ok.inj (h.symm.trans h')
  | case2 links here rest ih =>
    intro links' h'
    rw [walk_cons, if_pos rfl] at h'
    exact ih h links' h'
  | case3 links here rest hn ih =>
    intro links' h'
    rw [walk_cons, if_neg hn, if_pos rfl] at h'
    exact ih h links' h'
  | case5 links here name h1 h2 h3 l hl =>
    intro links' h'
    rw [walk_none h1 h2 h3 hl, if_pos rfl] at h'
    exact Except.ok.inj (h.symm.trans h')
  | case7 links here name rest h1 h2 h3 l hl ih =>
    intro links' h'
    rw [walk_directory h1 h2 h3 hl] at h'
    exact ih h links' h'
  | case8 links here name h1 h2 h3 l data mode hl =>
    intro links' h'
    rw [walk_file h1 h2 h3 hl, if_pos rfl] at h'
    exact Except.ok.inj (h.symm.trans h')
  | case10 links here name rest h1 h2 h3 l target hl hc =>
    intro links' h'
    obtain ⟨rfl, hfollow⟩ := hc
    obtain rfl : follow = false := by simpa using hfollow
    rw [walk_last_noFollow h1 h2 h3] at h'
    exact Except.ok.inj (h.symm.trans h')
  | case12 here name rest h1 h2 h3 l target hl hc links start ih =>
    rintro (_ | links') h'
    · rw [walk_link_zero h1 h2 h3 hl hc] at h'
      cases h'
    · rw [walk_link h1 h2 h3 hl hc] at h'
      exact ih h links' h'
  | _ => cases h

theorem walk_noFollow_of_grows (hg : Grows t t') (h : walk t false links here xs = .ok p) :
    walk t' false links here xs = .ok p := by
  fun_induction walk t false links here xs with
  | case1 links here => rw [walk, h]
  | case2 links here rest ih => rw [walk_cons, if_pos rfl, ih h]
  | case3 links here rest hn ih => rw [walk_cons, if_neg hn, if_pos rfl, ih h]
  | case5 links here name h1 h2 h3 l hl => rw [walk_last_noFollow h1 h2 h3, ← h]
  | case7 links here name rest h1 h2 h3 l hl ih =>
    rw [walk_directory h1 h2 h3 (hg.directory _ hl), ih h]
  | case8 links here name h1 h2 h3 l data mode hl => rw [walk_last_noFollow h1 h2 h3, ← h]
  | case10 links here name rest h1 h2 h3 l target hl hc =>
    obtain ⟨rfl, -⟩ := hc
    rw [walk_last_noFollow h1 h2 h3, ← h]
  | case12 here name rest h1 h2 h3 l target hl hc links start ih =>
    rw [walk_link h1 h2 h3 ((hg.link _ _).2 hl) hc]
    exact ih h
  | _ => cases h

theorem resolve_noFollow_of_grows (hg : Grows t t') (h : t.resolve false l = .ok p) :
    t'.resolve false l = .ok p := by
  rw [resolve] at h ⊢
  split_ifs at h ⊢
  exact walk_noFollow_of_grows hg h

/-! ### Places that no path leads on from -/

/-- At `q` there is nothing, a file, or a link to a file. -/
inductive DeadEnd (t : FileTree) (q : Location) : Prop
  | free (h : t.find? q = none)
  | file {data : ByteArray} {mode : Nat} (h : t.find? q = some (.file data mode))
  | link {p : Location} {data : ByteArray} {mode : Nat} (h : LinkTo t q p)
      (hf : t.find? p = some (.file data mode))

namespace DeadEnd

theorem ne_directory (h : DeadEnd t q) : t.find? q ≠ some .directory := by
  intro hd
  rcases h with hn | hf | ⟨⟨target, links, hl, -⟩, -⟩
  · cases hn.symm.trans hd
  · cases hf.symm.trans hd
  · cases hl.symm.trans hd

/-- A walk that goes on cannot have come through a link to a file. -/
theorem not_passed (h : DeadEnd t (here ++ [name])) (hs : Standing t here)
    (hl : t.find? (here ++ [name]) = some (.link target)) (hxs : xs ≠ []) :
    walk t follow links (if Location.isAbsolute target then [] else here)
      (Location.steps target ++ xs) ≠ .ok p := by
  intro hw
  rcases h with hn | hf | ⟨⟨target', links', hl', hw'⟩, hf⟩
  · cases hn.symm.trans hl
  · cases hf.symm.trans hl
  · cases hl.symm.trans hl'
    rw [List.dropLast_concat] at hw'
    obtain ⟨r, hr, hd⟩ := walk_above (hs.start target) hw hxs
    obtain rfl := walk_unique hr _ hw'
    cases hd.directory.symm.trans hf

/-- Whatever is put at a dead end, a path that is not followed to its end leads where it did. -/
theorem walk_eq (h : DeadEnd t q) (ht : ∀ p, p ≠ q → t'.find? p = t.find? p)
    (hs : Standing t here) (hw : walk t false links here xs = .ok p) :
    walk t' false links here xs = .ok p := by
  fun_induction walk t false links here xs with
  | case1 links here => rw [walk, hw]
  | case2 links here rest ih => rw [walk_cons, if_pos rfl, ih hs.dropLast hw]
  | case3 links here rest hn ih => rw [walk_cons, if_neg hn, if_pos rfl, ih hs hw]
  | case5 links here name h1 h2 h3 l hl => rw [walk_last_noFollow h1 h2 h3, ← hw]
  | case7 links here name rest h1 h2 h3 l hl ih =>
    have hne : here ++ [name] ≠ q := by
      rintro rfl
      exact h.ne_directory hl
    rw [walk_directory h1 h2 h3 ((ht _ hne).trans hl)]
    exact ih (hs.concat hl) hw
  | case8 links here name h1 h2 h3 l data mode hl => rw [walk_last_noFollow h1 h2 h3, ← hw]
  | case10 links here name rest h1 h2 h3 l target hl hc =>
    obtain ⟨rfl, -⟩ := hc
    rw [walk_last_noFollow h1 h2 h3, ← hw]
  | case12 here name rest h1 h2 h3 l target hl hc links start ih =>
    have hrest : rest ≠ [] := by simpa using hc
    have hne : here ++ [name] ≠ q := by
      rintro rfl
      exact h.not_passed hs hl hrest hw
    rw [walk_link h1 h2 h3 ((ht _ hne).trans hl) hc]
    exact ih (hs.start target) hw
  | _ => cases hw

theorem resolve_eq (h : DeadEnd t q) (ht : ∀ p, p ≠ q → t'.find? p = t.find? p)
    (hr : t.resolve false l = .ok p) : t'.resolve false l = .ok p := by
  rw [resolve] at hr ⊢
  split_ifs at hr ⊢
  exact h.walk_eq ht (Standing.nil t) hr

end DeadEnd

theorem deadEnd_of_isFile (h : t.isFile l) :
    ∃ q, t.resolve false l = .ok q ∧ DeadEnd t q ∧ t.find? q ≠ none := by
  obtain ⟨p, data, mode, hr, hf⟩ := isFile_eq_true_iff.1 h
  obtain ⟨q, hq, rfl | hlink⟩ := resolve_end hr
  · exact ⟨q, hq, .file hf, by simp [hf]⟩
  · obtain ⟨target, links, hql, hw⟩ := hlink
    exact ⟨q, hq, .link ⟨target, links, hql, hw⟩ hf, by simp [hql]⟩

/-! ### Steady trees -/

/-- Paths that are not followed to their ends lead from `t` on where they did, and files stay, if
not their contents. -/
structure Steady (t t' : FileTree) : Prop where
  resolve : ∀ l p, t.resolve false l = .ok p → t'.resolve false l = .ok p
  file : ∀ p data mode, t.find? p = some (.file data mode) →
    ∃ data mode, t'.find? p = some (.file data mode)

namespace Steady

theorem refl (t : FileTree) : Steady t t := ⟨fun _ _ h => h, fun _ data mode h => ⟨data, mode, h⟩⟩

theorem trans (h : Steady t t') (h' : Steady t' t'') : Steady t t'' where
  resolve l p hr := h'.resolve l p (h.resolve l p hr)
  file p data mode hf := by
    obtain ⟨data, mode, hf⟩ := h.file p data mode hf
    exact h'.file p data mode hf

theorem holdsFile (h : Steady t t') (hl : t.HoldsFile l) : t'.HoldsFile l := by
  obtain ⟨data, mode, hl⟩ := hl
  obtain ⟨p, hr, hf⟩ := nodeAt?_eq_some_iff.1 hl
  obtain ⟨data, mode, hf⟩ := h.file p data mode hf
  exact ⟨data, mode, nodeAt?_eq_some_iff.2 ⟨p, h.resolve l p hr, hf⟩⟩

end Steady

theorem Widens.steady (h : Widens t t') : Steady t t' where
  resolve _ _ hr := resolve_noFollow_of_grows h.grows hr
  file p data mode hf := by
    rcases h p with heq | ⟨hnone, -⟩
    · exact ⟨data, mode, heq.trans hf⟩
    · cases hnone.symm.trans hf

/-- `t'` has a file at `q` and is as `t` elsewhere. -/
structure Filled (q : Location) (t t' : FileTree) : Prop where
  other : ∀ p, p ≠ q → t'.find? p = t.find? p
  file : ∃ data mode, t'.find? q = some (.file data mode)

theorem DeadEnd.steady (h : DeadEnd t q) (hf : Filled q t t') : Steady t t' where
  resolve _ _ hr := h.resolve_eq hf.other hr
  file p data mode hp := by
    rcases eq_or_ne p q with rfl | hne
    · exact hf.file
    · exact ⟨data, mode, (hf.other p hne).trans hp⟩

end Depot.FileTree
