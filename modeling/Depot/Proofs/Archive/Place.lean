import Depot.Proofs.Archive.Visit

/-!
# Putting one member at its place

In a destination without links, `place` makes directories on the way to its target and changes
nothing else but the file there, also when it fails (`place_spec`).
-/

namespace Depot.Archive

open FileTree (Action bind_apply get_apply create_cases fill_apply remove_apply setMode_apply Grows
  Bare Swapped Paved OnWay Unlinked Plain permissions makeDirectories)

variable {t t' t₁ : FileTree} {dest target p q : Location} {ns : List String} {m : Member}
  {s : Selection}

def clearPlace (target : Location) : Action Unit := do
  if (← get).isFile target then FileTree.remove target

def writeMember (m : Member) (target : Location) : Action Unit := do
  let p ← FileTree.create target
  FileTree.fill p m.content.data
  if m.content.failed then throw .missing
  FileTree.setMode target m.mode

theorem place_directory (h : m.isDirectory = true) (target : Location) :
    place m target = makeDirectories target := by
  rw [place, if_pos h]

theorem place_file (h : m.isDirectory = false) (target : Location) :
    place m target =
      (makeDirectories target.dropLast >>= fun _ => clearPlace target >>= fun _ =>
        writeMember m target) := by
  rw [place, if_neg (by simp [h])]
  funext t
  simp only [clearPlace, bind_apply, get_apply]
  rcases makeDirectories target.dropLast t with ⟨⟨⟩, t₁⟩ | ⟨e, t₁⟩
  · by_cases hf : t₁.isFile target
    · simp only [hf, if_true]
      rfl
    · simp only [hf]
      rfl
  · rfl

/-- Where a member can be written at all, only its own node changes. -/
theorem writeMember_spec (m : Member) (target : Location) (t : FileTree) :
    ((∃ e, writeMember m target t = .error e t) ∧
        ∀ p, t.resolve true target = .ok p → t.find? p ≠ none) ∨
      ∃ p t', t.resolve true target = .ok p ∧ Swapped p t t' ∧
        (∃ data mode, t'.find? p = some (.file data mode)) ∧
        (m.content.failed = false ∧ writeMember m target t = .ok () t' ∧
            t'.lookup target = .ok (.file m.content.data (permissions m.mode)) ∨
          m.content.failed = true ∧ ∃ e, writeMember m target t = .error e t') := by
  obtain ⟨⟨e, he⟩, hne⟩ | ⟨p, mode, hr, hb, hc⟩ := create_cases target t
  · refine .inl ⟨⟨e, ?_⟩, hne⟩
    rw [writeMember, bind_apply, he]
  right
  set t₁ := t.insert p (.file .empty mode) with ht₁
  have h₁ : Swapped p t t₁ := FileTree.swapped_insert hb
  have hf₁ : t₁.find? p = some (.file .empty mode) := by
    rw [ht₁, FileTree.find?_insert, if_pos ⟨rfl, hb.ne_nil⟩]
  set t₂ := t₁.insert p (.file m.content.data mode) with ht₂
  have h₂ : Swapped p t t₂ := h₁.trans (FileTree.swapped_insert h₁.after)
  have hf₂ : t₂.find? p = some (.file m.content.data mode) := by
    rw [ht₂, FileTree.find?_insert, if_pos ⟨rfl, hb.ne_nil⟩]
  rw [writeMember, bind_apply, hc]
  simp only [bind_apply, fill_apply, hf₁]
  cases m.content.failed with
  | true => exact ⟨p, t₂, hr, h₂, ⟨_, _, hf₂⟩, .inr ⟨rfl, _, rfl⟩⟩
  | false =>
    have hr₂ : t₂.resolve true target = .ok p := FileTree.resolve_of_grows h₂.grows hr h₂.after.2
    set t₃ := t₂.insert p (.file m.content.data (permissions m.mode)) with ht₃
    have h₃ : Swapped p t₂ t₃ := FileTree.swapped_insert h₂.after
    have hf₃ : t₃.find? p = some (.file m.content.data (permissions m.mode)) := by
      rw [ht₃, FileTree.find?_insert, if_pos ⟨rfl, hb.ne_nil⟩]
    refine ⟨p, t₃, hr, h₂.trans h₃, ⟨_, _, hf₃⟩,
      .inl ⟨rfl, ?_, FileTree.lookup_eq_ok_iff.2 ⟨p, ?_, hf₃⟩⟩⟩
    · change FileTree.setMode target m.mode t₂ = _
      simp only [setMode_apply, hr₂, hf₂, ht₃]
    · exact FileTree.resolve_of_grows h₃.grows hr₂ h₃.after.2

/-- Nothing but a file at the target is removed, and that can always be done. -/
theorem clearPlace_spec (hu : Unlinked t dest) (hp : Plain ns) (hns : ns ≠ []) :
    clearPlace (dest ++ ns) t = .ok () t ∨
      ∃ p t', t.resolve true (dest ++ ns) = .ok p ∧ Swapped p t t' ∧
        clearPlace (dest ++ ns) t = .ok () t' := by
  simp only [clearPlace, bind_apply, get_apply]
  by_cases hfile : t.isFile (dest ++ ns)
  case neg =>
    rw [if_neg hfile]
    exact .inl rfl
  obtain ⟨p, data, mode, hr, hf⟩ := FileTree.isFile_eq_true_iff.1 hfile
  have hr' : t.resolve false (dest ++ ns) = .ok p :=
    hu.resolve_noFollow hp hns hr (by simp [hf])
  refine .inr ⟨p, t.erase p, hr, FileTree.swapped_erase (FileTree.bare_of_file hf), ?_⟩
  rw [if_pos hfile]
  simp only [remove_apply, hr', hf]

theorem replaceFile_spec (hu : Unlinked t dest) (hp : Plain ns) (hns : ns ≠ []) (m : Member) :
    ∃ t', (t' = t ∨ ∃ p, t.resolve true (dest ++ ns) = .ok p ∧ Swapped p t t') ∧
      ((clearPlace (dest ++ ns) >>= fun _ => writeMember m (dest ++ ns)) t = .ok () t' ∧
          t'.lookup (dest ++ ns) = .ok (.file m.content.data (permissions m.mode)) ∨
        ∃ e, (clearPlace (dest ++ ns) >>= fun _ => writeMember m (dest ++ ns)) t =
          .error e t') := by
  rw [bind_apply]
  obtain h | ⟨p, t₁, hr, hs, h⟩ := clearPlace_spec hu hp hns <;> simp only [h]
  · obtain ⟨⟨e, he⟩, -⟩ | ⟨p, t', hr, hs, -, h⟩ := writeMember_spec m (dest ++ ns) t
    · exact ⟨t, .inl rfl, .inr ⟨e, he⟩⟩
    · exact ⟨t', .inr ⟨p, hr, hs⟩, h.imp (·.2) (·.2)⟩
  · obtain ⟨⟨e, he⟩, -⟩ | ⟨p', t', hr', hs', -, h⟩ := writeMember_spec m (dest ++ ns) t₁
    · exact ⟨t₁, .inr ⟨p, hr, hs⟩, .inr ⟨e, he⟩⟩
    · have hp' := FileTree.resolve_of_grows hs.grows hr hs.after.2
      obtain rfl : p' = p := Except.ok.inj (hr'.symm.trans hp')
      exact ⟨t', .inr ⟨p', hr, hs.trans hs'⟩, h.imp (·.2) (·.2)⟩

/-- What putting a member at its target does to the tree: directories are made on the way, and a
file may have come to the target or gone from there. -/
def Placed (m : Member) (target : Location) (t t' : FileTree) : Prop :=
  ∃ t₁, Paved target t t₁ ∧
    (t' = t₁ ∨ m.isDirectory = false ∧ ∃ p, t₁.resolve true target = .ok p ∧ Swapped p t₁ t')

namespace Placed

theorem grows (h : Placed m target t t') : Grows t t' := by
  obtain ⟨t₁, hp, rfl | ⟨-, p, -, hs⟩⟩ := h
  · exact hp.grows
  · exact hp.grows.trans hs.grows

/-- What has changed is a new directory on the way to the target, or a file at it. -/
theorem find?_cases (h : Placed m target t t') (q : Location) :
    t'.find? q = t.find? q ∨
      (t.find? q = none ∧ t'.find? q = some .directory ∧ OnWay t' target q) ∨
        m.isDirectory = false ∧ t'.resolve true target = .ok q := by
  obtain ⟨t₁, hp, rfl | ⟨hm, p, hr, hs⟩⟩ := h
  · exact (hp q).imp_right .inl
  · rcases eq_or_ne q p with rfl | hq
    · exact .inr (.inr ⟨hm, FileTree.resolve_of_grows hs.grows hr hs.after.2⟩)
    · rw [hs.other q hq]
      exact (hp q).imp_right fun ⟨hn, hd, hway⟩ => .inl ⟨hn, hd, hway.grows hs.grows⟩

end Placed

def Present (m : Member) (target : Location) (t : FileTree) : Prop :=
  if m.isDirectory then t.isDirectory target = true
  else t.lookup target = .ok (.file m.content.data (permissions m.mode))

theorem place_spec (hu : Unlinked t dest) (hp : Plain ns) (hns : ns ≠ []) (m : Member) :
    ∃ t', Placed m (dest ++ ns) t t' ∧
      (place m (dest ++ ns) t = .ok () t' ∧ Present m (dest ++ ns) t' ∨
        ∃ e, place m (dest ++ ns) t = .error e t') := by
  cases hm : m.isDirectory with
  | true =>
    obtain ⟨t', hpaved, h⟩ := FileTree.makeDirectories_paved (dest ++ ns) t
    refine ⟨t', ⟨t', hpaved, .inl rfl⟩, ?_⟩
    simp only [place_directory hm, Present, hm, if_true]
    exact h
  | false =>
    obtain ⟨t₁, hpaved, hmade⟩ := FileTree.makeDirectories_paved (dest ++ ns).dropLast t
    have hpaved := hpaved.of_prefix (List.dropLast_prefix (dest ++ ns))
    simp only [place_file hm, bind_apply _ _ t, Present, hm, Bool.false_eq_true, if_false]
    obtain ⟨hok, -⟩ | ⟨e, he⟩ := hmade
    · simp only [hok]
      obtain ⟨t', hs, h⟩ := replaceFile_spec (hu.grows hpaved.grows) hp hns m
      exact ⟨t', ⟨t₁, hpaved, hs.imp_right fun hs => ⟨hm, hs⟩⟩, h⟩
    · exact ⟨t₁, ⟨t₁, hpaved, .inl rfl⟩, .inr ⟨e, by rw [he]⟩⟩

/-- Whether it succeeds or not, storing a member leaves the tree or puts the member at its goal. -/
theorem store_cases (hu : Unlinked t s.dest) (m : Member) :
    treeAfter (store s m t) = t ∨
      s.Wants m ∧ Placed m (s.goal m) t (treeAfter (store s m t)) := by
  by_cases hw : s.Wants m
  case neg =>
    rw [store_of_not_wants hw]
    exact .inl rfl
  cases ht : s.test with
  | true =>
    rw [store_test ht]
    exact .inl rfl
  | false =>
    obtain ⟨t', hp, h⟩ := place_spec hu (s.plain_way hw) (s.way_ne_nil hw) m
    have hafter : treeAfter (store s m t) = t' := by
      rw [store_of_wants hw ht, Selection.goal]
      rcases h with ⟨hok, -⟩ | ⟨e, he⟩
      · rw [hok, treeAfter]
      · rw [he, treeAfter]
    rw [hafter]
    exact .inr ⟨hw, hp⟩

theorem store_ok (hu : Unlinked t s.dest) (ht : s.test = false) (hw : s.Wants m)
    (h : store s m t = .ok () t') : Placed m (s.goal m) t t' ∧ Present m (s.goal m) t' := by
  rw [store_of_wants hw ht] at h
  obtain ⟨t₁, hp, ⟨hok, hpresent⟩ | ⟨e, he⟩⟩ := place_spec hu (s.plain_way hw) (s.way_ne_nil hw) m
  · cases hok.symm.trans h
    exact ⟨hp, hpresent⟩
  · cases he.symm.trans h

theorem store_grows (hu : Unlinked t s.dest) (m : Member) :
    Grows t (treeAfter (store s m t)) := by
  rcases store_cases hu m with heq | ⟨-, hp⟩
  · rw [heq]
    exact .refl t
  · exact hp.grows

theorem storeAll_grows (hu : Unlinked t s.dest) (ms : List Member) :
    Grows t (treeAfter (storeAll s ms t)) := by
  induction ms generalizing t with
  | nil => exact .refl t
  | cons m ms ih =>
    have hstep := store_grows hu m
    rw [storeAll_cons]
    rcases h : store s m t with ⟨⟨⟩, t₁⟩ | ⟨e, t₁⟩ <;> simp only [h, treeAfter] at hstep ⊢
    · exact hstep.trans (ih (hu.grows hstep))
    · exact hstep

theorem storeAll_grows_of_ok {ms : List Member} (hu : Unlinked t s.dest)
    (h : storeAll s ms t = .ok () t') : Grows t t' := by
  have hg := storeAll_grows hu ms
  rwa [h, treeAfter] at hg

end Depot.Archive
