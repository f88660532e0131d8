import Depot.Proofs.FileTree.Operations

/-!
# Making directories where no file is in the way

On a `Clear` path a walk can fail only for a directory that is missing, and so `makeDirectories`
succeeds there (`Base.makeDirectories_of_clear`).
-/

namespace Depot.FileTree

variable {t : FileTree} {root r : Location} {ns : List String} {n : String}

theorem render_append (l l' : Location) :
    (l ++ l' : Location).render = l.render ++ l'.render := by
  rw [Location.render, List.map_append, String.join_append]
  rfl

theorem Fits.init {ms : List String} (h : Fits root (ms ++ ns)) : Fits root ms := by
  obtain ⟨hsize, hlong⟩ := h
  refine ⟨?_, fun n hn => hlong n (List.mem_append_left _ hn)⟩
  rw [← List.append_assoc, render_append, String.utf8ByteSize_append] at hsize
  omega

/-- On the way from `r` along `ns` there are no files. -/
def Clear (t : FileTree) (r : Location) (ns : List String) : Prop :=
  ∀ ms m, ms ++ [m] <+: ns →
    t.find? (r ++ ms ++ [m]) = none ∨ t.find? (r ++ ms ++ [m]) = some .directory

/-- A walk stops at a directory that is missing. -/
theorem Base.walk_missing {follow : Bool} {links : Nat} (h : Base t root r) :
    ∀ {ns : List String} {here : Location}, r <+: here → t.find? here = some .directory →
      Plain ns → (∀ m ∈ ns, ¬isTooLong m) → Clear t here ns →
      t.find? (here ++ ns) ≠ some .directory →
      walk t follow links here (ns ++ [n]) = .error .missing
  | [], here, _, hd, _, _, _, hne => absurd (by simpa using hd) hne
  | m :: ns, here, hl, hd, hp, hlong, hclear, hne => by
    obtain ⟨h1, h2⟩ := hp m List.mem_cons_self
    have h3 := hlong m List.mem_cons_self
    rw [List.cons_append]
    have hm := hclear [] m ⟨ns, rfl⟩
    rw [List.append_nil] at hm
    rcases hm with hm | hm
    · rw [walk_none h1 h2 h3 hm, if_neg (by simp)]
    · rw [walk_directory h1 h2 h3 hm]
      refine h.walk_missing (hl.trans (List.prefix_append ..)) hm
        (fun x hx => hp x (List.mem_cons_of_mem m hx))
        (fun x hx => hlong x (List.mem_cons_of_mem m hx)) (fun ms x hms => ?_) (by simpa using hne)
      have := hclear (m :: ms) x (by simpa using hms)
      simpa using this

theorem Base.resolve_missing (h : Base t root r) {follow : Bool} (hp : Plain ns)
    (hfit : Fits root (ns ++ [n])) (hclear : Clear t r ns)
    (hne : t.find? (r ++ ns) ≠ some .directory) :
    t.resolve follow (root ++ (ns ++ [n])) = .error .missing := by
  obtain ⟨links, hw⟩ := h.resolve_append
  rw [hw follow (ns ++ [n]) (by simp), if_neg (Nat.not_lt.2 hfit.1)]
  exact h.walk_missing (List.prefix_refl r) h.directory hp
    (fun m hm => hfit.2 m (List.mem_append_left _ hm)) hclear hne

theorem Clear.init {ms : List String} (h : Clear t r (ms ++ ns)) : Clear t r ms :=
  fun xs x hx => h xs x (hx.trans (List.prefix_append ..))

/-- The last directory can be made if the one before is there. -/
theorem Base.ensureDirectory_of_clear (h : Base t root r) (hp : Plain (ns ++ [n]))
    (hr : Reaches t root r ns n)
    (hf : t.find? (r ++ ns ++ [n]) = none ∨ t.find? (r ++ ns ++ [n]) = some .directory) :
    ∃ t', ensureDirectory (root ++ (ns ++ [n])) t = .ok () t' := by
  rcases hf with hf | hf
  · refine ⟨t.insert (r ++ ns ++ [n]) .directory, ?_⟩
    simp only [ensureDirectory, makeDirectory_apply, h.resolve_of_reaches hp _ hr, hf]
  · refine ⟨t, ?_⟩
    have hdir : t.isDirectory (root ++ (ns ++ [n])) := (h.isDirectory_iff hp).2 ⟨hr, hf⟩
    simp only [ensureDirectory, makeDirectory_apply, h.resolve_of_reaches hp _ hr, hf, hdir,
      if_true]

theorem Base.makeDirectories_of_clear :
    ∀ (ns : List String) {n : String} {t : FileTree}, Base t root r → Plain (ns ++ [n]) →
      Fits root (ns ++ [n]) → Clear t r (ns ++ [n]) →
      ∃ t', makeDirectories (root ++ (ns ++ [n])) t = .ok () t' := by
  intro ns
  induction ns using List.reverseRecOn with
  | nil =>
    intro n t h hp hfit hclear
    have hr : Reaches t root r [] n := ⟨hfit, by rw [List.append_nil, h.directory]⟩
    have hm : makeDirectory (root ++ ([] ++ [n])) t ≠ .error .missing t :=
      h.makeDirectory_child (hp n (by simp))
    rw [makeDirectories_of_ne_missing hm]
    exact h.ensureDirectory_of_clear hp hr (hclear [] n (List.prefix_refl _))
  | append_singleton ns m ih =>
    intro n t h hp hfit hclear
    have hnode := hclear (ns ++ [m]) n (List.prefix_refl _)
    by_cases hm : makeDirectory (root ++ (ns ++ [m] ++ [n])) t = .error .missing t
    case neg =>
      have hd : t.find? (r ++ (ns ++ [m])) = some .directory := by
        by_contra hd
        refine hm ?_
        rw [makeDirectory_apply, h.resolve_missing hp.init hfit hclear.init hd]
      rw [makeDirectories_of_ne_missing hm]
      exact h.ensureDirectory_of_clear hp ⟨hfit, hd⟩ hnode
    have hdl : (root ++ (ns ++ [m] ++ [n])).dropLast = root ++ (ns ++ [m]) := by
      rw [← List.append_assoc, List.dropLast_concat]
    obtain ⟨t₁, hok⟩ := ih h hp.init hfit.init hclear.init
    rw [makeDirectories_of_missing (by simp) hm, hdl]
    obtain ⟨t₂, h₁, hw, ⟨hok', -, hd⟩ | ⟨e, he⟩⟩ := h.makeDirectories_spec ns hp.init
    · rw [hok']
      rw [List.append_assoc] at hd
      refine h₁.ensureDirectory_of_clear hp ⟨hfit, hd⟩ ?_
      rcases hw (r ++ (ns ++ [m]) ++ [n]) with hl | ⟨-, hl, -⟩
      · rw [hl]
        exact hnode
      · exact .inr hl
    · rw [hok] at he
      cases he

end Depot.FileTree
