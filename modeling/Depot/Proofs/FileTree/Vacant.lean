import Depot.Proofs.FileTree.Growth

/-!
# Making a directory that is missing

Where there is nothing yet, making a directory with all that is missing above it leaves an empty
directory (`makeDirectories_of_vacant`), so what holds of empty directories holds there as well.
-/

namespace Depot.FileTree

variable {t : FileTree} {root l p r : Location} {n m : String} {ns : List String}

/-- `l` leads to the directory `p`, and from there `n` is free, so the names `n :: ns` would lead to
new places. -/
structure Vacant (t : FileTree) (l p : Location) (n : String) (ns : List String) : Prop where
  leads : t.resolve true l = .ok p
  directory : t.find? p = some .directory
  plain : Plain (n :: ns)
  fits : Fits l (n :: ns)
  free : ∀ q, p ++ [n] <+: q → t.find? q = none

theorem Vacant.init (h : Vacant t l p n (ns ++ [m])) : Vacant t l p n ns where
  leads := h.leads
  directory := h.directory
  plain := Plain.init (show Plain (n :: ns ++ [m]) from h.plain)
  fits := Fits.init (show Fits l (n :: ns ++ [m]) from h.fits)
  free := h.free

theorem EmptyDirectory.vacant (h : EmptyDirectory t root r) (hn : n ≠ ".." ∧ n ≠ ".")
    (hfits : Fits root [n]) : Vacant t root r n [] where
  leads := h.leads
  directory := h.directory
  plain m hm := by rwa [List.mem_singleton.1 hm]
  fits := hfits
  free q := by
    rintro ⟨ns, rfl⟩
    exact h.empty _ ⟨n, ns, by simp⟩

theorem Vacant.makeDirectory (h : Vacant t l p n []) :
    ∃ t', makeDirectory (l ++ [n]) t = .ok () t' ∧ EmptyDirectory t' (l ++ [n]) (p ++ [n]) := by
  have hn := h.plain n List.mem_cons_self
  have hplace : t.resolve false (l ++ [n]) = .ok (p ++ [n]) := by
    rw [resolve_in false h.leads h.directory hn nofun, if_pos h.fits]
  have hmake : FileTree.makeDirectory (l ++ [n]) t = .ok () (t.insert (p ++ [n]) .directory) := by
    rw [makeDirectory_apply, hplace]
    simp only [h.free _ (List.prefix_refl _)]
  have hself := find?_insert_self t p n .directory
  have hg := (makeDirectory_paved hmake).1.grows
  refine ⟨_, hmake, ?_, hself, fun q hq => ?_⟩
  · rw [resolve_in true (resolve_true_of_grows hg h.leads) (hg.directory p h.directory) hn
      fun _ => by simp [hself], if_pos h.fits]
  · obtain ⟨m, ns, rfl⟩ := hq
    rw [find?_insert_of_ne (by simp), h.free _ (List.prefix_append ..)]

/-- The first of several missing directories keeps the last one from being made. -/
theorem Vacant.makeDirectory_missing (h : Vacant t l p n (ns ++ [m])) :
    FileTree.makeDirectory (l ++ n :: (ns ++ [m])) t = .error .missing t := by
  obtain ⟨links, hwalk⟩ := resolve_below h.leads h.directory
  obtain ⟨h1, h2⟩ := h.plain n List.mem_cons_self
  have h3 := h.fits.2 n List.mem_cons_self
  rw [makeDirectory_apply, hwalk false _ (by simp), if_neg (Nat.not_lt.2 h.fits.1),
    walk_none h1 h2 h3 (h.free _ (List.prefix_refl _)), if_neg (by simp)]

theorem makeDirectories_of_vacant (h : Vacant t l p n ns) :
    ∃ t', makeDirectories (l ++ n :: ns) t = .ok () t' ∧
      EmptyDirectory t' (l ++ n :: ns) (p ++ n :: ns) := by
  induction ns using List.reverseRecOn with
  | nil =>
    obtain ⟨t', hmake, hempty⟩ := h.makeDirectory
    refine ⟨t', ?_, hempty⟩
    rw [makeDirectories_of_ne_missing (by rw [hmake]; simp), ensureDirectory, hmake]
  | append_singleton ns m ih =>
    obtain ⟨t₁, hmake₁, hempty₁⟩ := ih h.init
    have hm : m ≠ ".." ∧ m ≠ "." := h.plain m (by simp)
    have hfits : Fits (l ++ n :: ns) [m] :=
      ⟨by simpa using h.fits.1, fun x hx => h.fits.2 x (by simp_all)⟩
    obtain ⟨t₂, hmake₂, hempty₂⟩ := (hempty₁.vacant hm hfits).makeDirectory
    have hsplit : ∀ q : Location, q ++ n :: (ns ++ [m]) = q ++ n :: ns ++ [m] := by simp
    have hlast : (l ++ n :: (ns ++ [m])).dropLast = l ++ n :: ns := by
      rw [hsplit, List.dropLast_concat]
    refine ⟨t₂, ?_, by rwa [hsplit, hsplit]⟩
    rw [makeDirectories_of_missing (by simp) h.makeDirectory_missing, hlast, hmake₁]
    simp only [hsplit, ensureDirectory, hmake₂]

end Depot.FileTree
