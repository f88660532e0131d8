import Depot.Proofs.FileTree.Unlinked
import Mathlib.Data.Set.Basic

/-!
# Paths that have nothing to do with one another

Where a path may lead depends on the directories that are missing on it: `Leads` allows for all that
may be made. `Changed S` is what becomes of a tree by work on the paths in `S`: there are new
directories on the way to them, and files at the places that they lead to. Such work never opens a
way to other places (`Changed.leads`), so from one change to the next it stays where it was, and
leaves alone a directory that is `Apart` from the one that it goes on below (`Changed.untouched`).
-/

namespace Depot.FileTree

variable {t t' t'' : FileTree} {S S' : Set Location} {root dest d l p q r here : Location}
  {follow : Bool} {links : Nat} {xs ns : List String} {data : ByteArray} {mode : Nat}

/-- `l` leads to `p`, or would do so with some of the directories that are missing. -/
def Leads (t : FileTree) (l p : Location) : Prop :=
  ∃ t' follow, Widens t t' ∧ t'.resolve follow l = .ok p

theorem leads_of_resolve (h : t.resolve follow l = .ok p) : Leads t l p :=
  ⟨t, follow, .refl t, h⟩

theorem Leads.of_widens (hw : Widens t t') (h : Leads t' l p) : Leads t l p := by
  obtain ⟨t'', follow, hw', hr⟩ := h
  exact ⟨t'', follow, hw.trans hw', hr⟩

/-- What is above a directory is there, so it makes no difference what else is made. -/
theorem find?_ne_none_of_leads (hroot : t.isDirectory root) (hl : l <+: root) (h : Leads t l q) :
    t.find? q ≠ none := by
  intro hnone
  have hdir : t.isDirectory l := by
    obtain ⟨ys, rfl⟩ := hl
    rcases eq_or_ne ys [] with rfl | hys
    · rwa [List.append_nil] at hroot
    · obtain ⟨r, hr, -⟩ := isDirectory_eq_true_iff.1 hroot
      exact isDirectory_above hr hys
  obtain ⟨r, hr, hd⟩ := isDirectory_eq_true_iff.1 hdir
  obtain ⟨t', follow, hw, hq⟩ := h
  have hq' : t'.resolve true l = .ok q := by
    cases follow with
    | true => exact hq
    | false =>
      refine resolve_follow hq fun target hlink => ?_
      rw [hw.grows.link, hnone] at hlink
      cases hlink
  obtain rfl : r = q := Except.ok.inj ((resolve_true_of_grows hw.grows hr).symm.trans hq')
  rw [hd] at hnone
  cases hnone

/-! ### A file in the place of something else -/

/-- A walk does not pass a file, so what else might stand there makes no difference. -/
theorem walk_of_file (hf : t.find? p = some (.file data mode))
    (ht : ∀ q, q ≠ p → t'.find? q = t.find? q) (h : walk t follow links here xs = .ok q)
    (hq : q ≠ p) : walk t' follow links here xs = .ok q := by
  fun_induction walk t follow links here xs with
  | case1 links here => rw [walk, h]
  | case2 links here rest ih => rw [walk_cons, if_pos rfl, ih h]
  | case3 links here rest hn ih => rw [walk_cons, if_neg hn, if_pos rfl, ih h]
  | case5 links here name h1 h2 h3 l hl =>
    obtain rfl : here ++ [name] = q := Except.ok.inj h
    rw [walk_none h1 h2 h3 ((ht _ hq).trans hl), if_pos rfl]
  | case7 links here name rest h1 h2 h3 l hl ih =>
    have hne : here ++ [name] ≠ p := by
      rintro rfl
      cases hf.symm.trans hl
    rw [walk_directory h1 h2 h3 ((ht _ hne).trans hl), ih h]
  | case8 links here name h1 h2 h3 l data mode hl =>
    obtain rfl : here ++ [name] = q := Except.ok.inj h
    rw [walk_file h1 h2 h3 ((ht _ hq).trans hl), if_pos rfl]
  | case10 links here name rest h1 h2 h3 l target hl hc =>
    obtain rfl : here ++ [name] = q := Except.ok.inj h
    obtain ⟨rfl, hfollow⟩ := hc
    have hl' : t'.find? (here ++ [name]) = some (.link target) := (ht _ hq).trans hl
    rw [walk_cons, if_neg h1, if_neg h2, if_neg h3]
    simp only [hl', hfollow]
    rfl
  | case12 here name rest h1 h2 h3 l target hl hc links start ih =>
    have hne : here ++ [name] ≠ p := by
      rintro rfl
      cases hf.symm.trans hl
    rw [walk_link h1 h2 h3 ((ht _ hne).trans hl) hc]
    exact ih h
  | _ => cases h

theorem resolve_of_file (hf : t.find? p = some (.file data mode))
    (ht : ∀ q, q ≠ p → t'.find? q = t.find? q) (h : t.resolve follow l = .ok q) (hq : q ≠ p) :
    t'.resolve follow l = .ok q := by
  rw [resolve] at h ⊢
  split_ifs at h ⊢
  exact walk_of_file hf ht h hq

theorem exists_with (t : FileTree) (hp : p ≠ []) (node : Option Node) :
    ∃ t' : FileTree, t'.find? p = node ∧ ∀ q, q ≠ p → t'.find? q = t.find? q := by
  cases node with
  | none => exact ⟨t.erase p, by rw [find?_erase, if_pos ⟨rfl, hp⟩],
      fun q hq => find?_erase_of_ne hq t⟩
  | some node => exact ⟨t.insert p node, by rw [find?_insert, if_pos ⟨rfl, hp⟩],
      fun q hq => find?_insert_of_ne hq t node⟩

/-! ### Work on some paths -/

/-- From `t` to `t'` there are new directories on the way to paths in `S`, and the places that these
lead to have changed. No path has come to lead anywhere but there. -/
structure Changed (S : Set Location) (t t' : FileTree) : Prop where
  node : ∀ q, t'.find? q = t.find? q ∨
    (t.find? q = none ∧ t'.find? q = some .directory ∧ ∃ l ∈ S, ∃ a, a <+: l ∧ Leads t a q) ∨
    ∃ l ∈ S, Leads t l q
  leads : ∀ m q, Leads t' m q → Leads t m q ∨ ∃ l ∈ S, Leads t l q

namespace Changed

theorem refl (S : Set Location) (t : FileTree) : Changed S t t :=
  ⟨fun _ => .inl rfl, fun _ _ h => .inl h⟩

theorem trans (h : Changed S t t') (h' : Changed S t' t'') : Changed S t t'' where
  node q := by
    rcases h'.node q with heq | ⟨hnone, hdir, l, hl, a, ha, hlead⟩ | ⟨l, hl, hlead⟩
    · rw [heq]
      exact h.node q
    · rcases h.node q with heq | ⟨-, hdir', -⟩ | hplace
      · rcases h.leads a q hlead with hlead | hplace
        · exact .inr (.inl ⟨heq ▸ hnone, hdir, l, hl, a, ha, hlead⟩)
        · exact .inr (.inr hplace)
      · cases hnone.symm.trans hdir'
      · exact .inr (.inr hplace)
    · rcases h.leads l q hlead with hlead | hplace
      · exact .inr (.inr ⟨l, hl, hlead⟩)
      · exact .inr (.inr hplace)
  leads m q hm := by
    rcases h'.leads m q hm with hm | ⟨l, hl, hlead⟩
    · exact h.leads m q hm
    · rcases h.leads l q hlead with hlead | hplace
      · exact .inr ⟨l, hl, hlead⟩
      · exact .inr hplace

theorem mono (h : Changed S t t') (hS : S ⊆ S') : Changed S' t t' where
  node q := by
    rcases h.node q with heq | ⟨hnone, hdir, l, hl, hway⟩ | ⟨l, hl, hlead⟩
    · exact .inl heq
    · exact .inr (.inl ⟨hnone, hdir, l, hS hl, hway⟩)
    · exact .inr (.inr ⟨l, hS hl, hlead⟩)
  leads m q hm := (h.leads m q hm).imp_right fun ⟨l, hl, hlead⟩ => ⟨l, hS hl, hlead⟩

theorem congr (h : Changed S t t') (ht : ∀ q, t''.find? q = t'.find? q) : Changed S t t'' where
  node q := by
    rw [ht]
    exact h.node q
  leads m q hm := h.leads m q (hm.of_widens fun q => .inl (ht q))

end Changed

theorem Paved.changed (h : Paved d t t') (hl : l ∈ S) (hd : d <+: l) : Changed S t t' where
  node q := by
    rcases h q with heq | ⟨hnone, hdir, a, ha, hr⟩
    · exact .inl heq
    · exact .inr (.inl ⟨hnone, hdir, l, hl, a, ha.trans hd, t', true, h.widens, hr⟩)
  leads _ _ hm := .inl (hm.of_widens h.widens)

/-- A file that takes the place of something else, a link perhaps, cuts off ways and opens none. -/
theorem changed_of_file (hl : l ∈ S) (hp : t.resolve follow l = .ok p)
    (ht : ∀ q, q ≠ p → t'.find? q = t.find? q) (hf : t'.find? p = some (.file data mode)) :
    Changed S t t' where
  node q := by
    by_cases hq : q = p
    · exact .inr (.inr ⟨l, hl, hq ▸ leads_of_resolve hp⟩)
    · exact .inl (ht q hq)
  leads m q := by
    rintro ⟨t₁, follow', hw, hr⟩
    by_cases hq : q = p
    · exact .inr ⟨l, hl, hq ▸ leads_of_resolve hp⟩
    left
    -- with what stood at `p` before, the walk still goes the same way
    obtain ⟨t₂, hback, hsame⟩ := exists_with t₁ (bare_of_file hf).ne_nil (t.find? p)
    have hf₁ : t₁.find? p = some (.file data mode) := by
      rcases hw p with heq | ⟨hnone, -⟩
      · rw [heq, hf]
      · cases hnone.symm.trans hf
    refine ⟨t₂, follow', fun q => ?_, resolve_of_file hf₁ hsame hr hq⟩
    by_cases hqp : q = p
    · exact .inl (hqp ▸ hback)
    · rw [hsame q hqp, ← ht q hqp]
      exact hw q

/-! ### Directories apart -/

/-- The paths that go on from `root` with plain names. -/
def within (root : Location) : Set Location :=
  {l | ∃ ns, Plain ns ∧ l = root ++ ns}

/-- No path within `root` leads to what `dest` leads to, or to something in it. -/
def Apart (t : FileTree) (root dest : Location) : Prop :=
  ∀ l ∈ within root, ∀ p q, Leads t l p → Leads t dest q → ¬ q <+: p

/-- What `dest` leads to is in `t'` as it is in `t`, with all that is in it. -/
def Untouched (dest : Location) (t t' : FileTree) : Prop :=
  ∀ q p, Leads t dest q → q <+: p → t'.find? p = t.find? p

theorem Changed.untouched (h : Changed (within root) t t') (hroot : t.isDirectory root)
    (hapart : Apart t root dest) : Untouched dest t t' := by
  intro q p hq hp
  rcases h.node p with heq | ⟨hnone, -, l, ⟨ns, hns, rfl⟩, a, ha, hlead⟩ | ⟨l, hl, hlead⟩
  · exact heq
  · rcases prefix_append_cases ha with hup | ⟨ms, hms, rfl⟩
    · exact absurd hnone (find?_ne_none_of_leads hroot hup hlead)
    · have hplain : Plain ms := fun n hn => hns n (hms.subset hn)
      exact absurd hp (hapart _ ⟨ms, hplain, rfl⟩ p q hlead hq)
  · exact absurd hp (hapart l hl p q hlead hq)

/-- Where there are no links in `root`, this is that neither contains the other. -/
theorem apart_of_unlinked (hroot : Unlinked t root)
    (h : ∀ p q, Leads t root p → Leads t dest q → ¬ q <+: p ∧ ¬ p <+: q) : Apart t root dest := by
  rintro l ⟨ns, hns, rfl⟩ p q hp hq hpre
  rcases eq_or_ne ns [] with rfl | hne
  · rw [List.append_nil] at hp
    exact (h p q hp hq).1 hpre
  obtain ⟨t', follow, hw, hp⟩ := hp
  obtain ⟨r, hr, -, rfl⟩ := (hroot.grows hw.grows).resolve_append hns hne hp
  obtain ⟨hout, hin⟩ := h r q ⟨t', true, hw, hr⟩ hq
  rcases prefix_append_cases hpre with hqr | ⟨ms, -, rfl⟩
  · exact hout hqr
  · exact hin (List.prefix_append r ms)

/-- In a tree without links a plain path leads to where it says. -/
theorem Leads.eq_of_noLink (hl : ∀ q target, t.find? q ≠ some (.link target)) (hp : Plain l)
    (h : Leads t l p) : p = l := by
  obtain ⟨t', follow, hw, hr⟩ := h
  have hl' : ∀ q target, [] <+: q → t'.find? q ≠ some (.link target) := fun q target _ hf =>
    hl q target ((hw.grows.link q target).1 hf)
  exact walk_plain hl' (List.prefix_refl []) hp (walk_of_resolve hr)

end Depot.FileTree
