import Depot.Proofs.FileTree.Growth

/-!
# Below a destination without links

A path that goes on with plain names from a destination in which there are no links leads to just
those names below it (`Unlinked.resolve_append`), also after the destination has been made.
-/

namespace Depot.FileTree

variable {t t' : FileTree} {dest l p q r here : Location} {follow : Bool} {links : Nat}
  {ns : List String}

/-- There are no links in the destination, wherever that is once directories that are missing have
been made. Above it there may be some. -/
def Unlinked (t : FileTree) (dest : Location) : Prop :=
  ∀ t' r, Grows t t' → t'.resolve true dest = .ok r →
    ∀ l target, r <+: l → t.find? l ≠ some (.link target)

/-- A destination that is there stays where it is. -/
theorem unlinked_of_resolve (hr : t.resolve true dest = .ok r)
    (h : ∀ l target, r <+: l → t.find? l ≠ some (.link target)) : Unlinked t dest := by
  intro t' r' hg hr'
  obtain rfl : r' = r := Except.ok.inj (hr'.symm.trans (resolve_true_of_grows hg hr))
  exact h

theorem Unlinked.grows (h : Unlinked t dest) (hg : Grows t t') : Unlinked t' dest :=
  fun t'' r hg' hr l target hl hf => h t'' r (hg.trans hg') hr l target hl ((hg.link l target).1 hf)

theorem Unlinked.ne_link (h : Unlinked t dest) (hr : t.resolve true dest = .ok r) :
    ∀ l target, r <+: l → t.find? l ≠ some (.link target) :=
  h t r (.refl t) hr

theorem walk_plain (hl : ∀ l target, r <+: l → t.find? l ≠ some (.link target))
    (hh : r <+: here) (hp : Plain ns) (h : walk t follow links here ns = .ok p) :
    p = here ++ ns := by
  induction ns generalizing here with
  | nil =>
    rw [walk] at h
    rw [List.append_nil, Except.ok.inj h]
  | cons n ns ih =>
    obtain ⟨h1, h2⟩ := hp n List.mem_cons_self
    have hn : r <+: here ++ [n] := hh.trans (List.prefix_append ..)
    by_cases h3 : isTooLong n
    · rw [walk_cons, if_neg h1, if_neg h2, if_pos h3] at h
      cases h
    rcases hf : t.find? (here ++ [n]) with _ | ⟨data, mode⟩ | _ | target
    · rw [walk_none h1 h2 h3 hf] at h
      split_ifs at h with hns
      rw [hns, Except.ok.inj h]
    · rw [walk_file h1 h2 h3 hf] at h
      split_ifs at h with hns
      rw [hns, Except.ok.inj h]
    · rw [walk_directory h1 h2 h3 hf] at h
      rw [ih hn (fun m hm => hp m (List.mem_cons_of_mem n hm)) h, List.append_assoc,
        List.singleton_append]
    · exact absurd hf (hl _ target hn)

theorem Unlinked.resolve_append (h : Unlinked t dest) (hp : Plain ns) (hns : ns ≠ [])
    (hr : t.resolve follow (dest ++ ns) = .ok p) :
    ∃ r, t.resolve true dest = .ok r ∧ Standing t r ∧ p = r ++ ns := by
  obtain ⟨r, hdest, hs⟩ := resolve_above hr hns
  obtain ⟨links, hrest⟩ := resolve_below hdest hs.directory
  rw [hrest follow ns hns] at hr
  split_ifs at hr
  exact ⟨r, hdest, hs, walk_plain (h.ne_link hdest) (List.prefix_refl r) hp hr⟩

theorem Unlinked.resolve_noFollow (h : Unlinked t dest) (hp : Plain ns) (hns : ns ≠ [])
    (hr : t.resolve true (dest ++ ns) = .ok p) (hf : t.find? p ≠ none) :
    t.resolve false (dest ++ ns) = .ok p := by
  obtain ⟨q, hq, -⟩ := FileTree.resolve_noFollow hr hf
  obtain ⟨r, hdest, -, rfl⟩ := h.resolve_append hp hns hr
  obtain ⟨r', hdest', -, rfl⟩ := h.resolve_append hp hns hq
  obtain rfl : r = r' := Except.ok.inj (hdest.symm.trans hdest')
  exact hq

theorem prefix_append_cases {a : Location} (h : a <+: l ++ ns) :
    a <+: l ∨ ∃ ms, ms <+: ns ∧ a = l ++ ms := by
  rcases List.prefix_or_prefix_of_prefix h (List.prefix_append l ns) with hl | ⟨ms, rfl⟩
  · exact .inl hl
  · exact .inr ⟨ms, (List.prefix_append_right_inj l).1 h, rfl⟩

/-- What lies on the way to something in the destination is on the way to the destination itself, or
is something in it. -/
theorem Unlinked.onWay_cases (h : Unlinked t dest) (hp : Plain ns) (hq : OnWay t (dest ++ ns) q) :
    OnWay t dest q ∨
      ∃ r ms, t.resolve true dest = .ok r ∧ ms ≠ [] ∧ ms <+: ns ∧ q = r ++ ms := by
  obtain ⟨a, ha, hr⟩ := hq
  rcases prefix_append_cases ha with hd | ⟨ms, hpre, rfl⟩
  · exact .inl ⟨a, hd, hr⟩
  · rcases eq_or_ne ms [] with rfl | hms
    · exact .inl ⟨dest, List.prefix_refl dest, by simpa using hr⟩
    · obtain ⟨r, hdest, -, rfl⟩ := h.resolve_append (fun n hn => hp n (hpre.subset hn)) hms hr
      exact .inr ⟨r, ms, hdest, hms, hpre, rfl⟩

end Depot.FileTree
