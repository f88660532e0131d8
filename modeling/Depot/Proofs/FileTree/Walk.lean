import Depot.FileTree.Operations
import Mathlib.Data.List.Basic

/-!
# Walking below a directory

A path that leads to a directory still leads there when its last steps are left to another walk
(`walk_append`). Below a directory without links a walk is plain: `Base` says that `root` leads to
such a directory, and `Base.resolve_eq_ok_iff` where the names below it lead.
-/

namespace Depot.FileTree

variable {t t' : FileTree} {root r l : Location} {follow : Bool}

@[simp] theorem find?_nil (t : FileTree) : t.find? [] = some .directory := rfl

theorem lookup_filter_ne {l l' : Location} (h : l' ≠ l) (ns : List (Location × Node)) :
    (ns.filter (·.1 ≠ l)).lookup l' = ns.lookup l' := by
  induction ns with
  | nil => rfl
  | cons p ns ih =>
    obtain ⟨k, n⟩ := p
    by_cases hk : k = l
    · subst hk
      have hb : (l' == k) = false := by simpa using h
      rw [List.filter_cons_of_neg (by simp), ih, List.lookup_cons, hb]
    · rw [List.filter_cons_of_pos (by simpa using hk), List.lookup_cons, List.lookup_cons, ih]

theorem lookup_filter_self (l : Location) (ns : List (Location × Node)) :
    (ns.filter (·.1 ≠ l)).lookup l = none := by
  rw [List.lookup_eq_none_iff]
  intro p hp
  have h := of_decide_eq_true (List.mem_filter.1 hp).2
  exact bne_iff_ne.2 (Ne.symm h)

theorem find?_erase (t : FileTree) (l l' : Location) :
    (t.erase l).find? l' = if l' = l ∧ l ≠ [] then none else t.find? l' := by
  rcases eq_or_ne l' [] with rfl | hl'
  · rw [find?_nil, find?_nil, if_neg]
    rintro ⟨rfl, h⟩
    exact h rfl
  · rcases eq_or_ne l' l with rfl | h
    · rw [if_pos ⟨rfl, hl'⟩, find?, if_neg hl']
      exact lookup_filter_self l' t.nodes
    · rw [if_neg (fun hc => h hc.1), find?, find?, if_neg hl', if_neg hl']
      exact lookup_filter_ne h t.nodes

theorem find?_insert (t : FileTree) (l l' : Location) (n : Node) :
    (t.insert l n).find? l' = if l' = l ∧ l ≠ [] then some n else t.find? l' := by
  rcases eq_or_ne l' [] with rfl | hl'
  · rw [find?_nil, find?_nil, if_neg]
    rintro ⟨rfl, h⟩
    exact h rfl
  · rw [find?, if_neg hl', insert, List.lookup_cons]
    rcases eq_or_ne l' l with rfl | h
    · rw [if_pos ⟨rfl, hl'⟩, beq_self_eq_true]
    · have hb : (l' == l) = false := by simpa using h
      rw [hb, if_neg (fun hc => h hc.1), find?, if_neg hl']
      exact lookup_filter_ne h t.nodes

theorem walk_cons (t : FileTree) (follow : Bool) (links : Nat) (here : Location) (name : String)
    (rest : List String) :
    walk t follow links here (name :: rest) =
      if name = ".." then walk t follow links here.dropLast rest
      else if name = "." then walk t follow links here rest
      else if isTooLong name then .error .tooLong
      else
        match t.find? (here ++ [name]) with
        | none => if rest = [] then .ok (here ++ [name]) else .error .missing
        | some .directory => walk t follow links (here ++ [name]) rest
        | some (.file ..) => if rest = [] then .ok (here ++ [name]) else .error .notDirectory
        | some (.link target) =>
          if rest = [] ∧ !follow then .ok (here ++ [name])
          else
            match links with
            | 0 => .error .tooManyLinks
            | links + 1 =>
              walk t follow links (if Location.isAbsolute target then [] else here)
                (Location.steps target ++ rest) := by
  rw [walk]
  dsimp only
  congr 3
  split <;> cases links <;> simp only [*]

section Step

variable {links : Nat} {here : Location} {name : String} {rest : List String}
  (h1 : name ≠ "..") (h2 : name ≠ ".") (h3 : ¬isTooLong name)

include h1 h2 h3

theorem walk_none (h : t.find? (here ++ [name]) = none) :
    walk t follow links here (name :: rest) =
      if rest = [] then .ok (here ++ [name]) else .error .missing := by
  rw [walk_cons, if_neg h1, if_neg h2, if_neg h3]
  simp only [h]

theorem walk_directory (h : t.find? (here ++ [name]) = some .directory) :
    walk t follow links here (name :: rest) = walk t follow links (here ++ [name]) rest := by
  rw [walk_cons, if_neg h1, if_neg h2, if_neg h3]
  simp only [h]

theorem walk_file {data : ByteArray} {mode : Nat}
    (h : t.find? (here ++ [name]) = some (.file data mode)) :
    walk t follow links here (name :: rest) =
      if rest = [] then .ok (here ++ [name]) else .error .notDirectory := by
  rw [walk_cons, if_neg h1, if_neg h2, if_neg h3]
  simp only [h]

theorem walk_link {target : String} (h : t.find? (here ++ [name]) = some (.link target))
    (hr : ¬(rest = [] ∧ !follow)) :
    walk t follow (links + 1) here (name :: rest) =
      walk t follow links (if Location.isAbsolute target then [] else here)
        (Location.steps target ++ rest) := by
  rw [walk_cons, if_neg h1, if_neg h2, if_neg h3]
  simp only [h, if_neg hr]

/-- The last name of a path is not looked behind unless there is a link. -/
theorem walk_last (hl : ∀ target, t.find? (here ++ [name]) ≠ some (.link target)) :
    walk t follow links here [name] = .ok (here ++ [name]) := by
  rcases hf : t.find? (here ++ [name]) with _ | ⟨data, mode⟩ | _ | target
  · rw [walk_none h1 h2 h3 hf, if_pos rfl]
  · rw [walk_file h1 h2 h3 hf, if_pos rfl]
  · rw [walk_directory h1 h2 h3 hf, walk]
  · exact absurd hf (hl target)

theorem walk_last_noFollow : walk t false links here [name] = .ok (here ++ [name]) := by
  rw [walk_cons, if_neg h1, if_neg h2, if_neg h3]
  rcases t.find? (here ++ [name]) with _ | ⟨data, mode⟩ | _ | target <;> simp [walk]

end Step

/-- The last part of a path can be walked from the directory that the first part leads to. -/
theorem walk_append {links : Nat} {here : Location} {xs : List String}
    (h : walk t true links here xs = .ok r) (hr : t.find? r = some .directory) :
    ∃ links', ∀ follow ys, ys ≠ [] →
      walk t follow links here (xs ++ ys) = walk t follow links' r ys := by
  fun_induction walk t true links here xs with
  | case1 links here =>
    cases h
    exact ⟨links, fun _ _ _ => rfl⟩
  | case2 links here rest ih =>
    obtain ⟨links', ih⟩ := ih h
    refine ⟨links', fun follow ys hys => ?_⟩
    rw [List.cons_append, walk_cons, if_pos rfl, ih follow ys hys]
  | case3 links here rest hn ih =>
    obtain ⟨links', ih⟩ := ih h
    refine ⟨links', fun follow ys hys => ?_⟩
    rw [List.cons_append, walk_cons, if_neg hn, if_pos rfl, ih follow ys hys]
  | case5 links here name _ _ _ l hl =>
    rw [Except.ok.injEq] at h
    rw [h, hr] at hl
    cases hl
  | case7 links here name rest h1 h2 h3 l hl ih =>
    obtain ⟨links', ih⟩ := ih h
    refine ⟨links', fun follow ys hys => ?_⟩
    rw [List.cons_append, walk_directory h1 h2 h3 hl]
    exact ih follow ys hys
  | case8 links here name _ _ _ l data mode hl =>
    rw [Except.ok.injEq] at h
    rw [h, hr] at hl
    cases hl
  | case10 _ _ _ _ _ _ _ _ _ _ hc => simp at hc
  | case12 here name rest h1 h2 h3 l target hl hc links start ih =>
    obtain ⟨links', ih⟩ := ih h
    refine ⟨links', fun follow ys hys => ?_⟩
    have hne : ¬(rest ++ ys = [] ∧ !follow) := fun hc => hys (List.append_eq_nil_iff.1 hc.1).2
    rw [List.cons_append, walk_link h1 h2 h3 hl hne, ← List.append_assoc]
    exact ih follow ys hys
  | _ => cases h

theorem walk_of_resolve (h : t.resolve follow l = .ok r) : walk t follow maxLinks [] l = .ok r := by
  rw [resolve] at h
  split_ifs at h
  exact h

/-- Below a directory that `l` leads to, the walk goes on from there. -/
theorem resolve_below (h : t.resolve true l = .ok r) (hr : t.find? r = some .directory) :
    ∃ links, ∀ follow ys, ys ≠ [] →
      t.resolve follow (l ++ ys) =
        if (l ++ ys).render.utf8ByteSize > maxPathBytes then .error .tooLong
        else walk t follow links r ys := by
  obtain ⟨links, hw⟩ := walk_append (walk_of_resolve h) hr
  exact ⟨links, fun follow ys hys => by rw [resolve, hw follow ys hys]⟩

/-- At `q` there is a link that leads to `p`. -/
def LinkTo (t : FileTree) (q p : Location) : Prop :=
  ∃ target links, t.find? q = some (.link target) ∧
    walk t true links (if Location.isAbsolute target then [] else q.dropLast)
      (Location.steps target) = .ok p

/-- A path that leads somewhere ends there, or at a link to there. -/
theorem walk_end {links : Nat} {here : Location} {xs : List String}
    (h : walk t true links here xs = .ok r) :
    ∃ q, walk t false links here xs = .ok q ∧ (q = r ∨ LinkTo t q r) := by
  fun_induction walk t true links here xs with
  | case1 links here => exact ⟨here, by rw [walk], .inl (Except.ok.inj h)⟩
  | case2 links here rest ih =>
    rw [walk_cons, if_pos rfl]
    exact ih h
  | case3 links here rest hn ih =>
    rw [walk_cons, if_neg hn, if_pos rfl]
    exact ih h
  | case5 links here name h1 h2 h3 l hl =>
    exact ⟨_, walk_last_noFollow h1 h2 h3, .inl (Except.ok.inj h)⟩
  | case7 links here name rest h1 h2 h3 l hl ih =>
    rw [walk_directory h1 h2 h3 hl]
    exact ih h
  | case8 links here name h1 h2 h3 l data mode hl =>
    exact ⟨_, walk_last_noFollow h1 h2 h3, .inl (Except.ok.inj h)⟩
  | case10 _ _ _ _ _ _ _ _ _ _ hc => simp at hc
  | case12 here name rest h1 h2 h3 l target hl hc links start ih =>
    by_cases hrest : rest = []
    · subst hrest
      rw [List.append_nil] at h
      refine ⟨_, walk_last_noFollow h1 h2 h3, .inr ⟨target, links, hl, ?_⟩⟩
      rw [List.dropLast_concat]
      exact h
    · rw [walk_link h1 h2 h3 hl (by simp [hrest])]
      exact ih h
  | _ => cases h

theorem resolve_end (h : t.resolve true l = .ok r) :
    ∃ q, t.resolve false l = .ok q ∧ (q = r ∨ LinkTo t q r) := by
  rw [resolve] at h ⊢
  split_ifs at h ⊢
  exact walk_end h

/-- A path to something leads to something also if a link in last place is not followed. -/
theorem resolve_noFollow (h : t.resolve true l = .ok r) (hr : t.find? r ≠ none) :
    ∃ p, t.resolve false l = .ok p ∧ t.find? p ≠ none := by
  obtain ⟨q, hq, rfl | ⟨target, links, hl, -⟩⟩ := resolve_end h
  · exact ⟨q, hq, hr⟩
  · exact ⟨q, hq, by simp [hl]⟩

/-- `l` is a place strictly below `r`. -/
def Below (r l : Location) : Prop :=
  ∃ n ns, l = r ++ n :: ns

/-- `t'` has been changed below `r` only. -/
def SameOutside (r : Location) (t t' : FileTree) : Prop :=
  ∀ l, ¬ Below r l → t'.find? l = t.find? l

theorem SameOutside.trans {t'' : FileTree} (h : SameOutside r t t') (h' : SameOutside r t' t'') :
    SameOutside r t t'' := fun l hl => (h' l hl).trans (h l hl)

/-- A path to a directory with nothing but files in it does not pass through that directory, so
whatever is put there it leads to the same place. -/
theorem walk_sameOutside {links : Nat} {here : Location} {xs : List String}
    (hr : t.find? r = some .directory)
    (hfiles : ∀ l, Below r l → t.find? l = none ∨ ∃ data mode, t.find? l = some (.file data mode))
    (h : walk t true links here xs = .ok r) (ht : SameOutside r t t') :
    walk t' true links here xs = .ok r := by
  fun_induction walk t true links here xs with
  | case1 links here => rw [walk, h]
  | case2 links here rest ih => rw [walk_cons, if_pos rfl, ih h]
  | case3 links here rest hn ih => rw [walk_cons, if_neg hn, if_pos rfl, ih h]
  | case5 links here name _ _ _ l hl =>
    rw [Except.ok.injEq] at h
    rw [h, hr] at hl
    cases hl
  | case7 links here name rest h1 h2 h3 l hl ih =>
    have hl' : ¬ Below r l := fun hb => by
      rcases hfiles l hb with h | ⟨data, mode, h⟩ <;> rw [h] at hl <;> cases hl
    rw [walk_directory h1 h2 h3 ((ht l hl').trans hl)]
    exact ih h
  | case8 links here name _ _ _ l data mode hl =>
    rw [Except.ok.injEq] at h
    rw [h, hr] at hl
    cases hl
  | case10 _ _ _ _ _ _ _ _ _ _ hc => simp at hc
  | case12 here name rest h1 h2 h3 l target hl hc links start ih =>
    have hl' : ¬ Below r l := fun hb => by
      rcases hfiles l hb with h | ⟨data, mode, h⟩ <;> rw [h] at hl <;> cases hl
    rw [walk_link h1 h2 h3 ((ht l hl').trans hl) hc]
    exact ih h
  | _ => cases h

/-- `root` leads to the directory `r`, whatever is put below that, and below it there are no links
and nothing stands outside a directory. -/
structure Base (t : FileTree) (root r : Location) : Prop where
  leads : ∀ t', SameOutside r t t' → t'.resolve true root = .ok r
  directory : t.find? r = some .directory
  noLink : ∀ l target, r <+: l → t.find? l ≠ some (.link target)
  parent : ∀ l n, r <+: l → t.find? (l ++ [n]) ≠ none → t.find? l = some .directory

/-- Names that a walk takes one step for each. -/
def Plain (ns : List String) : Prop :=
  ∀ n ∈ ns, n ≠ ".." ∧ n ≠ "."

/-- The path to `ns` below `root` is not too long, and no name in it is. -/
def Fits (root : Location) (ns : List String) : Prop :=
  (root ++ ns).render.utf8ByteSize ≤ maxPathBytes ∧ ∀ n ∈ ns, ¬isTooLong n

instance (root : Location) (ns : List String) : Decidable (Fits root ns) :=
  inferInstanceAs (Decidable (_ ∧ _))

/-- Where a name in the directory that `l` leads to leads. -/
theorem resolve_in (follow : Bool) {n : String} (h : t.resolve true l = .ok r)
    (hr : t.find? r = some .directory) (hn : n ≠ ".." ∧ n ≠ ".")
    (hlink : follow → ∀ target, t.find? (r ++ [n]) ≠ some (.link target)) :
    t.resolve follow (l ++ [n]) = if Fits l [n] then .ok (r ++ [n]) else .error .tooLong := by
  obtain ⟨links, hrest⟩ := resolve_below h hr
  rw [hrest follow [n] (by simp)]
  by_cases hlong : (l ++ [n]).render.utf8ByteSize > maxPathBytes
  · rw [if_pos hlong, if_neg fun hf => absurd hf.1 (by omega)]
  rw [if_neg hlong]
  by_cases hname : isTooLong n
  · rw [walk_cons, if_neg hn.1, if_neg hn.2, if_pos hname, if_neg fun hf => hf.2 n (by simp) hname]
  rw [if_pos ⟨by omega, by simpa using hname⟩]
  cases follow with
  | true => exact walk_last hn.1 hn.2 hname (hlink rfl)
  | false => exact walk_last_noFollow hn.1 hn.2 hname

namespace Base

theorem directory_of_find? (h : Base t root r) :
    ∀ (ns : List String) {l : Location} {n : String}, r <+: l →
      t.find? (l ++ n :: ns) ≠ none → t.find? l = some .directory
  | [], l, n, hl, hf => h.parent l n hl hf
  | n' :: ns, l, n, hl, hf => by
    have hd : t.find? (l ++ [n]) = some .directory := by
      refine h.directory_of_find? ns (n := n') (hl.trans (List.prefix_append ..)) ?_
      rwa [List.append_assoc]
    refine h.parent l n hl ?_
    rw [hd]
    exact Option.some_ne_none _

section Walk

variable {links : Nat} {here p : Location} {n : String}

theorem walk_single (h : Base t root r) (hl : r <+: here) (hn : n ≠ ".." ∧ n ≠ ".") :
    walk t follow links here [n] = if isTooLong n then .error .tooLong else .ok (here ++ [n]) := by
  obtain ⟨h1, h2⟩ := hn
  by_cases h3 : isTooLong n
  · rw [walk_cons, if_neg h1, if_neg h2, if_pos h3, if_pos h3]
  rw [if_neg h3]
  exact walk_last h1 h2 h3 fun target => h.noLink _ target (hl.trans (List.prefix_append ..))

/-- A walk that succeeds along plain names below `r` has followed them one by one. -/
theorem of_walk (h : Base t root r) :
    ∀ {ns : List String} {here : Location}, r <+: here → t.find? here = some .directory →
      Plain (ns ++ [n]) → walk t follow links here (ns ++ [n]) = .ok p →
      p = here ++ (ns ++ [n]) ∧ (∀ m ∈ ns ++ [n], ¬isTooLong m) ∧
        t.find? (here ++ ns) = some .directory
  | [], here, hl, hd, hp, hw => by
    rw [List.nil_append, h.walk_single hl (hp n (by simp))] at hw
    split_ifs at hw with h3
    cases hw
    exact ⟨rfl, by simpa using h3, by simpa using hd⟩
  | m :: ns, here, hl, hd, hp, hw => by
    obtain ⟨h1, h2⟩ := hp m (by simp)
    have hl' : r <+: here ++ [m] := hl.trans (List.prefix_append ..)
    rw [List.cons_append] at hw
    by_cases h3 : isTooLong m
    · rw [walk_cons, if_neg h1, if_neg h2, if_pos h3] at hw
      cases hw
    rcases hf : t.find? (here ++ [m]) with _ | ⟨data, mode⟩ | _ | target
    · rw [walk_none h1 h2 h3 hf, if_neg (by simp)] at hw
      cases hw
    · rw [walk_file h1 h2 h3 hf, if_neg (by simp)] at hw
      cases hw
    · rw [walk_directory h1 h2 h3 hf] at hw
      obtain ⟨rfl, hn, hd'⟩ := h.of_walk hl' hf (fun x hx => hp x (by simp_all)) hw
      refine ⟨by simp, ?_, by simpa using hd'⟩
      intro x hx
      rcases List.mem_cons.1 hx with rfl | hx
      · exact h3
      · exact hn x hx
    · exact absurd hf (h.noLink _ _ hl')

theorem walk_of_directory (h : Base t root r) :
    ∀ {ns : List String} {here : Location}, r <+: here → Plain (ns ++ [n]) →
      (∀ m ∈ ns ++ [n], ¬isTooLong m) → t.find? (here ++ ns) = some .directory →
      walk t follow links here (ns ++ [n]) = .ok (here ++ (ns ++ [n]))
  | [], here, hl, hp, hn, hd => by
    rw [List.nil_append, h.walk_single hl (hp n (by simp)), if_neg (hn n (by simp))]
  | m :: ns, here, hl, hp, hn, hd => by
    obtain ⟨h1, h2⟩ := hp m (by simp)
    have hl' : r <+: here ++ [m] := hl.trans (List.prefix_append ..)
    have hm : t.find? (here ++ [m]) = some .directory := by
      rcases ns with _ | ⟨m', ns⟩
      · exact hd
      · refine h.directory_of_find? ns (n := m') hl' ?_
        rw [List.append_assoc, List.singleton_append, hd]
        exact Option.some_ne_none _
    rw [List.cons_append, walk_directory h1 h2 (hn m (by simp)) hm,
      h.walk_of_directory hl' (fun x hx => hp x (by simp_all)) (fun x hx => hn x (by simp_all))
        (by simpa using hd)]
    simp

end Walk

/-- Below `root` the walk goes on from `r`. -/
theorem resolve_append (h : Base t root r) :
    ∃ links, ∀ follow ys, ys ≠ [] →
      t.resolve follow (root ++ ys) =
        if (root ++ ys).render.utf8ByteSize > maxPathBytes then .error .tooLong
        else walk t follow links r ys :=
  resolve_below (h.leads t fun _ _ => rfl) h.directory

/-- Where plain names below `root` lead. -/
theorem resolve_eq_ok_iff (h : Base t root r) {ns : List String} {n : String} {p : Location}
    (hp : Plain (ns ++ [n])) :
    t.resolve follow (root ++ (ns ++ [n])) = .ok p ↔
      p = r ++ (ns ++ [n]) ∧ Fits root (ns ++ [n]) ∧ t.find? (r ++ ns) = some .directory := by
  obtain ⟨links, hw⟩ := h.resolve_append
  rw [hw follow (ns ++ [n]) (by simp), Fits]
  split_ifs with hlong
  · simp only [false_iff]
    rintro ⟨-, ⟨hle, -⟩, -⟩
    omega
  · constructor
    · intro hok
      obtain ⟨rfl, hn, hd⟩ := h.of_walk (List.prefix_refl r) h.directory hp hok
      exact ⟨rfl, ⟨by omega, hn⟩, hd⟩
    · rintro ⟨rfl, ⟨-, hn⟩, hd⟩
      exact h.walk_of_directory (List.prefix_refl r) hp hn hd

/-- A name directly below `root` leads somewhere unless it is too long. -/
theorem resolve_child (h : Base t root r) {n : String} (follow : Bool) (hn : n ≠ ".." ∧ n ≠ ".") :
    t.resolve follow (root ++ [n]) = .ok (r ++ [n]) ∨
      t.resolve follow (root ++ [n]) = .error .tooLong := by
  have hlink : follow → ∀ target, t.find? (r ++ [n]) ≠ some (.link target) := fun _ target =>
    h.noLink _ target (List.prefix_append ..)
  rw [resolve_in follow (h.leads t fun _ _ => rfl) h.directory hn hlink]
  split_ifs <;> simp

theorem below_child (hl : r <+: l) (n : String) : Below r (l ++ [n]) := by
  obtain ⟨ns, rfl⟩ := hl
  rcases ns with _ | ⟨m, ns⟩
  · exact ⟨n, [], by simp⟩
  · exact ⟨m, ns ++ [n], by simp⟩

theorem sameOutside_insert (hl : r <+: l) (n : String) (node : Node) :
    SameOutside r t (t.insert (l ++ [n]) node) := by
  intro l' hl'
  rw [find?_insert, if_neg]
  rintro ⟨rfl, -⟩
  exact hl' (below_child hl n)

theorem sameOutside_erase (hl : r <+: l) (n : String) :
    SameOutside r t (t.erase (l ++ [n])) := by
  intro l' hl'
  rw [find?_erase, if_neg]
  rintro ⟨rfl, -⟩
  exact hl' (below_child hl n)

theorem ne_child (hl : r <+: l) (n : String) : r ≠ l ++ [n] := by
  rintro rfl
  have := hl.length_le
  rw [List.length_append, List.length_singleton] at this
  omega

/-- A node that is put into a directory below `r`; one that is no directory takes the place of
none. -/
theorem insert (h : Base t root r) (hl : r <+: l) {n : String} {node : Node}
    (hd : t.find? l = some .directory) (hlink : ∀ target, node ≠ .link target)
    (hnode : node = .directory ∨ t.find? (l ++ [n]) ≠ some .directory) :
    Base (t.insert (l ++ [n]) node) root r where
  leads t' h' := h.leads t' ((sameOutside_insert hl n node).trans h')
  directory := by
    rw [find?_insert, if_neg (fun hc => ne_child hl n hc.1), h.directory]
  noLink l' target hl' := by
    rw [find?_insert]
    split_ifs
    · simpa using hlink target
    · exact h.noLink l' target hl'
  parent l' n' hl' hf := by
    rw [find?_insert] at hf ⊢
    by_cases hn : l' = l ++ [n]
    · subst hn
      rw [if_pos ⟨rfl, by simp⟩]
      rw [if_neg (by simp)] at hf
      have := h.parent _ n' hl' hf
      rcases hnode with rfl | hnode
      · rfl
      · exact absurd this hnode
    · rw [if_neg (fun hc => hn hc.1)]
      split_ifs at hf with he
      · rw [(List.append_inj' he.1 rfl).1, hd]
      · exact h.parent l' n' hl' hf

theorem erase (h : Base t root r) (hl : r <+: l) {n : String}
    (hn : t.find? (l ++ [n]) ≠ some .directory) : Base (t.erase (l ++ [n])) root r where
  leads t' h' := h.leads t' ((sameOutside_erase hl n).trans h')
  directory := by
    rw [find?_erase, if_neg (fun hc => ne_child hl n hc.1), h.directory]
  noLink l' target hl' := by
    rw [find?_erase]
    split_ifs
    · simp
    · exact h.noLink l' target hl'
  parent l' n' hl' hf := by
    rw [find?_erase] at hf ⊢
    split_ifs at hf
    · exact absurd rfl hf
    · have hd := h.parent l' n' hl' hf
      rw [if_neg, hd]
      rintro ⟨rfl, -⟩
      exact hn hd

end Base

/-- `root` leads to the directory `r` and there is nothing in it. -/
structure EmptyDirectory (t : FileTree) (root r : Location) : Prop where
  leads : t.resolve true root = .ok r
  directory : t.find? r = some .directory
  empty : ∀ l, Below r l → t.find? l = none

theorem eq_or_below (h : r <+: l) : l = r ∨ Below r l := by
  obtain ⟨ns, rfl⟩ := h
  rcases ns with _ | ⟨n, ns⟩
  · exact .inl (List.append_nil r)
  · exact .inr ⟨n, ns, rfl⟩

theorem EmptyDirectory.base (h : EmptyDirectory t root r) : Base t root r where
  leads t' ht := by
    have hroot := h.leads
    rw [resolve] at hroot ⊢
    split_ifs at hroot ⊢
    exact walk_sameOutside h.directory (fun l hl => .inl (h.empty l hl)) hroot ht
  directory := h.directory
  noLink l target hl := by
    rcases eq_or_below hl with rfl | hl
    · rw [h.directory]
      simp
    · rw [h.empty l hl]
      simp
  parent l n hl hf := absurd (h.empty _ (Base.below_child hl n)) hf

end Depot.FileTree
