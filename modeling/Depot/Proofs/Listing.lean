import Depot.Listing
import Mathlib.Data.List.Chain

/-!
# Wrapped values

Wrapped values come in lines of items, an item being a value with the comma behind it, if there is
one. Nothing is lost, the lines can be read back in one way only, and a line ends only where the
next item has no room on it (`isWrapping_wrap`).

That a line is still empty is told by its length. As long as more items come, this is right: only
the last one has no comma, so no other one is empty (`fill_line`).
-/

namespace Depot.Listing

variable {item : String} {values lines group group' rest rest' : List String}
  {groups groups' : List (List String)}

/-- The line that holds a group of items. -/
def line (group : List String) : String :=
  indent ++ " ".intercalate group

/-- `groups` are the items on each of the lines: all values in their order, each but the last with
a comma. -/
structure Holds (values lines : List String) (groups : List (List String)) : Prop where
  flatten : groups.flatten = values.dropLast.map (· ++ ",") ++ values.getLast?.toList
  lines_eq : lines = groups.map line
  /-- A line without items is the only line. -/
  alone : [] ∈ groups → groups = [[]]

/-- Lines of no more than 78 bytes, as far as the items are short enough, with as many items on a
line as there is room for. -/
structure IsWrapping (values lines : List String) : Prop where
  indented : ∀ l ∈ lines, l.startsWith "  "
  joined : " ".intercalate (lines.map fun l => (l.drop 2).copy) = ", ".intercalate values
  held : ∃! groups, Holds values lines groups
  single : ∀ groups, Holds values lines groups → ∀ group ∈ groups,
    78 < (line group).utf8ByteSize → ∃ item, group = [item]
  /-- Where a line ends, the first item of the next one and a blank are too much for it. -/
  full : ∀ groups, Holds values lines groups → groups.IsChain fun group next =>
    ∃ item ∈ next.head?, 78 < (line group).utf8ByteSize + 1 + item.utf8ByteSize

section Items

theorem items_concat (vs : List String) (v : String) :
    items (vs ++ [v]) = vs.map (· ++ ",") ++ [v] := by
  induction vs with
  | nil => rfl
  | cons u vs ih =>
    rw [List.cons_append, items, ih]
    · rfl
    · simp

theorem items_eq (values : List String) :
    items values = values.dropLast.map (· ++ ",") ++ values.getLast?.toList := by
  rcases List.eq_nil_or_concat values with rfl | ⟨vs, v, rfl⟩
  · rfl
  · simp [items_concat]

theorem items_eq_nil_iff : items values = [] ↔ values = [] := by
  fun_cases items values <;> simp

theorem ne_empty_of_mem_dropLast (h : item ∈ (items values).dropLast) : item ≠ "" := by
  rcases List.eq_nil_or_concat values with rfl | ⟨vs, v, rfl⟩
  · cases h
  · rw [List.concat_eq_append, items_concat, List.dropLast_concat] at h
    obtain ⟨u, -, rfl⟩ := List.mem_map.1 h
    simp

theorem intercalate_items (values : List String) :
    " ".intercalate (items values) = ", ".intercalate values := by
  fun_induction items values with
  | case1 => rfl
  | case2 v => simp
  | case3 v vs h ih =>
    rw [String.intercalate_cons_of_ne_nil (mt items_eq_nil_iff.1 h),
      String.intercalate_cons_of_ne_nil h, ih, @String.append_assoc v "," " "]
    rfl

end Items

section Line

theorem line_nil : line [] = indent := by
  simp [line]

theorem line_singleton (item : String) : line [item] = indent ++ item := by
  simp [line]

theorem line_append (h : group ≠ []) (hr : rest ≠ []) :
    line (group ++ rest) = line group ++ " " ++ " ".intercalate rest := by
  simp only [line, String.intercalate_append_of_ne_nil h hr, String.append_assoc]

theorem line_concat (h : group ≠ []) (item : String) :
    line (group ++ [item]) = line group ++ " " ++ item := by
  rw [line_append h (List.cons_ne_nil _ _), String.intercalate_singleton]

theorem size_line_lt (h : group ≠ []) (hr : rest ≠ []) :
    (line group).utf8ByteSize < (line (group ++ rest)).utf8ByteSize := by
  have hblank : " ".utf8ByteSize = 1 := rfl
  rw [line_append h hr, String.utf8ByteSize_append, String.utf8ByteSize_append]
  omega

/-- The length of a line tells if there are items on it, unless there is an empty one. -/
theorem size_line_le_iff (h : ∀ item ∈ group, item ≠ "") :
    (line group).utf8ByteSize ≤ indent.utf8ByteSize ↔ group = [] := by
  refine ⟨fun hle => ?_, fun hnil => by rw [hnil, line_nil]⟩
  rcases group with _ | ⟨item, group⟩
  · rfl
  have hitem : (line [item]).utf8ByteSize ≤ (line (item :: group)).utf8ByteSize := by
    rcases eq_or_ne group [] with rfl | hg
    · exact le_rfl
    · exact (size_line_lt (List.cons_ne_nil item []) hg).le
  rw [line_singleton, String.utf8ByteSize_append] at hitem
  exact absurd (String.utf8ByteSize_eq_zero_iff.1 (by omega)) (h item List.mem_cons_self)

end Line

section Distribute

/-- The items of each line, with `group` on the first line already. -/
def distribute (group : List String) : List String → List (List String)
  | [] => [group]
  | item :: rest =>
    if group ≠ [] ∧ width < (line group).utf8ByteSize + 1 + item.utf8ByteSize then
      group :: distribute [item] rest
    else distribute (group ++ [item]) rest

theorem fill_cons (h : ∀ i ∈ group, i ≠ "") (item : String) (rest : List String) :
    fill (line group) (item :: rest) =
      if group ≠ [] ∧ width < (line group).utf8ByteSize + 1 + item.utf8ByteSize then
        line group :: fill (line [item]) rest
      else fill (line (group ++ [item])) rest := by
  rw [fill]
  simp only [size_line_le_iff h]
  by_cases hg : group = []
  · rw [if_pos hg, if_neg (by simp [hg]), hg, line_nil, List.nil_append, line_singleton]
  · rw [if_neg hg, line_concat hg, line_singleton]
    simp only [hg, ne_eq, not_false_eq_true, true_and]

theorem fill_line (h : ∀ i ∈ (group ++ rest).dropLast, i ≠ "") :
    fill (line group) rest = (distribute group rest).map line := by
  fun_induction distribute group rest with
  | case1 group => rfl
  | case2 group item rest hc ih =>
    rw [List.dropLast_append_of_ne_nil (List.cons_ne_nil _ _)] at h
    rw [fill_cons fun i hi => h i (List.mem_append_left _ hi), if_pos hc, List.map_cons,
      ih fun i hi => h i (List.mem_append_right _ hi)]
  | case3 group item rest hc ih =>
    have hg : ∀ i ∈ group, i ≠ "" := fun i hi => h i <| by
      rw [List.dropLast_append_of_ne_nil (List.cons_ne_nil _ _)]
      exact List.mem_append_left _ hi
    rw [fill_cons hg, if_neg hc, ih (by rwa [List.append_assoc])]

theorem wrap_eq (values : List String) : wrap values = (distribute [] (items values)).map line := by
  rw [wrap, ← line_nil]
  exact fill_line fun i hi => ne_empty_of_mem_dropLast hi

theorem flatten_distribute (group rest : List String) :
    (distribute group rest).flatten = group ++ rest := by
  fun_induction distribute group rest with
  | case1 group => simp
  | case2 group item rest hc ih => rw [List.flatten_cons, ih, List.singleton_append]
  | case3 group item rest hc ih => rw [ih, List.append_assoc, List.singleton_append]

theorem alone_of_distribute (h : [] ∈ distribute group rest) : distribute group rest = [[]] := by
  fun_induction distribute group rest with
  | case1 group => rw [← List.mem_singleton.1 h]
  | case2 group item rest hc ih =>
    rcases List.mem_cons.1 h with h | h
    · exact absurd h.symm hc.1
    · -- the next line would be the only one, without the item that it starts with
      have hflatten := flatten_distribute [item] rest
      rw [ih h] at hflatten
      cases hflatten
  | case3 group item rest hc ih => exact ih h

/-- What is on the first line already stays in front of it. -/
theorem distribute_eq_cons (group rest : List String) :
    ∃ more groups, distribute group rest = (group ++ more) :: groups := by
  fun_induction distribute group rest with
  | case1 group => exact ⟨[], [], by rw [List.append_nil]⟩
  | case2 group item rest hc ih => exact ⟨[], _, by rw [List.append_nil]⟩
  | case3 group item rest hc ih =>
    obtain ⟨more, groups, ih⟩ := ih
    exact ⟨item :: more, groups, by rw [ih, List.append_assoc, List.singleton_append]⟩

theorem single_of_mem_distribute
    (h : width < (line group).utf8ByteSize → ∃ item, group = [item])
    (hg : group' ∈ distribute group rest) (hlong : width < (line group').utf8ByteSize) :
    ∃ item, group' = [item] := by
  fun_induction distribute group rest with
  | case1 group =>
    obtain rfl := List.mem_singleton.1 hg
    exact h hlong
  | case2 group item rest hc ih =>
    rcases List.mem_cons.1 hg with rfl | hg
    · exact h hlong
    · exact ih (fun _ => ⟨item, rfl⟩) hg
  | case3 group item rest hc ih =>
    refine ih (fun hlong => ?_) hg
    rcases eq_or_ne group [] with rfl | hne
    · exact ⟨item, rfl⟩
    · -- an item that joins others still has room
      rw [line_concat hne, String.utf8ByteSize_append, String.utf8ByteSize_append] at hlong
      exact absurd ⟨hne, hlong⟩ hc

theorem isChain_distribute (group rest : List String) :
    (distribute group rest).IsChain fun group next =>
      ∃ item ∈ next.head?, width < (line group).utf8ByteSize + 1 + item.utf8ByteSize := by
  fun_induction distribute group rest with
  | case1 group => exact .singleton _
  | case2 group item rest hc ih =>
    obtain ⟨more, groups, heq⟩ := distribute_eq_cons [item] rest
    rw [heq] at ih ⊢
    exact .cons_cons ⟨item, rfl, hc.2⟩ ih
  | case3 group item rest hc ih => exact ih

theorem holds_distribute (values : List String) :
    Holds values (wrap values) (distribute [] (items values)) where
  flatten := by rw [flatten_distribute, List.nil_append, items_eq]
  lines_eq := wrap_eq values
  alone := alone_of_distribute

end Distribute

section Reading

theorem intercalate_flatten (h : [] ∉ groups) :
    " ".intercalate (groups.map (" ".intercalate ·)) = " ".intercalate groups.flatten := by
  induction groups with
  | nil => rfl
  | cons group groups ih =>
    rw [List.mem_cons, not_or] at h
    rcases groups with _ | ⟨next, groups⟩
    · simp
    have hmore : (next :: groups).flatten ≠ [] := fun hnil =>
      h.2 (List.mem_cons.2 (.inl (List.flatten_eq_nil_iff.1 hnil next List.mem_cons_self).symm))
    rw [List.map_cons, String.intercalate_cons_of_ne_nil (by simp), ih h.2,
      ← String.intercalate_append_of_ne_nil (Ne.symm h.1) hmore]
    rfl

theorem drop_line (group : List String) : ((line group).drop 2).copy = " ".intercalate group := by
  rw [← String.toList_inj, String.toList_copy_drop, line, String.toList_append]
  rfl

/-- A group that goes on has a longer line. -/
theorem eq_nil_of_line_append_eq (h : group ≠ []) (hline : line (group ++ rest) = line group) :
    rest = [] := by
  by_contra hr
  exact (size_line_lt h hr).ne (congrArg String.utf8ByteSize hline.symm)

theorem eq_of_line_eq (h : group ≠ []) (h' : group' ≠ []) (hline : line group = line group')
    (happend : group ++ rest = group' ++ rest') : group = group' := by
  rcases List.append_eq_append_iff.1 happend with ⟨more, rfl, -⟩ | ⟨more, rfl, -⟩
  · rw [eq_nil_of_line_append_eq h hline.symm, List.append_nil]
  · rw [eq_nil_of_line_append_eq h' hline, List.append_nil]

theorem eq_of_map_line_eq (h : [] ∉ groups) (h' : [] ∉ groups')
    (hlines : groups.map line = groups'.map line) (hflatten : groups.flatten = groups'.flatten) :
    groups = groups' := by
  induction groups generalizing groups' with
  | nil => exact (List.map_eq_nil_iff.1 hlines.symm).symm
  | cons group groups ih =>
    rcases groups' with _ | ⟨group', groups'⟩
    · cases hlines
    rw [List.mem_cons, not_or] at h h'
    obtain ⟨hline, hmore⟩ := List.cons.inj hlines
    obtain rfl := eq_of_line_eq (Ne.symm h.1) (Ne.symm h'.1) hline hflatten
    rw [ih h.2 h'.2 hmore (List.append_cancel_left hflatten)]

namespace Holds

theorem flatten_eq (h : Holds values lines groups) : groups.flatten = items values :=
  h.flatten.trans (items_eq values).symm

theorem indented (h : Holds values lines groups) : ∀ l ∈ lines, l.startsWith "  " := by
  intro l hl
  rw [h.lines_eq] at hl
  obtain ⟨group, -, rfl⟩ := List.mem_map.1 hl
  rw [String.startsWith_string_iff, line, String.toList_append]
  exact List.prefix_append _ _

theorem joined (h : Holds values lines groups) :
    " ".intercalate (lines.map fun l => (l.drop 2).copy) = ", ".intercalate values := by
  rw [← intercalate_items, ← h.flatten_eq, h.lines_eq, List.map_map]
  simp only [Function.comp_def, drop_line]
  by_cases hnil : [] ∈ groups
  · rw [h.alone hnil]
    rfl
  · exact intercalate_flatten hnil

theorem nil_mem_iff (h : Holds values lines groups) :
    [] ∈ groups ↔ values = [] ∧ lines ≠ [] := by
  have hflatten := h.flatten_eq
  have hlines := h.lines_eq
  constructor
  · intro hnil
    rw [h.alone hnil] at hflatten hlines
    exact ⟨items_eq_nil_iff.1 hflatten.symm, by simp [hlines]⟩
  · rintro ⟨rfl, hne⟩
    have hgroups : groups ≠ [] := fun hnil => hne (by rw [hlines, hnil, List.map_nil])
    obtain ⟨group, hg⟩ := List.exists_mem_of_ne_nil groups hgroups
    exact List.flatten_eq_nil_iff.1 hflatten group hg ▸ hg

theorem unique (h : Holds values lines groups) (h' : Holds values lines groups') :
    groups = groups' := by
  have hiff : [] ∈ groups ↔ [] ∈ groups' := h.nil_mem_iff.trans h'.nil_mem_iff.symm
  -- a line without items looks like one that holds an empty item
  by_cases hnil : [] ∈ groups
  · rw [h.alone hnil, h'.alone (hiff.1 hnil)]
  · exact eq_of_map_line_eq hnil (mt hiff.2 hnil) (h.lines_eq.symm.trans h'.lines_eq)
      (h.flatten.trans h'.flatten.symm)

end Holds

end Reading

/-- For all values, empty ones and ones that are longer than a line too. -/
theorem isWrapping_wrap (values : List String) : IsWrapping values (wrap values) where
  indented := (holds_distribute values).indented
  joined := (holds_distribute values).joined
  held := ⟨_, holds_distribute values, fun _ h => h.unique (holds_distribute values)⟩
  single groups h group hg := by
    obtain rfl := h.unique (holds_distribute values)
    exact single_of_mem_distribute (fun hlong => absurd hlong (by rw [line_nil]; decide)) hg
  full groups h := by
    obtain rfl := h.unique (holds_distribute values)
    exact isChain_distribute _ _

/-- An empty value takes up a blank if there is a line to go on, and nothing if there is none. -/
example : wrap ["", ""] = ["  , "] ∧ wrap [""] = wrap [] := by decide

end Depot.Listing
