import Depot.Archive.Extract
import Depot.Proofs.FileTree.Walk

/-!
# The names on a member's path

Splitting a path leaves no slash in a name, and no name that is empty or a dot. A path that does
not escape has no parents and no NUL on it either, so each name of it leads one level down
(`downward_of_mem_names`).
-/

namespace Depot.Location

variable {c : Char} {s acc cs : List Char} {text n : String}

theorem mem_of_mem_segments_go (h : s ∈ segments.go acc cs) (hc : c ∈ s) :
    c ∈ acc ∨ c ∈ cs ∧ c ≠ '/' := by
  fun_induction segments.go acc cs with
  | case1 acc =>
    rw [List.mem_singleton.1 h, List.mem_reverse] at hc
    exact .inl hc
  | case2 acc r ih =>
    rcases List.mem_cons.1 h with rfl | h
    · exact .inl (List.mem_reverse.1 hc)
    · rcases ih h with hc | ⟨hc, hne⟩
      · cases hc
      · exact .inr ⟨List.mem_cons_of_mem _ hc, hne⟩
  | case3 acc d r hd ih =>
    rcases ih h with hc | ⟨hc, hne⟩
    · rcases List.mem_cons.1 hc with rfl | hc
      · exact .inr ⟨List.mem_cons_self, hd⟩
      · exact .inl hc
    · exact .inr ⟨List.mem_cons_of_mem d hc, hne⟩

theorem mem_of_mem_names (h : n ∈ names text) (hc : c ∈ n.toList) : c ∈ text.toList ∧ c ≠ '/' := by
  obtain ⟨s, hs, rfl⟩ := List.mem_map.1 (List.mem_filter.1 h).1
  rw [String.toList_ofList] at hc
  rcases mem_of_mem_segments_go hs hc with hc | hc
  · cases hc
  · exact hc

theorem segments_go_of_notMem (h : '/' ∉ cs) : segments.go acc cs = [acc.reverse ++ cs] := by
  fun_induction segments.go acc cs with
  | case1 acc => rw [List.append_nil]
  | case2 acc r ih => exact absurd (List.mem_cons_self ..) h
  | case3 acc d r hd ih =>
    rw [ih fun hr => h (List.mem_cons_of_mem _ hr), List.reverse_cons, List.append_assoc,
      List.singleton_append]

theorem ne_of_mem_names (h : n ∈ names text) : n ≠ "" ∧ n ≠ "." := by
  simpa using (List.mem_filter.1 h).2

end Depot.Location

namespace Depot.Archive

variable {path n : String} {s : Selection} {m : Member}

/-- A path that starts at the root, climbs, or holds a NUL. -/
def Escapes (path : String) : Prop :=
  Location.isAbsolute path ∨ ".." ∈ Location.names path ∨ '\x00' ∈ path.toList

instance : DecidablePred Escapes := fun _ => inferInstanceAs (Decidable (_ ∨ _ ∨ _))

/-- A name that leads one level down from wherever it is. -/
structure Downward (n : String) : Prop where
  ne_empty : n ≠ ""
  ne_here : n ≠ "."
  ne_parent : n ≠ ".."
  slash_notMem : '/' ∉ n.toList
  nul_notMem : '\x00' ∉ n.toList

theorem downward_of_mem_names (h : ¬Escapes path) (hn : n ∈ Location.names path) : Downward n where
  ne_empty := (Location.ne_of_mem_names hn).1
  ne_here := (Location.ne_of_mem_names hn).2
  ne_parent := fun he => h (.inr (.inl (he ▸ hn)))
  slash_notMem := fun hc => (Location.mem_of_mem_names hn hc).2 rfl
  nul_notMem := fun hc => h (.inr (.inr (Location.mem_of_mem_names hn hc).1))

namespace Downward

theorem names_eq (h : Downward n) : Location.names n = [n] := by
  rw [Location.names, Location.segments, Location.segments_go_of_notMem h.slash_notMem]
  simp [h.ne_empty, h.ne_here]

/-- Read as a path, the name is the one step that it looks like. -/
theorem ofText_eq (h : Downward n) (base : Location) : Location.ofText base n = base ++ [n] := by
  have hrel : Location.isAbsolute n = false := by
    rw [Location.isAbsolute, beq_eq_false_iff_ne]
    exact fun hhead => h.slash_notMem (List.mem_of_mem_head? hhead)
  rw [Location.ofText, if_neg (by simp [hrel]), h.names_eq]

end Downward

theorem plain_of_downward {ns : List String} (h : ∀ n ∈ ns, Downward n) : FileTree.Plain ns :=
  fun n hn => ⟨(h n hn).ne_parent, (h n hn).ne_here⟩

theorem safeNames?_eq (path : String) :
    safeNames? path = if Escapes path then none else some (Location.names path) := by
  simp only [safeNames?, Escapes, List.contains_iff_mem]
  congr

namespace Selection

/-- Members that are selected. -/
def Wants (s : Selection) (m : Member) : Prop :=
  ¬Escapes m.name ∧ s.strip < (Location.names m.name).length ∧
    ∀ p ∈ s.pattern, p.matches (Location.names m.name)

instance (s : Selection) : DecidablePred s.Wants := fun _ =>
  inferInstanceAs (Decidable (_ ∧ _ ∧ _))

/-- The names below the destination at which a selected member is put. -/
def way (s : Selection) (m : Member) : List String :=
  (Location.names m.name).drop s.strip

def goal (s : Selection) (m : Member) : Location :=
  s.dest ++ s.way m

theorem target?_names (s : Selection) (h : ¬Escapes m.name) :
    s.target? (Location.names m.name) = if s.Wants m then some (s.goal m) else none := by
  have hall : s.pattern.all (·.matches (Location.names m.name)) ↔
      ∀ p ∈ s.pattern, p.matches (Location.names m.name) := by
    cases s.pattern <;> simp
  rw [target?]
  by_cases hw : s.Wants m
  · obtain ⟨-, hlen, hp⟩ := hw
    rw [if_neg (Nat.not_le.2 hlen), if_pos (hall.2 hp), if_pos ⟨h, hlen, hp⟩, goal, way]
  · rw [if_neg hw]
    split_ifs with hlen hp
    · rfl
    · exact absurd ⟨h, Nat.not_le.1 hlen, hall.1 hp⟩ hw
    · rfl

theorem way_ne_nil (h : s.Wants m) : s.way m ≠ [] := by
  rw [way, Ne, List.drop_eq_nil_iff]
  exact Nat.not_le.2 h.2.1

theorem downward_of_mem_way (h : s.Wants m) (hn : n ∈ s.way m) : Downward n :=
  downward_of_mem_names h.1 (List.mem_of_mem_drop hn)

theorem plain_way (h : s.Wants m) : FileTree.Plain (s.way m) :=
  plain_of_downward fun _ => downward_of_mem_way h

end Selection

end Depot.Archive
