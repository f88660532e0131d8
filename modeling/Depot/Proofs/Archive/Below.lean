import Depot.Proofs.Archive.Blocks
import Depot.Proofs.Archive.Formats

/-!
# Members below a selected one

A pattern that accepts a path accepts every path that goes on from it, and stripping takes as many
names off both. So with a member all members below it are selected, and they go to the same places
below the place of that member (`selected_below`).
-/

namespace Depot.Archive

variable {s : Selection} {m : Member} {ms : List Member} {ns : List String} {l : Location}
  {t t' : FileTree} {archive : String} {source dest : Location} {o : Options} {r : Report}

theorem Pattern.accepts_append {ss : List Segment} {path : List String}
    (h : accepts ss path = true) (below : List String) : accepts ss (path ++ below) = true := by
  fun_induction accepts ss path with
  | case1 path => exact accepts_nil _
  | case2 s ss => cases h
  | case3 g ss n ns ih =>
    rw [Bool.and_eq_true] at h
    rw [List.cons_append, accepts, h.1, ih h.2]
    rfl
  | case4 ss n ns ihHere ihLater =>
    rw [List.cons_append, accepts, Bool.or_eq_true]
    exact ((Bool.or_eq_true _ _).mp h).imp ihHere ihLater

namespace Selection

/-- Where a member goes, if it is selected. -/
def goal? (s : Selection) (m : Member) : Option Location :=
  safeNames? m.name >>= s.target?

theorem goal?_eq (s : Selection) (m : Member) :
    s.goal? m = if s.Wants m then some (s.goal m) else none := by
  rw [goal?, safeNames?_eq]
  by_cases he : Escapes m.name
  · rw [if_pos he, if_neg fun hw => hw.1 he]
    rfl
  · rw [if_neg he, ← s.target?_names he]
    rfl

theorem selected_report (s : Selection) (ms : List Member) :
    (s.report ms).selected = ms.filterMap s.goal? := by
  induction ms with
  | nil => rfl
  | cons m ms ih =>
    rw [report_cons, List.filterMap_cons, goal?_eq, ← ih]
    by_cases hw : s.Wants m <;> simp [report, Report.append, hw]

/-- What goes on from the path of a selected member is selected too. -/
theorem target?_append (h : s.target? ns = some l) (below : List String) :
    s.target? (ns ++ below) = some (l ++ below) := by
  rw [target?] at h ⊢
  split_ifs at h with hlen hp
  obtain rfl := Option.some.inj h
  rw [Nat.not_le] at hlen
  have hp' : s.pattern.all (·.matches (ns ++ below)) = true := by
    rcases hs : s.pattern with _ | p
    · rfl
    · rw [hs] at hp
      exact Pattern.accepts_append hp below
  rw [if_neg (by rw [List.length_append]; omega), if_pos hp', List.drop_append_of_le_length hlen.le,
    List.append_assoc]

end Selection

/-- An extraction selects the members that have a goal, in the order of the archive. If it selects a
member, then it also selects every member with a safe path that goes on from the path of the first,
and to find the place of the second one goes on from that of the first by the same names. -/
theorem selected_below (h : extract archive source dest o t = .ok r t') :
    ∃ pattern es, opened t archive source o.pattern = .ok (pattern, es) ∧
      r.selected = es.members.filterMap (o.selection dest pattern).goal? ∧
      ∀ m ∈ es.members, ∀ m' ∈ es.members, ∀ ns below, safeNames? m.name = some ns →
        safeNames? m'.name = some (ns ++ below) →
        ∀ l, (o.selection dest pattern).goal? m = some l →
          (o.selection dest pattern).goal? m' = some (l ++ below) := by
  rw [extract_eq] at h
  rcases hopen : opened t archive source o.pattern with e | ⟨pattern, es⟩ <;> simp only [hopen] at h
  · cases h
  obtain ⟨-, -, rfl⟩ := extractEntries_eq_ok_iff.1 h
  refine ⟨pattern, es, rfl, Selection.selected_report _ _, fun m _ m' _ ns below hm hm' l hl => ?_⟩
  rw [Selection.goal?, hm] at hl
  rw [Selection.goal?, hm']
  exact Selection.target?_append hl below

section Sample

/-- A tree that holds nothing but a zip file, with the directory `d` and `d/f` in it. -/
def belowTree : FileTree := ⟨[(["i.zip"], .file itemsZip 0o644)]⟩

def belowOptions : Options := ⟨some "**/d", 0, true⟩

def belowPattern : Pattern := ⟨[.anyDepth, .name ⟨[.one 'd']⟩]⟩

def belowEntries : Entries := ⟨(sampleItems.map Item.zip).map Zip.Entry.toEntry, true⟩

theorem opened_belowTree :
    opened belowTree "i.zip" ["i.zip"] (some "**/d") = .ok (some belowPattern, belowEntries) := by
  have hf : Format.ofPath "i.zip" = .ok .zip := by decide +kernel
  have hp : (some "**/d").mapM Pattern.parse = .ok (some belowPattern) := by decide +kernel
  have h : belowTree.read ["i.zip"] = .ok itemsZip := by decide +kernel
  have hread : Zip.read itemsZip = belowEntries := read_zip zipHolds_sample
  exact opened_of_read hf hp h hread

/-- The pattern does not match `f`, which is selected with the directory that it is in. -/
theorem selected_below_sample : ∃ r t',
    extract "i.zip" ["i.zip"] ["out"] belowOptions belowTree = .ok r t' ∧
      ["out", "d"] ∈ r.selected ∧ ["out", "d"] ++ ["f"] ∈ r.selected := by
  obtain ⟨r, t', h⟩ : ∃ r t', extract "i.zip" ["i.zip"] ["out"] belowOptions belowTree =
      .ok r t' := by
    refine ⟨(belowOptions.selection ["out"] (some belowPattern)).report belowEntries.members,
      belowTree, ?_⟩
    rw [extract_eq, show belowOptions.pattern = some "**/d" from rfl, opened_belowTree]
    exact extractEntries_eq_ok_iff.2 ⟨storeAll_test rfl _ _, rfl, rfl⟩
  obtain ⟨pattern, es, hopen, hselected, hbelow⟩ := selected_below h
  obtain ⟨rfl, rfl⟩ := Prod.mk.inj (Except.ok.inj (opened_belowTree.symm.trans hopen))
  have hd : (⟨"d/", true, 0o040755, ⟨.empty, false⟩⟩ : Member) ∈ belowEntries.members := by
    decide +kernel
  have hf : (⟨"d/f", false, 0o100640, ⟨⟨#[97]⟩, false⟩⟩ : Member) ∈ belowEntries.members := by
    decide +kernel
  have hgoal : (belowOptions.selection ["out"] (some belowPattern)).goal?
      ⟨"d/", true, 0o040755, ⟨.empty, false⟩⟩ = some ["out", "d"] := by decide +kernel
  have hgoal' := hbelow _ hd _ hf ["d"] ["f"] (by decide +kernel) (by decide +kernel) _ hgoal
  exact ⟨r, t', h, hselected ▸ List.mem_filterMap.2 ⟨_, hd, hgoal⟩,
    hselected ▸ List.mem_filterMap.2 ⟨_, hf, hgoal'⟩⟩

end Sample

end Depot.Archive
