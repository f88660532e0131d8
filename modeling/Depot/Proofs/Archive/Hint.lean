import Depot.Proofs.Archive.Visit

/-!
# What a hint says

A hint is chosen by the options and three counts (`Report.Hinted`), and not by why each member was
left out. So what it says of the members is true only where nothing else kept one of them out, and
`hint_true_iff` tells when that is so.
-/

namespace Depot.Archive

variable {r : Report} {o : Options} {s : Selection} {t t' : FileTree} {dest source : Location}
  {archive text : String} {pattern : Option Pattern} {es : Entries} {ms : List Member}

namespace Report

/-- The words for what a dry run would do and another one did. -/
def voice (test : Bool) : String := if test then "would be" else "were"

/-- The hints, each with what it is chosen by. -/
inductive Hinted (r : Report) (o : Options) : String → Prop
  | empty (hm : r.members = 0) : Hinted r o "the archive is empty"
  | excluded (p : String) (hm : r.members ≠ 0) (hp : o.pattern = some p) (hs : 0 < o.strip) :
    Hinted r o (s!"all members {voice r.test} excluded by the pattern \"{p}\" and/or "
      ++ s!"stripping {o.strip} path components")
  | unmatched (p : String) (hm : r.members ≠ 0) (hp : o.pattern = some p) (hs : o.strip = 0) :
    Hinted r o s!"no member matched the pattern \"{p}\""
  | consumed (hm : r.members ≠ 0) (hp : o.pattern = none) (hs : 0 < o.strip) :
    Hinted r o s!"all member paths {voice r.test} consumed by stripping {o.strip} path components"
  | skipped (hm : r.members ≠ 0) (hp : o.pattern = none) (hs : o.strip = 0)
    (hu : 0 < r.unsafeMembers) : Hinted r o s!"all members {voice r.test} skipped as unsafe"
  | nameless (hm : r.members ≠ 0) (hp : o.pattern = none) (hs : o.strip = 0)
    (hu : r.unsafeMembers = 0) : Hinted r o "the archive contains no extractable members"

theorem hint?_eq_none_iff : r.hint? o = none ↔ r.selected ≠ [] := by
  rw [hint?]
  by_cases hs : r.selected = []
  · by_cases hm : r.members = 0 <;> simp [hs, hm]
  · simp [hs]

theorem hinted_of_hint? (h : r.hint? o = some text) : r.selected = [] ∧ Hinted r o text := by
  have hs : r.selected = [] := by
    by_contra hs
    rw [hint?_eq_none_iff.2 hs] at h
    cases h
  refine ⟨hs, ?_⟩
  rw [hint?, if_neg (not_not.2 hs)] at h
  by_cases hm : r.members = 0
  · rw [if_pos hm] at h
    cases h
    exact .empty hm
  rw [if_neg hm] at h
  obtain rfl := Option.some.inj h
  rcases hp : o.pattern with _ | p <;> by_cases hstrip : o.strip > 0 <;> simp only [hstrip, if_true,
    if_false]
  · exact .consumed hm hp hstrip
  · by_cases hu : r.unsafeMembers > 0 <;> simp only [hu, if_true, if_false]
    · exact .skipped hm hp (Nat.eq_zero_of_not_pos hstrip) hu
    · exact .nameless hm hp (Nat.eq_zero_of_not_pos hstrip) (Nat.eq_zero_of_not_pos hu)
  · exact .excluded p hm hp hstrip
  · exact .unmatched p hm hp (Nat.eq_zero_of_not_pos hstrip)

/-! No two kinds of hints share a text, so a text tells what it was chosen by. -/

theorem Hinted.of_empty (h : Hinted r o "the archive is empty") : r.members = 0 := by
  generalize ht : "the archive is empty" = text at h
  cases h with
  | empty hm => exact hm
  | _ =>
    have ht := congrArg String.toList ht
    simp [ToString.toString] at ht

theorem Hinted.of_unmatched {p : String}
    (h : Hinted r o s!"no member matched the pattern \"{p}\"") :
    r.members ≠ 0 ∧ o.pattern = some p ∧ o.strip = 0 := by
  generalize ht : s!"no member matched the pattern \"{p}\"" = text at h
  cases h with
  | unmatched q hm hp hs =>
    obtain rfl : p = q := by simpa [ToString.toString] using ht
    exact ⟨hm, hp, hs⟩
  | _ =>
    have ht := congrArg String.toList ht
    simp [ToString.toString] at ht

theorem Hinted.of_consumed {n : Nat} (h : Hinted r o
      s!"all member paths {voice r.test} consumed by stripping {n} path components") :
    r.members ≠ 0 ∧ o.pattern = none ∧ o.strip = n := by
  generalize ht :
    s!"all member paths {voice r.test} consumed by stripping {n} path components" = text at h
  cases h with
  | consumed hm hp hs =>
    have hrepr : n.repr = o.strip.repr := by simpa using ht
    have hdigits : Nat.toDigits 10 n = Nat.toDigits 10 o.strip := String.ofList_injective hrepr
    obtain rfl : n = o.strip :=
      calc n = Nat.ofDigitChars 10 (Nat.toDigits 10 n) 0 :=
            (Nat.ofDigitChars_toDigits (by decide) (by decide)).symm
        _ = Nat.ofDigitChars 10 (Nat.toDigits 10 o.strip) 0 := by rw [hdigits]
        _ = o.strip := Nat.ofDigitChars_toDigits (by decide) (by decide)
    exact ⟨hm, hp, rfl⟩
  | _ =>
    have ht := congrArg String.toList ht
    simp [ToString.toString] at ht

end Report

namespace Selection

theorem selected_eq_nil_iff : (s.report ms).selected = [] ↔ ∀ m ∈ ms, ¬s.Wants m := by
  simp [report, List.filter_eq_nil_iff]

theorem unsafeMembers_eq_zero_iff :
    (s.report ms).unsafeMembers = 0 ↔ ∀ m ∈ ms, ¬Escapes m.name := by
  simp [report, List.countP_eq_zero]

theorem unsafeMembers_eq_members_iff :
    (s.report ms).unsafeMembers = (s.report ms).members ↔ ∀ m ∈ ms, Escapes m.name := by
  simp [report, List.countP_eq_length]

/-- Where no member is selected and no names are stripped, a pattern has kept out the members that
do not escape, unless it has no names: it would match them all. -/
theorem unmatched_iff {p : Pattern} (hp : s.pattern = some p) (hs : s.strip = 0) (hms : ms ≠ [])
    (h : (s.report ms).selected = []) :
    (∀ m ∈ ms, ¬Escapes m.name ∧ p.matches (Location.names m.name) = false) ↔
      (s.report ms).unsafeMembers = 0 ∧ p.segments ≠ [] := by
  rw [selected_eq_nil_iff] at h
  rw [unsafeMembers_eq_zero_iff]
  constructor
  · intro hall
    refine ⟨fun m hm => (hall m hm).1, fun hnil => ?_⟩
    obtain ⟨m, hm⟩ := List.exists_mem_of_ne_nil ms hms
    have hno := (hall m hm).2
    rw [Pattern.matches, hnil, Pattern.accepts] at hno
    cases hno
  · rintro ⟨hsafe, hsegments⟩ m hm
    refine ⟨hsafe m hm, ?_⟩
    by_contra hmatch
    rw [Bool.not_eq_false] at hmatch
    have hnames : Location.names m.name ≠ [] := by
      intro hnil
      obtain ⟨a, ss, hss⟩ := List.exists_cons_of_ne_nil hsegments
      rw [Pattern.matches, hnil, hss, Pattern.accepts] at hmatch
      cases hmatch
    refine h m hm ⟨hsafe m hm, ?_, fun q hq => ?_⟩
    · rw [hs]
      exact List.length_pos_iff.2 hnames
    · rw [hp] at hq
      cases hq
      exact hmatch

/-- Where no member is selected and there is no pattern, the members that do not escape have no
names left. -/
theorem consumed_iff (hp : s.pattern = none) (h : (s.report ms).selected = []) :
    (∀ m ∈ ms, ¬Escapes m.name ∧ (Location.names m.name).length ≤ s.strip) ↔
      (s.report ms).unsafeMembers = 0 := by
  rw [selected_eq_nil_iff] at h
  rw [unsafeMembers_eq_zero_iff]
  refine ⟨fun hall m hm => (hall m hm).1, fun hsafe m hm => ⟨hsafe m hm, ?_⟩⟩
  by_contra hlong
  refine h m hm ⟨hsafe m hm, Nat.not_le.1 hlong, fun q hq => ?_⟩
  rw [hp] at hq
  cases hq

end Selection

theorem list_eq_nil_iff (h : es.members = []) : es.list = [] ↔ .skipped ∉ es.list := by
  refine ⟨fun hl => hl ▸ List.not_mem_nil, fun hl => ?_⟩
  by_contra hne
  obtain ⟨e, he⟩ := List.exists_mem_of_ne_nil es.list hne
  rcases e with m | -
  · exact List.not_mem_nil (h ▸ List.mem_filterMap.2 ⟨_, he, rfl⟩ : m ∈ [])
  · exact hl he

/-- What the texts of hints say of the members, and what that comes down to in the report. -/
structure Hints (o : Options) (es : Entries) (r : Report) : Prop where
  none_iff : r.hint? o = none ↔ r.selected ≠ []
  /-- Entries that are neither files nor directories are not counted. -/
  empty : r.hint? o = some "the archive is empty" → (es.list = [] ↔ .skipped ∉ es.list)
  /-- A pattern without names matches all. -/
  unmatched : ∀ p, r.hint? o = some s!"no member matched the pattern \"{p}\"" →
    ∃ q, Pattern.parse p = .ok q ∧
      ((∀ m ∈ es.members, ¬Escapes m.name ∧ q.matches (Location.names m.name) = false) ↔
        r.unsafeMembers = 0 ∧ q.segments ≠ [])
  consumed : ∀ n, r.hint? o =
      some s!"all member paths {Report.voice r.test} consumed by stripping {n} path components" →
    ((∀ m ∈ es.members, ¬Escapes m.name ∧ (Location.names m.name).length ≤ n) ↔
      r.unsafeMembers = 0)
  skipped : r.hint? o = some s!"all members {Report.voice r.test} skipped as unsafe" →
    ((∀ m ∈ es.members, Escapes m.name) ↔ r.unsafeMembers = r.members)

/-- There is a hint just if an extraction has selected nothing. It is true just if no entry was left
out for another reason than the one that it gives. -/
theorem hint_true_iff (h : extract archive source dest o t = .ok r t') :
    ∃ pattern es, opened t archive source o.pattern = .ok (pattern, es) ∧ Hints o es r := by
  rw [extract_eq] at h
  rcases hopen : opened t archive source o.pattern with e | ⟨pattern, es⟩ <;> simp only [hopen] at h
  · cases h
  obtain ⟨-, -, rfl⟩ := extractEntries_eq_ok_iff.1 h
  refine ⟨pattern, es, rfl, Report.hint?_eq_none_iff, fun h => ?_, fun p h => ?_, fun n h => ?_,
    fun _ => Selection.unsafeMembers_eq_members_iff.symm⟩ <;>
      obtain ⟨hnone, hinted⟩ := Report.hinted_of_hint? h
  · exact list_eq_nil_iff (List.length_eq_zero_iff.1 hinted.of_empty)
  · obtain ⟨hm, hp, hs⟩ := hinted.of_unmatched
    obtain ⟨f, -, hq, -⟩ := opened_eq_ok_iff.1 hopen
    rw [hp] at hq
    rcases hparse : Pattern.parse p with e | q <;> simp only [Option.mapM_some, hparse] at hq
    · cases hq
    · cases hq
      exact ⟨q, rfl, Selection.unmatched_iff rfl hs
        (List.length_pos_iff.1 (Nat.pos_of_ne_zero hm)) hnone⟩
  · obtain ⟨-, hp, rfl⟩ := hinted.of_consumed
    obtain ⟨f, -, hq, -⟩ := opened_eq_ok_iff.1 hopen
    rw [hp] at hq
    cases hq
    exact Selection.consumed_iff rfl hnone

section Sample

/-- A zip file with the file `../x`. -/
def escapingZip : ByteArray :=
  ⟨#[80, 75, 3, 4, 20, 0, 0, 0, 0, 0, 0, 0, 33, 0, 0, 0, 0, 0, 0, 0, 0, 0, 0, 0, 0, 0, 4, 0, 0, 0,
    46, 46, 47, 120,
    80, 75, 1, 2, 20, 3, 20, 0, 0, 0, 0, 0, 0, 0, 33, 0, 0, 0, 0, 0, 0, 0, 0, 0, 0, 0, 0, 0, 4, 0,
    0, 0, 0, 0, 0, 0, 0, 0, 0, 0, 160, 129, 0, 0, 0, 0, 46, 46, 47, 120,
    80, 75, 5, 6, 0, 0, 0, 0, 1, 0, 1, 0, 50, 0, 0, 0, 34, 0, 0, 0, 0, 0]⟩

def escapingEntries : Entries := ⟨[.member ⟨"../x", false, 0o100640, ⟨.empty, false⟩⟩], true⟩

def escapingTree : FileTree := ⟨[(["a.zip"], .file escapingZip 0o644)]⟩

def stripping : Options := ⟨none, 1, false⟩

theorem read_escapingZip : Zip.read escapingZip = escapingEntries := by decide +kernel

theorem opened_escapingTree :
    opened escapingTree "a.zip" ["a.zip"] none = .ok (none, escapingEntries) :=
  opened_of_read (f := .zip) (by decide +kernel) rfl (by decide +kernel) read_escapingZip

theorem extract_escapingTree :
    extract "a.zip" ["a.zip"] ["out"] stripping escapingTree =
      .ok ⟨[], 1, 1, false⟩ escapingTree := by
  rw [extract_eq, show stripping.pattern = none from rfl, opened_escapingTree]
  exact extractEntries_eq_ok_iff.2 ⟨by decide +kernel, rfl, by decide +kernel⟩

/-- The hint blames the stripping for a member that was skipped as unsafe. -/
theorem hint_untrue : ¬ ∀ archive source dest o t r t' pattern es n,
    extract archive source dest o t = .ok r t' →
    opened t archive source o.pattern = .ok (pattern, es) →
    r.hint? o =
      some s!"all member paths {Report.voice r.test} consumed by stripping {n} path components" →
    ∀ m ∈ es.members, ¬Escapes m.name ∧ (Location.names m.name).length ≤ n := by
  intro h
  have hm := h _ _ _ _ _ _ _ _ _ 1 extract_escapingTree opened_escapingTree (by decide)
    ⟨"../x", false, 0o100640, ⟨.empty, false⟩⟩ (by decide)
  exact absurd hm.1 (by decide)

theorem hint_true_iff_escaping :
    extract "a.zip" ["a.zip"] ["out"] stripping escapingTree =
      .ok ⟨[], 1, 1, false⟩ escapingTree ∧
    Report.hint? ⟨[], 1, 1, false⟩ stripping =
      some "all member paths were consumed by stripping 1 path components" ∧
    ((∀ m ∈ escapingEntries.members, ¬Escapes m.name ∧ (Location.names m.name).length ≤ 1) ↔
      1 = 0) := by
  obtain ⟨pattern, es, hopen, hints⟩ := hint_true_iff extract_escapingTree
  obtain ⟨rfl, rfl⟩ := Prod.mk.inj (Except.ok.inj (opened_escapingTree.symm.trans hopen))
  have htext : Report.hint? ⟨[], 1, 1, false⟩ stripping =
      some "all member paths were consumed by stripping 1 path components" := by decide
  exact ⟨extract_escapingTree, htext, hints.consumed 1 htext⟩

end Sample

end Depot.Archive
