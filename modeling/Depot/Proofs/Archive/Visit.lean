import Depot.Archive.Open
import Depot.Proofs.Archive.Names
import Depot.Proofs.FileTree.Unlinked

/-!
# An extraction apart from its report

What is reported follows from the members alone (`Selection.report`), and what is done to the tree
is one `store` after another (`storeAll`). `extractEntries_eq` puts the two together, so a property
of an extraction is one of a list, or of `storeAll`.
-/

namespace Depot.Archive

open FileTree (Action bind_apply)

variable {s : Selection} {t t' : FileTree} {dest source : Location} {o : Options} {m : Member}
  {ms : List Member} {archive : String} {pattern : Option Pattern} {es : Entries} {r : Report}

def Entry.member? : Entry → Option Member
  | .member m => some m
  | .skipped => none

@[simp] theorem Entry.member?_member (m : Member) : (Entry.member m).member? = some m := rfl

@[simp] theorem Entry.member?_skipped : Entry.skipped.member? = none := rfl

def Entries.members (es : Entries) : List Member := es.list.filterMap Entry.member?

/-- The report on what comes first with that on what follows. -/
def Report.append (r r' : Report) : Report :=
  ⟨r.selected ++ r'.selected, r.members + r'.members, r.unsafeMembers + r'.unsafeMembers, r.test⟩

theorem Report.append_assoc (r r' r'' : Report) :
    (r.append r').append r'' = r.append (r'.append r'') := by
  simp only [append, List.append_assoc, Nat.add_assoc]

def Options.selection (o : Options) (dest : Location) (pattern : Option Pattern) : Selection :=
  ⟨dest, pattern, o.strip, o.test⟩

namespace Selection

def report (s : Selection) (ms : List Member) : Report where
  selected := (ms.filter s.Wants).map s.goal
  members := ms.length
  unsafeMembers := ms.countP fun m => Escapes m.name
  test := s.test

theorem append_report_nil (s : Selection) (r : Report) : r.append (s.report []) = r := by
  simp [report, Report.append]

theorem start_append_report (s : Selection) (ms : List Member) :
    (Report.start s.test).append (s.report ms) = s.report ms := by
  simp [report, Report.append, Report.start]

theorem report_cons (s : Selection) (m : Member) (ms : List Member) :
    s.report (m :: ms) = (s.report [m]).append (s.report ms) := by
  by_cases hw : s.Wants m <;> by_cases he : Escapes m.name <;>
    simp [report, Report.append, hw, he, Nat.add_comm]

end Selection

/-- The tree that is left, also after an error. -/
def treeAfter {ε α : Type} : EStateM.Result ε FileTree α → FileTree
  | .ok _ t => t
  | .error _ t => t

/-- What visiting a member does to the tree. -/
def store (s : Selection) (m : Member) : Action Unit :=
  if s.Wants m ∧ s.test = false then place m (s.goal m) else pure ()

def storeAll (s : Selection) (ms : List Member) : Action Unit := ms.forM (store s)

theorem storeAll_cons (s : Selection) (m : Member) (ms : List Member) (t : FileTree) :
    storeAll s (m :: ms) t =
      match store s m t with
      | .ok () t => storeAll s ms t
      | .error e t => .error e t := by
  change (store s m >>= fun _ => storeAll s ms) t = _
  rw [bind_apply]
  rcases store s m t with ⟨⟨⟩, t'⟩ | ⟨e, t'⟩ <;> rfl

theorem storeAll_cons_eq_ok_iff :
    storeAll s (m :: ms) t = .ok () t' ↔
      ∃ t₁, store s m t = .ok () t₁ ∧ storeAll s ms t₁ = .ok () t' := by
  rw [storeAll_cons]
  rcases store s m t with ⟨⟨⟩, t₁⟩ | ⟨e, t₁⟩ <;> simp

theorem store_of_not_wants (h : ¬s.Wants m) (t : FileTree) : store s m t = .ok () t := by
  rw [store, if_neg fun hw => h hw.1]
  rfl

theorem store_of_wants (h : s.Wants m) (ht : s.test = false) (t : FileTree) :
    store s m t = place m (s.goal m) t := by
  rw [store, if_pos ⟨h, ht⟩]

theorem store_test (h : s.test = true) (m : Member) (t : FileTree) : store s m t = .ok () t := by
  rw [store, if_neg fun hw => by simp [h] at hw]
  rfl

theorem storeAll_test (h : s.test = true) (ms : List Member) (t : FileTree) :
    storeAll s ms t = .ok () t := by
  induction ms with
  | nil => rfl
  | cons m ms ih => simp only [storeAll_cons, store_test h, ih]

/-- The members that are not selected may as well be missing. -/
theorem storeAll_filter {p : Member → Bool} (hp : ∀ m, s.Wants m → p m) (ms : List Member)
    (t : FileTree) : storeAll s (ms.filter p) t = storeAll s ms t := by
  induction ms generalizing t with
  | nil => rfl
  | cons m ms ih =>
    rw [storeAll_cons]
    by_cases hm : p m
    · rw [List.filter_cons_of_pos hm, storeAll_cons]
      rcases store s m t with ⟨⟨⟩, t'⟩ | ⟨e, t'⟩
      · exact ih t'
      · rfl
    · rw [List.filter_cons_of_neg hm, store_of_not_wants fun hw => hm (hp m hw), ih]

theorem visit_apply (s : Selection) (m : Member) (t : FileTree) (r : Report) :
    visit s m ⟨t, r⟩ =
      match store s m t with
      | .ok () t => .ok () ⟨t, r.append (s.report [m])⟩
      | .error _ t => .error .io ⟨t, { r with members := r.members + 1 }⟩ := by
  rw [visit, bind_apply]
  simp only [onReport, safeNames?_eq]
  by_cases he : Escapes m.name
  · have hw : ¬s.Wants m := fun hw => hw.1 he
    simp [he, hw, onReport, store_of_not_wants hw, Selection.report, Report.append]
  simp only [if_neg he, s.target?_names he]
  by_cases hw : s.Wants m
  · have hreport : s.report [m] = ⟨[s.goal m], 1, 0, s.test⟩ := by
      simp [Selection.report, hw, he]
    rcases ht : s.test
    · simp only [if_pos hw, store_of_wants hw ht, hreport, Report.append, Bool.not_false, if_true,
        bind_apply, onTree]
      rcases place m (s.goal m) t with ⟨⟨⟩, t'⟩ | ⟨e, t'⟩ <;> rfl
    · simp only [if_pos hw, store_test ht, hreport, Report.append]
      rfl
  · simp [he, hw, store_of_not_wants hw, Selection.report, Report.append]
    rfl

/-- Visiting entries succeeds where storing their members does. -/
theorem forM_visitEntry (s : Selection) (l : List Entry) (t : FileTree) (r : Report) :
    (∃ t', storeAll s (l.filterMap Entry.member?) t = .ok () t' ∧
      l.forM (visitEntry s) ⟨t, r⟩ =
        .ok () ⟨t', r.append (s.report (l.filterMap Entry.member?))⟩) ∨
    ∃ e t' r', storeAll s (l.filterMap Entry.member?) t = .error e t' ∧
      l.forM (visitEntry s) ⟨t, r⟩ = .error .io ⟨t', r'⟩ := by
  induction l generalizing t r with
  | nil => exact .inl ⟨t, rfl, by rw [List.filterMap_nil, Selection.append_report_nil]; rfl⟩
  | cons e l ih =>
    have hcons : (e :: l).forM (visitEntry s) ⟨t, r⟩ =
        (visitEntry s e >>= fun _ => l.forM (visitEntry s)) ⟨t, r⟩ := rfl
    rw [hcons, bind_apply]
    rcases e with m | -
    · simp only [List.filterMap_cons, Entry.member?_member, storeAll_cons, visitEntry, visit_apply]
      rcases store s m t with ⟨⟨⟩, t₁⟩ | ⟨e, t₁⟩
      · rw [s.report_cons m (l.filterMap _), ← Report.append_assoc]
        exact ih t₁ (r.append (s.report [m]))
      · exact .inr ⟨e, t₁, _, rfl, rfl⟩
    · exact ih t r

theorem extractEntries_eq (archive : String) (dest : Location) (o : Options)
    (pattern : Option Pattern) (es : Entries) (t : FileTree) :
    extractEntries archive dest o pattern es t =
      match storeAll (o.selection dest pattern) es.members t with
      | .error _ t' => .error .io t'
      | .ok () t' =>
        if es.isComplete then .ok ((o.selection dest pattern).report es.members) t'
        else .error (.invalidArchive archive) t' := by
  have hstart := Selection.start_append_report ⟨dest, pattern, o.strip, o.test⟩ es.members
  dsimp only at hstart
  rw [extractEntries, visitAll, bind_apply, Options.selection]
  obtain ⟨t', hs, h⟩ | ⟨e, t', r', hs, h⟩ :=
    forM_visitEntry ⟨dest, pattern, o.strip, o.test⟩ es.list t (.start o.test)
  · rw [← Entries.members, hstart] at h
    simp only [Entries.members, hs, h]
    cases es.isComplete <;> rfl
  · simp only [Entries.members, hs, h]

theorem extractEntries_eq_ok_iff :
    extractEntries archive dest o pattern es t = .ok r t' ↔
      storeAll (o.selection dest pattern) es.members t = .ok () t' ∧ es.isComplete = true ∧
        r = (o.selection dest pattern).report es.members := by
  rw [extractEntries_eq]
  rcases storeAll (o.selection dest pattern) es.members t with ⟨⟨⟩, t₁⟩ | ⟨e, t₁⟩
  · cases es.isComplete <;> simp [and_comm, eq_comm]
  · simp

/-- The pattern and the entries that an extraction works with, if its name, its pattern and the
archive allow one. -/
def opened (t : FileTree) (archive : String) (source : Location) (pattern : Option String) :
    Except Error (Option Pattern × Entries) := do
  let f ← Format.ofPath archive
  let pattern ← pattern.mapM Pattern.parse
  let es ← openAt t f source
  return (pattern, es)

theorem opened_eq_ok_iff {p : Option String} :
    opened t archive source p = .ok (pattern, es) ↔
      ∃ f, Format.ofPath archive = .ok f ∧ p.mapM Pattern.parse = .ok pattern ∧
        openAt t f source = .ok es := by
  simp only [opened, Bind.bind, Except.bind]
  rcases Format.ofPath archive with e | f
  · simp
  rcases p.mapM Pattern.parse with e | q
  · simp
  rcases ho : openAt t f source with e | es' <;> simp [ho, Pure.pure, Except.pure]

theorem openAt_of_read {f : Format} {data : ByteArray} (h : t.read source = .ok data) :
    openAt t f source = .ok (f.read data) := by
  rw [FileTree.read] at h
  rw [openAt]
  rcases hl : t.lookup source with e | ⟨data, mode⟩ | _ | _ <;> rw [hl] at h <;> cases h
  rfl

/-- A file with the name of an archive opens as what is read from it. -/
theorem opened_of_read {f : Format} {data : ByteArray} {p : Option String}
    (hf : Format.ofPath archive = .ok f) (hp : p.mapM Pattern.parse = .ok pattern)
    (h : t.read source = .ok data) (hes : f.read data = es) :
    opened t archive source p = .ok (pattern, es) :=
  opened_eq_ok_iff.2 ⟨f, hf, hp, hes ▸ openAt_of_read h⟩

theorem extract_eq (archive : String) (source dest : Location) (o : Options) (t : FileTree) :
    extract archive source dest o t =
      match opened t archive source o.pattern with
      | .error e => .error e t
      | .ok (pattern, es) => extractEntries archive dest o pattern es t := by
  rw [extract, opened]
  rcases Format.ofPath archive with e | f
  · rfl
  rcases o.pattern.mapM Pattern.parse with e | pattern
  · rfl
  simp only [Bind.bind, Except.bind]
  rcases openAt t f source with e | es <;> rfl

def reportOf? : EStateM.Result Error FileTree Report → Option Report
  | .ok r _ => some r
  | .error _ _ => none

theorem reportOf?_eq_some {x : EStateM.Result Error FileTree Report} (h : reportOf? x = some r) :
    x = .ok r (treeAfter x) := by
  rcases x with ⟨r', t⟩ | ⟨e, t⟩ <;> cases h
  rfl

theorem reportOf?_eq_none {x : EStateM.Result Error FileTree Report} (h : reportOf? x = none) :
    ∃ e, x = .error e (treeAfter x) := by
  rcases x with ⟨r', t⟩ | ⟨e, t⟩ <;> cases h
  exact ⟨e, rfl⟩

section Sample

/-- A zip file with `d/f`, `../x` and `d//f`, the second of them empty. -/
def sampleZip : ByteArray :=
  ⟨#[80, 75, 3, 4, 20, 0, 0, 0, 0, 0, 0, 0, 33, 0, 67, 190, 183, 232, 1, 0, 0, 0, 1, 0, 0, 0, 3, 0,
    0, 0, 100, 47, 102, 97,
    80, 75, 3, 4, 20, 0, 0, 0, 0, 0, 0, 0, 33, 0, 0, 0, 0, 0, 0, 0, 0, 0, 0, 0, 0, 0, 4, 0, 0, 0,
    46, 46, 47, 120,
    80, 75, 3, 4, 20, 0, 0, 0, 0, 0, 0, 0, 33, 0, 249, 239, 190, 113, 1, 0, 0, 0, 1, 0, 0, 0, 4, 0,
    0, 0, 100, 47, 47, 102, 98,
    80, 75, 1, 2, 20, 3, 20, 0, 0, 0, 0, 0, 0, 0, 33, 0, 67, 190, 183, 232, 1, 0, 0, 0, 1, 0, 0, 0,
    3, 0, 0, 0, 0, 0, 0, 0, 0, 0, 0, 0, 160, 129, 0, 0, 0, 0, 100, 47, 102,
    80, 75, 1, 2, 20, 3, 20, 0, 0, 0, 0, 0, 0, 0, 33, 0, 0, 0, 0, 0, 0, 0, 0, 0, 0, 0, 0, 0, 4, 0,
    0, 0, 0, 0, 0, 0, 0, 0, 0, 0, 160, 129, 34, 0, 0, 0, 46, 46, 47, 120,
    80, 75, 1, 2, 20, 3, 20, 0, 0, 0, 0, 0, 0, 0, 33, 0, 249, 239, 190, 113, 1, 0, 0, 0, 1, 0, 0,
    0, 4, 0, 0, 0, 0, 0, 0, 0, 0, 0, 0, 0, 128, 129, 68, 0, 0, 0, 100, 47, 47, 102,
    80, 75, 5, 6, 0, 0, 0, 0, 3, 0, 3, 0, 149, 0, 0, 0, 103, 0, 0, 0, 0, 0]⟩

def sampleMembers : List Member :=
  [⟨"d/f", false, 0o100640, ⟨⟨#[97]⟩, false⟩⟩, ⟨"../x", false, 0o100640, ⟨.empty, false⟩⟩,
    ⟨"d//f", false, 0o100600, ⟨⟨#[98]⟩, false⟩⟩]

def sampleEntries : Entries := ⟨sampleMembers.map .member, true⟩

/-- The sample and a directory with two files, to which a link leads. -/
def sampleTree : FileTree where
  nodes := [(["a.zip"], .file sampleZip 0o644), (["latest"], .link "out"), (["out"], .directory),
    (["out", "d"], .directory), (["out", "d", "f"], .file ⟨#[99]⟩ 0o400),
    (["out", "g"], .file ⟨#[100]⟩ 0o600)]

def sampleOptions (test : Bool) : Options := ⟨some "d", 0, test⟩

def samplePattern : Pattern := ⟨[.name ⟨[.one 'd']⟩]⟩

theorem read_sampleZip : Zip.read sampleZip = sampleEntries := by decide +kernel

theorem opened_sample :
    opened sampleTree "a.zip" ["a.zip"] (some "d") = .ok (some samplePattern, sampleEntries) := by
  have hf : Format.ofPath "a.zip" = .ok .zip := by decide +kernel
  have hp : (some "d").mapM Pattern.parse = .ok (some samplePattern) := by decide +kernel
  have h : sampleTree.read ["a.zip"] = .ok sampleZip := by decide +kernel
  exact opened_of_read hf hp h read_sampleZip

theorem unlinked_sample : FileTree.Unlinked sampleTree ["latest"] := by
  have hr : sampleTree.resolve true ["latest"] = .ok ["out"] := by decide +kernel
  refine FileTree.unlinked_of_resolve hr fun l target hl hf => ?_
  obtain ⟨ns, rfl⟩ := hl
  have hmem := FileTree.mem_nodes_of_find? (by simp) hf
  simp [sampleTree] at hmem

theorem extract_sample (dest : Location) (test : Bool) :
    extract "a.zip" ["a.zip"] dest (sampleOptions test) sampleTree =
      extractEntries "a.zip" dest (sampleOptions test) samplePattern sampleEntries sampleTree := by
  rw [extract_eq, show (sampleOptions test).pattern = some "d" from rfl, opened_sample]

theorem reportOf?_sample :
    reportOf? (extract "a.zip" ["a.zip"] ["latest"] (sampleOptions false) sampleTree) =
      some ⟨[["latest", "d", "f"], ["latest", "d", "f"]], 3, 1, false⟩ := by
  rw [extract_sample]
  decide +kernel

end Sample

end Depot.Archive
