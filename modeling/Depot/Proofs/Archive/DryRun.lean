import Depot.Proofs.Archive.Visit

/-!
# Dry runs

A dry run and a real one open the same archive and select the same members, and only a real one can
fail for what it writes (`extract_dry`).
-/

namespace Depot.Archive

def Options.withTest (o : Options) (test : Bool) : Options := { o with test }

theorem report_withTest (o : Options) (dest : Location) (pattern : Option Pattern)
    (ms : List Member) (test : Bool) :
    ((o.withTest test).selection dest pattern).report ms =
      { (o.selection dest pattern).report ms with test } := rfl

theorem treeAfter_extract_of_test {o : Options} (h : o.test = true) (archive : String)
    (source dest : Location) (t : FileTree) : treeAfter (extract archive source dest o t) = t := by
  rw [extract_eq]
  rcases opened t archive source o.pattern with e | ⟨pattern, es⟩
  · rfl
  · have hstore : storeAll (o.selection dest pattern) es.members t = .ok () t :=
      storeAll_test h es.members t
    simp only [extractEntries_eq, hstore]
    split <;> rfl

/-- A dry run leaves the tree, reports what a real run does, and misses only what goes wrong in
writing. -/
theorem extract_dry (archive : String) (source dest : Location) (o : Options) (t : FileTree) :
    treeAfter (extract archive source dest (o.withTest true) t) = t ∧
      (∀ r t', extract archive source dest (o.withTest false) t = .ok r t' →
        extract archive source dest (o.withTest true) t = .ok { r with test := true } t) ∧
      ∀ r t' e t'', extract archive source dest (o.withTest true) t = .ok r t' →
        extract archive source dest (o.withTest false) t = .error e t'' → e = .io := by
  rw [extract_eq, extract_eq, show (o.withTest true).pattern = o.pattern from rfl,
    show (o.withTest false).pattern = o.pattern from rfl]
  rcases opened t archive source o.pattern with e | ⟨pattern, es⟩
  · refine ⟨rfl, fun r t' h => ?_, fun r t' e' t'' h => ?_⟩ <;> cases h
  have hdry : storeAll ((o.withTest true).selection dest pattern) es.members t = .ok () t :=
    storeAll_test rfl es.members t
  simp only [extractEntries_eq, hdry, report_withTest]
  rcases storeAll ((o.withTest false).selection dest pattern) es.members t with
    ⟨⟨⟩, t₁⟩ | ⟨e, t₁⟩ <;> cases es.isComplete
  case ok.false =>
    refine ⟨rfl, fun r t' h => ?_, fun r t' e t'' h => ?_⟩ <;> cases h
  case ok.true =>
    refine ⟨rfl, fun r t' h => ?_, fun r t' e t'' _ h => ?_⟩ <;> cases h
    rfl
  case error.false =>
    refine ⟨rfl, fun r t' h => ?_, fun r t' e t'' h => ?_⟩ <;> cases h
  case error.true =>
    refine ⟨rfl, fun r t' h => ?_, fun r t' e t'' _ h => ?_⟩ <;> cases h
    rfl

section Sample

/-- The sample is extracted in both ways; over a file only the dry run succeeds. -/
theorem extract_dry_sample :
    (∃ r t', extract "a.zip" ["a.zip"] ["out"] ((sampleOptions false).withTest false) sampleTree =
        .ok r t' ∧ r.selected = [["out", "d", "f"], ["out", "d", "f"]] ∧
      extract "a.zip" ["a.zip"] ["out"] ((sampleOptions false).withTest true) sampleTree =
        .ok { r with test := true } sampleTree) ∧
    ∃ r t' t'', extract "a.zip" ["a.zip"] ["a.zip"] ((sampleOptions false).withTest true)
        sampleTree = .ok r t' ∧
      extract "a.zip" ["a.zip"] ["a.zip"] ((sampleOptions false).withTest false) sampleTree =
        .error .io t'' := by
  have hdry := extract_dry "a.zip" ["a.zip"] ["out"] (sampleOptions false) sampleTree
  have hover := extract_dry "a.zip" ["a.zip"] ["a.zip"] (sampleOptions false) sampleTree
  have htest : ∀ test, (sampleOptions false).withTest test = sampleOptions test := fun _ => rfl
  simp only [htest, extract_sample] at hdry hover ⊢
  obtain ⟨-, hdry, -⟩ := hdry
  obtain ⟨-, -, hover⟩ := hover
  constructor
  · have h : reportOf? (extractEntries "a.zip" ["out"] (sampleOptions false) samplePattern
        sampleEntries sampleTree) =
        some ⟨[["out", "d", "f"], ["out", "d", "f"]], 3, 1, false⟩ := by decide +kernel
    have h := reportOf?_eq_some h
    exact ⟨_, _, h, rfl, hdry _ _ h⟩
  · have h : reportOf? (extractEntries "a.zip" ["a.zip"] (sampleOptions true) samplePattern
        sampleEntries sampleTree) =
        some ⟨[["a.zip", "d", "f"], ["a.zip", "d", "f"]], 3, 1, true⟩ := by decide +kernel
    have h' : reportOf? (extractEntries "a.zip" ["a.zip"] (sampleOptions false) samplePattern
        sampleEntries sampleTree) = none := by decide +kernel
    have h := reportOf?_eq_some h
    obtain ⟨e, h'⟩ := reportOf?_eq_none h'
    exact ⟨_, _, _, h, h'.trans (by rw [hover _ _ _ _ h h'])⟩

end Sample

end Depot.Archive
