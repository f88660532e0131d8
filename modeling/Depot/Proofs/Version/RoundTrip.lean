import Depot.Version.Filter
import Depot.Proofs.Version.Grammar
import Depot.Proofs.Version.Order

/-!
# Printing and reading

A version is printed in the one form of it that has no padded number (`Written.render_eq_iff`), so
reading undoes printing, and printing undoes reading on the texts without padding. For filters the
same holds of all texts (`render_round_trip`).
-/

namespace Depot

open Text

namespace Version

variable {x y z n : Nat} {cs ds : List Char} {v : Version}

theorem render_series : (Version.mk x y z .series n).render.toList =
    Nat.toDigits 10 x ++ '.' :: Nat.toDigits 10 y := by
  have h : (Version.mk x y z .series n).render = x.repr ++ "." ++ y.repr := rfl
  simp [h]

theorem render_release : (Version.mk x y z .release n).render.toList =
    Nat.toDigits 10 x ++ '.' :: (Nat.toDigits 10 y ++ '.' :: Nat.toDigits 10 z) := by
  have h : (Version.mk x y z .release n).render = x.repr ++ "." ++ y.repr ++ "." ++ z.repr := rfl
  simp [h]

theorem render_preRelease {tag : String} {stage : Stage} (ht : (tag, stage) ∈ knownTags) :
    (Version.mk x y z stage n).render.toList = Nat.toDigits 10 x ++ '.' ::
      (Nat.toDigits 10 y ++ '.' :: (Nat.toDigits 10 z ++ '-' ::
        (tag.toList ++ Nat.toDigits 10 n))) := by
  have h : (Version.mk x y z stage n).render =
      x.repr ++ "." ++ y.repr ++ "." ++ z.repr ++ "-" ++ tag ++ n.repr := by
    simp only [knownTags, List.mem_cons, Prod.mk.injEq, List.not_mem_nil, or_false] at ht
    rcases ht with ⟨rfl, rfl⟩ | ⟨rfl, rfl⟩ | ⟨rfl, rfl⟩ <;> rfl
  simp [h]

/-! ### Reading what was printed -/

/-- The numeral that is printed for a number that was read. -/
theorem Numeral.canonical (h : Numeral cs n) : Numeral (Nat.toDigits 10 n) n where
  nonempty := Nat.toDigits_ne_nil
  digits _ hc := Nat.isDigit_of_mem_toDigits (by decide) (by decide) hc
  value := Nat.ofDigitChars_toDigits (by decide) (by decide)
  bound := h.bound

theorem Written.render (h : Written cs v) : Written v.render.toList v := by
  cases h with
  | series ha hb =>
    rw [render_series]
    exact .series ha.canonical hb.canonical
  | release ha hb hc =>
    rw [render_release]
    exact .release ha.canonical hb.canonical hc.canonical
  | preRelease ha hb hc ht hd =>
    rw [render_preRelease ht]
    exact .preRelease ha.canonical hb.canonical hc.canonical ht hd.canonical

theorem parse_render {text : String} (h : parse text = .ok v) : parse v.render = .ok v :=
  parse_eq_ok_iff.2 (parse_eq_ok_iff.1 h).render

theorem collate_render {text : String} (h : parse text = .ok v) :
    collate text v.render = .eq := by
  rw [collate_of_parse h (parse_render h), compare_eq_iff]

/-! ### Padding -/

/-- No number of the text has a redundant zero in front. -/
def Unpadded (cs : List Char) : Prop :=
  ∀ ds ∈ cs.splitOnP (!·.isDigit), ¬ Padded ds

theorem unpadded_append_cons {c : Char} (hc : c.isDigit = false) :
    Unpadded (cs ++ c :: ds) ↔ Unpadded cs ∧ Unpadded ds := by
  rw [Unpadded, List.splitOnP_append_cons _ _ (by simp [hc]), List.forall_mem_append]
  rfl

theorem unpadded_nil : Unpadded [] := by
  rw [Unpadded, List.splitOnP_nil]
  simp [Padded]

theorem Numeral.unpadded_iff (h : Numeral cs n) : Unpadded cs ↔ Nat.toDigits 10 n = cs := by
  rw [← h.value, toDigits_ofDigitChars_iff h.nonempty h.digits, Unpadded,
    List.splitOnP_eq_singleton (by simpa using h.digits), List.forall_mem_singleton]

/-- The letters of a tag stand between two numbers. -/
theorem unpadded_letters_append (hcs : ∀ c ∈ cs, c.isLower) :
    Unpadded (cs ++ ds) ↔ Unpadded ds := by
  induction cs with
  | nil => rfl
  | cons c cs ih =>
    obtain ⟨hc, hcs⟩ := List.forall_mem_cons.1 hcs
    have hdigit : c.isDigit = false := Bool.eq_false_iff.2 fun hd =>
      Shape.not_isDecimalDigit_of_isLower hc (isDecimalDigit_of_isDigit hd)
    rw [List.cons_append, ← List.nil_append (c :: (cs ++ ds)), unpadded_append_cons hdigit, ih hcs,
      and_iff_right unpadded_nil]

/-- A number ends where the digits do, so what stands before and behind it is told apart. -/
theorem Numeral.append_cons_inj {as bs : List Char} {m : Nat} {c : Char} (ha : Numeral as n)
    (hb : Numeral bs m) (hc : c.isDigit = false) :
    as ++ c :: cs = bs ++ c :: ds ↔ as = bs ∧ cs = ds := by
  have hrun {es fs : List Char} {k : Nat} (he : Numeral es k) :
      run? Char.isDigit (es ++ c :: fs) = some (es, c :: fs) :=
    run?_append he.nonempty he.digits (by simp [hc])
  constructor
  · intro h
    have hpair : run? Char.isDigit (as ++ c :: cs) = some (as, c :: cs) := hrun ha
    rw [h, hrun hb] at hpair
    cases hpair
    exact ⟨rfl, rfl⟩
  · rintro ⟨rfl, rfl⟩
    rfl

theorem Written.render_eq_iff (h : Written cs v) : v.render.toList = cs ↔ Unpadded cs := by
  have hdot : '.'.isDigit = false := by decide
  have hdash : '-'.isDigit = false := by decide
  cases h with
  | series ha hb =>
    rw [render_series, ha.canonical.append_cons_inj ha hdot, unpadded_append_cons hdot,
      ha.unpadded_iff, hb.unpadded_iff]
  | release ha hb hc =>
    rw [render_release, ha.canonical.append_cons_inj ha hdot,
      hb.canonical.append_cons_inj hb hdot, unpadded_append_cons hdot, unpadded_append_cons hdot,
      ha.unpadded_iff, hb.unpadded_iff, hc.unpadded_iff]
  | preRelease ha hb hc ht hd =>
    rw [render_preRelease ht, ha.canonical.append_cons_inj ha hdot,
      hb.canonical.append_cons_inj hb hdot, hc.canonical.append_cons_inj hc hdash,
      List.append_cancel_left_eq, unpadded_append_cons hdot, unpadded_append_cons hdot,
      unpadded_append_cons hdash, unpadded_letters_append (letters_of_mem_knownTags ht).2,
      ha.unpadded_iff, hb.unpadded_iff, hc.unpadded_iff, hd.unpadded_iff]

theorem render_eq_iff {text : String} (h : parse text = .ok v) :
    v.render = text ↔ Unpadded text.toList := by
  rw [← String.toList_inj]
  exact (parse_eq_ok_iff.1 h).render_eq_iff

end Version

namespace VersionFilter

variable {text : String} {major minor : Nat}

theorem not_parse_word (h : text = "latest" ∨ text = "latest-stable" ∨ text = "rapid")
    (v : Version) : Version.parse text ≠ .ok v := by
  have hbad : Version.parse text = .error (.malformed text) := by
    rcases h with rfl | rfl | rfl <;> rfl
  rw [hbad]
  rintro ⟨⟩

theorem ofText_of_parse {v : Version} (h : Version.parse text = .ok v) (hs : v.stage = .series) :
    ofText text = .series v.major v.minor := by
  have hparse : Version.parse? text = some v := Version.parse?_eq_some_iff.2 h
  have hword : ¬ (text = "latest" ∨ text = "latest-stable" ∨ text = "rapid") :=
    fun hw => not_parse_word hw v h
  push Not at hword
  obtain ⟨major, minor, patch, stage, number⟩ := v
  cases hs
  rw [ofText, if_neg hword.1, if_neg hword.2.1, if_neg hword.2.2, hparse]

theorem of_ofText_eq_series (h : ofText text = .series major minor) :
    ∃ v, Version.parse text = .ok v ∧ v.stage = .series ∧ v.major = major ∧ v.minor = minor := by
  rw [ofText] at h
  split_ifs at h
  split at h
  case h_2 => cases h
  next hparse =>
    cases h
    exact ⟨_, Version.parse?_eq_some_iff.1 hparse, rfl, rfl, rfl⟩

theorem ofText_eq_series_iff : ofText text = .series major minor ↔
    ∃ v, Version.parse text = .ok v ∧ v.stage = .series ∧ v.major = major ∧ v.minor = minor := by
  refine ⟨of_ofText_eq_series, ?_⟩
  rintro ⟨v, hv, hs, rfl, rfl⟩
  exact ofText_of_parse hv hs

/-- Only a series is not kept as the text that it was read from. -/
theorem render_ofText (h : ∀ major minor, ofText text ≠ .series major minor) :
    (ofText text).render = text := by
  rw [ofText] at h ⊢
  split_ifs at h ⊢ with h₁ h₂ h₃
  · exact h₁.symm
  · exact h₂.symm
  · exact h₃.symm
  · split
    next hparse => exact absurd (by rw [hparse]) (h _ _)
    · rfl

theorem ofText_render (text : String) : ofText (ofText text).render = ofText text := by
  by_cases h : ∃ major minor, ofText text = .series major minor
  · obtain ⟨major, minor, h⟩ := h
    obtain ⟨v, hv, hs, rfl, rfl⟩ := of_ofText_eq_series h
    have hrender : (ofText text).render = v.render := by
      obtain ⟨major, minor, patch, stage, number⟩ := v
      cases hs
      rw [h]
      rfl
    rw [hrender, h, ofText_of_parse (Version.parse_render hv) hs]
  · push Not at h
    rw [render_ofText h]

end VersionFilter

open Version in
/-- Reading and printing undo each other: a version that was read is printed in its one form
without padding, and a filter as the text that it was read from or, for a series, as that form. -/
theorem render_round_trip :
    (∀ s v, parse s = .ok v →
      parse v.render = .ok v ∧ collate s v.render = .eq ∧ (v.render = s ↔ Unpadded s.toList)) ∧
    (∀ s t v w, parse s = .ok v → parse t = .ok w → v.render = w.render → v = w) ∧
    ∀ s, VersionFilter.ofText (VersionFilter.ofText s).render = VersionFilter.ofText s ∧
      ((∀ major minor, VersionFilter.ofText s ≠ .series major minor) →
        (VersionFilter.ofText s).render = s) ∧
      ∀ major minor, VersionFilter.ofText s = .series major minor ↔
        ∃ v, parse s = .ok v ∧ v.stage = .series ∧ v.major = major ∧ v.minor = minor := by
  refine ⟨fun s v h => ⟨parse_render h, collate_render h, render_eq_iff h⟩,
    fun s t v w hv hw h => ?_, fun s => ⟨VersionFilter.ofText_render s, VersionFilter.render_ofText,
      fun major minor => VersionFilter.ofText_eq_series_iff⟩⟩
  have hread := (parse_render hv).symm.trans (h ▸ parse_render hw)
  cases hread
  rfl

/-- A padded series, a pre-release, a word and a text that is no version. -/
theorem render_round_trip_sample :
    Version.parse "007.01" = .ok ⟨7, 1, 0, .series, 0⟩ ∧
      Version.parse "7.1" = .ok ⟨7, 1, 0, .series, 0⟩ ∧
      Version.collate "007.01" "7.1" = .eq ∧ ("7.1" = "007.01" ↔ Version.Unpadded "007.01".toList) ∧
      Version.parse "8.0.0-rc10" = .ok ⟨8, 0, 0, .releaseCandidate, 10⟩ ∧
      Version.Unpadded "8.0.0-rc10".toList ∧
      (VersionFilter.ofText "latest").render = "latest" ∧
      (VersionFilter.ofText "7.0.x").render = "7.0.x" ∧
      VersionFilter.ofText "007.01" = .series 7 1 := by
  obtain ⟨hversion, -, hfilter⟩ := render_round_trip
  have hseries : Version.parse "007.01" = .ok ⟨7, 1, 0, .series, 0⟩ := rfl
  have hpre : Version.parse "8.0.0-rc10" = .ok ⟨8, 0, 0, .releaseCandidate, 10⟩ := rfl
  have hword : VersionFilter.ofText "latest" = .latest := rfl
  have hexact : VersionFilter.ofText "7.0.x" = .exact "7.0.x" := rfl
  obtain ⟨hparse, hcollate, hpadded⟩ := hversion _ _ hseries
  refine ⟨hseries, hparse, hcollate, hpadded, hpre, ((hversion _ _ hpre).2.2).1 (by decide),
    (hfilter "latest").2.1 fun _ _ h => ?_, (hfilter "7.0.x").2.1 fun _ _ h => ?_,
    ((hfilter "007.01").2.2 7 1).2 ⟨_, hseries, rfl, rfl, rfl⟩⟩
  · cases hword.symm.trans h
  · cases hexact.symm.trans h

end Depot
