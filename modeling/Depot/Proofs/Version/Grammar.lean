import Depot.Version.Parser
import Depot.Proofs.Text.Digit
import Mathlib.Data.List.TakeWhile

/-!
# The grammar of versions

`Written text v` says that a text is one of the forms of `v`, and `OddTag` which texts have all but
a known tag. The parser finds the one shape that a text has (`Shape.read?_eq_some_iff`), and so it
tells the two from all other texts (`parse_eq_iff`).
-/

namespace Depot.Version

open Text

variable {p : Char → Bool} {cs xs ys rest : List Char} {n : Nat} {text : String} {v : Version}

/-! ### Shapes -/

theorem run?_append (hne : xs ≠ []) (hxs : ∀ c ∈ xs, p c) (hrest : ∀ c ∈ rest.head?, ¬ p c) :
    run? p (xs ++ rest) = some (xs, rest) := by
  have hstop : rest.takeWhile p = [] ∧ rest.dropWhile p = rest := by
    cases rest with
    | nil => exact ⟨rfl, rfl⟩
    | cons c rest =>
      have hc : p c = false := by simpa using hrest c rfl
      simp [hc]
  rw [run?, List.takeWhile_append_of_pos hxs, List.dropWhile_append_of_pos hxs, hstop.1, hstop.2,
    List.append_nil, if_neg hne]

theorem of_run?_bind {α : Type} {f : List Char × List Char → Option α} {a : α}
    (h : run? p cs >>= f = some a) :
    ∃ xs rest, cs = xs ++ rest ∧ (xs ≠ [] ∧ ∀ c ∈ xs, p c) ∧ f (xs, rest) = some a := by
  obtain ⟨⟨xs, rest⟩, hrun, h⟩ := Option.bind_eq_some_iff.1 h
  rw [run?] at hrun
  split_ifs at hrun with hne
  cases hrun
  exact ⟨_, _, (List.takeWhile_append_dropWhile ..).symm,
    ⟨hne, fun c => List.mem_takeWhile_imp⟩, h⟩

/-- A run of digits of any script. -/
def Digits (cs : List Char) : Prop :=
  cs ≠ [] ∧ ∀ c ∈ cs, isDecimalDigit c

def Letters (cs : List Char) : Prop :=
  cs ≠ [] ∧ ∀ c ∈ cs, c.isLower

namespace Shape

variable {s : Shape}

/-- The texts of each shape. -/
inductive Of : List Char → Shape → Prop
  | series {a b : List Char} (ha : Digits a) (hb : Digits b) :
      Of (a ++ '.' :: b) ⟨a, b, none, none⟩
  | release {a b c : List Char} (ha : Digits a) (hb : Digits b) (hc : Digits c) :
      Of (a ++ '.' :: (b ++ '.' :: c)) ⟨a, b, some c, none⟩
  | preRelease {a b c tag d : List Char} (ha : Digits a) (hb : Digits b) (hc : Digits c)
      (ht : Letters tag) (hd : Digits d) :
      Of (a ++ '.' :: (b ++ '.' :: (c ++ '-' :: (tag ++ d)))) ⟨a, b, some c, some (tag, d)⟩

theorem of_readPre? {pre : List Char × List Char} (h : readPre? cs = some pre) :
    Letters pre.1 ∧ Digits pre.2 ∧ cs = pre.1 ++ pre.2 := by
  obtain ⟨tag, r, rfl, htag, h⟩ := of_run?_bind h
  obtain ⟨d, r, rfl, hd, h⟩ := of_run?_bind h
  dsimp only at h
  split_ifs at h with hr
  cases h
  exact ⟨htag, hd, by rw [hr, List.append_nil]⟩

theorem of_read? (h : read? cs = some s) : Of cs s := by
  obtain ⟨a, r, rfl, ha, h⟩ := of_run?_bind h
  dsimp only at h
  split at h
  case h_2 => cases h
  obtain ⟨b, r, rfl, hb, h⟩ := of_run?_bind h
  dsimp only at h
  split at h
  case h_1 =>
    cases h
    rw [List.append_nil]
    exact .series ha hb
  case h_3 => cases h
  obtain ⟨c, r, rfl, hc, h⟩ := of_run?_bind h
  dsimp only at h
  split at h
  case h_1 =>
    cases h
    rw [List.append_nil]
    exact .release ha hb hc
  case h_3 => cases h
  obtain ⟨⟨tag, d⟩, hpre, rfl⟩ := Option.map_eq_some_iff.1 h
  obtain ⟨htag, hd, rfl⟩ := of_readPre? hpre
  exact .preRelease ha hb hc htag hd

theorem not_isDecimalDigit_of_isLower {c : Char} (h : c.isLower) :
    ¬ isDecimalDigit c := by
  have hnone : ∀ n < 123, 97 ≤ n → ¬ decimalZeros.any fun z => z ≤ n && n < z + 10 := by decide
  obtain ⟨hlow, hhigh⟩ : 'a'.val ≤ c.val ∧ c.val ≤ 'z'.val := by
    simpa only [Bool.and_eq_true, decide_eq_true_eq] using
      (show (decide ('a'.val ≤ c.val) && decide (c.val ≤ 'z'.val)) = true from h)
  exact hnone c.toNat (Nat.lt_succ_of_le hhigh) hlow

section Run

variable {c : Char}

theorem run?_digits (h : Digits xs) (hc : ¬ isDecimalDigit c) :
    run? isDecimalDigit (xs ++ c :: rest) = some (xs, c :: rest) :=
  run?_append h.1 h.2 (by simpa using hc)

theorem run?_digits_self (h : Digits xs) : run? isDecimalDigit xs = some (xs, []) := by
  have hrun : run? isDecimalDigit (xs ++ []) = some (xs, []) := run?_append h.1 h.2 (by simp)
  rwa [List.append_nil] at hrun

theorem run?_letters (h : Letters xs) (hd : Digits ys) :
    run? Char.isLower (xs ++ ys) = some (xs, ys) := by
  refine run?_append h.1 h.2 fun c hc hlower => ?_
  exact not_isDecimalDigit_of_isLower hlower (hd.2 c (List.mem_of_mem_head? hc))

end Run

theorem readPre?_of (ht : Letters xs) (hd : Digits ys) : readPre? (xs ++ ys) = some (xs, ys) := by
  simp [readPre?, run?_letters ht hd, run?_digits_self hd]

theorem read?_of (h : Of cs s) : read? cs = some s := by
  have hdot : ¬ isDecimalDigit '.' := by decide
  have hdash : ¬ isDecimalDigit '-' := by decide
  cases h with
  | series ha hb => simp [read?, run?_digits ha hdot, run?_digits_self hb]
  | release ha hb hc =>
    simp [read?, run?_digits ha hdot, run?_digits hb hdot, run?_digits_self hc]
  | preRelease ha hb hc ht hd =>
    simp [read?, run?_digits ha hdot, run?_digits hb hdot, run?_digits hc hdash, readPre?_of ht hd]

theorem read?_eq_some_iff : read? cs = some s ↔ Of cs s := ⟨of_read?, read?_of⟩

end Shape

/-! ### Numbers and tags -/

/-- A number of a version, in ASCII digits. -/
structure Numeral (cs : List Char) (n : Nat) : Prop where
  nonempty : cs ≠ []
  digits : ∀ c ∈ cs, c.isDigit
  value : Nat.ofDigitChars 10 cs 0 = n
  bound : n < 2 ^ 32

theorem number?_eq_some_iff : number? cs = some n ↔ Numeral cs n := by
  rw [number?, Option.filter_eq_some_iff, value?]
  constructor
  · rintro ⟨hvalue, hbound⟩
    split_ifs at hvalue with h
    rw [valueFrom_map_digitValue] at hvalue
    exact ⟨h.1, List.all_eq_true.1 h.2, Option.some.inj hvalue, of_decide_eq_true hbound⟩
  · intro h
    have hall : cs.all Char.isDigit := List.all_eq_true.2 h.digits
    rw [if_pos ⟨h.nonempty, hall⟩, valueFrom_map_digitValue, h.value]
    exact ⟨rfl, decide_eq_true h.bound⟩

theorem isDecimalDigit_of_isDigit {c : Char} (h : c.isDigit) : isDecimalDigit c := by
  rw [Char.isDigit, Bool.and_eq_true, decide_eq_true_eq,
    decide_eq_true_eq] at h
  have hlow : 48 ≤ c.toNat := h.1
  have hhigh : c.toNat ≤ 57 := h.2
  rw [isDecimalDigit, List.any_eq_true]
  exact ⟨48, by decide, by simp; omega⟩

theorem Numeral.run (h : Numeral cs n) : Digits cs :=
  ⟨h.nonempty, fun c hc => isDecimalDigit_of_isDigit (h.digits c hc)⟩

def knownTags : List (String × Stage) :=
  [("alpha", .alpha), ("beta", .beta), ("rc", .releaseCandidate)]

theorem ofTag?_eq_some_iff {tag : String} {stage : Stage} :
    Stage.ofTag? tag = some stage ↔ (tag, stage) ∈ knownTags := by
  simp only [Stage.ofTag?, List.find?_cons, Stage.tag?, knownTags]
  by_cases h1 : tag = "alpha"
  · subst h1
    cases stage <;> simp
  by_cases h2 : tag = "beta"
  · subst h2
    cases stage <;> simp
  by_cases h3 : tag = "rc"
  · subst h3
    cases stage <;> simp
  have e1 : ("alpha" == tag) = false := beq_false_of_ne (Ne.symm h1)
  have e2 : ("beta" == tag) = false := beq_false_of_ne (Ne.symm h2)
  have e3 : ("rc" == tag) = false := beq_false_of_ne (Ne.symm h3)
  simp [h1, h2, h3, e1, e2, e3]

theorem letters_of_mem_knownTags {tag : String} {stage : Stage} (h : (tag, stage) ∈ knownTags) :
    Letters tag.toList := by
  simp only [knownTags, List.mem_cons, Prod.mk.injEq, List.not_mem_nil, or_false] at h
  have hlower : tag.toList.all Char.isLower = true := by
    rcases h with ⟨rfl, -⟩ | ⟨rfl, -⟩ | ⟨rfl, -⟩ <;> rfl
  refine ⟨?_, List.all_eq_true.1 hlower⟩
  rcases h with ⟨rfl, -⟩ | ⟨rfl, -⟩ | ⟨rfl, -⟩ <;> simp

/-! ### The two forms -/

/-- The texts of each version. -/
inductive Written : List Char → Version → Prop
  | series {a b : List Char} {x y : Nat} (ha : Numeral a x) (hb : Numeral b y) :
      Written (a ++ '.' :: b) ⟨x, y, 0, .series, 0⟩
  | release {a b c : List Char} {x y z : Nat} (ha : Numeral a x) (hb : Numeral b y)
      (hc : Numeral c z) : Written (a ++ '.' :: (b ++ '.' :: c)) ⟨x, y, z, .release, 0⟩
  | preRelease {a b c d : List Char} {x y z n : Nat} {tag : String} {stage : Stage}
      (ha : Numeral a x) (hb : Numeral b y) (hc : Numeral c z)
      (ht : (tag, stage) ∈ knownTags) (hd : Numeral d n) :
      Written (a ++ '.' :: (b ++ '.' :: (c ++ '-' :: (tag.toList ++ d)))) ⟨x, y, z, stage, n⟩

/-- The texts with a tag that is not known; the digits behind it need have no value. -/
inductive OddTag : List Char → String → Prop
  | intro {a b c d : List Char} {x y z : Nat} {tag : String} (ha : Numeral a x)
      (hb : Numeral b y) (hc : Numeral c z) (ht : Letters tag.toList)
      (hodd : ∀ stage, (tag, stage) ∉ knownTags) (hd : Digits d) :
      OddTag (a ++ '.' :: (b ++ '.' :: (c ++ '-' :: (tag.toList ++ d)))) tag

section OfShape

variable {a b c d tag : List Char} {x y z : Nat}

theorem ofShape_series (text : String) (hx : number? a = some x) (hy : number? b = some y) :
    ofShape text ⟨a, b, none, none⟩ = .ok ⟨x, y, 0, .series, 0⟩ := by
  simp only [ofShape, hx, hy]
  rfl

theorem ofShape_release (text : String) (hx : number? a = some x) (hy : number? b = some y)
    (hz : number? c = some z) : ofShape text ⟨a, b, some c, none⟩ = .ok ⟨x, y, z, .release, 0⟩ := by
  simp only [ofShape, hx, hy, hz]
  rfl

/-- The tag is looked at before the number behind it. -/
theorem ofShape_preRelease (text : String) (hx : number? a = some x) (hy : number? b = some y)
    (hz : number? c = some z) :
    ofShape text ⟨a, b, some c, some (tag, d)⟩ =
      match Stage.ofTag? (String.ofList tag), number? d with
      | none, _ => .error (.unknownTag text (String.ofList tag))
      | some _, none => .error (.malformed text)
      | some stage, some n => .ok ⟨x, y, z, stage, n⟩ := by
  simp only [ofShape, hx, hy, hz]
  rcases Stage.ofTag? (String.ofList tag) with _ | stage <;> rcases number? d with _ | n <;> rfl

end OfShape

theorem parse_of_shape {s : Shape} (hcs : text.toList = cs) (h : Shape.Of cs s) :
    parse text = ofShape text s := by
  rw [parse, hcs, Shape.read?_of h]

theorem parse_of_written (hcs : text.toList = cs) (h : Written cs v) : parse text = .ok v := by
  cases h with
  | series ha hb =>
    rw [parse_of_shape hcs (.series ha.run hb.run)]
    rw [← number?_eq_some_iff] at ha hb
    exact ofShape_series text ha hb
  | release ha hb hc =>
    rw [parse_of_shape hcs (.release ha.run hb.run hc.run)]
    rw [← number?_eq_some_iff] at ha hb hc
    exact ofShape_release text ha hb hc
  | preRelease ha hb hc ht hd =>
    rw [parse_of_shape hcs
      (.preRelease ha.run hb.run hc.run (letters_of_mem_knownTags ht) hd.run)]
    rw [← number?_eq_some_iff] at ha hb hc hd
    rw [ofShape_preRelease text ha hb hc, String.ofList_toList, ofTag?_eq_some_iff.2 ht, hd]

theorem parse_of_oddTag {tag : String} (hcs : text.toList = cs) (h : OddTag cs tag) :
    parse text = .error (.unknownTag text tag) := by
  obtain ⟨ha, hb, hc, ht, hodd, hd⟩ := h
  rw [parse_of_shape hcs (.preRelease ha.run hb.run hc.run ht hd)]
  rw [← number?_eq_some_iff] at ha hb hc
  have hnone : Stage.ofTag? tag = none := by
    rw [Option.eq_none_iff_forall_ne_some]
    exact fun stage hs => hodd stage (ofTag?_eq_some_iff.1 hs)
  rw [ofShape_preRelease text ha hb hc, String.ofList_toList, hnone]

/-- What a text of some shape reads as. -/
theorem ofShape_cases {s : Shape} (h : Shape.Of cs s) (text : String) :
    (∃ v, Written cs v ∧ ofShape text s = .ok v) ∨
      (∃ tag, OddTag cs tag ∧ ofShape text s = .error (.unknownTag text tag)) ∨
      ofShape text s = .error (.malformed text) := by
  cases h with
  | @series a b =>
    rcases hx : number? a with _ | x <;> rcases hy : number? b with _ | y <;>
      try exact .inr (.inr (by simp only [ofShape, hx, hy]; rfl))
    left
    exact ⟨_, .series (number?_eq_some_iff.1 hx) (number?_eq_some_iff.1 hy),
      ofShape_series text hx hy⟩
  | @release a b c =>
    rcases hx : number? a with _ | x <;> rcases hy : number? b with _ | y <;>
      rcases hz : number? c with _ | z <;>
      try exact .inr (.inr (by simp only [ofShape, hx, hy, hz]; rfl))
    left
    exact ⟨_, .release (number?_eq_some_iff.1 hx) (number?_eq_some_iff.1 hy)
      (number?_eq_some_iff.1 hz), ofShape_release text hx hy hz⟩
  | @preRelease a b c tag d _ _ _ ht hd =>
    rcases hx : number? a with _ | x <;> rcases hy : number? b with _ | y <;>
      rcases hz : number? c with _ | z <;>
      try exact .inr (.inr (by simp only [ofShape, hx, hy, hz]; rfl))
    have htag : tag = (String.ofList tag).toList := String.toList_ofList.symm
    rw [ofShape_preRelease text hx hy hz]
    rw [number?_eq_some_iff] at hx hy hz
    rcases hs : Stage.ofTag? (String.ofList tag) with _ | stage
    · right; left
      refine ⟨String.ofList tag, ?_, rfl⟩
      have hodd : ∀ stage, (String.ofList tag, stage) ∉ knownTags := fun stage hmem => by
        rw [← ofTag?_eq_some_iff, hs] at hmem
        cases hmem
      rw [htag] at ht
      have := OddTag.intro hx hy hz ht hodd hd
      rwa [← htag] at this
    rcases hn : number? d with _ | n
    · right; right
      rfl
    · left
      have := Written.preRelease hx hy hz (ofTag?_eq_some_iff.1 hs) (number?_eq_some_iff.1 hn)
      rw [← htag] at this
      exact ⟨_, this, rfl⟩

theorem parse_cases (text : String) :
    (∃ v, Written text.toList v ∧ parse text = .ok v) ∨
      (∃ tag, OddTag text.toList tag ∧ parse text = .error (.unknownTag text tag)) ∨
      parse text = .error (.malformed text) := by
  rcases hs : Shape.read? text.toList with _ | s
  · right; right
    rw [parse, hs]
  · rw [parse, hs]
    exact ofShape_cases (Shape.of_read? hs) text

theorem parse_eq_ok_iff : parse text = .ok v ↔ Written text.toList v := by
  refine ⟨fun h => ?_, parse_of_written rfl⟩
  rcases parse_cases text with ⟨w, hw, hp⟩ | ⟨tag, -, hp⟩ | hp <;> rw [h] at hp <;> cases hp
  exact hw

theorem parse_eq_unknownTag_iff {quoted tag : String} :
    parse text = .error (.unknownTag quoted tag) ↔ quoted = text ∧ OddTag text.toList tag := by
  refine ⟨fun h => ?_, ?_⟩
  · rcases parse_cases text with ⟨w, -, hp⟩ | ⟨tag, htag, hp⟩ | hp <;> rw [h] at hp <;> cases hp
    exact ⟨rfl, htag⟩
  · rintro ⟨rfl, h⟩
    exact parse_of_oddTag rfl h

/-- A text reads as a version just if it is written as one. All others are errors that quote it: an
unknown tag where nothing else is wrong up to the tag, and no version in all other cases. -/
theorem parse_eq_iff (text : String) :
    (∀ v, parse text = .ok v ↔ Written text.toList v) ∧
      (∀ quoted tag, parse text = .error (.unknownTag quoted tag) ↔
        quoted = text ∧ OddTag text.toList tag) ∧
      ∀ quoted, parse text = .error (.malformed quoted) ↔
        quoted = text ∧ (∀ v, ¬ Written text.toList v) ∧ ∀ tag, ¬ OddTag text.toList tag := by
  refine ⟨fun v => parse_eq_ok_iff, fun quoted tag => parse_eq_unknownTag_iff,
    fun quoted => ⟨fun h => ?_, ?_⟩⟩
  · refine ⟨?_, fun v hv => ?_, fun tag htag => ?_⟩
    · rcases parse_cases text with ⟨w, -, hp⟩ | ⟨tag, -, hp⟩ | hp <;> rw [h] at hp <;> cases hp
      rfl
    · cases h.symm.trans (parse_of_written rfl hv)
    · cases h.symm.trans (parse_of_oddTag rfl htag)
  · rintro ⟨rfl, hv, htag⟩
    rcases parse_cases quoted with ⟨w, hw, -⟩ | ⟨tag, ht, -⟩ | hp
    · exact absurd hw (hv w)
    · exact absurd ht (htag tag)
    · exact hp

/-- What is wrong first counts: a number before the tag, or else the tag. -/
example : parse "1.2.4294967296-gamma1" = .error (.malformed "1.2.4294967296-gamma1") := rfl

example : parse "1.2.3-gamma4294967296" = .error (.unknownTag "1.2.3-gamma4294967296" "gamma") :=
  rfl

end Depot.Version
