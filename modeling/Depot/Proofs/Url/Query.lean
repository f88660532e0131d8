import Depot.Proofs.Text.Blank
import Depot.Url.Parser

/-!
# Queries and fragments

What stands behind the first question mark or number sign of a text is not read, so texts that
agree up to there are one URL (`parse?_congr_query`). The blanks in front of it count: they are
trimmed only at the end of the whole text (`parse?_query`).
-/

namespace Depot.Url

open Depot.Text

variable (n : Naming) {m m' : Char}

/-- A character that starts a query or a fragment. -/
def StartsQuery (m : Char) : Prop :=
  m = '?' ∨ m = '#'

namespace StartsQuery

theorem not_isSchemeChar (hm : StartsQuery m) : isSchemeChar m = false := by
  rcases hm with rfl | rfl <;> decide

theorem not_blank (hm : StartsQuery m) : decide (m.toNat ≤ 0x20) = false := by
  rcases hm with rfl | rfl <;> decide

theorem beforeQuery_append (hm : StartsQuery m) (cs q : List Char) :
    beforeQuery (cs ++ m :: q) = beforeQuery cs :=
  takeWhile_append_cons (decide_eq_false fun h => hm.elim h.1 h.2) cs q

/-- A query behind a text leaves its scheme alone. -/
theorem scheme?_append (hm : StartsQuery m) (cs q : List Char) :
    scheme? (cs ++ m :: q) = (scheme? cs).map fun p => (p.1, p.2 ++ m :: q) := by
  rw [scheme?, scheme?, dropWhile_append_cons hm.not_isSchemeChar,
    takeWhile_append_cons hm.not_isSchemeChar]
  cases cs.dropWhile isSchemeChar with
  | nil => rcases hm with rfl | rfl <;> rfl
  | cons c r =>
    by_cases hc : c = ':'
    · simp only [hc, List.cons_append]
      split_ifs <;> rfl
    · simp [hc]

end StartsQuery

/-- What the text behind a scheme leads to. -/
def route? (n : Naming) (scheme rest : List Char) : Option Url :=
  let slashes (cs : List Char) := cs.map fun c => if c == '\\' then '/' else c
  match kindOf (String.ofList scheme) with
  | .web => web? n scheme (slashes rest)
  | .file => file? n (slashes rest)
  | .other => other? n scheme rest

/-- Reads a text that is clean. -/
def read? (n : Naming) (cs : List Char) : Option Url :=
  (scheme? cs).bind fun p => route? n p.1 (beforeQuery p.2)

theorem parse?_eq_read? (text : String) : parse? n text = read? n (clean text.toList) := rfl

theorem read?_append (hm : StartsQuery m) (cs q : List Char) :
    read? n (cs ++ m :: q) = read? n cs := by
  rw [read?, hm.scheme?_append, Option.bind_map]
  simp only [Function.comp_def, hm.beforeQuery_append]
  rfl

/-- A text without the blanks in front of it. -/
def cleanFront (cs : List Char) : List Char :=
  (cs.dropWhile fun c => c.toNat ≤ 0x20).filter fun c => c ≠ '\t' ∧ c ≠ '\n' ∧ c ≠ '\r'

theorem clean_append (hm : StartsQuery m) (cs q : List Char) :
    ∃ q', clean (cs ++ m :: q) = cleanFront cs ++ m :: q' := by
  have hkeep : decide (m ≠ '\t' ∧ m ≠ '\n' ∧ m ≠ '\r') = true := by
    rcases hm with rfl | rfl <;> decide
  rw [clean, trimBy_append_cons hm.not_blank, List.filter_append, List.filter_cons, if_pos hkeep]
  exact ⟨_, rfl⟩

theorem clean_eq_cleanFront {cs : List Char} (h : ∀ c ∈ cs.getLast?, 0x20 < c.toNat) :
    clean cs = cleanFront cs := by
  rw [clean, trimBy_eq_dropWhile fun c hc => decide_eq_false (Nat.not_le.2 (h c hc)), cleanFront]

section Text

variable {mark mark' a : String}

theorem toList_query (hm : mark ∈ ["?", "#"]) (a q : String) :
    ∃ m, StartsQuery m ∧ (a ++ mark ++ q).toList = a.toList ++ m :: q.toList := by
  rw [String.toList_append, String.toList_append, List.append_assoc]
  rcases List.mem_pair.1 hm with rfl | rfl
  · exact ⟨'?', .inl rfl, rfl⟩
  · exact ⟨'#', .inr rfl, rfl⟩

theorem parse?_append (hm : mark ∈ ["?", "#"]) (a q : String) :
    parse? n (a ++ mark ++ q) = read? n (cleanFront a.toList) := by
  obtain ⟨m, hm, htext⟩ := toList_query hm a q
  obtain ⟨q', hq'⟩ := clean_append hm a.toList q.toList
  rw [parse?_eq_read?, htext, hq', read?_append n hm]

/-- Queries and fragments make no difference. -/
theorem parse?_congr_query (hm : mark ∈ ["?", "#"]) (hm' : mark' ∈ ["?", "#"]) (a q q' : String) :
    parse? n (a ++ mark ++ q) = parse? n (a ++ mark' ++ q') := by
  rw [parse?_append n hm, parse?_append n hm']

/-- A query may be left out where no blank stands in front of it. -/
theorem parse?_query (hm : mark ∈ ["?", "#"]) (ha : ∀ c ∈ a.toList.getLast?, 0x20 < c.toNat)
    (q : String) : parse? n (a ++ mark ++ q) = parse? n a := by
  rw [parse?_append n hm, parse?_eq_read?, clean_eq_cleanFront ha]

end Text

end Depot.Url
