import Depot.Json.Printer
import Depot.Proofs.Json.Numeral

/-!
# Reading what is written

Scanning and reading run as one machine here (`Node.State.read?`), so that what a piece of written
text does to the reader can be said without what follows it. A numeral or a word is complete only
with the character after it (`Token.Delimited`).
-/

namespace Depot.Json

open Depot.Text Token

namespace Node

/-- The state after reading on from `s`, where `m` is what has been read of a token. -/
def State.read? (m : Mode) (s : State) (cs : List (Option Char)) : Option State :=
  (scanFrom? m cs).bind (·.foldlM State.step? s)

theorem read?_eq (cs : List (Option Char)) :
    Node.read? cs = (State.read? .between .initial cs).bind State.result := by
  rw [Node.read?, State.read?, Option.bind_assoc]
  rfl

theorem State.read?_cons {m m' : Mode} {s s' : State} {c : Char} {ts : List Token}
    (hstep : Token.step? m (some c) = some (m', ts)) (hs : ts.foldlM State.step? s = some s')
    (rest : List (Option Char)) : s.read? m (some c :: rest) = s'.read? m' rest := by
  rw [State.read?, State.read?, scanFrom?, hstep]
  cases hr : scanFrom? m' rest with
  | none => simp [hr]
  | some us => simp [hr, List.foldlM_append, hs]

theorem State.read?_cons_nil {m m' : Mode} {c : Char}
    (hstep : Token.step? m (some c) = some (m', [])) (s : State) (rest : List (Option Char)) :
    s.read? m (some c :: rest) = s.read? m' rest :=
  State.read?_cons hstep rfl rest

theorem State.read?_mark {s s' : State} {c : Char} {t : Token}
    (hc : begin? c = some (.between, [t])) (hs : s.step? t = some s')
    (rest : List (Option Char)) : s.read? .between (some c :: rest) = s'.read? .between rest := by
  have hstep : Token.step? .between (some c) = some (.between, [t]) := hc
  refine State.read?_cons hstep ?_ rest
  rw [List.foldlM_cons, hs]
  rfl

end Node

/-- Whether no numeral and no word goes on with the characters. -/
def Token.Delimited : List (Option Char) → Prop
  | [] => True
  | none :: _ => False
  | some c :: _ => isNumberChar c = false ∧ c.isAlpha = false

/-- Whether the reader has only to see the end of a token. -/
def Token.Mode.Open : Mode → Prop
  | .number _ | .word _ => True
  | _ => False

namespace Node

theorem step?_of_open {m : Mode} {t : Token} {c : Char} (hm : m.Open)
    (hend : finish? m = some [t]) (hnumber : isNumberChar c = false)
    (hword : c.isAlpha = false) :
    Token.step? m (some c) = (begin? c).map fun p => (p.1, t :: p.2) := by
  cases m with
  | number cs =>
    rw [Token.step?, hend]
    cases hb : begin? c <;> simp [hnumber, hb]
  | word cs =>
    rw [Token.step?, hend]
    cases hb : begin? c <;> simp [hword, hb]
  | between | text | escape | unit => exact hm.elim

theorem State.read?_finish {m : Mode} {t : Token} {s s' : State} {rest : List (Option Char)}
    (hm : m.Open) (hend : finish? m = some [t]) (hs : s.step? t = some s')
    (hrest : Delimited rest) : s.read? m rest = s'.read? .between rest := by
  match rest, hrest with
  | [], _ =>
    rw [State.read?, State.read?, scanFrom?, scanFrom?, hend]
    simp [finish?, hs]
  | some c :: rest, ⟨hnumber, hword⟩ =>
    rw [State.read?, State.read?, scanFrom?, scanFrom?, step?_of_open hm hend hnumber hword,
      show Token.step? .between (some c) = begin? c from rfl]
    cases begin? c with
    | none => rfl
    | some p =>
      obtain ⟨m', ts⟩ := p
      cases hr : scanFrom? m' rest with
      | none => simp [hr]
      | some us => simp [hr, hs]

/-! ## Texts -/

theorem chars?_unit {n : Nat} (hn : n < 0xD800) (gs : List Glyph) :
    Glyph.chars? (.unit n :: gs) = (Glyph.chars? gs).map (Char.ofNat n :: ·) := by
  rw [Glyph.chars?.eq_def (.unit n :: gs)]
  simp [hn]

theorem hexDigit?_hexDigit : ∀ n < 16, hexDigit? (Value.hexDigit n) = some n := by decide

theorem State.read?_short {c e : Char} (hu : e ≠ 'u') (he : Token.escaped? e = some c)
    (gs : List Glyph) (s : State) (rest : List (Option Char)) :
    s.read? (.text gs) (['\\', e].map some ++ rest) = s.read? (.text (.char c :: gs)) rest := by
  have h₁ : Token.step? (.text gs) (some '\\') = some (.escape gs, []) := rfl
  have h₂ : Token.step? (.escape gs) (some e) = some (.text (.char c :: gs), []) := by
    simp [Token.step?, hu, he]
  exact (State.read?_cons_nil h₁ s _).trans (State.read?_cons_nil h₂ s rest)

theorem State.read?_unit {n : Nat} (hn : n < 32) (gs : List Glyph) (s : State)
    (rest : List (Option Char)) :
    s.read? (.text gs)
        (['\\', 'u', '0', '0', Value.hexDigit (n / 16), Value.hexDigit (n % 16)].map some ++ rest)
      = s.read? (.text (.unit n :: gs)) rest := by
  have h₁ : Token.step? (.text gs) (some '\\') = some (.escape gs, []) := rfl
  have h₂ : Token.step? (.escape gs) (some 'u') = some (.unit gs 0 4, []) := rfl
  have h₃ : Token.step? (.unit gs 0 4) (some '0') = some (.unit gs 0 3, []) := rfl
  have h₄ : Token.step? (.unit gs 0 3) (some '0') = some (.unit gs 0 2, []) := rfl
  have h₅ : Token.step? (.unit gs 0 2) (some (Value.hexDigit (n / 16)))
      = some (.unit gs (n / 16) 1, []) := by
    simp [Token.step?, hexDigit?_hexDigit (n / 16) (by omega)]
  have h₆ : Token.step? (.unit gs (n / 16) 1) (some (Value.hexDigit (n % 16)))
      = some (.text (.unit n :: gs), []) := by
    simp [Token.step?, hexDigit?_hexDigit (n % 16) (by omega), Nat.div_add_mod']
  simp only [List.map_cons, List.map_nil, List.cons_append, List.nil_append]
  rw [State.read?_cons_nil h₁, State.read?_cons_nil h₂, State.read?_cons_nil h₃,
    State.read?_cons_nil h₄, State.read?_cons_nil h₅, State.read?_cons_nil h₆]

/-- A character is written as what reads as one piece and says that character. -/
theorem read?_escape (c : Char) :
    ∃ g : Glyph, (∀ gs, Glyph.chars? (g :: gs) = (Glyph.chars? gs).map (c :: ·)) ∧
      ∀ gs (s : State) rest, s.read? (.text gs) ((Value.escape c).map some ++ rest)
        = s.read? (.text (g :: gs)) rest := by
  have hplain : ∀ gs, Glyph.chars? (.char c :: gs) = (Glyph.chars? gs).map (c :: ·) :=
    fun _ => rfl
  unfold Value.escape
  split
  all_goals try exact ⟨.char _, hplain, State.read?_short (by decide) rfl⟩
  next hquote hslash _ _ _ _ _ =>
  split
  · next hlow =>
    have hn : c.toNat < 32 := hlow
    refine ⟨.unit c.toNat, fun gs => ?_, State.read?_unit hn⟩
    rw [chars?_unit (by omega), Char.ofNat_toNat]
  · next hhigh =>
    refine ⟨.char c, hplain, fun gs s rest => State.read?_cons_nil ?_ s rest⟩
    rw [Token.step?, if_neg hquote, if_neg hslash, if_neg hhigh]

theorem read?_flatMap_escape (cs : List Char) :
    ∃ gs, Glyph.chars? gs = some cs ∧
      ∀ read (s : State) rest, s.read? (.text read) ((cs.flatMap Value.escape).map some ++ rest)
        = s.read? (.text (gs.reverse ++ read)) rest := by
  induction cs with
  | nil => exact ⟨[], rfl, fun _ _ _ => rfl⟩
  | cons c cs ih =>
    obtain ⟨gs, hgs, hread⟩ := ih
    obtain ⟨g, hg, hstep⟩ := read?_escape c
    refine ⟨g :: gs, by rw [hg, hgs]; rfl, fun read s rest => ?_⟩
    rw [List.flatMap_cons, List.map_append, List.append_assoc, hstep, hread, List.reverse_cons,
      List.append_assoc]
    rfl

/-- A text in quotes is read as one token, which says the text. -/
theorem read?_quote (text : String) :
    ∃ gs, Glyph.text? gs = some text ∧ ∀ {s s' : State}, s.step? (.text gs) = some s' →
      ∀ rest, s.read? .between ((Value.quote text).map some ++ rest) = s'.read? .between rest := by
  obtain ⟨gs, hgs, hread⟩ := read?_flatMap_escape text.toList
  refine ⟨gs, by rw [Glyph.text?, hgs]; simp, fun {s s'} hs rest => ?_⟩
  have h₁ : Token.step? .between (some '"') = some (.text [], []) := rfl
  have h₂ : Token.step? (.text gs.reverse) (some '"') = some (.between, [.text gs]) := by
    simp [Token.step?]
  rw [Value.quote, List.map_append, List.map_cons, List.cons_append, List.cons_append,
    State.read?_cons_nil h₁, List.append_assoc, hread, List.append_nil]
  exact State.read?_cons h₂ (by simp [hs]) rest

end Node

end Depot.Json
