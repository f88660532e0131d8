import Depot.Proofs.Json.Reader
import Depot.Proofs.Json.Value

/-!
# Written values read as themselves

A value of integers with its keys in order is written as a document that stands for it
(`Value.parse?_render`), as long as it is nested no deeper than a reader allows.
-/

namespace Depot.Json

open Token

namespace Node

/-- Whether a value that comes next goes into the frames `fs`. -/
def State.Awaits (s : State) (fs : List Frame) : Prop :=
  ∀ t, t ≠ .closeArray → s.step? t = State.value? fs t

theorem State.awaits_value (fs : List Frame) : State.Awaits ⟨.value, fs, [], none⟩ fs :=
  fun _ _ => rfl

theorem State.awaits_firstItem (fs : List Frame) :
    State.Awaits ⟨.firstItem, .array [] :: fs, [], none⟩ (.array [] :: fs) := by
  intro t ht
  cases t with
  | closeArray => exact absurd rfl ht
  | _ => rfl

/-! ## Numerals and words -/

section Run

variable {mode : List Char → Mode} {c : Char} {cs : List Char}

theorem State.read?_run
    (hcs : ∀ d ∈ cs, ∀ read, Token.step? (mode read) (some d) = some (mode (d :: read), []))
    (read : List Char) (s : State) (rest : List (Option Char)) :
    s.read? (mode read) (cs.map some ++ rest) = s.read? (mode (cs.reverse ++ read)) rest := by
  induction cs generalizing read with
  | nil => rfl
  | cons d cs ih =>
    have hd := hcs d List.mem_cons_self read
    rw [List.map_cons, List.cons_append, State.read?_cons_nil hd,
      ih fun e he => hcs e (List.mem_cons_of_mem _ he), List.reverse_cons, List.append_assoc]
    rfl

/-- A run of characters that only what follows it ends. -/
theorem State.read?_token {t : Token} {s s' : State} {rest : List (Option Char)}
    (hopen : ∀ read, (mode read).Open) (hc : begin? c = some (mode [c], []))
    (hcs : ∀ d ∈ cs, ∀ read, Token.step? (mode read) (some d) = some (mode (d :: read), []))
    (hend : finish? (mode (c :: cs).reverse) = some [t]) (hs : s.step? t = some s')
    (hrest : Delimited rest) :
    s.read? .between ((c :: cs).map some ++ rest) = s'.read? .between rest := by
  have hstart : Token.step? .between (some c) = some (mode [c], []) := hc
  rw [List.reverse_cons] at hend
  rw [List.map_cons, List.cons_append, State.read?_cons_nil hstart, State.read?_run hcs]
  exact State.read?_finish (hopen _) hend hs hrest

end Run

theorem begin?_number {c : Char} (h : c.isDigit = true ∨ c = '-') :
    begin? c = some (.number [c], []) := by
  have hblank : ¬(c = ' ' ∨ c = '\t' ∨ c = '\n' ∨ c = '\r') := by
    rintro (rfl | rfl | rfl | rfl) <;> exact absurd h (by decide)
  have hquote : c ≠ '"' := by
    rintro rfl
    exact absurd h (by decide)
  rw [begin?, if_neg hblank, if_neg hquote, if_pos h]

theorem isNumberChar_of_digit {c : Char} (h : c.isDigit = true) :
    isNumberChar c = true := by
  simp [isNumberChar, h]

theorem render_int (n : Int) :
    ∃ c cs, Number.render (.int n) = c :: cs ∧ (c.isDigit = true ∨ c = '-') ∧
      ∀ d ∈ cs, isNumberChar d = true := by
  obtain ⟨c, cs, h⟩ := List.exists_cons_of_ne_nil (Nat.toDigits_ne_nil (n := n.natAbs) (b := 10))
  have hdigit : ∀ d ∈ c :: cs, d.isDigit = true :=
    fun d hd => Nat.isDigit_of_mem_toDigits (by decide) (by decide) (h ▸ hd)
  rw [Number.render, Number.digitsText, h]
  split
  · exact ⟨'-', c :: cs, rfl, .inr rfl, fun d hd => isNumberChar_of_digit (hdigit d hd)⟩
  · exact ⟨c, cs, rfl, .inl (hdigit c List.mem_cons_self),
      fun d hd => isNumberChar_of_digit (hdigit d (List.mem_cons_of_mem _ hd))⟩

theorem State.read?_int {n : Int} {s s' : State} {rest : List (Option Char)}
    (hs : s.step? (.number (Numeral.ofInt n)) = some s') (hrest : Delimited rest) :
    s.read? .between ((Number.render (.int n)).map some ++ rest) = s'.read? .between rest := by
  obtain ⟨c, cs, hrender, hc, hcs⟩ := render_int n
  have hread := Numeral.read?_render n
  rw [hrender] at hread ⊢
  have hopen : ∀ read, (Mode.number read).Open := fun _ => trivial
  refine State.read?_token hopen (begin?_number hc) ?_ ?_ hs hrest
  · intro d hd read
    simp [Token.step?, hcs d hd]
  · simp [finish?, hread]

theorem State.read?_word {w : Word} {c : Char} {cs : List Char} {s s' : State}
    {rest : List (Option Char)} (hc : begin? c = some (.word [c], []))
    (hcs : cs.all Char.isAlpha = true) (hw : word? (c :: cs) = some w)
    (hs : s.step? (.word w) = some s') (hrest : Delimited rest) :
    s.read? .between ((c :: cs).map some ++ rest) = s'.read? .between rest := by
  have hopen : ∀ read, (Mode.word read).Open := fun _ => trivial
  refine State.read?_token hopen hc ?_ ?_ hs hrest
  · intro d hd read
    simp [Token.step?, List.all_eq_true.1 hcs d hd]
  · rw [finish?, List.reverse_reverse, hw]
    rfl

end Node

namespace Value

open Node (State)

theorem delimited_itemChars (vs : List Value) (rest : List (Option Char)) :
    Delimited ((itemChars vs).map some ++ rest) := by
  cases vs <;> exact ⟨by decide, by decide⟩

theorem delimited_fieldChars (fs : List (String × Value)) (rest : List (Option Char)) :
    Delimited ((fieldChars fs).map some ++ rest) := by
  rcases fs with _ | ⟨⟨k, v⟩, fs⟩ <;> exact ⟨by decide, by decide⟩

/-- What a key with its colon does to a reader that waits for one. -/
theorem read?_key (k : String) :
    ∃ gs, Glyph.text? gs = some k ∧ ∀ {s : State} {fields fs},
      s.step? (.text gs) = some ⟨.colon, .object fields gs :: fs, [], none⟩ →
      ∀ rest, s.read? .between ((quote k).map some ++ some ':' :: rest)
        = State.read? .between ⟨.value, .object fields gs :: fs, [], none⟩ rest := by
  obtain ⟨gs, hgs, hread⟩ := Node.read?_quote k
  refine ⟨gs, hgs, fun {s fields fs} hs rest => ?_⟩
  rw [hread hs]
  exact State.read?_mark rfl rfl rest

mutual

/-- The reader comes to a node that stands for the value. -/
theorem read?_chars {depth : Nat} : (v : Value) → v.Nested depth → (∀ n ∈ v.numbers, n.Whole) →
    ∃ n, ofNode? depth n = some v ∧ ∀ {s : State} {fs}, s.Awaits fs → ∀ rest, Delimited rest →
      s.read? .between (v.chars.map some ++ rest) = (State.push n fs).read? .between rest
  | .null, _, _ => ⟨.word .null, rfl, fun hs rest hrest =>
      State.read?_word rfl rfl rfl (hs _ (by simp)) hrest⟩
  | .bool true, _, _ => ⟨.word .true, rfl, fun hs rest hrest =>
      State.read?_word rfl rfl rfl (hs _ (by simp)) hrest⟩
  | .bool false, _, _ => ⟨.word .false, rfl, fun hs rest hrest =>
      State.read?_word rfl rfl rfl (hs _ (by simp)) hrest⟩
  | .number (.int n), _, hw => by
    refine ⟨.number (.ofInt n), ?_, fun hs rest hrest => ?_⟩
    · rw [ofNode?, Numeral.value?_ofInt (hw _ (by simp [numbers]))]
      rfl
    · exact State.read?_int (hs _ (by simp)) hrest
  | .number (.float _ _), _, hw => absurd (hw _ (by rw [numbers]; exact List.mem_cons_self)) id
  | .text t, _, _ => by
    obtain ⟨gs, hgs, hread⟩ := Node.read?_quote t
    refine ⟨.text gs, by rw [ofNode?, hgs]; rfl, fun hs rest _ => ?_⟩
    exact hread (hs _ (by simp)) rest
  | .array [], hn, _ => by
    refine ⟨.array [], ?_, fun hs rest _ => ?_⟩
    · rw [ofNode?, if_neg (Nat.ne_of_gt hn.1)]
      rfl
    · exact (State.read?_mark rfl (hs _ (by simp)) _).trans (State.read?_mark rfl rfl rest)
  | .array (v :: vs), hn, hw => by
    simp only [numbers, itemNumbers, List.mem_append] at hw
    obtain ⟨hdepth, hv, hvs⟩ := hn
    obtain ⟨n, hof, hread⟩ := read?_chars v hv fun k hk => hw k (.inl hk)
    obtain ⟨ns, hofs, hreads⟩ := read?_itemChars vs hvs fun k hk => hw k (.inr hk)
    refine ⟨.array (n :: ns), ?_, fun {s fs} hs rest hrest => ?_⟩
    · rw [ofNode?, if_neg (Nat.ne_of_gt hdepth), ofItems?, hof, hofs]
      rfl
    · rw [chars, List.cons_append, List.map_cons, List.cons_append, List.map_append,
        List.append_assoc, State.read?_mark rfl (hs .openArray (by simp)),
        hread (State.awaits_firstItem fs) _ (delimited_itemChars vs rest)]
      exact hreads [n] fs rest
  | .object [], hn, _ => by
    refine ⟨.object [], ?_, fun hs rest _ => ?_⟩
    · rw [ofNode?, if_neg (Nat.ne_of_gt hn.1)]
      rfl
    · exact (State.read?_mark rfl (hs _ (by simp)) _).trans (State.read?_mark rfl rfl rest)
  | .object ((k, v) :: fields), hn, hw => by
    simp only [numbers, fieldNumbers, List.mem_append] at hw
    obtain ⟨hdepth, hsorted, hv, hvs⟩ := hn
    obtain ⟨gs, hgs, hkey⟩ := read?_key k
    obtain ⟨n, hof, hread⟩ := read?_chars v hv fun k hk => hw k (.inl hk)
    obtain ⟨ns, hofs, hreads⟩ := read?_fieldChars fields hvs fun k hk => hw k (.inr hk)
    refine ⟨.object ((gs, n) :: ns), ?_, fun {s fs} hs rest hrest => ?_⟩
    · rw [ofNode?, if_neg (Nat.ne_of_gt hdepth), ofPairs?, hgs, hof, hofs]
      simp [ofFields_of_ascending hsorted]
    · have hchars : (chars (.object ((k, v) :: fields))).map some ++ rest
          = some '{' :: ((quote k).map some ++ some ':' ::
            (v.chars.map some ++ ((fieldChars fields).map some ++ rest))) := by
        simp [chars]
      have hopen := hs .openObject (by simp)
      have hfirst : State.step? ⟨.firstKey, fs, [], none⟩ (.text gs)
          = some ⟨.colon, .object [] gs :: fs, [], none⟩ := rfl
      rw [hchars, State.read?_mark rfl hopen, hkey hfirst,
        hread (State.awaits_value _) _ (delimited_fieldChars fields rest)]
      exact hreads [(gs, n)] [] fs rest

theorem read?_itemChars {depth : Nat} : (vs : List Value) → NestedItems depth vs →
    (∀ n ∈ itemNumbers vs, n.Whole) →
    ∃ ns, ofItems? depth ns = some vs ∧ ∀ items fs rest,
      State.read? .between ⟨.next, .array items :: fs, [], none⟩ ((itemChars vs).map some ++ rest)
        = (State.push (.array (items.reverse ++ ns)) fs).read? .between rest
  | [], _, _ => by
    refine ⟨[], rfl, fun items fs rest => ?_⟩
    rw [List.append_nil]
    exact State.read?_mark rfl rfl rest
  | v :: vs, hn, hw => by
    simp only [itemNumbers, List.mem_append] at hw
    obtain ⟨n, hof, hread⟩ := read?_chars v hn.1 fun k hk => hw k (.inl hk)
    obtain ⟨ns, hofs, hreads⟩ := read?_itemChars vs hn.2 fun k hk => hw k (.inr hk)
    refine ⟨n :: ns, by rw [ofItems?, hof, hofs]; rfl, fun items fs rest => ?_⟩
    have hcomma : State.step? ⟨.next, .array items :: fs, [], none⟩ .comma
        = some ⟨.value, .array items :: fs, [], none⟩ := rfl
    rw [itemChars, List.cons_append, List.map_cons, List.cons_append, List.map_append,
      List.append_assoc, State.read?_mark rfl hcomma,
      hread (State.awaits_value _) _ (delimited_itemChars vs rest)]
    have hrest := hreads (n :: items) fs rest
    rwa [List.reverse_cons, List.append_assoc] at hrest

theorem read?_fieldChars {depth : Nat} : (fields : List (String × Value)) →
    NestedFields depth fields → (∀ n ∈ fieldNumbers fields, n.Whole) →
    ∃ ns, ofPairs? depth ns = some fields ∧ ∀ read gs fs rest,
      State.read? .between ⟨.next, .object read gs :: fs, [], none⟩
          ((fieldChars fields).map some ++ rest)
        = (State.push (.object (read.reverse ++ ns)) fs).read? .between rest
  | [], _, _ => by
    refine ⟨[], rfl, fun read gs fs rest => ?_⟩
    rw [List.append_nil]
    exact State.read?_mark rfl rfl rest
  | (k, v) :: fields, hn, hw => by
    simp only [fieldNumbers, List.mem_append] at hw
    obtain ⟨gs, hgs, hkey⟩ := read?_key k
    obtain ⟨n, hof, hread⟩ := read?_chars v hn.1 fun k hk => hw k (.inl hk)
    obtain ⟨ns, hofs, hreads⟩ := read?_fieldChars fields hn.2 fun k hk => hw k (.inr hk)
    refine ⟨(gs, n) :: ns, by rw [ofPairs?, hgs, hof, hofs]; rfl, fun read ks fs rest => ?_⟩
    have hchars : (fieldChars ((k, v) :: fields)).map some ++ rest
        = some ',' :: ((quote k).map some ++ some ':' ::
          (v.chars.map some ++ ((fieldChars fields).map some ++ rest))) := by
      simp [fieldChars]
    have hcomma : State.step? ⟨.next, .object read ks :: fs, [], none⟩ .comma
        = some ⟨.key, fs, read, none⟩ := rfl
    have hnext : State.step? ⟨.key, fs, read, none⟩ (.text gs)
        = some ⟨.colon, .object read gs :: fs, [], none⟩ := rfl
    rw [hchars, State.read?_mark rfl hcomma, hkey hnext,
      hread (State.awaits_value _) _ (delimited_fieldChars fields rest)]
    have hrest := hreads ((gs, n) :: read) [] fs rest
    rwa [List.reverse_cons, List.append_assoc] at hrest

end

theorem parse?_render {v : Value} (hn : v.Nested maxDepth) (hw : ∀ n ∈ v.numbers, n.Whole) :
    parse? v.render = some v := by
  obtain ⟨n, hof, hread⟩ := read?_chars v hn hw
  have hend := hread (State.awaits_value []) [] trivial
  rw [List.append_nil] at hend
  rw [parse?, render, String.toList_ofList, Node.read?_eq, State.initial, hend]
  exact hof

end Value

end Depot.Json
