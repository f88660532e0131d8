import Depot.Platform.OsRelease
import Depot.Proofs.Text.Blank

/-!
# What an os-release file says

`Assigns` describes an assignment without reading it: what stands where on its line. There is at
most one at a line start (`Assigns.unique`), and the reader finds the first one of a key
(`field?_eq_some_iff`). `parse_fields` puts this together.

A carriage return in front of a line break is read over only outside of quotes, and `crlf` is about
texts that have no quotes.
-/

namespace Depot.Platform.OsRelease

open Depot.Text

variable {key cs rest rest' v v' : List Char} {mark : Char}

/-! ## Assignments -/

def Blanks (b : List Char) : Prop :=
  ∀ c ∈ b, isLineBlank c = true

def LineEnd (rest : List Char) : Prop :=
  rest = [] ∨ ∃ r, rest = '\n' :: r

/-- Blanks and at most one carriage return stand between `cs` and the end of the line, `rest`. -/
def Ends (cs rest : List Char) : Prop :=
  ∃ b cr, Blanks b ∧ (cr = [] ∨ cr = ['\r']) ∧ LineEnd rest ∧ cs = b ++ (cr ++ rest)

def IsMark (c : Char) : Prop :=
  c = '"' ∨ c = '\''

/-- A value as it stands in the file. -/
inductive Written : (value written : List Char) → Prop where
  | quoted {mark : Char} {v : List Char} (hm : IsMark mark) (hv : mark ∉ v) :
    Written v (mark :: (v ++ [mark]))
  | bare {v : List Char} (hv : ∀ c ∈ v, isBare c = true) : Written v v

/-- `cs` starts with the value `v`, and the line ends behind it. -/
def Valued (cs v rest : List Char) : Prop :=
  ∃ w cs', Written v w ∧ Ends cs' rest ∧ cs = w ++ cs'

/-- `cs` starts with an assignment of `v` to `key`; its line ends at `rest`. -/
def Assigns (key cs v rest : List Char) : Prop :=
  ∃ b₁ b₂ b₃ cs', Blanks b₁ ∧ Blanks b₂ ∧ Blanks b₃ ∧ Valued cs' v rest ∧
    cs = b₁ ++ (key ++ (b₂ ++ '=' :: (b₃ ++ cs')))

/-- `cs` is `content` from the start of one of its lines on. -/
def LineStart (content cs : List Char) : Prop :=
  cs = content ∨ ∃ before, content = before ++ '\n' :: cs

/-- `v` is what the first assignment of `key` assigns: the more of `content` is left behind a line
start, the earlier it is. -/
def FirstAssigned (key content v : List Char) : Prop :=
  ∃ cs rest, LineStart content cs ∧ Assigns key cs v rest ∧
    ∀ cs', LineStart content cs' → cs.length < cs'.length → ∀ v' rest', ¬Assigns key cs' v' rest'

/-- The first assignment of `key` in `content` has this value, and it is not empty. -/
def Field (key content value : String) : Prop :=
  FirstAssigned key.toList content.toList value.toList ∧ value ≠ ""

/-! ## The end of a line -/

theorem skipBlanks_append {b : List Char} (hb : Blanks b) (cs : List Char) :
    skipBlanks (b ++ cs) = skipBlanks cs :=
  List.dropWhile_append_of_pos hb

theorem skipBlanks_cons {c : Char} (hc : isLineBlank c = false) (cs : List Char) :
    skipBlanks (c :: cs) = c :: cs :=
  List.dropWhile_cons_of_neg (by simp [hc])

theorem exists_blanks (cs : List Char) : ∃ b, Blanks b ∧ cs = b ++ skipBlanks cs :=
  ⟨cs.takeWhile isLineBlank, fun _ => List.mem_takeWhile_imp,
    List.takeWhile_append_dropWhile.symm⟩

theorem LineEnd.skipBlanks_eq (h : LineEnd rest) : skipBlanks rest = rest := by
  rcases h with rfl | ⟨r, rfl⟩
  · rfl
  · exact skipBlanks_cons rfl r

theorem ends_iff :
    Ends cs rest ↔ LineEnd rest ∧ (skipBlanks cs = rest ∨ skipBlanks cs = '\r' :: rest) := by
  constructor
  · rintro ⟨b, cr, hb, rfl | rfl, hrest, rfl⟩
    · exact ⟨hrest, .inl ((skipBlanks_append hb _).trans hrest.skipBlanks_eq)⟩
    · exact ⟨hrest, .inr ((skipBlanks_append hb _).trans (skipBlanks_cons rfl rest))⟩
  · rintro ⟨hrest, h | h⟩ <;> obtain ⟨b, hb, hcs⟩ := exists_blanks cs <;> rw [h] at hcs
    · exact ⟨b, [], hb, .inl rfl, hrest, hcs⟩
    · exact ⟨b, ['\r'], hb, .inr rfl, hrest, hcs⟩

theorem LineEnd.ne_return (h : LineEnd rest) (r : List Char) : rest ≠ '\r' :: r := by
  rcases h with rfl | ⟨_, rfl⟩
  · exact List.cons_ne_nil _ _ ∘ Eq.symm
  · exact fun he => absurd (List.cons.inj he).1 (by decide)

theorem Ends.unique (h : Ends cs rest) (h' : Ends cs rest') : rest = rest' := by
  obtain ⟨hrest, he⟩ := ends_iff.1 h
  obtain ⟨hrest', he'⟩ := ends_iff.1 h'
  rcases he with he | he <;> rcases he' with he' | he'
  · exact he.symm.trans he'
  · exact absurd (he.symm.trans he') (hrest.ne_return _)
  · exact absurd (he'.symm.trans he) (hrest'.ne_return _)
  · exact (List.cons.inj (he.symm.trans he')).2

theorem ends_skipBlanks : Ends (skipBlanks cs) rest ↔ Ends cs rest := by
  obtain ⟨b, hb, hcs⟩ := exists_blanks cs
  have hidem : skipBlanks cs = skipBlanks (skipBlanks cs) := by
    conv_lhs => rw [hcs, skipBlanks_append hb]
  rw [ends_iff, ends_iff, ← hidem]

theorem endsLine_iff : endsLine cs = true ↔ ∃ rest, Ends cs rest := by
  simp only [ends_iff]
  constructor
  · intro h
    unfold endsLine at h
    split at h
    · next he => exact ⟨[], .inl rfl, .inl he⟩
    · next he => exact ⟨[], .inl rfl, .inr he⟩
    · next r he => exact ⟨'\n' :: r, .inr ⟨r, rfl⟩, .inl he⟩
    · next r he => exact ⟨'\n' :: r, .inr ⟨r, rfl⟩, .inr he⟩
    · cases h
  · rintro ⟨_, rfl | ⟨r, rfl⟩, h | h⟩ <;> simp [endsLine, h]

theorem not_isBare_of_isLineBlank {c : Char} (h : isLineBlank c = true) : isBare c = false := by
  rw [isLineBlank, Bool.or_eq_true, beq_iff_eq, beq_iff_eq] at h
  rcases h with rfl | rfl <;> rfl

/-- No value goes on where a line can end. -/
theorem Ends.not_isBare (h : Ends cs rest) : ∀ c ∈ cs.head?, isBare c = false := by
  obtain ⟨b, cr, hb, hcr, hrest, rfl⟩ := h
  intro c hc
  cases b with
  | cons a b =>
    obtain rfl := Option.some.inj hc
    exact not_isBare_of_isLineBlank (hb a (List.mem_cons_self ..))
  | nil =>
    rcases hcr with rfl | rfl
    · rcases hrest with rfl | ⟨r, rfl⟩
      · cases hc
      · obtain rfl := Option.some.inj hc
        rfl
    · obtain rfl := Option.some.inj hc
      rfl

/-! ## The value -/

theorem IsMark.not_isBare (hm : IsMark mark) : isBare mark = false := by
  rcases hm with rfl | rfl <;> rfl

theorem IsMark.not_isLineBlank (hm : IsMark mark) : isLineBlank mark = false := by
  rcases hm with rfl | rfl <;> rfl

theorem IsMark.not_ends (hm : IsMark mark) (r : List Char) : ¬Ends (mark :: r) rest := by
  intro h
  obtain ⟨hrest, he⟩ := ends_iff.1 h
  rw [skipBlanks_cons hm.not_isLineBlank] at he
  rcases he with rfl | he
  · rcases hrest with hr | ⟨_, hr⟩
    · cases hr
    · rcases hm with rfl | rfl <;> cases (List.cons.inj hr).1
  · rcases hm with rfl | rfl <;> cases (List.cons.inj he).1

theorem valued_quoted (hm : IsMark mark) {r : List Char} :
    Valued (mark :: r) v rest ↔
      ∃ cs', r.dropWhile (· ≠ mark) = mark :: cs' ∧ Ends cs' rest ∧ v = r.takeWhile (· ≠ mark) := by
  constructor
  · rintro ⟨w, cs', hw, hends, he⟩
    cases hw with
    | @quoted mark' _ hm' hv =>
      rw [List.cons_append, List.append_assoc, List.singleton_append, List.cons.injEq] at he
      obtain ⟨rfl, rfl⟩ := he
      have hrun : ∀ c ∈ v, decide (c ≠ mark) = true := fun c hc =>
        decide_eq_true fun hcm => hv (hcm ▸ hc)
      have hstop : ∀ c ∈ (mark :: cs').head?, decide (c ≠ mark) = false := fun c hc => by
        obtain rfl := Option.some.inj hc
        exact decide_eq_false (not_not_intro rfl)
      exact ⟨cs', dropWhile_run hrun hstop, hends, (takeWhile_run hrun hstop).symm⟩
    | bare hv =>
      -- a quotation mark neither belongs to a bare value nor ends the line
      cases v with
      | nil =>
        obtain rfl : mark :: r = cs' := he
        exact absurd hends (hm.not_ends r)
      | cons c v =>
        obtain rfl := (List.cons.inj he).1
        exact absurd (hv _ (List.mem_cons_self ..)) (by simp [hm.not_isBare])
  · rintro ⟨cs', hdrop, hends, rfl⟩
    refine ⟨_, cs', .quoted hm fun hmem => ?_, hends, ?_⟩
    · simpa using List.mem_takeWhile_imp hmem
    · rw [List.cons_append, List.append_assoc, List.singleton_append, ← hdrop,
        List.takeWhile_append_dropWhile]

theorem valued_bare (hcs : ∀ c ∈ cs.head?, ¬IsMark c) :
    Valued cs v rest ↔ v = cs.takeWhile isBare ∧ Ends (cs.dropWhile isBare) rest := by
  constructor
  · rintro ⟨w, cs', hw, hends, rfl⟩
    cases hw with
    | quoted hm _ => exact absurd hm (hcs _ rfl)
    | bare hv =>
      rw [takeWhile_run hv hends.not_isBare, dropWhile_run hv hends.not_isBare]
      exact ⟨rfl, hends⟩
  · rintro ⟨rfl, hends⟩
    exact ⟨_, _, .bare fun _ => List.mem_takeWhile_imp, hends,
      List.takeWhile_append_dropWhile.symm⟩

/-- What `cs` starts with decides in which of the two ways a value is written. -/
theorem quoted_or_bare (cs : List Char) :
    (∃ mark r, IsMark mark ∧ cs = mark :: r) ∨ ∀ c ∈ cs.head?, ¬IsMark c := by
  by_cases h : ∃ c ∈ cs.head?, IsMark c
  · obtain ⟨mark, hc, hm⟩ := h
    obtain ⟨r, rfl⟩ := List.head?_eq_some_iff.1 hc
    exact .inl ⟨mark, r, hm, rfl⟩
  · exact .inr fun c hc hm => h ⟨c, hc, hm⟩

theorem Valued.unique (h : Valued cs v rest) (h' : Valued cs v' rest') :
    v = v' ∧ rest = rest' := by
  rcases quoted_or_bare cs with ⟨mark, r, hm, rfl⟩ | hcs
  · obtain ⟨a, ha, hends, rfl⟩ := (valued_quoted hm).1 h
    obtain ⟨a', ha', hends', rfl⟩ := (valued_quoted hm).1 h'
    obtain rfl := (List.cons.inj (ha.symm.trans ha')).2
    exact ⟨rfl, hends.unique hends'⟩
  · obtain ⟨rfl, hends⟩ := (valued_bare hcs).1 h
    obtain ⟨rfl, hends'⟩ := (valued_bare hcs).1 h'
    exact ⟨rfl, hends.unique hends'⟩

theorem quoted_eq_some_iff {r : List Char} :
    value?.quoted mark r = some v ↔
      ∃ cs', r.dropWhile (· ≠ mark) = mark :: cs' ∧ (∃ rest, Ends cs' rest) ∧
        v = r.takeWhile (· ≠ mark) := by
  rw [value?.quoted]
  split
  · next c cs' hdrop =>
    have hc : c = mark := by
      have hhead : c ∈ (r.dropWhile (· ≠ mark)).head? := by rw [hdrop]; rfl
      simpa using head_dropWhile hhead
    rw [hdrop, hc]
    simp only [List.cons.injEq, true_and, ← endsLine_iff, exists_eq_left',
      Option.ite_none_right_eq_some, Option.some.injEq]
    exact and_congr_right fun _ => eq_comm
  · next hdrop =>
    rw [hdrop]
    simp

theorem value?_bare (hcs : ∀ c ∈ cs.head?, ¬IsMark c) :
    value? cs = if endsLine (cs.dropWhile isBare) then some (cs.takeWhile isBare) else none := by
  unfold value?
  split
  · exact absurd (.inl rfl) (hcs _ rfl)
  · exact absurd (.inr rfl) (hcs _ rfl)
  · rfl

theorem value?_eq_some_iff : value? cs = some v ↔ ∃ rest, Valued cs v rest := by
  rcases quoted_or_bare cs with ⟨mark, r, hm, rfl⟩ | hcs
  · have hvalue : value? (mark :: r) = value?.quoted mark r := by
      rcases hm with rfl | rfl <;> rfl
    simp only [hvalue, quoted_eq_some_iff, valued_quoted hm]
    constructor
    · rintro ⟨cs', hdrop, ⟨rest, hends⟩, hv⟩
      exact ⟨rest, cs', hdrop, hends, hv⟩
    · rintro ⟨rest, cs', hdrop, hends, hv⟩
      exact ⟨cs', hdrop, ⟨rest, hends⟩, hv⟩
  · simp only [value?_bare hcs, valued_bare hcs, Option.ite_none_right_eq_some, Option.some.injEq,
      endsLine_iff, exists_and_left]
    exact ⟨fun h => ⟨h.2.symm, h.1⟩, fun h => ⟨h.2, h.1.symm⟩⟩

/-- The blanks in front of a value may be read as part of an empty one. -/
theorem Valued.skipBlanks (h : Valued cs v rest) : Valued (skipBlanks cs) v rest := by
  obtain ⟨w, cs', hw, hends, rfl⟩ := h
  cases hw with
  | quoted hm hv => exact ⟨_, cs', .quoted hm hv, hends, skipBlanks_cons hm.not_isLineBlank _⟩
  | bare hv =>
    cases v with
    | nil => exact ⟨[], _, .bare hv, ends_skipBlanks.2 hends, rfl⟩
    | cons c v =>
      refine ⟨_, cs', .bare hv, hends, skipBlanks_cons ?_ _⟩
      by_contra hblank
      rw [Bool.not_eq_false] at hblank
      exact absurd (hv c (List.mem_cons_self ..)) (by simp [not_isBare_of_isLineBlank hblank])

/-! ## The key -/

/-- A character that is not taken for what stands around a key. -/
def isPlain (c : Char) : Bool :=
  !isLineBlank c && c != '=' && c != '\n' && c != '\r'

/-- What the reader needs of a key. -/
structure Name (key : List Char) : Prop where
  ne_nil : key ≠ []
  all_isPlain : key.all isPlain = true

theorem Name.plain (hk : Name key) : ∀ c ∈ key,
    isLineBlank c = false ∧ c ≠ '=' ∧ c ≠ '\n' ∧ c ≠ '\r' := fun c hc => by
  simpa [isPlain, and_assoc] using List.all_eq_true.1 hk.all_isPlain c hc

theorem name_id : Name "ID".toList := ⟨by decide, by decide⟩

theorem name_versionId : Name "VERSION_ID".toList := ⟨by decide, by decide⟩

theorem Name.skipBlanks_append (hk : Name key) (cs : List Char) :
    skipBlanks (key ++ cs) = key ++ cs := by
  obtain ⟨c, k, rfl⟩ := List.exists_cons_of_ne_nil hk.ne_nil
  exact skipBlanks_cons (hk.plain c (List.mem_cons_self ..)).1 _

/-- An assignment in the order in which it is read. -/
theorem assigns_iff (hk : Name key) :
    Assigns key cs v rest ↔
      ∃ a r, key.isPrefixOf? (skipBlanks cs) = some a ∧ skipBlanks a = '=' :: r ∧
        Valued (skipBlanks r) v rest := by
  simp only [List.isPrefixOf?_eq_some_iff_append_eq]
  constructor
  · rintro ⟨b₁, b₂, b₃, cs', hb₁, hb₂, hb₃, hvalued, rfl⟩
    refine ⟨_, b₃ ++ cs', ?_, (skipBlanks_append hb₂ _).trans (skipBlanks_cons rfl _), ?_⟩
    · rw [skipBlanks_append hb₁, hk.skipBlanks_append]
    · rw [skipBlanks_append hb₃]
      exact hvalued.skipBlanks
  · rintro ⟨a, r, ha, hr, hvalued⟩
    obtain ⟨b₁, hb₁, h₁⟩ := exists_blanks cs
    obtain ⟨b₂, hb₂, h₂⟩ := exists_blanks a
    obtain ⟨b₃, hb₃, h₃⟩ := exists_blanks r
    exact ⟨b₁, b₂, b₃, _, hb₁, hb₂, hb₃, hvalued, by rw [← h₃, ← hr, ← h₂, ha, ← h₁]⟩

theorem Assigns.unique (hk : Name key) (h : Assigns key cs v rest) (h' : Assigns key cs v' rest') :
    v = v' ∧ rest = rest' := by
  obtain ⟨a, r, ha, hr, hvalued⟩ := (assigns_iff hk).1 h
  obtain ⟨a', r', ha', hr', hvalued'⟩ := (assigns_iff hk).1 h'
  obtain rfl := Option.some.inj (ha.symm.trans ha')
  obtain rfl := (List.cons.inj (hr.symm.trans hr')).2
  exact hvalued.unique hvalued'

theorem assigned?_eq_some_iff (hk : Name key) :
    assigned? key cs = some v ↔ ∃ rest, Assigns key cs v rest := by
  simp only [assigns_iff hk, assigned?, Option.bind_eq_bind, Option.bind_eq_some_iff]
  constructor
  · rintro ⟨a, ha, h⟩
    split at h
    · next r hr =>
      obtain ⟨rest, hvalued⟩ := value?_eq_some_iff.1 h
      exact ⟨rest, a, r, ha, hr, hvalued⟩
    · cases h
  · rintro ⟨rest, a, r, ha, hr, hvalued⟩
    refine ⟨a, ha, ?_⟩
    rw [hr]
    exact value?_eq_some_iff.2 ⟨rest, hvalued⟩

theorem assigned?_eq_none_iff (hk : Name key) :
    assigned? key cs = none ↔ ∀ v rest, ¬Assigns key cs v rest := by
  simp only [Option.eq_none_iff_forall_ne_some, ne_eq, assigned?_eq_some_iff hk, not_exists]

/-- A line that begins with another name has an assignment of `key` only if `key` goes on from
that name. -/
theorem Assigns.isPrefix {other : List Char} (hk : Name key) (ho : Name other) {b : List Char}
    (hb : Blanks b) (h : Assigns key (b ++ (other ++ cs)) v rest) : other <+: key := by
  obtain ⟨a, r, ha, hr, -⟩ := (assigns_iff hk).1 h
  rw [skipBlanks_append hb, ho.skipBlanks_append, List.isPrefixOf?_eq_some_iff_append_eq] at ha
  rcases List.append_eq_append_iff.1 ha.symm with ⟨more, rfl, -⟩ | ⟨more, rfl, rfl⟩
  · exact List.prefix_append ..
  · -- what is left of `other` behind `key` would have to be blanks or begin with the equals sign
    cases more with
    | nil => simp
    | cons c more =>
      have hc := ho.plain c (by simp)
      rw [List.cons_append, skipBlanks_cons hc.1] at hr
      exact absurd (List.cons.inj hr).1 hc.2.1

/-! ## The first assignment -/

theorem mem_afterBreaks {content : List Char} :
    cs ∈ lineStarts.afterBreaks content ↔ ∃ before, content = before ++ '\n' :: cs := by
  fun_induction lineStarts.afterBreaks content with
  | case1 => simp
  | case2 r ih =>
    rw [List.mem_cons, ih]
    constructor
    · rintro (rfl | ⟨before, rfl⟩)
      · exact ⟨[], rfl⟩
      · exact ⟨'\n' :: before, rfl⟩
    · rintro ⟨_ | ⟨c, before⟩, he⟩
      · exact .inl (List.cons.inj he).2.symm
      · exact .inr ⟨before, (List.cons.inj he).2⟩
  | case3 c r hc ih =>
    rw [ih]
    constructor
    · rintro ⟨before, rfl⟩
      exact ⟨c :: before, rfl⟩
    · rintro ⟨_ | ⟨c', before⟩, he⟩
      · exact absurd (List.cons.inj he).1 hc
      · exact ⟨before, (List.cons.inj he).2⟩

theorem lineStarts_eq (content : List Char) :
    lineStarts content = content :: lineStarts.afterBreaks content := by
  cases content <;> rfl

theorem mem_lineStarts {content : List Char} : cs ∈ lineStarts content ↔ LineStart content cs := by
  rw [lineStarts_eq, List.mem_cons, mem_afterBreaks, LineStart]

theorem pairwise_afterBreaks (content : List Char) :
    (lineStarts.afterBreaks content).Pairwise fun a b => b.length < a.length := by
  fun_induction lineStarts.afterBreaks content with
  | case1 => exact .nil
  | case2 r ih =>
    refine .cons (fun a ha => ?_) ih
    obtain ⟨before, rfl⟩ := mem_afterBreaks.1 ha
    simp only [List.length_append, List.length_cons]
    omega
  | case3 _ _ _ ih => exact ih

/-- The starts of lines stand in the order of the text, so each leaves less of it than those
before. -/
theorem pairwise_lineStarts (content : List Char) :
    (lineStarts content).Pairwise fun a b => b.length < a.length := by
  rw [lineStarts_eq]
  refine .cons (fun a ha => ?_) (pairwise_afterBreaks content)
  obtain ⟨before, rfl⟩ := mem_afterBreaks.1 ha
  simp only [List.length_append, List.length_cons]
  omega

theorem findSome?_eq_some_iff_longest {β : Type} {l : List (List Char)} {f : List Char → Option β}
    {x : β} (hl : l.Pairwise fun a b => b.length < a.length) :
    l.findSome? f = some x ↔ ∃ a ∈ l, f a = some x ∧ ∀ b ∈ l, a.length < b.length → f b = none := by
  rw [List.findSome?_eq_some_iff]
  constructor
  · rintro ⟨l₁, a, l₂, rfl, ha, hnone⟩
    refine ⟨a, by simp, ha, fun b hb hlt => ?_⟩
    rw [List.mem_append, List.mem_cons] at hb
    rcases hb with hb | rfl | hb
    · exact hnone b hb
    · omega
    · have := List.rel_of_pairwise_cons (List.pairwise_append.1 hl).2.1 hb
      omega
  · rintro ⟨a, hmem, ha, hnone⟩
    obtain ⟨l₁, l₂, rfl⟩ := List.append_of_mem hmem
    refine ⟨l₁, a, l₂, rfl, ha, fun b hb => hnone b (List.mem_append_left _ hb) ?_⟩
    exact (List.pairwise_append.1 hl).2.2 b hb a (List.mem_cons_self ..)

theorem findSome?_lineStarts {content : List Char} (hk : Name key) :
    (lineStarts content).findSome? (assigned? key) = some v ↔ FirstAssigned key content v := by
  rw [findSome?_eq_some_iff_longest (pairwise_lineStarts content)]
  simp only [mem_lineStarts, assigned?_eq_some_iff hk, assigned?_eq_none_iff hk]
  constructor
  · rintro ⟨a, ha, ⟨rest, hassigns⟩, hfirst⟩
    exact ⟨a, rest, ha, hassigns, hfirst⟩
  · rintro ⟨a, rest, ha, hassigns, hfirst⟩
    exact ⟨a, ha, ⟨rest, hassigns⟩, hfirst⟩

variable {content : String}

theorem field?_eq_some_iff {key value : String} (hk : Name key.toList) :
    field? key content = some value ↔ Field key content value := by
  rw [Field, ← findSome?_lineStarts hk, field?]
  split
  · next h => simp [h]
  · next h =>
    rw [h, Option.some.injEq]
    simp only [reduceCtorEq, false_iff, not_and, not_not]
    exact fun hv => String.toList_eq_nil_iff.1 hv.symm
  · next v hv h =>
    rw [h, Option.some.injEq, Option.some.injEq]
    constructor
    · rintro rfl
      exact ⟨String.toList_ofList.symm, fun he => hv (by simpa using he)⟩
    · rintro ⟨rfl, -⟩
      exact String.ofList_toList

theorem field?_eq_none_iff {key : String} (hk : Name key.toList) :
    field? key content = none ↔ ∀ value, ¬Field key content value := by
  simp only [Option.eq_none_iff_forall_ne_some, ne_eq, field?_eq_some_iff hk]

theorem parse_eq_ok_iff {r : OsRelease} :
    parse content = .ok r ↔
      ∃ id, Field "ID" content id ∧ r.id = lowercase id ∧
        ∀ version, r.versionId = some version ↔ Field "VERSION_ID" content version := by
  simp only [← field?_eq_some_iff name_id, ← field?_eq_some_iff name_versionId, ← Option.ext_iff]
  rw [parse]
  split
  · next h => simp [h]
  · next id h =>
    rw [h, Except.ok.injEq]
    constructor
    · rintro rfl
      exact ⟨id, rfl, rfl, rfl⟩
    · rintro ⟨_, hid', hid, hversion⟩
      cases hid'
      rw [← hid, ← hversion]

theorem parse_eq_error_iff {e : Error} :
    parse content = .error e ↔ e = .missingField "ID" ∧ ∀ id, ¬Field "ID" content id := by
  rw [← field?_eq_none_iff name_id, parse]
  split
  · next h => simp [h, eq_comm]
  · next id h => simp [h]

/-! ## Line breaks -/

/-- `cs` with a carriage return in front of each line break. -/
def crlf (cs : List Char) : List Char :=
  cs.flatMap fun c => if c = '\n' then ['\r', '\n'] else [c]

/-- No character of `cs` is a quotation mark or a carriage return. -/
def Unmarked (cs : List Char) : Prop :=
  ∀ c ∈ cs, c ≠ '"' ∧ c ≠ '\'' ∧ c ≠ '\r'

theorem crlf_break (cs : List Char) : crlf ('\n' :: cs) = '\r' :: '\n' :: crlf cs := rfl

theorem crlf_cons {c : Char} (hc : c ≠ '\n') (cs : List Char) : crlf (c :: cs) = c :: crlf cs := by
  rw [crlf, List.flatMap_cons, if_neg hc]
  rfl

theorem Unmarked.of_suffix {cs' : List Char} (h : Unmarked cs) (hs : cs' <:+ cs) : Unmarked cs' :=
  fun c hc => h c (hs.subset hc)

theorem LineStart.suffix {content : List Char} (h : LineStart content cs) : cs <:+ content := by
  rcases h with rfl | ⟨before, rfl⟩
  · exact List.suffix_rfl
  · exact ⟨before ++ ['\n'], by simp⟩

section Run

variable {p : Char → Bool} (hn : p '\n' = false) (hr : p '\r' = false)
include hn hr

theorem dropWhile_crlf (cs : List Char) : (crlf cs).dropWhile p = crlf (cs.dropWhile p) := by
  induction cs with
  | nil => rfl
  | cons c cs ih =>
    by_cases hc : c = '\n'
    · rw [hc, crlf_break, List.dropWhile_cons_of_neg (by simp [hr]),
        List.dropWhile_cons_of_neg (by simp [hn]), crlf_break]
    · rw [crlf_cons hc, List.dropWhile_cons, List.dropWhile_cons, ih]
      split
      · rfl
      · exact (crlf_cons hc cs).symm

theorem takeWhile_crlf (cs : List Char) : (crlf cs).takeWhile p = cs.takeWhile p := by
  induction cs with
  | nil => rfl
  | cons c cs ih =>
    by_cases hc : c = '\n'
    · rw [hc, crlf_break, List.takeWhile_cons_of_neg (by simp [hr]),
        List.takeWhile_cons_of_neg (by simp [hn])]
    · rw [crlf_cons hc, List.takeWhile_cons, List.takeWhile_cons, ih]

end Run

theorem skipBlanks_crlf (cs : List Char) : skipBlanks (crlf cs) = crlf (skipBlanks cs) :=
  dropWhile_crlf rfl rfl cs

theorem endsLine_crlf (hcs : Unmarked cs) : endsLine (crlf cs) = endsLine cs := by
  have hcs := hcs.of_suffix (List.dropWhile_suffix isLineBlank)
  rw [endsLine, endsLine, skipBlanks_crlf, skipBlanks]
  cases h : cs.dropWhile isLineBlank with
  | nil => rfl
  | cons c r =>
    rw [h] at hcs
    by_cases hc : c = '\n'
    · rw [hc, crlf_break]
      rfl
    · have hr := (hcs c (List.mem_cons_self ..)).2.2
      rw [crlf_cons hc]
      simp [hc, hr]

theorem Unmarked.not_isMark (h : Unmarked cs) {c : Char} (hc : c ∈ cs) : ¬IsMark c :=
  fun hm => hm.elim (h c hc).1 (h c hc).2.1

theorem Unmarked.not_isMark_crlf (h : Unmarked cs) {c : Char} (hc : c ∈ crlf cs) : ¬IsMark c := by
  rw [crlf, List.mem_flatMap] at hc
  obtain ⟨a, ha, hc⟩ := hc
  split_ifs at hc
  · simp only [List.mem_cons, List.not_mem_nil, or_false] at hc
    rcases hc with rfl | rfl <;> simp [IsMark]
  · rw [List.mem_singleton] at hc
    exact hc ▸ h.not_isMark ha

theorem value?_crlf (hcs : Unmarked cs) : value? (crlf cs) = value? cs := by
  rw [value?_bare fun c hc => hcs.not_isMark_crlf (List.mem_of_mem_head? hc),
    value?_bare fun c hc => hcs.not_isMark (List.mem_of_mem_head? hc), dropWhile_crlf rfl rfl,
    takeWhile_crlf rfl rfl, endsLine_crlf (hcs.of_suffix (List.dropWhile_suffix isBare))]

theorem isPrefixOf?_crlf (hk : ∀ c ∈ key, c ≠ '\n' ∧ c ≠ '\r') (cs : List Char) :
    key.isPrefixOf? (crlf cs) = (key.isPrefixOf? cs).map crlf := by
  induction key generalizing cs with
  | nil => rfl
  | cons k key ih =>
    have hk₁ := hk k (List.mem_cons_self ..)
    have ih := ih fun c hc => hk c (List.mem_cons_of_mem _ hc)
    cases cs with
    | nil => rfl
    | cons c cs =>
      by_cases hc : c = '\n'
      · rw [hc, crlf_break, List.isPrefixOf?, List.isPrefixOf?, if_neg (by simpa using hk₁.2),
          if_neg (by simpa using hk₁.1)]
        rfl
      · rw [crlf_cons hc, List.isPrefixOf?, List.isPrefixOf?, ih]
        split <;> rfl

theorem assigned?_crlf (hk : Name key) (hcs : Unmarked cs) :
    assigned? key (crlf cs) = assigned? key cs := by
  have hkey : ∀ c ∈ key, c ≠ '\n' ∧ c ≠ '\r' := fun c hc => (hk.plain c hc).2.2
  rw [assigned?, assigned?, skipBlanks_crlf, isPrefixOf?_crlf hkey]
  cases ha : key.isPrefixOf? (skipBlanks cs) with
  | none => rfl
  | some a =>
    have has : a <:+ cs := by
      have hskip : key ++ a <:+ cs :=
        List.append_eq_of_isPrefixOf?_eq_some ha ▸ List.dropWhile_suffix _
      exact (List.suffix_append ..).trans hskip
    simp only [Option.map_some, Option.bind_eq_bind, Option.bind_some, skipBlanks_crlf]
    cases hr : skipBlanks a with
    | nil => rfl
    | cons c r =>
      have hrs : c :: r <:+ cs := by
        rw [← hr]
        exact (List.dropWhile_suffix _).trans has
      by_cases hc : c = '\n'
      · rw [hc, crlf_break]
        rfl
      · rw [crlf_cons hc]
        by_cases heq : c = '='
        · have hvalue : skipBlanks r <:+ cs :=
            (List.dropWhile_suffix _).trans ((List.suffix_cons c r).trans hrs)
          simp only [heq, skipBlanks_crlf]
          exact value?_crlf (hcs.of_suffix hvalue)
        · split
          · next he => exact absurd (List.cons.inj he).1 heq
          · split
            · next he => exact absurd (List.cons.inj he).1 heq
            · rfl

theorem afterBreaks_crlf (cs : List Char) :
    lineStarts.afterBreaks (crlf cs) = (lineStarts.afterBreaks cs).map crlf := by
  fun_induction lineStarts.afterBreaks cs with
  | case1 => rfl
  | case2 r ih =>
    rw [crlf_break, lineStarts.afterBreaks.eq_3 _ _ (by decide), lineStarts.afterBreaks, ih,
      List.map_cons]
  | case3 c r hc ih => rw [crlf_cons hc, lineStarts.afterBreaks.eq_3 _ _ hc, ih]

theorem findSome?_lineStarts_crlf (hk : Name key) (hcs : Unmarked cs) :
    (lineStarts (crlf cs)).findSome? (assigned? key) =
      (lineStarts cs).findSome? (assigned? key) := by
  have hmap : lineStarts (crlf cs) = (lineStarts cs).map crlf := by
    rw [lineStarts_eq, lineStarts_eq, afterBreaks_crlf, List.map_cons]
  rw [hmap, List.findSome?_map, ← List.head?_filterMap, ← List.head?_filterMap]
  refine congrArg List.head? (List.filterMap_congr fun a ha => ?_)
  exact assigned?_crlf hk (hcs.of_suffix (mem_lineStarts.1 ha).suffix)

theorem field?_crlf {key : String} (hk : Name key.toList) (hcontent : Unmarked content.toList) :
    field? key (String.ofList (crlf content.toList)) = field? key content := by
  rw [field?, field?, String.toList_ofList, findSome?_lineStarts_crlf hk hcontent]

/-- Whether a line ends with a carriage return does not count. -/
theorem parse_crlf (hcontent : Unmarked content.toList) :
    parse (String.ofList (crlf content.toList)) = parse content := by
  rw [parse, parse, field?_crlf name_id hcontent, field?_crlf name_versionId hcontent]

theorem not_assigns_id {other b : List Char} (ho : Name other) (hn : ¬other <+: "ID".toList)
    (hb : Blanks b) : ¬Assigns "ID".toList (b ++ (other ++ cs)) v rest :=
  fun h => hn (h.isPrefix name_id ho hb)

/-- A text has at most one assignment of a key at a line start; the first of each key gives the
field, in lower case for the identifier, and an empty one gives none; a file without an identifier
is an error. Names that contain the key are other keys, and line breaks may be written both ways
where no quoted text contains one. -/
theorem parse_fields (content : String) :
    (∀ key ∈ ["ID", "VERSION_ID"], ∀ cs v rest v' rest', LineStart content.toList cs →
        Assigns key.toList cs v rest → Assigns key.toList cs v' rest' → v = v' ∧ rest = rest') ∧
      (∀ r, parse content = .ok r ↔
        ∃ id, Field "ID" content id ∧ r.id = lowercase id ∧
          ∀ version, r.versionId = some version ↔ Field "VERSION_ID" content version) ∧
      (∀ e, parse content = .error e ↔
        e = .missingField "ID" ∧ ∀ id, ¬Field "ID" content id) ∧
      (∀ other ∈ ["VERSION_ID", "ID_LIKE", "BUILD_ID"], ∀ b cs v rest, Blanks b →
        LineStart content.toList (b ++ (other.toList ++ cs)) →
          ¬Assigns "ID".toList (b ++ (other.toList ++ cs)) v rest) ∧
      (Unmarked content.toList →
        parse (String.ofList (crlf content.toList)) = parse content) := by
  refine ⟨?_, fun _ => parse_eq_ok_iff, fun _ => parse_eq_error_iff, ?_, parse_crlf⟩
  · intro key hkey cs v rest v' rest' _ h h'
    simp only [List.mem_cons, List.not_mem_nil, or_false] at hkey
    rcases hkey with rfl | rfl
    · exact h.unique name_id h'
    · exact h.unique name_versionId h'
  · intro other hother b cs v rest hb _
    simp only [List.mem_cons, List.not_mem_nil, or_false] at hother
    rcases hother with rfl | rfl | rfl <;>
      exact not_assigns_id ⟨by decide, by decide⟩ (by decide) hb

section Sample

/-- Other names stand in front of each key, and the second value of the identifier is too late. -/
def oracleLinux : String := "ID_LIKE=fedora\nVERSION_ID=8.9\n ID = OL\nID=rhel\n"

theorem parse_fields_oracleLinux :
    parse oracleLinux = .ok ⟨"ol", some "8.9"⟩ ∧
      parse (String.ofList (crlf oracleLinux.toList)) = .ok ⟨"ol", some "8.9"⟩ ∧
      (∀ v rest, Assigns "ID".toList " ID = OL\nID=rhel\n".toList v rest → v = "OL".toList) ∧
      ∀ v rest, ¬Assigns "ID".toList oracleLinux.toList v rest := by
  obtain ⟨hunique, hok, -, hother, hcrlf⟩ := parse_fields oracleLinux
  have hid : Field "ID" oracleLinux "OL" :=
    (field?_eq_some_iff name_id).1 (by decide +kernel)
  have hversion : field? "VERSION_ID" oracleLinux = some "8.9" := by decide +kernel
  have hparse : parse oracleLinux = .ok ⟨"ol", some "8.9"⟩ := by
    refine (hok _).2 ⟨"OL", hid, by decide +kernel, fun version => ?_⟩
    rw [← field?_eq_some_iff name_versionId, hversion]
  refine ⟨hparse, (hcrlf ?_).trans hparse, fun v rest h => ?_, fun v rest => ?_⟩
  · have hall : oracleLinux.toList.all (fun c => c != '"' && c != '\'' && c != '\r') = true := by
      decide +kernel
    exact fun c hc => by simpa [and_assoc] using List.all_eq_true.1 hall c hc
  · have hvalue : assigned? "ID".toList " ID = OL\nID=rhel\n".toList = some "OL".toList := by
      decide +kernel
    obtain ⟨rest', h'⟩ := (assigned?_eq_some_iff name_id).1 hvalue
    exact (hunique "ID" (by decide) _ v rest _ rest'
      (.inr ⟨"ID_LIKE=fedora\nVERSION_ID=8.9".toList, by decide +kernel⟩) h h').1
  · exact hother "ID_LIKE" (by decide) [] "=fedora\nVERSION_ID=8.9\n ID = OL\nID=rhel\n".toList v
      rest (by simp [Blanks]) (.inl (by decide +kernel))

end Sample

end Depot.Platform.OsRelease
