import Depot.Archive.Pattern
import Mathlib.Data.List.Chain
import Mathlib.Data.List.Forall2

/-!
# Patterns in blocks

Between the `**` of a pattern stand blocks of words that match names one by one. A search for them
tries all places of every block, but it is enough to put each block as far to the left as it fits
behind the one before (`matches_eq_greedy`): this leaves the most of the path for what follows, and
what follows begins with `**`, which accepts any names in front of those that it needs
(`accepts_of_drop`).
-/

namespace Depot.Archive.Pattern

open Depot.Text

variable {text : String} {p : Pattern} {ws b : List String} {ss s₁ s₂ : List Segment}
  {path : List String} {start i j : Nat}

/-! ## Blocks on a path -/

/-- One `**` in place of several in a row. -/
def collapse : List String → List String
  | [] => []
  | w :: ws => if w = "**" ∧ ws.head? = some "**" then collapse ws else w :: collapse ws

/-- What stands between the `**` in the words of `text`: one block more than there are `**`. -/
def blocks (text : String) : List (List String) :=
  (collapse (Location.names text)).splitOn "**"

def wordMatches (word name : String) : Bool :=
  (Glob.parse? word).any (·.matches name)

/-- Whether the words match the first names of the path one by one. -/
def fits : List String → List String → Bool
  | [], _ => true
  | _ :: _, [] => false
  | w :: ws, n :: ns => wordMatches w n && fits ws ns

/-- The leftmost place from `start` on at which the block fits. -/
def leftmost? (path : List String) (start : Nat) (block : List String) : Option Nat :=
  (List.range' start (path.length + 1 - start)).find? fun i => fits block (path.drop i)

/-- Where the last block ends if each is put at the leftmost place behind the one before. -/
def place? (path : List String) (start : Nat) : List (List String) → Option Nat
  | [] => some start
  | block :: rest => do
    let i ← leftmost? path start block
    place? path (i + block.length) rest

/-- The first block stands at the front and the others where they are placed. An empty block at the
end, behind a `**`, needs one more name. -/
def greedy (path : List String) : List (List String) → Bool
  | [] => false
  | first :: rest =>
    fits first path &&
      (place? path first.length rest).any fun e => rest.getLast? ≠ some [] ∨ e < path.length

theorem length_le_of_fits (h : fits b path = true) : b.length ≤ path.length := by
  fun_induction fits b path with
  | case1 path => exact Nat.zero_le _
  | case2 w ws => cases h
  | case3 w ws n ns ih =>
    rw [Bool.and_eq_true] at h
    exact Nat.succ_le_succ (ih h.2)

theorem leftmost?_eq_some_iff :
    leftmost? path start b = some i ↔ fits b (path.drop i) = true ∧ start ≤ i ∧ i ≤ path.length ∧
      ∀ j, start ≤ j → j < i → fits b (path.drop j) = false := by
  rw [leftmost?, List.find?_range'_eq_some, List.mem_range'_1]
  simp only [Bool.not_eq_true', and_assoc]
  refine and_congr_right fun _ => and_congr_right fun hle => and_congr_left fun _ => ?_
  omega

theorem leftmost?_eq_none_iff :
    leftmost? path start b = none ↔
      ∀ i, start ≤ i → i ≤ path.length → fits b (path.drop i) = false := by
  rw [leftmost?, List.find?_range'_eq_none]
  simp only [Bool.not_eq_true']
  refine forall_congr' fun i => forall_congr' fun hle => ?_
  rw [show i < start + (path.length + 1 - start) ↔ i ≤ path.length by omega]

/-! ## Words and segments -/

/-- Whether the segments are what the words read as. -/
def Spells : List String → List Segment → Prop :=
  List.Forall₂ fun w s => segment? w = some s

theorem spells_of_mapM (h : ws.mapM segment? = some ss) : Spells ws ss := by
  induction ws generalizing ss with
  | nil =>
    obtain rfl := Option.some.inj h
    exact .nil
  | cons w ws ih =>
    simp only [List.mapM_cons, Option.bind_eq_bind, Option.bind_eq_some_iff, Option.pure_def,
      Option.some.injEq] at h
    obtain ⟨s, hs, ss', hss, rfl⟩ := h
    exact .cons hs (ih hss)

theorem spells_of_parse (h : parse text = .ok p) : Spells (Location.names text) p.segments := by
  rw [parse] at h
  split at h
  · next ss hss =>
    cases h
    exact spells_of_mapM hss
  · cases h

theorem segment?_stars {s : Segment} (h : segment? "**" = some s) : s = .anyDepth := by
  rw [segment?, if_pos rfl] at h
  exact (Option.some.inj h).symm

theorem segment?_word {w : String} {s : Segment} (hw : w ≠ "**") (h : segment? w = some s) :
    ∃ g, s = .name g ∧ ∀ n, wordMatches w n = g.matches n := by
  rw [segment?, if_neg hw] at h
  obtain ⟨g, hg, rfl⟩ := Option.map_eq_some_iff.1 h
  exact ⟨g, rfl, fun n => by rw [wordMatches, hg, Option.any_some]⟩

/-! ## What is accepted -/

@[simp] theorem accepts_nil (path : List String) : accepts [] path = true := by
  rw [accepts]

theorem accepts_anyDepth_iff :
    accepts (.anyDepth :: ss) path = true ↔ ∃ i < path.length, accepts ss (path.drop i) = true := by
  induction path with
  | nil => simp [accepts]
  | cons n ns ih =>
    rw [accepts, Bool.or_eq_true, ih]
    constructor
    · rintro (h | ⟨i, hi, h⟩)
      · exact ⟨0, by simp, h⟩
      · exact ⟨i + 1, by simpa using hi, h⟩
    · rintro ⟨i | i, hi, h⟩
      · exact .inl h
      · exact .inr ⟨i, by simpa using hi, h⟩

/-- A block in front of other words has to match what the path begins with. -/
theorem accepts_block (h : Spells (b ++ ws) ss) (hb : "**" ∉ b) :
    ∃ ss', Spells ws ss' ∧ ∀ path, accepts ss path = true ↔
      fits b path = true ∧ accepts ss' (path.drop b.length) = true := by
  induction b generalizing ss with
  | nil => exact ⟨ss, h, fun path => by simp [fits]⟩
  | cons w b ih =>
    rw [List.mem_cons, not_or] at hb
    obtain ⟨s, ss₁, hs, h₁, rfl⟩ := List.forall₂_cons_left_iff.1 h
    obtain ⟨g, rfl, hg⟩ := segment?_word (Ne.symm hb.1) hs
    obtain ⟨ss', hss', hiff⟩ := ih h₁ hb.2
    refine ⟨ss', hss', fun path => ?_⟩
    rcases path with _ | ⟨n, ns⟩
    · simp [accepts, fits]
    · rw [accepts, fits, Bool.and_eq_true, Bool.and_eq_true, hiff, hg, and_assoc]
      rfl

/-- What begins with `**` does not mind more names in front. -/
theorem accepts_of_drop (hopen : ss = [] ∨ ss.head? = some .anyDepth) (hij : i ≤ j)
    (h : accepts ss (path.drop j) = true) : accepts ss (path.drop i) = true := by
  rcases ss with _ | ⟨s, ss⟩
  · simp
  obtain rfl : s = .anyDepth := by simpa using hopen
  rw [accepts_anyDepth_iff] at h ⊢
  obtain ⟨k, hk, h⟩ := h
  rw [List.length_drop] at hk
  rw [List.drop_drop] at h
  refine ⟨j - i + k, by rw [List.length_drop]; omega, ?_⟩
  rwa [List.drop_drop, show i + (j - i + k) = j + k by omega]

theorem accepts_cons_congr {s : Segment} (h : ∀ path, accepts s₁ path = accepts s₂ path) :
    accepts (s :: s₁) path = accepts (s :: s₂) path := by
  cases s with
  | anyDepth =>
    rw [Bool.eq_iff_iff, accepts_anyDepth_iff, accepts_anyDepth_iff]
    simp only [h]
  | name g => cases path <;> simp only [accepts, h]

theorem accepts_anyDepth_twice :
    accepts (.anyDepth :: .anyDepth :: ss) path = accepts (.anyDepth :: ss) path := by
  rw [Bool.eq_iff_iff, accepts_anyDepth_iff]
  constructor
  · rintro ⟨i, -, h⟩
    exact accepts_of_drop (i := 0) (.inr rfl) (Nat.zero_le i) h
  · intro h
    obtain ⟨i, hi, -⟩ := accepts_anyDepth_iff.1 h
    exact ⟨0, by omega, h⟩

theorem accepts_collapse (h : Spells ws ss) :
    ∃ ss', Spells (collapse ws) ss' ∧ ∀ path, accepts ss' path = accepts ss path := by
  induction h with
  | nil => exact ⟨[], .nil, fun _ => rfl⟩
  | @cons w s ws ss hs hss ih =>
    obtain ⟨ss', hss', hsame⟩ := ih
    rw [collapse]
    split_ifs with hw
    · obtain ⟨rfl, hhead⟩ := hw
      obtain rfl := segment?_stars hs
      cases hss with
      | nil => cases hhead
      | cons hs₂ _ =>
        obtain rfl := Option.some.inj hhead
        obtain rfl := segment?_stars hs₂
        exact ⟨ss', hss', fun path => (hsame path).trans accepts_anyDepth_twice.symm⟩
    · exact ⟨s :: ss', .cons hs hss', fun path => accepts_cons_congr hsame⟩

/-! ## Placing the blocks -/

/-- The words that blocks with a `**` before each stand for. -/
def behindStars (bs : List (List String)) : List String :=
  bs.flatMap ("**" :: ·)

theorem head?_of_spells_behindStars {bs : List (List String)} (h : Spells (behindStars bs) ss) :
    ss = [] ∨ ss.head? = some .anyDepth := by
  rcases bs with _ | ⟨b, bs⟩
  · exact .inl (List.forall₂_nil_left_iff.1 h)
  · obtain ⟨s, ss', hs, -, rfl⟩ := List.forall₂_cons_left_iff.1 h
    exact .inr (congrArg some (segment?_stars hs))

/-- What is accepted behind a block at any place is accepted behind it at the leftmost one, so no
other place has to be tried. -/
theorem search_iff_leftmost? (hopen : ss = [] ∨ ss.head? = some .anyDepth) (hb : b ≠ []) :
    (∃ i, start ≤ i ∧ i < path.length ∧ fits b (path.drop i) = true ∧
        accepts ss (path.drop (i + b.length)) = true) ↔
      ∃ i, leftmost? path start b = some i ∧ accepts ss (path.drop (i + b.length)) = true := by
  constructor
  · rintro ⟨i, hle, hi, hfit, hrest⟩
    rcases hleft : leftmost? path start b with _ | k
    · rw [leftmost?_eq_none_iff.1 hleft i hle hi.le] at hfit
      cases hfit
    · obtain ⟨-, -, -, hleast⟩ := leftmost?_eq_some_iff.1 hleft
      have hki : k ≤ i := by
        by_contra hik
        rw [hleast i hle (Nat.not_le.1 hik)] at hfit
        cases hfit
      exact ⟨k, rfl, accepts_of_drop hopen (Nat.add_le_add_right hki _) hrest⟩
  · rintro ⟨i, hleft, hrest⟩
    obtain ⟨hfit, hle, -, -⟩ := leftmost?_eq_some_iff.1 hleft
    have hlength := length_le_of_fits hfit
    have hpos := List.length_pos_iff.2 hb
    rw [List.length_drop] at hlength
    exact ⟨i, hle, by omega, hfit, hrest⟩

theorem leftmost?_nil (h : start ≤ path.length) : leftmost? path start [] = some start :=
  leftmost?_eq_some_iff.2 ⟨rfl, le_rfl, h, fun _ hle hlt => absurd hle (Nat.not_le.2 hlt)⟩

/-- Where no two `**` stand side by side, a search for the blocks succeeds just if they can be
placed one by one. -/
theorem accepts_iff_place? {bs : List (List String)} (hs : Spells (behindStars bs) ss)
    (hbs : ∀ b ∈ bs, "**" ∉ b)
    (hchain : (behindStars bs).IsChain fun v w => ¬(v = "**" ∧ w = "**"))
    (hstart : start ≤ path.length) :
    accepts ss (path.drop start) = true ↔
      ∃ e, place? path start bs = some e ∧ (bs.getLast? = some [] → e < path.length) := by
  induction bs generalizing ss start with
  | nil =>
    obtain rfl := List.forall₂_nil_left_iff.1 hs
    simp [place?]
  | cons b bs ih =>
    obtain ⟨s, ss', hstars, hs', rfl⟩ := List.forall₂_cons_left_iff.1 hs
    obtain rfl := segment?_stars hstars
    have hwords : Spells (b ++ behindStars bs) ss' := hs'
    obtain ⟨ss₁, hs₁, hblock⟩ := accepts_block hwords (hbs b List.mem_cons_self)
    have hsearch : accepts (.anyDepth :: ss') (path.drop start) = true ↔
        ∃ i, start ≤ i ∧ i < path.length ∧ fits b (path.drop i) = true ∧
          accepts ss₁ (path.drop (i + b.length)) = true := by
      rw [accepts_anyDepth_iff]
      simp only [hblock, List.drop_drop, List.length_drop]
      constructor
      · rintro ⟨k, hk, hfit, hrest⟩
        exact ⟨start + k, by omega, by omega, hfit, hrest⟩
      · rintro ⟨i, hle, hi, hfit, hrest⟩
        obtain ⟨k, rfl⟩ := Nat.exists_eq_add_of_le hle
        exact ⟨k, by omega, hfit, hrest⟩
    rw [hsearch]
    rcases eq_or_ne b [] with rfl | hb
    -- only the last block is empty, as two `**` would stand side by side before another one
    · rcases bs with _ | ⟨b', bs⟩
      · obtain rfl := List.forall₂_nil_left_iff.1 hs₁
        simp only [fits, accepts_nil, place?, leftmost?_nil hstart, and_true, Option.bind_eq_bind,
          Option.bind_some, List.length_nil, Nat.add_zero, Option.some.injEq, exists_eq_left',
          List.getLast?_singleton, forall_const]
        exact ⟨fun ⟨i, hle, hi⟩ => hle.trans_lt hi, fun h => ⟨start, le_rfl, h⟩⟩
      · cases hchain with
        | cons_cons h _ => exact absurd ⟨rfl, rfl⟩ h
    · have hlast : (b :: bs).getLast? = some [] ↔ bs.getLast? = some [] := by
        cases bs with
        | nil => simp [hb]
        | cons b' bs => rw [List.getLast?_cons_cons]
      rw [search_iff_leftmost? (head?_of_spells_behindStars hs₁) hb]
      rcases hleft : leftmost? path start b with _ | i
      · simp [place?, hleft]
      · obtain ⟨hfit, -, hi, -⟩ := leftmost?_eq_some_iff.1 hleft
        have hlength := length_le_of_fits hfit
        rw [List.length_drop] at hlength
        have hend : i + b.length ≤ path.length := by omega
        have hrest := ih hs₁ (fun c hc => hbs c (List.mem_cons_of_mem b hc))
          (hchain.tail.right_of_append) hend
        simp only [Option.some.injEq, exists_eq_left', hrest, place?, hleft, Option.bind_eq_bind,
          Option.bind_some, hlast]

theorem splitOn_stars (ws : List String) :
    ∃ first rest, ws.splitOn "**" = first :: rest ∧ ws = first ++ behindStars rest ∧
      "**" ∉ first ∧ ∀ b ∈ rest, "**" ∉ b := by
  induction ws with
  | nil => exact ⟨[], [], by simp [behindStars]⟩
  | cons w ws ih =>
    obtain ⟨first, rest, hsplit, hws, hfirst, hrest⟩ := ih
    rw [List.splitOn_cons_eq_if_modifyHead, hsplit]
    by_cases hw : w = "**"
    · refine ⟨[], first :: rest, by simp [hw], ?_, List.not_mem_nil, ?_⟩
      · rw [hw, hws]
        rfl
      · exact List.forall_mem_cons.2 ⟨hfirst, hrest⟩
    · refine ⟨w :: first, rest, by simp [hw], by rw [hws]; rfl, ?_, hrest⟩
      rw [List.mem_cons, not_or]
      exact ⟨Ne.symm hw, hfirst⟩

theorem head?_collapse (ws : List String) : (collapse ws).head? = ws.head? := by
  induction ws with
  | nil => rfl
  | cons w ws ih =>
    rw [collapse]
    split_ifs with hw
    · rw [ih, hw.2, hw.1, List.head?_cons]
    · rfl

theorem isChain_collapse (ws : List String) :
    (collapse ws).IsChain fun v w => ¬(v = "**" ∧ w = "**") := by
  induction ws with
  | nil => exact .nil
  | cons w ws ih =>
    rw [collapse]
    split_ifs with hw
    · exact ih
    · refine List.isChain_cons.2 ⟨fun v hv => ?_, ih⟩
      rintro ⟨rfl, rfl⟩
      exact hw ⟨rfl, head?_collapse ws ▸ hv⟩

/-- Every pattern that is read accepts just the paths on which its blocks can be put from the left,
the first one at the front and each of the others at the leftmost place that is left to it. -/
theorem matches_eq_greedy (h : parse text = .ok p) (path : List String) :
    p.matches path = greedy path (blocks text) := by
  obtain ⟨ss, hss, hsame⟩ := accepts_collapse (spells_of_parse h)
  have hchain := isChain_collapse (Location.names text)
  obtain ⟨first, rest, hsplit, hws, hfirst, hrest⟩ := splitOn_stars (collapse (Location.names text))
  rw [hws] at hss hchain
  obtain ⟨ss', hss', hblock⟩ := accepts_block hss hfirst
  rw [Pattern.matches, ← hsame, blocks, hsplit, greedy, Bool.eq_iff_iff, hblock, Bool.and_eq_true]
  refine and_congr_right fun hfit => ?_
  rw [accepts_iff_place? hss' hrest hchain.right_of_append (length_le_of_fits hfit),
    Option.any_eq_true]
  simp only [decide_eq_true_eq, ne_eq, imp_iff_not_or]

/-- The middle block is put at the second name, so that the last `**` still finds one behind it. -/
theorem matches_eq_greedy_sample :
    ∃ p, parse "a/./**/**//b*/**" = .ok p ∧
      blocks "a/./**/**//b*/**" = [["a"], ["b*"], []] ∧
      p.matches ["a", "b1", "b2"] = true ∧ p.matches ["a", "c", "b2"] = false := by
  have hp : parse "a/./**/**//b*/**" = .ok ⟨[.name ⟨[.one 'a']⟩, .anyDepth, .anyDepth,
      .name ⟨[.one 'b', .anyRun]⟩, .anyDepth]⟩ := by decide +kernel
  refine ⟨_, hp, by decide +kernel, ?_, ?_⟩
  · rw [matches_eq_greedy hp]
    decide +kernel
  · rw [matches_eq_greedy hp]
    decide +kernel

end Depot.Archive.Pattern
