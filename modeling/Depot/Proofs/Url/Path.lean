import Depot.Proofs.Bytes
import Depot.Url.Parser
import Mathlib.Data.List.Basic

/-!
# The segments of a path

A path is split at its slashes, its dots are carried out while it is read, and what is left of it is
escaped. So a segment of a URL holds no slash and no control character, and is not a dot or two
(`isSegment_of_mem_path`).
-/

namespace Depot.Url

variable {file : Bool} {c : Char} {s : List Char} {naming : Naming}

/-- A segment that is not a step to where one is or one level up. -/
def Proper (s : List Char) : Prop :=
  s ≠ ['.'] ∧ s ≠ ['.', '.']

/-- A character that is escaped leaves something behind, but no dot. -/
theorem escapeChar_cases (c : Char) :
    escapeChar c = [c] ∨ ∃ x xs, escapeChar c = x :: xs ∧ x ≠ '.' := by
  unfold escapeChar
  split
  · right
    have hne : c.toString.toUTF8.toList ≠ [] := by
      intro h
      have hsize := congrArg List.length h
      rw [Bytes.length_toList] at hsize
      have hpos := c.utf8Size_pos
      have : c.toString.toUTF8.size = c.utf8Size := String.utf8ByteSize_singleton
      rw [List.length_nil] at hsize
      omega
    obtain ⟨b, bs, hb⟩ := List.exists_cons_of_ne_nil hne
    rw [hb, List.flatMap_cons, escapeByte]
    exact ⟨'%', _, rfl, by decide⟩
  · exact .inl rfl

/-- Escaping makes no dots. -/
theorem eq_of_escape_eq {n : Nat} (h : escape s = List.replicate n '.') :
    s = List.replicate n '.' := by
  induction s generalizing n with
  | nil =>
    rcases n with _ | n
    · rfl
    · simp [escape] at h
  | cons c s ih =>
    rw [escape, List.flatMap_cons] at h
    rcases escapeChar_cases c with hc | ⟨x, xs, hc, hx⟩ <;> rw [hc] at h <;>
      rcases n with _ | n <;> simp only [List.cons_append, List.nil_append, List.replicate_succ,
        List.replicate_zero, List.cons.injEq, reduceCtorEq] at h
    · rw [h.1, ih h.2, List.replicate_succ]
    · exact absurd h.1 hx

theorem proper_escape (h : Proper s) : Proper (escape s) :=
  ⟨fun he => h.1 (eq_of_escape_eq (n := 1) he), fun he => h.2 (eq_of_escape_eq (n := 2) he)⟩

theorem proper_drive (h : Proper s) : Proper (drive s) := by
  unfold drive
  split_ifs with hd
  · rcases s with _ | ⟨a, _ | ⟨b, _ | ⟨d, s⟩⟩⟩ <;> simp [isDrive] at hd
    simp [Proper]
  · exact h

theorem proper_of_not_dots (h1 : ¬isParent s) (h2 : ¬isHere s) : Proper s := by
  constructor <;> rintro rfl
  · exact h2 (by decide)
  · exact h1 (by decide)

/-! ## What escaping leaves -/

def escapeAlphabet : List Char := "%0123456789ABCDEF".toList

theorem mem_escapeByte {b : UInt8} (h : c ∈ escapeByte b) : c ∈ escapeAlphabet := by
  have hdigit : ∀ n < 16, (Nat.digitChar n).toUpper ∈ escapeAlphabet := by decide
  have hb := b.toNat_lt
  simp only [escapeByte, List.mem_cons, List.not_mem_nil, or_false] at h
  rcases h with rfl | rfl | rfl
  · decide
  · exact hdigit _ (by omega)
  · exact hdigit _ (by omega)

/-- What stands in an escaped text stood there before, or belongs to an escaped byte. -/
theorem mem_escape (h : c ∈ escape s) : (c ∈ s ∧ isEscaped c = false) ∨ c ∈ escapeAlphabet := by
  obtain ⟨a, ha, hc⟩ := List.mem_flatMap.1 h
  unfold escapeChar at hc
  split at hc
  · obtain ⟨b, -, hb⟩ := List.mem_flatMap.1 hc
    exact .inr (mem_escapeByte hb)
  · next hplain =>
    obtain rfl := List.mem_singleton.1 hc
    exact .inl ⟨ha, Bool.not_eq_true _ ▸ hplain⟩

theorem slash_notMem_drive (h : '/' ∉ s) : '/' ∉ drive s := by
  unfold drive
  split_ifs
  · rw [List.mem_append, not_or]
    exact ⟨fun hs => h (List.mem_of_mem_take hs), by decide⟩
  · exact h

/-- A segment as it stands in a URL. -/
def IsSegment (t : List Char) : Prop :=
  ∃ s, Proper s ∧ '/' ∉ s ∧ t = escape s

theorem isSegment_nil : IsSegment [] :=
  ⟨[], by simp [Proper], List.not_mem_nil, rfl⟩

namespace IsSegment

theorem proper (h : IsSegment s) : Proper s := by
  obtain ⟨s, hs, -, rfl⟩ := h
  exact proper_escape hs

theorem slash_notMem (h : IsSegment s) : '/' ∉ s := by
  obtain ⟨s, -, hs, rfl⟩ := h
  intro hc
  rcases mem_escape hc with ⟨hc, -⟩ | hc
  · exact hs hc
  · exact absurd hc (by decide)

theorem nul_notMem (h : IsSegment s) : '\x00' ∉ s := by
  obtain ⟨s, -, -, rfl⟩ := h
  intro hc
  rcases mem_escape hc with ⟨-, hc⟩ | hc
  · exact absurd hc (by decide)
  · exact absurd hc (by decide)

end IsSegment

/-! ## Reading a path -/

/-- No piece holds the character that it was cut at. -/
theorem notMem_of_mem_splitOn {text : List Char} (h : s ∈ text.splitOn c) : c ∉ s := by
  rw [List.splitOn_eq_splitOnP] at h
  induction text generalizing s with
  | nil =>
    rw [List.splitOnP_nil, List.mem_singleton] at h
    rw [h]
    exact List.not_mem_nil
  | cons d text ih =>
    rw [List.splitOnP_cons_eq_if_modifyHead] at h
    split_ifs at h with hd
    · rcases List.mem_cons.1 h with rfl | h
      · exact List.not_mem_nil
      · exact ih h
    · obtain ⟨t, ts, ht⟩ := List.exists_cons_of_ne_nil (List.splitOnP_ne_nil (· == c) text)
      rw [ht, List.modifyHead_cons] at h
      rw [ht] at ih
      rcases List.mem_cons.1 h with rfl | h
      · have hne : c ≠ d := fun he => hd (beq_iff_eq.2 he.symm)
        exact List.not_mem_cons_of_ne_of_not_mem hne (ih List.mem_cons_self)
      · exact ih (List.mem_cons_of_mem _ h)

theorem mem_of_mem_shorten {done : List (List Char)} (h : s ∈ shorten file done) : s ∈ done := by
  rcases done with _ | ⟨a, _ | ⟨b, ss⟩⟩
  · exact h
  · simp only [shorten] at h
    split_ifs at h
    · exact h
    · simp at h
  · exact List.mem_cons_of_mem _ h

theorem isSegment_of_mem_follow :
    ∀ {raw done : List (List Char)}, (∀ s ∈ raw, '/' ∉ s) → (∀ s ∈ done, IsSegment s) →
      ∀ s ∈ follow file done raw, IsSegment s
  | [], done, _, h => by
    simpa [follow] using h
  | a :: raw, done, hraw, h => by
    have hlast : ∀ s ∈ (if raw = [] then [[]] else [] : List (List Char)), IsSegment s := by
      split_ifs <;> simp [isSegment_nil]
    have hraw' : ∀ s ∈ raw, '/' ∉ s := fun s hs => hraw s (List.mem_cons_of_mem _ hs)
    rw [follow]
    by_cases h1 : isParent a
    · rw [if_pos h1]
      refine isSegment_of_mem_follow hraw' fun s hs => ?_
      rcases List.mem_append.1 hs with hs | hs
      · exact hlast s hs
      · exact h s (mem_of_mem_shorten hs)
    by_cases h2 : isHere a
    · rw [if_neg h1, if_pos h2]
      refine isSegment_of_mem_follow hraw' fun s hs => ?_
      rcases List.mem_append.1 hs with hs | hs
      · exact hlast s hs
      · exact h s hs
    · rw [if_neg h1, if_neg h2]
      refine isSegment_of_mem_follow hraw' fun s hs => ?_
      rcases List.mem_cons.1 hs with rfl | hs
      · have ha := proper_of_not_dots h1 h2
        have hslash := hraw a (List.mem_cons_self ..)
        split_ifs
        · exact ⟨_, proper_drive ha, slash_notMem_drive hslash, rfl⟩
        · exact ⟨_, ha, hslash, rfl⟩
      · exact h s hs

theorem isSegment_of_mem_segments {text : List Char} (h : s ∈ segments file text) : IsSegment s :=
  isSegment_of_mem_follow (fun _ => notMem_of_mem_splitOn) (by simp) s h

theorem isSegment_of_mem_pathOf {text : List Char} (h : s ∈ pathOf file text) : IsSegment s := by
  rcases text with _ | ⟨c, text⟩
  · simp [pathOf] at h
  · exact isSegment_of_mem_segments h

/-- What `make` is given as path. -/
theorem mem_path_make {scheme host : List Char} {path : List (List Char)} {n : String}
    (h : n ∈ (make scheme host path).path) : ∃ s ∈ path, n = String.ofList s := by
  obtain ⟨s, hs, rfl⟩ := List.mem_map.1 h
  exact ⟨s, hs, rfl⟩

theorem isSegment_of_mem_path {text n : String} {u : Url} (hu : parse? naming text = some u)
    (hn : n ∈ u.path) : ∃ s, IsSegment s ∧ n = String.ofList s := by
  have key : ∀ {scheme host : List Char} {path : List (List Char)},
      make scheme host path = u → (∀ s ∈ path, IsSegment s) →
        ∃ s, IsSegment s ∧ n = String.ofList s := by
    rintro scheme host path rfl hp
    obtain ⟨s, hs, rfl⟩ := mem_path_make hn
    exact ⟨s, hp s hs, rfl⟩
  simp only [parse?, Option.bind_eq_bind, Option.bind_eq_some_iff] at hu
  obtain ⟨⟨scheme, rest⟩, -, hu⟩ := hu
  split at hu
  · simp only [web?, Option.bind_eq_bind, Option.bind_eq_some_iff, Option.pure_def,
      Option.some.injEq] at hu
    obtain ⟨host, -, hu⟩ := hu
    exact key hu fun s hs => isSegment_of_mem_pathOf hs
  · unfold file? at hu
    have hplain : ∀ {cs : List Char},
        make "file".toList [] (segments true cs) = u → ∃ s, IsSegment s ∧ n = String.ofList s :=
      fun h => key h fun s hs => isSegment_of_mem_segments hs
    split at hu
    · dsimp only at hu
      split_ifs at hu
      · exact hplain (Option.some.inj hu)
      all_goals
        simp only [Option.bind_eq_bind, Option.bind_eq_some_iff, Option.pure_def,
          Option.some.injEq] at hu
        obtain ⟨name, -, hu⟩ := hu
        exact key hu fun s hs => isSegment_of_mem_segments hs
    · exact hplain (Option.some.inj hu)
    · exact hplain (Option.some.inj hu)
  · unfold other? at hu
    split at hu
    · simp only [Option.bind_eq_bind, Option.bind_eq_some_iff, Option.pure_def,
        Option.some.injEq] at hu
      obtain ⟨host, -, hu⟩ := hu
      exact key hu fun s hs => isSegment_of_mem_pathOf hs
    · exact key (Option.some.inj hu) fun s hs => isSegment_of_mem_segments hs
    · exact key (Option.some.inj hu) (by simp)

theorem isSegment_of_fileName? {text n : String} {u : Url} (hu : parse? naming text = some u)
    (hn : u.fileName? = some n) : n ≠ "" ∧ ∃ s, IsSegment s ∧ n = String.ofList s := by
  rw [fileName?, Option.filter_eq_some_iff] at hn
  exact ⟨of_decide_eq_true hn.2, isSegment_of_mem_path hu (List.mem_of_getLast? hn.1)⟩

/-- The name of the file that a URL leads to is no step. -/
theorem fileName?_plain {text n : String} {u : Url} (hu : parse? naming text = some u)
    (hn : u.fileName? = some n) : n ≠ ".." ∧ n ≠ "." := by
  obtain ⟨-, s, hs, rfl⟩ := isSegment_of_fileName? hu hn
  obtain ⟨h1, h2⟩ := hs.proper
  constructor <;> intro h <;> have hl := congrArg String.toList h <;> simp at hl
  · exact h2 hl
  · exact h1 hl

end Depot.Url
