import Depot.CommandLine.Basic
import Depot.Settings.Environment
import Depot.Settings.Literal
import Mathlib.Data.Option.Basic
import Mathlib.Tactic.SplitIfs

/-!
# Settings as values

A value for every setting makes settings just if all values are of the right kind, and these are
refused just if one of the values is (`outcome_validate`).
-/

namespace Depot.Settings

/-- The settings that a layer may give. -/
inductive Field where
  | cacheDir
  | manifestUrl
  | edition
  | retries
  | timeout
  deriving DecidableEq, Repr

/-- What a setting is called in a file. -/
def Field.key : Field → String
  | .cacheDir => "cache_dir"
  | .manifestUrl => "manifest_url"
  | .edition => "edition"
  | .retries => "retries"
  | .timeout => "timeout"

theorem Field.key_injective : Function.Injective Field.key := by
  intro f g h
  cases f <;> cases g <;> first | rfl | exact absurd h (by decide)

variable {env : Environment} {account : Option String} {f : Field} {s : Settings}
  {values : Field → Option Literal}

namespace Field

/-- Whether a value is of the kind and in the range of a setting. -/
def Fits : Field → Literal → Prop
  | .cacheDir, .text _ | .manifestUrl, .text _ | .edition, .text _ => True
  | .retries, .integer n => 0 ≤ n ∧ n < 2 ^ 32
  | .timeout, .integer n => 0 ≤ n ∧ n < 2 ^ 64
  | _, _ => False

/-- The default; a timeout has none. -/
def default? (env : Environment) (account : Option String) : Field → Option Literal
  | .cacheDir => some (.text (env.cacheDirectory account))
  | .manifestUrl => some (.text defaultManifestUrl)
  | .edition => some (.text defaultEdition)
  | .retries => some (.integer 0)
  | .timeout => none

end Field

/-- The settings as values. -/
def value? (s : Settings) : Field → Option Literal
  | .cacheDir => some (.text s.cacheDir)
  | .manifestUrl => some (.text s.manifestUrl)
  | .edition => some (.text s.edition)
  | .retries => some (.integer s.retries)
  | .timeout => s.timeout.map fun n : Nat => .integer n

/-- All values are of the right kind. -/
def AllFit (values : Field → Option Literal) : Prop :=
  ∀ f x, values f = some x → f.Fits x

def Blank (v : Option Literal) : Prop :=
  ∃ s, v = some (.text s) ∧ isBlankText s

/-- Values of the right kind that are refused nevertheless. -/
def Refused (values : Field → Option Literal) : Prop :=
  Blank (values .manifestUrl) ∨ Blank (values .edition) ∨ values .timeout = some (.integer 0)

/-- How loading ends where `values` count. -/
structure Outcome (values : Field → Option Literal) (r : Except Error Settings) : Prop where
  unreadable_iff : r = .error .unreadable ↔ ∃ f x, values f = some x ∧ ¬ f.Fits x
  invalid_iff : (∃ reason, r = .error (.invalid reason)) ↔ AllFit values ∧ Refused values
  ok_iff : ∀ s, r = .ok s ↔ s.value? = values ∧ AllFit values ∧ ¬ Refused values
  found : ∀ path, r ≠ .error (.notFound path)

theorem default?_fits (env : Environment) (account : Option String) :
    AllFit fun f => f.default? env account := by
  rintro (_ | _ | _ | _ | _) x h <;> cases h
  case retries => exact ⟨Int.le_refl 0, by decide⟩
  all_goals trivial

theorem default?_not_refused (env : Environment) (account : Option String) :
    ¬ Refused fun f => f.default? env account := by
  rintro (⟨s, hs, hblank⟩ | ⟨s, hs, hblank⟩ | h)
  · cases hs
    exact absurd hblank (by decide)
  · cases hs
    exact absurd hblank (by decide)
  · cases h

namespace Field

theorem Fits.exists_text {x : Literal} (hf : f = .cacheDir ∨ f = .manifestUrl ∨ f = .edition)
    (h : f.Fits x) : ∃ s, x = .text s := by
  cases x with
  | text s => exact ⟨s, rfl⟩
  | integer | other => rcases hf with rfl | rfl | rfl <;> exact h.elim

theorem Fits.exists_integer {x : Literal} (hf : f = .retries ∨ f = .timeout) (h : f.Fits x) :
    ∃ n : Nat, x = .integer n := by
  cases x with
  | integer n =>
    have hpos : 0 ≤ n := by rcases hf with rfl | rfl <;> exact h.1
    exact ⟨n.toNat, by rw [Int.toNat_of_nonneg hpos]⟩
  | text | other => rcases hf with rfl | rfl <;> exact h.elim

end Field

/-- Values of the right kind are those of some settings; a timeout may be missing. -/
theorem exists_value?_eq (hfit : AllFit values) (hall : ∀ f, f ≠ .timeout → values f ≠ none) :
    ∃ s : Settings, s.value? = values := by
  obtain ⟨x, hx⟩ := Option.ne_none_iff_exists'.1 (hall .cacheDir (by decide))
  obtain ⟨y, hy⟩ := Option.ne_none_iff_exists'.1 (hall .manifestUrl (by decide))
  obtain ⟨z, hz⟩ := Option.ne_none_iff_exists'.1 (hall .edition (by decide))
  obtain ⟨n, hn⟩ := Option.ne_none_iff_exists'.1 (hall .retries (by decide))
  obtain ⟨cacheDir, rfl⟩ := (hfit _ _ hx).exists_text (by decide)
  obtain ⟨manifestUrl, rfl⟩ := (hfit _ _ hy).exists_text (by decide)
  obtain ⟨edition, rfl⟩ := (hfit _ _ hz).exists_text (by decide)
  obtain ⟨retries, rfl⟩ := (hfit _ _ hn).exists_integer (by decide)
  have htimeout : ∃ timeout : Option Nat,
      values .timeout = timeout.map fun n : Nat => .integer n := by
    rcases ht : values .timeout with _ | v
    · exact ⟨none, rfl⟩
    · obtain ⟨n, rfl⟩ := (hfit _ _ ht).exists_integer (by decide)
      exact ⟨some n, rfl⟩
  obtain ⟨timeout, ht⟩ := htimeout
  refine ⟨⟨cacheDir, manifestUrl, edition, retries, timeout⟩, funext fun f => ?_⟩
  cases f
  case cacheDir => exact hx.symm
  case manifestUrl => exact hy.symm
  case edition => exact hz.symm
  case retries => exact hn.symm
  case timeout => exact ht.symm

theorem value?_eq_iff :
    s.value? = values ↔
      values .cacheDir = some (.text s.cacheDir) ∧
      values .manifestUrl = some (.text s.manifestUrl) ∧
      values .edition = some (.text s.edition) ∧
      values .retries = some (.integer s.retries) ∧
      values .timeout = s.timeout.map fun n : Nat => .integer n := by
  constructor
  · rintro rfl
    exact ⟨rfl, rfl, rfl, rfl, rfl⟩
  · rintro ⟨hc, hm, he, hr, ht⟩
    funext f
    cases f
    case cacheDir => exact hc.symm
    case manifestUrl => exact hm.symm
    case edition => exact he.symm
    case retries => exact hr.symm
    case timeout => exact ht.symm

theorem value?_injective : Function.Injective value? := by
  rintro ⟨_, _, _, retries, timeout⟩ ⟨_, _, _, retries', timeout'⟩ h
  obtain ⟨hc, hm, he, hr, ht⟩ := value?_eq_iff.1 h
  cases hc
  cases hm
  cases he
  have hinteger : Function.Injective fun n : Nat => Literal.integer n := fun m n hmn =>
    Int.ofNat.inj (Literal.integer.inj hmn)
  obtain rfl : retries' = retries := hinteger (Option.some.inj hr)
  obtain rfl : timeout' = timeout := Option.map_injective hinteger ht
  rfl

theorem allFit_value?_iff :
    AllFit s.value? ↔ s.retries < 2 ^ 32 ∧ ∀ n ∈ s.timeout, n < 2 ^ 64 := by
  constructor
  · intro h
    refine ⟨Int.ofNat_lt.1 (h .retries _ rfl).2, fun n hn => ?_⟩
    have ht : s.value? .timeout = some (.integer n) := by rw [value?, hn, Option.map_some]
    exact Int.ofNat_lt.1 (h .timeout _ ht).2
  · rintro ⟨hr, ht⟩ (_ | _ | _ | _ | _) x hx
    case retries =>
      cases hx
      exact ⟨Int.natCast_nonneg _, Int.ofNat_lt.2 hr⟩
    case timeout =>
      obtain ⟨n, hn, rfl⟩ := Option.map_eq_some_iff.1 hx
      exact ⟨Int.natCast_nonneg _, Int.ofNat_lt.2 (ht n hn)⟩
    all_goals
      cases hx
      trivial

theorem not_allFit_iff : ¬ AllFit values ↔ ∃ f x, values f = some x ∧ ¬ f.Fits x := by
  simp only [AllFit, not_forall, exists_prop]

theorem blank_text_iff {text : String} : Blank (some (.text text)) ↔ isBlankText text := by
  simp [Blank]

theorem refused_value?_iff :
    Refused s.value? ↔
      isBlankText s.manifestUrl ∨ isBlankText s.edition ∨ s.timeout = some 0 := by
  have htimeout : s.value? .timeout = some (.integer 0) ↔ s.timeout = some 0 := by
    simp only [value?, Option.map_eq_some_iff, Literal.integer.injEq, Int.natCast_eq_zero,
      exists_eq_right]
  rw [Refused, htimeout]
  simp only [value?, blank_text_iff]

theorem validate_cases (s : Settings) :
    s.validate = .ok s ∧ ¬ Refused s.value? ∨
      (∃ reason, s.validate = .error (.invalid reason)) ∧ Refused s.value? := by
  rw [validate, refused_value?_iff]
  split_ifs with hm he ht
  · exact .inr ⟨⟨_, rfl⟩, .inl hm⟩
  · exact .inr ⟨⟨_, rfl⟩, .inr (.inl he)⟩
  · exact .inr ⟨⟨_, rfl⟩, .inr (.inr ht)⟩
  · exact .inl ⟨rfl, by simp [hm, he, ht]⟩

theorem validate_eq_ok_iff {s' : Settings} :
    s.validate = .ok s' ↔ s' = s ∧ ¬ Refused s.value? := by
  rcases validate_cases s with ⟨h, hno⟩ | ⟨⟨reason, h⟩, hyes⟩ <;> rw [h]
  · simp [hno, eq_comm]
  · simp [hyes]

/-- What arguments change is never refused. -/
theorem refused_configure (a : Arguments) (s : Settings) :
    Refused (a.configure s).value? ↔ Refused s.value? := by
  simp only [refused_value?_iff, Arguments.configure]

theorem outcome_validate (hfit : AllFit s.value?) : Outcome s.value? s.validate where
  unreadable_iff := by
    refine iff_of_false (fun h => ?_) fun h => not_allFit_iff.2 h hfit
    rcases validate_cases s with ⟨h', -⟩ | ⟨⟨reason, h'⟩, -⟩ <;> cases h'.symm.trans h
  invalid_iff := by
    rcases validate_cases s with ⟨h, hno⟩ | ⟨h, hyes⟩
    · rw [h]
      exact iff_of_false nofun fun h' => hno h'.2
    · exact iff_of_true h ⟨hfit, hyes⟩
  ok_iff s' := by
    rw [validate_eq_ok_iff, value?_injective.eq_iff, and_iff_right hfit]
  found path h := by
    rcases validate_cases s with ⟨h', -⟩ | ⟨⟨reason, h'⟩, -⟩ <;> cases h'.symm.trans h

theorem outcome_unreadable (hfit : ¬ AllFit values) : Outcome values (.error .unreadable) where
  unreadable_iff := iff_of_true rfl (not_allFit_iff.1 hfit)
  invalid_iff := iff_of_false nofun fun h => hfit h.1
  ok_iff _ := iff_of_false nofun fun h => hfit h.2.1
  found _ := nofun

end Depot.Settings
