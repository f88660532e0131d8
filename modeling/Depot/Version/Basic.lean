/-!
# Server versions

A version is three numbers with a stage of maturity. Versions are ordered by their numbers, then
by stage, then by the number of the pre-release.
-/

namespace Depot

/-- Stages of one `major.minor.patch` in ascending order of maturity. `series` stands for a whole
release series, which has no patch number. -/
inductive Stage where
  | series
  | alpha
  | beta
  | releaseCandidate
  | release
  deriving DecidableEq, Repr

namespace Stage

def rank : Stage → Nat
  | .series => 0
  | .alpha => 1
  | .beta => 2
  | .releaseCandidate => 3
  | .release => 4

def tag? : Stage → Option String
  | .alpha => some "alpha"
  | .beta => some "beta"
  | .releaseCandidate => some "rc"
  | .series | .release => none

def ofTag? (tag : String) : Option Stage :=
  [alpha, beta, releaseCandidate].find? (·.tag? == some tag)

end Stage

structure Version where
  major : Nat
  minor : Nat
  patch : Nat
  stage : Stage
  /-- The number after the tag, zero where there is none. -/
  number : Nat
  deriving DecidableEq, Repr

namespace Version

def isStable (v : Version) : Bool :=
  v.stage == .release

/-- Stable and outside the long term lines, whose minor number is zero. -/
def isRapid (v : Version) : Bool :=
  v.isStable && v.minor != 0

def compare (a b : Version) : Ordering :=
  (Ord.compare a.major b.major).then <|
  (Ord.compare a.minor b.minor).then <|
  (Ord.compare a.patch b.patch).then <|
  (Ord.compare a.stage.rank b.stage.rank).then <|
  Ord.compare a.number b.number

instance : Ord Version := ⟨compare⟩

def render (v : Version) : String :=
  match v.stage with
  | .series => s!"{v.major}.{v.minor}"
  | stage =>
    let numbers := s!"{v.major}.{v.minor}.{v.patch}"
    match stage.tag? with
    | some tag => s!"{numbers}-{tag}{v.number}"
    | none => numbers

instance : ToString Version := ⟨render⟩

inductive Error where
  | malformed (text : String)
  | unknownTag (text tag : String)
  deriving DecidableEq, Repr

def Error.message : Error → String
  | .malformed text => s!"invalid version: {text}"
  | .unknownTag text tag => s!"unknown pre-release tag \"{tag}\" in version {text}"

def Error.isRetryable (_ : Error) : Bool := false

end Version

end Depot
