/-!
# Shell patterns

A pattern for one name: `*` is any run of characters, `?` any one of them, `[…]` one of a class and
`[!…]` one outside it. `parse?` refuses two stars in a row and a class that is not closed.
-/

namespace Depot.Text

/-- A member of a character class: the characters from `first` to `last`. -/
structure CharSpan where
  first : Char
  last : Char
  deriving DecidableEq, Repr

def CharSpan.contains (s : CharSpan) (c : Char) : Bool :=
  s.first ≤ c && c ≤ s.last

namespace Glob

inductive Token where
  | one (c : Char)
  | anyOne
  | anyRun
  | within (spans : List CharSpan)
  | outside (spans : List CharSpan)
  deriving DecidableEq, Repr

/-- A dash between two characters makes a span, anything else stands for itself. -/
def spans : List Char → List CharSpan
  | a :: '-' :: b :: r => ⟨a, b⟩ :: spans r
  | a :: r => ⟨a, a⟩ :: spans r
  | [] => []

/-- The class that `cs` opens with, a first closing bracket being part of it, and what follows. -/
def classOf? : List Char → Option (List CharSpan × List Char)
  | [] => none
  | c :: r =>
    match r.dropWhile (· ≠ ']') with
    | [] => none
    | _ :: rest => some (spans (c :: r.takeWhile (· ≠ ']')), rest)

theorem classOf?_length {cs : List Char} {x : List CharSpan × List Char}
    (h : classOf? cs = some x) : x.2.length < cs.length := by
  cases cs with
  | nil => simp [classOf?] at h
  | cons c r =>
    have hl : (r.dropWhile (· ≠ ']')).length ≤ r.length :=
      (List.dropWhile_suffix _).sublist.length_le
    simp only [classOf?] at h
    split at h
    · simp at h
    · next rest hd =>
      rw [hd] at hl
      obtain rfl := Option.some.inj h
      simp only [List.length_cons] at hl ⊢
      omega

def tokens? : List Char → Option (List Token)
  | [] => some []
  | '*' :: '*' :: _ => none
  | '*' :: r => (tokens? r).map (.anyRun :: ·)
  | '?' :: r => (tokens? r).map (.anyOne :: ·)
  | '[' :: '!' :: r =>
    match _h : classOf? r with
    | none => none
    | some (ss, rest) => (tokens? rest).map (.outside ss :: ·)
  | '[' :: r =>
    match _h : classOf? r with
    | none => none
    | some (ss, rest) => (tokens? rest).map (.within ss :: ·)
  | c :: r => (tokens? r).map (.one c :: ·)
  termination_by cs => cs.length
  decreasing_by
    all_goals simp only [List.length_cons]
    · omega
    · omega
    · have hlt := classOf?_length _h
      simp only at hlt
      omega
    · have hlt := classOf?_length _h
      simp only at hlt
      omega
    · omega

def Token.accepts : Token → Char → Bool
  | .one a, c => a == c
  | .anyOne, _ => true
  | .anyRun, _ => true
  | .within ss, c => ss.any (·.contains c)
  | .outside ss, c => !ss.any (·.contains c)

def matchList : List Token → List Char → Bool
  | [], cs => cs.isEmpty
  | .anyRun :: ts, [] => matchList ts []
  | .anyRun :: ts, c :: cs => matchList ts (c :: cs) || matchList (.anyRun :: ts) cs
  | _ :: _, [] => false
  | t :: ts, c :: cs => t.accepts c && matchList ts cs
  termination_by ts cs => ts.length + cs.length

end Glob

structure Glob where
  tokens : List Glob.Token
  deriving DecidableEq, Repr

namespace Glob

def parse? (pattern : String) : Option Glob :=
  (tokens? pattern.toList).map Glob.mk

def «matches» (g : Glob) (name : String) : Bool :=
  matchList g.tokens name.toList

end Glob

end Depot.Text
