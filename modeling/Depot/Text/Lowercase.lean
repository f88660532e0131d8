import Depot.Text.CaseTable

/-!
# Lower case

Every character has a simple lower case, two have a rule of their own: a capital I with a dot
becomes two characters, and a capital sigma at the end of a word becomes a final sigma.
-/

namespace Depot.Text

def inRanges (rs : List (Nat × Nat)) (c : Char) : Bool :=
  rs.any fun r => r.1 ≤ c.toNat && c.toNat ≤ r.2

def isCased (c : Char) : Bool := inRanges casedRanges c

def isCaseIgnorable (c : Char) : Bool := inRanges caseIgnorableRanges c

def lowerChar (c : Char) : Char :=
  match lowerRuns.findSome? (·.lower? c.toNat) with
  | some n => Char.ofNat n
  | none => c

/-- The next character that a case rule looks at has a case. -/
def casedAhead (cs : List Char) : Bool :=
  match cs.dropWhile isCaseIgnorable with
  | [] => false
  | c :: _ => isCased c

/-- `behind` tells whether the last character a case rule looks at has a case. -/
def lowerFrom (behind : Bool) : List Char → List Char
  | [] => []
  | c :: cs =>
    let rest := lowerFrom (if isCaseIgnorable c then behind else isCased c) cs
    if c == 'Σ' then (if behind && !casedAhead cs then 'ς' else 'σ') :: rest
    else if c == 'İ' then 'i' :: '\u0307' :: rest
    else lowerChar c :: rest

def lowercase (s : String) : String :=
  String.ofList (lowerFrom false s.toList)

end Depot.Text
