import Depot.Toml.Basic
import Depot.Toml.Number
import Depot.Toml.Text

/-!
# Reading TOML

A document is lines of assignments and headers, with blanks and comments between. Values may be
nested up to a depth; arrays may run over several lines.
-/

namespace Depot.Toml

open Depot.Text

/-- How many arrays and tables, or parts of a key, are too many in one another. -/
def depthLimit : Nat := 80

def skipSpace (cs : List Char) : List Char := cs.dropWhile isLineSpace

/-- Past a comment, which may hold tabs but no other control characters. -/
def skipComment? : List Char → Option (List Char)
  | '#' :: r =>
    let rest := r.dropWhile fun c => c == '\t' || ' ' ≤ c
    if rest = [] ∨ startsLine rest then some rest else none
  | cs => some cs

/-- Past blanks, comments and line breaks. -/
def skipLines? : (fuel : Nat) → List Char → Option (List Char)
  | 0, cs => some cs
  | fuel + 1, cs => do
    match ← skipComment? (skipSpace cs) with
    | '\n' :: r | '\r' :: '\n' :: r => skipLines? fuel r
    | cs => some cs

/-- Past the rest of a line: blanks, a comment and the line break. -/
def endLine? (cs : List Char) : Option (List Char) := do
  match ← skipComment? (skipSpace cs) with
  | [] => some []
  | '\n' :: r | '\r' :: '\n' :: r => some r
  | _ => none

def isBareKey (c : Char) : Bool :=
  c.isAlphanum || c == '-' || c == '_'

def simpleKey? (cs : List Char) : Option (String × List Char) :=
  match lineText? cs with
  | some (k, r) => some (String.ofList k, r)
  | none =>
    match cs.takeWhile isBareKey with
    | [] => none
    | k => some (String.ofList k, cs.dropWhile isBareKey)

/-- The parts of a key before the last, the last part, and what follows. -/
def key? : (fuel : Nat) → List Char → Option (List String × String × List Char)
  | 0, _ => none
  | fuel + 1, cs => do
    let (k, r) ← simpleKey? (skipSpace cs)
    match skipSpace r with
    | '.' :: r =>
      let (ks, last, r) ← key? fuel r
      some (k :: ks, last, r)
    | r => some ([], k, r)

def isWordChar (c : Char) : Bool :=
  isBareKey c || c == '+' || c == '.' || c == ':'

/-- The characters of a bare word; a blank between a date and a time belongs to it. -/
def word (cs : List Char) : List Char × List Char :=
  let w := cs.takeWhile isWordChar
  match cs.dropWhile isWordChar with
  | ' ' :: c :: r =>
    if date? w = some [] ∧ c.isDigit then
      (w ++ ' ' :: (c :: r).takeWhile isWordChar, (c :: r).dropWhile isWordChar)
    else (w, ' ' :: c :: r)
  | r => (w, r)

def wordValue? (w : List Char) : Option Value :=
  if w = ['t', 'r', 'u', 'e'] then some (.boolean true)
  else if w = ['f', 'a', 'l', 's', 'e'] then some (.boolean false)
  else
    match integer? w with
    | some n => some (.integer n)
    | none =>
      if isFloat w then some (.float (String.ofList w))
      else if isMoment w then some (.moment (String.ofList w))
      else none

mutual

/-- A value that `depth` arrays and tables are open around. -/
def value? (depth : Nat) : (fuel : Nat) → List Char → Option (Value × List Char)
  | 0, _ => none
  | fuel + 1, cs =>
    match cs with
    | '[' :: r =>
      if depth + 1 ≥ depthLimit then none
      else (items? (depth + 1) fuel r).map fun (vs, r) => (.array vs, r)
    | '\x7b' :: r =>
      if depth + 1 ≥ depthLimit then none
      else
        match skipSpace r with
        | '\x7d' :: r => some (.table [], r)
        | r => do
          let (as, r) ← pairs? (depth + 1) fuel r
          let fs ← assignAll? as []
          some (.table (Item.toFields fs), r)
    | '"' :: _ | '\'' :: _ => (text? cs).map fun (s, r) => (.text (String.ofList s), r)
    | _ =>
      let (w, r) := word cs
      (wordValue? w).map fun v => (v, r)

/-- The items up to the end of an array; a comma may stand behind the last. -/
def items? (depth : Nat) : (fuel : Nat) → List Char → Option (List Value × List Char)
  | 0, _ => none
  | fuel + 1, cs => do
    match ← skipLines? (cs.length + 1) cs with
    | ']' :: r => some ([], r)
    | cs =>
      let (v, r) ← value? depth fuel cs
      match ← skipLines? (r.length + 1) r with
      | ',' :: r =>
        let (vs, r) ← items? depth fuel r
        some (v :: vs, r)
      | ']' :: r => some ([v], r)
      | _ => none

def pairs? (depth : Nat) : (fuel : Nat) → List Char → Option (List Assignment × List Char)
  | 0, _ => none
  | fuel + 1, cs => do
    let (a, r) ← assignment? depth fuel cs
    match skipSpace r with
    | ',' :: r =>
      let (as, r) ← pairs? depth fuel r
      some (a :: as, r)
    | '\x7d' :: r => some ([a], r)
    | _ => none

def assignment? (depth : Nat) : (fuel : Nat) → List Char → Option (Assignment × List Char)
  | 0, _ => none
  | fuel + 1, cs => do
    let (path, key, r) ← key? (cs.length + 1) cs
    if path.length + 1 ≥ depthLimit then none
    match r with
    | '=' :: r =>
      let (v, r) ← value? depth fuel (skipSpace r)
      some (⟨path, key, v⟩, r)
    | _ => none

end

def header? (cs : List Char) : Option (Section × List Char) := do
  let (inArray, r) := match cs with
    | '[' :: r => (true, r)
    | _ => (false, cs)
  let (path, key, r) ← key? (r.length + 1) r
  if path.length + 1 ≥ depthLimit then none
  match inArray, r with
  | true, ']' :: ']' :: r | false, ']' :: r => some (⟨inArray, path, key, []⟩, ← endLine? r)
  | _, _ => none

/-- The lines from here on: assignments up to the next header, and the sections. -/
def lines? : (fuel : Nat) → List Char → Option Document
  | 0, _ => none
  | fuel + 1, cs => do
    match skipSpace cs with
    | [] => some ⟨[], []⟩
    | '[' :: r =>
      let (s, r) ← header? r
      let d ← lines? fuel r
      some ⟨[], { s with assignments := d.root } :: d.sections⟩
    | '#' :: _ | '\n' :: _ | '\r' :: _ => lines? fuel (← endLine? cs)
    | cs =>
      let (a, r) ← assignment? 0 (4 * cs.length + 4) cs
      let d ← lines? fuel (← endLine? r)
      some { d with root := a :: d.root }

/-- What the document says, if it is well formed. A mark of the byte order may come first. -/
def parse? (cs : List Char) : Option (List (String × Value)) := do
  let cs := match cs with
    | '\uFEFF' :: r => r
    | cs => cs
  (← lines? (cs.length + 1) cs).fields?

end Depot.Toml
