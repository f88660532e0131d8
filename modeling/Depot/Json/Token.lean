import Depot.Json.Numeral
import Depot.Text.Escape
import Depot.Text.Utf8

/-!
# Tokens

The marks, words, numerals and texts that a JSON document consists of. A text stays as it was
written, since a reader may skip it without asking what it says: `Glyph.texts?` reads it.
-/

namespace Depot.Json

open Depot.Text

/-- One piece of a written text. -/
inductive Glyph where
  | char (c : Char)
  /-- A 16-bit unit given by its number. -/
  | unit (n : Nat)
  /-- Bytes that are no character. -/
  | broken
  deriving DecidableEq, Repr

inductive Word where
  | null
  | true
  | false
  deriving DecidableEq, Repr

inductive Token where
  | openObject
  | closeObject
  | openArray
  | closeArray
  | comma
  | colon
  | word (w : Word)
  | number (n : Numeral)
  | text (glyphs : List Glyph)
  deriving DecidableEq, Repr

namespace Glyph

/-- What the pieces say; a pair of surrogate units is one character, a unit without its partner
is none. -/
def chars? : List Glyph → Option (List Char)
  | [] => some []
  | .char c :: gs => (chars? gs).map (c :: ·)
  | .broken :: _ => none
  | .unit n :: gs =>
    if n < 0xD800 ∨ 0xE000 ≤ n then (chars? gs).map (Char.ofNat n :: ·)
    else if n < 0xDC00 then
      match gs with
      | .unit m :: gs =>
        if 0xDC00 ≤ m ∧ m < 0xE000 then
          (chars? gs).map (Char.ofNat (0x10000 + (n - 0xD800) * 0x400 + (m - 0xDC00)) :: ·)
        else none
      | _ => none
    else none

def text? (gs : List Glyph) : Option String :=
  (chars? gs).map String.ofList

end Glyph

namespace Token

/-- Where in the document the reader stands; what has been read of a token is kept backwards. -/
inductive Mode where
  | between
  | text (read : List Glyph)
  | escape (read : List Glyph)
  /-- Reading the number of a unit, of which `left` digits are to come. -/
  | unit (read : List Glyph) (value left : Nat)
  | number (read : List Char)
  | word (read : List Char)

def isNumberChar (c : Char) : Bool :=
  c.isDigit || c == '-' || c == '+' || c == '.' || c == 'e' || c == 'E'

def word? (cs : List Char) : Option Word :=
  if cs = ['n', 'u', 'l', 'l'] then some .null
  else if cs = ['t', 'r', 'u', 'e'] then some .true
  else if cs = ['f', 'a', 'l', 's', 'e'] then some .false
  else none

def escaped? (c : Char) : Option Char :=
  if c = '/' then some c else Text.escaped? c

/-- The mark that `c` is. -/
def mark? (c : Char) : Option Token :=
  match c with
  | '{' => some .openObject
  | '}' => some .closeObject
  | '[' => some .openArray
  | ']' => some .closeArray
  | ',' => some .comma
  | ':' => some .colon
  | _ => none

/-- Reads `c` where a token may begin. -/
def begin? (c : Char) : Option (Mode × List Token) :=
  if c = ' ' ∨ c = '\t' ∨ c = '\n' ∨ c = '\r' then some (.between, [])
  else if c = '"' then some (.text [], [])
  else if c.isDigit ∨ c = '-' then some (.number [c], [])
  else if c.isAlpha then some (.word [c], [])
  else (mark? c).map fun t => (.between, [t])

/-- The token that ends where none of its characters follows. -/
def finish? : Mode → Option (List Token)
  | .between => some []
  | .number cs => (Numeral.read? cs.reverse).map fun n => [.number n]
  | .word cs => (word? cs.reverse).map fun w => [.word w]
  | .text _ | .escape _ | .unit .. => none

/-- Reads one character and gives the tokens that are complete with it. -/
def step? : Mode → Option Char → Option (Mode × List Token)
  | .between, c => c >>= begin?
  | .text gs, none => some (.text (.broken :: gs), [])
  | .text gs, some c =>
    if c = '"' then some (.between, [.text gs.reverse])
    else if c = '\\' then some (.escape gs, [])
    else if c < ' ' then none
    else some (.text (.char c :: gs), [])
  | .escape gs, c => do
    let c ← c
    if c = 'u' then some (.unit gs 0 4, [])
    else some (.text (.char (← escaped? c) :: gs), [])
  | .unit gs n left, c => do
    let n := n * 16 + (← hexDigit? (← c))
    if left ≤ 1 then some (.text (.unit n :: gs), []) else some (.unit gs n (left - 1), [])
  | .number cs, c => do
    let c ← c
    if isNumberChar c then some (.number (c :: cs), [])
    else
      let (m, ts) ← begin? c
      some (m, (← finish? (.number cs)) ++ ts)
  | .word cs, c => do
    let c ← c
    if c.isAlpha then some (.word (c :: cs), [])
    else
      let (m, ts) ← begin? c
      some (m, (← finish? (.word cs)) ++ ts)

def scanFrom? : Mode → List (Option Char) → Option (List Token)
  | m, [] => finish? m
  | m, c :: cs => do
    let (m, ts) ← step? m c
    some (ts ++ (← scanFrom? m cs))

def scan? (cs : List (Option Char)) : Option (List Token) :=
  scanFrom? .between cs

end Token

end Depot.Json
