import Depot.Text.Escape

/-!
# Quoted text

Basic text knows escapes, literal text does not. Both may be written between one quote on one line
or between three on several, where a line break right after the opening quotes does not count.
-/

namespace Depot.Toml

open Depot.Text

/-- Characters that may stand for themselves on a line. -/
def isPlain (c : Char) : Bool :=
  c == '\t' || (' ' ≤ c && c != '\x7f')

def startsLine : List Char → Bool
  | '\n' :: _ | '\r' :: '\n' :: _ => true
  | _ => false

def isLineSpace (c : Char) : Bool := c == ' ' || c == '\t'

/-- The text up to the closing quotes, and what follows them. On several lines a backslash at the
end of a line takes the line break away with all blanks that follow, which `trimming` says. -/
def basic? (lines trimming : Bool) : List Char → Option (List Char × List Char)
  | [] => none
  | '"' :: r =>
    if !lines then some ([], r)
    else
      match r with
      | '"' :: '"' :: r =>
        let more := (r.takeWhile (· = '"')).take 2
        some (more, r.drop more.length)
      | _ => (basic? lines false r).map fun (cs, r) => ('"' :: cs, r)
  | '\\' :: 'u' :: a :: b :: c :: d :: r => do
    let x ← scalar? [a, b, c, d]
    let (cs, r) ← basic? lines false r
    some (x :: cs, r)
  | '\\' :: 'U' :: a :: b :: c :: d :: e :: f :: g :: h :: r => do
    let x ← scalar? [a, b, c, d, e, f, g, h]
    let (cs, r) ← basic? lines false r
    some (x :: cs, r)
  | '\\' :: c :: r =>
    if lines ∧ startsLine ((c :: r).dropWhile isLineSpace) then basic? lines true (c :: r)
    else do
      let x ← escaped? c
      let (cs, r) ← basic? lines false r
      some (x :: cs, r)
  | '\r' :: '\n' :: r =>
    if !lines then none
    else if trimming then basic? lines true r
    else (basic? lines false r).map fun (cs, r) => ('\n' :: cs, r)
  | '\n' :: r =>
    if !lines then none
    else if trimming then basic? lines true r
    else (basic? lines false r).map fun (cs, r) => ('\n' :: cs, r)
  | c :: r =>
    if trimming ∧ isLineSpace c then basic? lines true r
    else if isPlain c ∧ c ≠ '\\' then (basic? lines false r).map fun (cs, r) => (c :: cs, r)
    else none

def literal? (lines : Bool) : List Char → Option (List Char × List Char)
  | [] => none
  | '\'' :: r =>
    if !lines then some ([], r)
    else
      match r with
      | '\'' :: '\'' :: r =>
        let more := (r.takeWhile (· = '\'')).take 2
        some (more, r.drop more.length)
      | _ => (literal? lines r).map fun (cs, r) => ('\'' :: cs, r)
  | '\r' :: '\n' :: r | '\n' :: r =>
    if lines then (literal? lines r).map fun (cs, r) => ('\n' :: cs, r) else none
  | c :: r => if isPlain c then (literal? lines r).map fun (cs, r) => (c :: cs, r) else none

/-- A line break right behind the opening quotes. -/
def dropBreak : List Char → List Char
  | '\r' :: '\n' :: r | '\n' :: r => r
  | cs => cs

def lineText? : List Char → Option (List Char × List Char)
  | '"' :: r => basic? false false r
  | '\'' :: r => literal? false r
  | _ => none

def text? : List Char → Option (List Char × List Char)
  | '"' :: '"' :: '"' :: r => basic? true false (dropBreak r)
  | '\'' :: '\'' :: '\'' :: r => literal? true (dropBreak r)
  | cs => lineText? cs

end Depot.Toml
