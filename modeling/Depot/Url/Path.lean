import Depot.Url.Host

/-!
# Paths of URLs

A path is a list of segments in which characters outside the URL alphabet are escaped and no
segment is a dot or two: those are carried out while the path is read.
-/

namespace Depot.Url

open Depot.Text

def escapeByte (b : UInt8) : List Char :=
  let digit (n : Nat) : Char := (Nat.digitChar n).toUpper
  ['%', digit (b.toNat / 16), digit (b.toNat % 16)]

def isEscaped (c : Char) : Bool :=
  c.toNat ≤ 0x20 || 0x7F ≤ c.toNat || "\"#<>?`\x7b\x7d".toList.contains c

def escapeChar (c : Char) : List Char :=
  if isEscaped c then c.toString.toUTF8.toList.flatMap escapeByte else [c]

def escape (cs : List Char) : List Char := cs.flatMap escapeChar

/-- The number of dots that a segment is written with, escaped ones among them. -/
def dots? : List Char → Option Nat
  | [] => some 0
  | '.' :: r => (dots? r).map (· + 1)
  | '%' :: '2' :: 'e' :: r | '%' :: '2' :: 'E' :: r => (dots? r).map (· + 1)
  | _ => none

def isHere (cs : List Char) : Bool := dots? cs == some 1

def isParent (cs : List Char) : Bool := dots? cs == some 2

/-- A drive: a letter with a colon or a bar. -/
def isDrive : List Char → Bool
  | [a, b] => a.isAlpha && (b == ':' || b == '|')
  | _ => false

/-- A drive in its one spelling. -/
def drive (cs : List Char) : List Char :=
  if isDrive cs then cs.take 1 ++ [':'] else cs

/-- The segments one level up, the last one first. Of a file's path, a drive at the front stays. -/
def shorten (file : Bool) : List (List Char) → List (List Char)
  | [] => []
  | [s] => if file && isDrive s then [s] else []
  | _ :: ss => ss

/-- The segments that `raw` leads to from `done`, which has the last one first. -/
def follow (file : Bool) (done : List (List Char)) : List (List Char) → List (List Char)
  | [] => done.reverse
  | s :: raw =>
    let last := if raw = [] then [[]] else []
    if isParent s then follow file (last ++ shorten file done) raw
    else if isHere s then follow file (last ++ done) raw
    else
      let s := if file ∧ done = [] then drive s else s
      follow file (escape s :: done) raw

/-- The segments of a path that is written `text` behind its first slash. -/
def segments (file : Bool) (text : List Char) : List (List Char) :=
  follow file [] (text.splitOn '/')

end Depot.Url
