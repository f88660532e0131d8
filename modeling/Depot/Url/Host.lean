import Depot.Text.Utf8
import Depot.Url.Name

/-!
# Hosts

A host is a name, four numbers, or eight numbers in brackets. Names for the common schemes may have
escaped bytes and letters of any script, and are spelled in ASCII; a name whose last part is a
number has to be an address.
-/

namespace Depot.Url

open Depot.Text

namespace Host

/-- Characters that no host may have. -/
def isForbidden (c : Char) : Bool :=
  "\x00\t\n\r #/:<>?@[\\]^|".toList.contains c

/-- Characters that no name for the common schemes may have. -/
def isForbiddenInName (c : Char) : Bool :=
  isForbidden c || c.toNat ≤ 0x1F || c == '\x7f' || c == '%'

/-- Bytes of `bs` with `%` and two digits taken as one byte. -/
def unescape : List UInt8 → List UInt8
  | 0x25 :: a :: b :: r =>
    match hexDigit? (Char.ofNat a.toNat), hexDigit? (Char.ofNat b.toNat) with
    | some x, some y => UInt8.ofNat (x * 16 + y) :: unescape r
    | _, _ => 0x25 :: unescape (a :: b :: r)
  | b :: r => b :: unescape r
  | [] => []

/-- The parts of an address; a dot at the end adds none. -/
def addressParts (cs : List Char) : List (List Char) :=
  let parts := cs.splitOn '.'
  if 1 < parts.length ∧ parts.getLast? = some [] then parts.dropLast else parts

/-- The base that a part is written in, and its digits. -/
def base (cs : List Char) : Nat × List Char :=
  match cs with
  | '0' :: 'x' :: r | '0' :: 'X' :: r => (16, r)
  | '0' :: c :: r => (8, c :: r)
  | _ => (10, cs)

/-- The number that a part is; `0x` alone is zero. -/
def number? (cs : List Char) : Option Nat :=
  if cs = [] then none
  else
    match base cs with
    | (16, []) => some 0
    | (b, ds) => valueIn? b ds

/-- The last part is a number, so the whole has to be an address. -/
def endsInNumber (cs : List Char) : Bool :=
  match (addressParts cs).getLast? with
  | none => false
  | some part => part ≠ [] && (part.all Char.isDigit || (number? part).isSome)

/-- Up to four numbers, of which the last one fills the rest of the four bytes. -/
def isAddress4 (cs : List Char) : Bool :=
  match (addressParts cs).mapM number? with
  | none => false
  | some ns =>
    ns.length ≤ 4 && ns.dropLast.all (· ≤ 255) && (ns.getLast?.getD 0) < 256 ^ (5 - ns.length)

/-- A number below 256 in its one spelling. -/
def isByte (cs : List Char) : Bool :=
  match value? cs with
  | none => false
  | some n => n < 256 && (cs.length == 1 || cs.head? != some '0')

/-- How many of the eight numbers a run of them is; the last two may be written as four bytes. -/
def pieces? (mayEnd : Bool) (cs : List Char) : Option Nat :=
  if cs = [] then some 0
  else
    let parts := cs.splitOn ':'
    let isPiece (p : List Char) : Bool := p.length ≤ 4 && (valueIn? 16 p).isSome
    if parts.all isPiece then some parts.length
    else
      match parts.reverse with
      | [] => none
      | last :: before =>
        let bytes := last.splitOn '.'
        if mayEnd ∧ before.all isPiece ∧ bytes.length = 4 ∧ bytes.all isByte then
          some (before.length + 2)
        else none

/-- The text before and after the first pair of colons. -/
def gap? : List Char → Option (List Char × List Char)
  | ':' :: ':' :: r => some ([], r)
  | c :: r => (gap? r).map fun (a, b) => (c :: a, b)
  | [] => none

/-- Eight numbers; one pair of colons stands for one or more zeros. -/
def isAddress6 (cs : List Char) : Bool :=
  match gap? cs with
  | none => pieces? true cs == some 8
  | some (a, b) =>
    match pieces? false a, pieces? true b with
    | some m, some n => m + n ≤ 7
    | _, _ => false

def bracketed? (cs : List Char) : Option (List Char) :=
  match cs with
  | '[' :: r => if r.getLast? = some ']' then some r.dropLast else none
  | _ => none

/-- A host in brackets, or else one that `other` reads. -/
def orBracketed? (other : List Char → Option (List Char)) (cs : List Char) : Option (List Char) :=
  if cs.head? = some '[' then
    match bracketed? cs with
    | none => none
    | some inside => if isAddress6 inside then some (cs.map lowerChar) else none
  else other cs

def common? (n : Naming) : List Char → Option (List Char) :=
  orBracketed? fun cs => do
    let text ← Utf8.text? ⟨(unescape (String.ofList cs).toUTF8.toList).toArray⟩
    let name ← n.ascii? text.toList
    if name = [] ∨ name.any isForbiddenInName then none
    else if endsInNumber name ∧ ¬ isAddress4 name then none
    else some name

def opaque? : List Char → Option (List Char) :=
  orBracketed? fun cs => if cs.any isForbidden then none else some cs

end Host

end Depot.Url
