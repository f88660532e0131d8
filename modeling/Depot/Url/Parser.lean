import Depot.Url.Path
import Depot.Text.Blank

/-!
# Reading URLs

`Url.parse?` reads absolute URLs. The schemes of the web have a host, and take backslashes for
slashes and any number of slashes before the host; other schemes have a host behind two slashes
alone, and may have a path without segments. Query and fragment are left out.
-/

namespace Depot

structure Url where
  scheme : String
  /-- Empty where the URL has none. -/
  host : String
  /-- The segments of the path; none if it has no structure. -/
  path : List String
  deriving DecidableEq, Repr

namespace Url

open Depot.Text

inductive Kind where
  /-- A scheme of the web. -/
  | web
  | file
  | other
  deriving DecidableEq

def kindOf (scheme : String) : Kind :=
  if scheme = "file" then .file
  else if ["http", "https", "ws", "wss", "ftp"].contains scheme then .web
  else .other

/-- Blanks and control characters around a URL do not belong to it, and tabs and line breaks do not
count anywhere. -/
def clean (cs : List Char) : List Char :=
  (trimBy (fun c => c.toNat ≤ 0x20) cs).filter fun c => c ≠ '\t' ∧ c ≠ '\n' ∧ c ≠ '\r'

def isSchemeChar (c : Char) : Bool :=
  c.isAlphanum || c == '+' || c == '-' || c == '.'

def scheme? (cs : List Char) : Option (List Char × List Char) :=
  match cs.dropWhile isSchemeChar with
  | ':' :: r =>
    let scheme := cs.takeWhile isSchemeChar
    if (scheme.head?.any Char.isAlpha) then some (scheme.map Char.toLower, r) else none
  | _ => none

def isSlash (c : Char) : Bool := c == '/'

/-- The text before the query and the fragment. -/
def beforeQuery (cs : List Char) : List Char :=
  cs.takeWhile fun c => c ≠ '?' ∧ c ≠ '#'

/-- What stands behind the last `@`, and whether there is one. -/
def afterUser (cs : List Char) : Bool × List Char :=
  let parts := cs.splitOn '@'
  (1 < parts.length, parts.getLast?.getD [])

/-- The host and what follows the colon behind it. Colons in brackets belong to the host. -/
def splitPort (cs : List Char) : List Char × Option (List Char) :=
  go false [] cs
where
  go (inside : Bool) (acc : List Char) : List Char → List Char × Option (List Char)
    | [] => (acc.reverse, none)
    | c :: r =>
      if c == ':' ∧ ¬ inside then (acc.reverse, some r)
      else go (if c == '[' then true else if c == ']' then false else inside) (c :: acc) r

/-- A port has 16 bits and may be left out behind its colon. -/
def isPort (cs : List Char) : Bool :=
  cs = [] || ((value? cs).any (· < 2 ^ 16))

/-- The host of an authority. A scheme that is not of the web may leave it out, but then also the
user and the port. -/
def authority? (n : Naming) (kind : Kind) (cs : List Char) : Option (List Char) :=
  let (hasUser, rest) := afterUser cs
  let (host, port) := splitPort rest
  if host = [] then if kind = .other ∧ ¬ hasUser ∧ port = none then some [] else none
  else if port.all isPort then
    if kind = .other then Host.opaque? host else Host.common? n host
  else none

/-- The segments of a path that starts with a slash; a path that is left out has none. -/
def pathOf (file : Bool) : List Char → List (List Char)
  | [] => []
  | _ :: r => segments file r

def make (scheme host : List Char) (path : List (List Char)) : Url :=
  ⟨String.ofList scheme, String.ofList host, path.map String.ofList⟩

/-- `cs` follows the colon of the scheme. -/
def web? (n : Naming) (scheme cs : List Char) : Option Url := do
  let cs := cs.dropWhile isSlash
  let host ← authority? n .web (cs.takeWhile (!isSlash ·))
  let rest := cs.dropWhile (!isSlash ·)
  return make scheme host (pathOf false (if rest = [] then ['/'] else rest))

/-- A file has a host behind two slashes, unless a drive stands there. -/
def file? (n : Naming) (cs : List Char) : Option Url :=
  let plain (cs : List Char) : Url := make "file".toList [] (segments true cs)
  match cs with
  | '/' :: '/' :: r =>
    let host := r.takeWhile (!isSlash ·)
    if isDrive host then some (plain r)
    else do
      let name ← if host = [] then some [] else Host.common? n host
      let name := if name = "localhost".toList then [] else name
      return make "file".toList name (segments true ((r.dropWhile (!isSlash ·)).drop 1))
  | '/' :: r => some (plain r)
  | _ => some (plain cs)

def other? (n : Naming) (scheme cs : List Char) : Option Url :=
  match cs with
  | '/' :: '/' :: r => do
    let host ← authority? n .other (r.takeWhile (!isSlash ·))
    return make scheme host (pathOf false (r.dropWhile (!isSlash ·)))
  | '/' :: r => some (make scheme [] (segments false r))
  | _ => some (make scheme [] [])

def parse? (n : Naming) (text : String) : Option Url := do
  let (scheme, rest) ← scheme? (clean text.toList)
  let rest := beforeQuery rest
  let slashes (cs : List Char) := cs.map fun c => if c == '\\' then '/' else c
  match kindOf (String.ofList scheme) with
  | .web => web? n scheme (slashes rest)
  | .file => file? n (slashes rest)
  | .other => other? n scheme rest

def fileName? (u : Url) : Option String :=
  u.path.getLast?.filter (· ≠ "")

end Url

end Depot
