import Depot.Cache.Transport
import Depot.Url.Parser

/-!
# Requests over the web

A request can be sent if its URL leads to a host of the web and its conditions can be written as
header lines. Sending it is left to a function.
-/

namespace Depot.Cache.Http

structure Request where
  url : Url
  headers : List (String × String)

def isHeaderText (s : String) : Bool :=
  s.toList.all fun c => c = '\t' || (0x20 ≤ c.toNat && c != '\x7f')

/-- The headers that name the validators of a copy. -/
def headers (v : Validators) : List (String × String) :=
  (v.etag.map ("if-none-match", ·)).toList ++ (v.lastModified.map ("if-modified-since", ·)).toList

def request? [n : Url.Naming] (url : String) (conditions : Validators) : Option Request := do
  let u ← Url.parse? n url
  let hs := headers conditions
  if (u.scheme = "http" ∨ u.scheme = "https") ∧ hs.all (fun h => isHeaderText h.2) then
    some ⟨u, hs⟩
  else none

/-- Sends what can be sent; `send` gives none where no connection comes about. -/
def transport [Url.Naming] (send : Request → Option (Except Error Response)) : Transport Unit :=
  fun url conditions _ =>
    match request? url conditions >>= send with
    | none => .error (.download url) ()
    | some (.ok r) => .ok r ()
    | some (.error e) => .error e ()

end Depot.Cache.Http
