import Depot.Cache.Error
import Depot.Text.Quoted

/-!
# Transports

A transport answers requests for URLs. A request may name the validators of a copy that is at hand,
and the answer may be that this copy is still current.
-/

namespace Depot.Cache

/-- What tells whether a copy is current. -/
structure Validators where
  etag : Option String
  lastModified : Option String
  deriving DecidableEq, Repr

namespace Validators

def absent : Validators := ⟨none, none⟩

def isEmpty (v : Validators) : Bool := v.etag.isNone && v.lastModified.isNone

def describe (v : Validators) : String :=
  let field : Option String → String
    | none => "None"
    | some s => "Some(" ++ Text.quote s ++ ")"
  "Validators \x7b etag: " ++ field v.etag ++ ", last_modified: " ++ field v.lastModified ++ " \x7d"

end Validators

/-- A body in pieces, which may break off. -/
structure Body where
  chunks : List ByteArray
  failure : Option Error

def Body.data (b : Body) : ByteArray := b.chunks.foldl (· ++ ·) .empty

inductive Response where
  | notModified
  | body (validators : Validators) (body : Body)

def Response.describe : Response → String
  | .notModified => "NotModified"
  | .body validators _ => "Body \x7b validators: " ++ validators.describe ++ ", .. \x7d"

/-- Answers requests and changes a state of its own by that. -/
abbrev Transport (σ : Type) := String → Validators → EStateM Error σ Response

end Depot.Cache
