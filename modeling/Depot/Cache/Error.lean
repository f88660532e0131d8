import Depot.Version.Basic

/-!
# Cache errors

What can go wrong with a cache, and which causes may pass by themselves.
-/

namespace Depot.Cache

/-- Stored text that cannot be read. -/
inductive Datum where
  | fetchDate
  | componentData
  deriving DecidableEq, Repr

def Datum.render : Datum → String
  | .fetchDate => "fetch date"
  | .componentData => "component data"

inductive Error where
  | database
  | migration
  | client
  /-- The transfer broke off or was never begun. -/
  | download (url : String)
  | httpStatus (url : String) (status : Nat)
  | notFileUrl (url : String)
  /-- The file at `path` has a record and is missing. -/
  | inconsistent (path : String)
  /-- A version in a well-formed manifest may be the cause. -/
  | invalidManifest (cause : Option Version.Error)
  | invalidData (datum : Datum)
  | io
  deriving DecidableEq, Repr

namespace Error

def message : Error → String
  | .database => "database error"
  | .migration => "database migration error"
  | .client => "unable to initialise the HTTP client"
  | .download url => s!"download of {url} failed"
  | .httpStatus url status => s!"download of {url} failed with HTTP status {status}"
  | .notFileUrl url => s!"cannot cache {url}: not a file URL"
  | .inconsistent path => s!"cache is inconsistent: {path} is recorded but missing"
  | .invalidManifest _ => "invalid download manifest"
  | .invalidData datum => s!"invalid cache data: {datum.render}"
  | .io => "I/O error"

def isRetryable : Error → Bool
  | .download _ | .io => true
  | .httpStatus _ status => status == 429 || status ≥ 500
  | _ => false

end Error

end Depot.Cache
