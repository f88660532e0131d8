import Depot.Archive.Error
import Depot.Location
import Depot.Text.Lowercase

/-!
# Archive formats

The format of an archive follows from the ending of its file name, in any case.
-/

namespace Depot.Archive

inductive Format where
  | zip
  | tarGzip
  deriving DecidableEq, Repr

namespace Format

def render : Format → String
  | .zip => "zip"
  | .tarGzip => "tar.gz"

def ofFileName? (name : String) : Option Format :=
  let name := Text.lowercase name
  if name.endsWith ".zip" then some .zip
  else if name.endsWith ".tgz" || name.endsWith ".tar.gz" then some .tarGzip
  else none

def ofPath (path : String) : Except Error Format :=
  match (Location.fileName? path).bind ofFileName? with
  | some f => .ok f
  | none => .error (.unsupportedFormat path)

end Format

end Depot.Archive
