import Depot.Archive.Error
import Depot.Cache.Error
import Depot.Platform.Target
import Depot.Settings.Basic

/-!
# Errors of a session

Why a session ends early, with the error of the part that it was at.
-/

namespace Depot.Session

inductive Error where
  | settings (cause : Settings.Error)
  | cache (cause : Cache.Error)
  | platform (cause : Platform.Error)
  | archive (cause : Archive.Error)
  | noMatch (request : String)
  | output
  deriving DecidableEq, Repr

def Error.message : Error → String
  | .settings _ => "configuration error"
  | .cache _ => "download cache error"
  | .platform _ => "unable to detect the host platform; pass --target and --arch"
  | .archive _ => "extraction failed"
  | .noMatch request => s!"no download matches {request}"
  | .output => "unable to write output"

end Depot.Session
