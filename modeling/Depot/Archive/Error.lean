/-!
# Extraction errors
-/

namespace Depot.Archive

inductive Error where
  | unsupportedFormat (archive : String)
  | invalidPattern (pattern : String)
  | invalidArchive (archive : String)
  | io
  deriving DecidableEq, Repr

namespace Error

def message : Error → String
  | .unsupportedFormat archive => s!"unsupported archive format: {archive}"
  | .invalidPattern pattern => s!"invalid member pattern: {pattern}"
  | .invalidArchive archive => s!"unreadable archive: {archive}"
  | .io => "I/O error"

def isRetryable : Error → Bool
  | .io => true
  | _ => false

end Error

end Depot.Archive
