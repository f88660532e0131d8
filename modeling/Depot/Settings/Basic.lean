import Depot.Location
import Depot.Text.Blank

/-!
# Settings

What the program is set to do, where the defaults come from, and which settings are refused.
-/

namespace Depot

structure Settings where
  cacheDir : String
  manifestUrl : String
  /-- The edition that is meant where none is named. -/
  edition : String
  retries : Nat
  /-- The longest a request may take, in seconds. -/
  timeout : Option Nat
  deriving DecidableEq, Repr

namespace Settings

/-- Where the list of downloads is published. -/
def defaultManifestUrl : String := "https://downloads.mongodb.org/full.json"

def defaultEdition : String := "enterprise"

inductive Reason where
  | blankManifestUrl
  | blankEdition
  | zeroTimeout
  deriving DecidableEq, Repr

def Reason.message : Reason → String
  | .blankManifestUrl => "manifest_url must not be empty"
  | .blankEdition => "edition must not be empty"
  | .zeroTimeout => "timeout must be at least one second"

inductive Error where
  /-- The file that was asked for does not exist. -/
  | notFound (path : String)
  /-- A layer cannot be read, or a setting has a value of the wrong kind. -/
  | unreadable
  | invalid (reason : Reason)
  deriving DecidableEq, Repr

namespace Error

def message : Error → String
  | .notFound path => s!"configuration file {path} not found"
  | .unreadable => "unable to load configuration"
  | .invalid reason => s!"invalid configuration: {reason.message}"

def isRetryable (_ : Error) : Bool := false

end Error

def isBlankText (s : String) : Bool := s.toList.all Text.isBlank

def validate (s : Settings) : Except Error Settings :=
  if isBlankText s.manifestUrl then .error (.invalid .blankManifestUrl)
  else if isBlankText s.edition then .error (.invalid .blankEdition)
  else if s.timeout = some 0 then .error (.invalid .zeroTimeout)
  else .ok s

end Settings

end Depot
