import Depot.Platform.Architecture
import Depot.Platform.Target
import Depot.Settings.Environment

/-!
# The host

What the machine that the program runs on tells about itself.
-/

namespace Depot.Platform

/-- What is known of the account that a program runs under. -/
class Account where
  /-- Its home directory, if it has one. -/
  home? : Option String

instance : Account := ⟨some Environment.rootHome⟩

structure Host where
  /-- The text of the file that names the distribution, if it can be read. -/
  release : Option String
  machine : String
  directory : String
  [account : Account]

namespace Host

/-- Where the distribution is named if the first place says nothing. -/
def releaseFile : String := "/usr/lib/os-release"

def target (h : Host) : Except Error String :=
  match h.release with
  | none => .error (.unreadable releaseFile)
  | some content => targetOf content

def arch (h : Host) : String := architectureOf h.machine

end Host

end Depot.Platform
