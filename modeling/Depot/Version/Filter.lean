import Depot.Version.Parser

/-!
# Version filters

What a user may ask for: one of three words, a series written `N.N`, or else one exact text.
-/

namespace Depot

inductive VersionFilter where
  | latest
  | latestStable
  | rapid
  | series (major minor : Nat)
  | exact (text : String)
  deriving DecidableEq, Repr

namespace VersionFilter

def ofText (text : String) : VersionFilter :=
  if text = "latest" then .latest
  else if text = "latest-stable" then .latestStable
  else if text = "rapid" then .rapid
  else
    match Version.parse? text with
    | some ⟨major, minor, _, .series, _⟩ => .series major minor
    | _ => .exact text

def render : VersionFilter → String
  | .latest => "latest"
  | .latestStable => "latest-stable"
  | .rapid => "rapid"
  | .series major minor => s!"{major}.{minor}"
  | .exact text => text

/-- Whether the filter lets a version text through, which reads as `v` if it is a version. -/
def accepts (f : VersionFilter) (text : String) (v : Option Version) : Bool :=
  match f with
  | .latest => true
  | .latestStable => v.any Version.isStable
  | .rapid => v.any Version.isRapid
  | .series major minor => v.any fun v => v.major == major && v.minor == minor
  | .exact t => t == text

end VersionFilter

end Depot
