import Depot.Archive.Error
import Depot.Location
import Depot.Text.Glob

/-!
# Member patterns

A pattern names members by their path, one shell pattern for each name on it. Two stars stand for
any number of names, none included. A pattern selects what lies below a path that it matches.
-/

namespace Depot.Archive

open Depot.Text

inductive Segment where
  | anyDepth
  | name (glob : Glob)
  deriving DecidableEq, Repr

structure Pattern where
  segments : List Segment
  deriving DecidableEq, Repr

namespace Pattern

def segment? (text : String) : Option Segment :=
  if text = "**" then some .anyDepth else (Glob.parse? text).map .name

def parse (text : String) : Except Error Pattern :=
  match (Location.names text).mapM segment? with
  | some segments => .ok ⟨segments⟩
  | none => .error (.invalidPattern text)

/-- Two stars leave at least one name to what follows them, as every segment needs one. -/
def accepts : List Segment → List String → Bool
  | [], _ => true
  | _ :: _, [] => false
  | .name g :: ss, n :: ns => g.matches n && accepts ss ns
  | .anyDepth :: ss, n :: ns => accepts ss (n :: ns) || accepts (.anyDepth :: ss) ns
  termination_by ss ns => ss.length + ns.length

def «matches» (p : Pattern) (path : List String) : Bool :=
  accepts p.segments path

end Pattern

end Depot.Archive
