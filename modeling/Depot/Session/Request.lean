import Depot.Archive.Report
import Depot.CommandLine.Basic
import Depot.Platform.Host
import Depot.Session.Error

/-!
# Requests

A request says which component to get, where to extract it to, and how. It is made from arguments;
what they leave out comes from the host and the settings.
-/

namespace Depot

structure Request where
  query : Query
  out : String
  options : Archive.Options
  /-- Only find out the URL. -/
  noDownload : Bool
  deriving DecidableEq, Repr

/-- The filters of a query that are set, for messages. -/
def Query.describe (q : Query) : String :=
  let field (name : String) (value : Option String) : List String :=
    (value.map fun v => name ++ " \"" ++ v ++ "\"").toList
  ", ".intercalate <|
    field "component" q.component ++ field "version" (q.version.map (·.render)) ++
    field "target" q.target ++ field "arch" q.arch ++ field "edition" q.edition

namespace Arguments

/-- Asks for what the host is, as if nothing were said. -/
def auto : String := "auto"

def isAuto (value : Option String) : Bool :=
  value.all (· == auto)

def targetOn (a : Arguments) (h : Platform.Host) : Except Session.Error String :=
  if isAuto a.target then
    match h.target with
    | .ok t => .ok t
    | .error e => .error (.platform e)
  else .ok (a.target.getD "")

def archOn (a : Arguments) (h : Platform.Host) : String :=
  if isAuto a.arch then h.arch else a.arch.getD ""

def request (a : Arguments) (h : Platform.Host) (s : Settings) : Except Session.Error Request := do
  let target ← a.targetOn h
  let query : Query := ⟨a.version.map .ofText, some target, some (a.archOn h),
    some (a.edition.getD s.edition), a.component⟩
  return ⟨query, a.out.getD h.directory, ⟨a.only, a.strip, a.test⟩, a.noDownload⟩

end Arguments

end Depot
