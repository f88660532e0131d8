import Depot.Archive.Open
import Depot.Cache.Fetch
import Depot.Session.Request

/-!
# Downloads

`download` gets the first component that a request matches and extracts it. It fetches nothing if
only the URL is asked for or if nothing matches.
-/

namespace Depot.Session

/-- A part of a session. What it has done to the world stays when it fails. -/
abbrev Action (σ : Type) := EStateM Error (Cache.World σ)

variable {σ α : Type}

def check (r : Except Error α) : Action σ α := fun w =>
  match r with
  | .ok a => .ok a w
  | .error e => .error e w

def onCache (work : Cache.Work σ α) : Action σ α := fun w =>
  match work w with
  | .ok a w => .ok a w
  | .error e w => .error (.cache e) w

def onArchive (a : EStateM Archive.Error FileTree α) : Action σ α := fun w =>
  match a w.tree with
  | .ok x t => .ok x { w with tree := t }
  | .error e t => .error (.archive e) { w with tree := t }

inductive Outcome where
  | resolved (url : String)
  | extracted (r : Archive.Report)
  deriving DecidableEq, Repr

/-- Gets and extracts what the request asks for. Relative paths start at `base`, `now` is the time,
and fetching is tried again as `r` says. -/
def download (c : Cache) (t : Cache.Transport σ) (now : Int) (base : Location) (r : Retry)
    (q : Request) : Action σ Outcome := do
  let entries ← onCache (Cache.query q.query)
  match entries.head? >>= Entry.url? with
  | none => throw (.noMatch q.query.describe)
  | some url =>
    if q.noDownload then return .resolved url
    let fetched ← onCache (Cache.retry r (c.fetch t now url))
    let archive := Location.render fetched.path
    let dest := Location.ofText base q.out
    return .extracted (← onArchive (Archive.extract archive fetched.path dest q.options))

end Depot.Session
