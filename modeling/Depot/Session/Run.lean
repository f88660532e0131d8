import Depot.Cache.Http
import Depot.Listing
import Depot.Session.Download
import Depot.Settings.Load

/-!
# Sessions

A session loads the settings, opens the cache, brings the list of downloads up to date, and then
either lists what there is or downloads what is asked for.
-/

namespace Depot.Session

variable {σ : Type}

structure Output where
  /-- The session has done what it was asked to do. -/
  success : Bool
  text : String
  deriving DecidableEq, Repr

/-- The part of a session that works with an open cache. -/
def execute (c : Cache) (t : Cache.Transport σ) (now : Int) (h : Platform.Host) (a : Arguments)
    (s : Settings) : Action σ Output := do
  let r : Retry := { retries := s.retries }
  let _ ← onCache (Cache.retry r (c.refresh t now))
  if a.list then
    let i ← onCache Cache.index
    let text ← onCache (Cache.check (Listing.ofQuery i.catalog a.filters))
    return ⟨true, text⟩
  let q ← check (a.request h s)
  match ← download c t now (Location.names h.directory) r q with
  | .resolved url => return ⟨true, url ++ "\n"⟩
  | .extracted report => return ⟨!(report.count = 0 ∧ a.emptyIsError), ""⟩

def settings (tree : FileTree) (h : Platform.Host) (env : Environment) (a : Arguments) :
    Except Error Settings :=
  match Settings.load tree (Location.names h.directory) a.config env h.account.home? with
  | .ok s => .ok (a.configure s)
  | .error e => .error (.settings e)

def cacheOf [Url.Naming] (h : Platform.Host) (s : Settings) : Cache where
  root := Location.ofText (Location.names h.directory) s.cacheDir
  manifestUrl := s.manifestUrl

/-- Runs `work` and closes the cache, whether it goes right or wrong. -/
def closing {α : Type} (work : Action σ α) : Action σ α := fun w =>
  match work w with
  | .ok a w => .ok a { w with isOpen := false }
  | .error e w => .error e { w with isOpen := false }

def run [Url.Naming] (t : Cache.Transport σ) (now : Int) (h : Platform.Host) (env : Environment)
    (a : Arguments) : Action σ Output := do
  let s ← check (settings (← get).tree h env a)
  let c := cacheOf h s
  onCache c.open
  closing (execute c t now h a s)

end Depot.Session
