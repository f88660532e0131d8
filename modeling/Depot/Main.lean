import Depot.CommandLine.Parser
import Depot.Session.Run

/-!
# The program

Reads what a session needs from the machine, runs the session, and carries out what it has done to
the file tree. There is no way to send requests yet, so every download fails.
-/

namespace Depot.Program

def settingVariables : List String :=
  ["MONGODL_CACHE_DIR", "MONGODL_MANIFEST_URL", "MONGODL_EDITION", "MONGODL_RETRIES",
    "MONGODL_TIMEOUT", CommandLine.configVariable]

def environment : IO Environment := do
  let names := ["HOME", "XDG_CACHE_HOME", "XDG_CONFIG_HOME"] ++ settingVariables
  names.filterMapM fun name => do
    return (← IO.getEnv name).map (name, ·)

def readText? (path : String) : IO (Option String) := do
  try
    return some (← IO.FS.readFile path)
  catch _ => return none

def host : IO Platform.Host := do
  let release ← readText? "/etc/os-release"
  let release ← if release.isSome then pure release else readText? Platform.Host.releaseFile
  let machine := ((← readText? "/proc/sys/kernel/arch").map Text.trim).getD "x86_64"
  return ⟨release, machine, (← IO.currentDir).toString⟩

def now : IO Int := do
  try
    return (← ((← IO.currentDir) / "/proc/self").metadata).modified.sec
  catch _ => return 0

def node? (l : Location) : IO (Option FileTree.Node) := do
  let path := (← IO.currentDir) / Location.render l
  if ← path.isDir then return some .directory
  try
    return some (.file (← IO.FS.readBinFile path) FileTree.newFileMode)
  catch _ => return none

/-- `t` with what stands on the way to `l`. -/
def survey (t : FileTree) (l : Location) : IO FileTree :=
  (List.range l.length).foldlM (fun t i => do
    let p := l.take (i + 1)
    match ← node? p with
    | some n => return t.insert p n
    | none => return t) t

/-- Makes what `t` has more than `before`. -/
def carryOut (before t : FileTree) : IO Unit :=
  t.nodes.reverse.forM fun (l, n) => do
    if (before.find? l).isNone then
      match n with
      | .directory => IO.FS.createDirAll (Location.render l)
      | .file data _ => IO.FS.writeBinFile (Location.render l) data
      | .link _ => pure ()

/-- Sends nothing. -/
def transport : Cache.Transport Unit := Cache.Http.transport fun _ => none

def runSession (env : Environment) (h : Platform.Host) (a : Arguments) : IO UInt32 := do
  let base := Location.names h.directory
  let file := a.config.or (env.settingsFile? h.account.home?)
  let tree ← survey .empty ((file.map (Location.ofText base)).getD [])
  let tree ←
    match Session.settings tree h env a with
    | .ok s => survey tree ((Session.cacheOf h s).root ++ [Cache.databaseFile])
    | .error _ => pure tree
  match Session.run transport (← now) h env a ⟨tree, .new, false, ()⟩ with
  | .ok output w =>
    carryOut tree w.tree
    IO.print output.text
    return if output.success then 0 else 1
  | .error e w =>
    carryOut tree w.tree
    IO.eprintln ("error: " ++ e.message)
    return 1

def start (words : List String) : IO UInt32 := do
  let env ← environment
  match CommandLine.parse env words with
  | .error .helpWanted =>
    IO.print CommandLine.usage
    return 0
  | .error e =>
    IO.eprintln ("error: " ++ e.message)
    return 2
  | .ok a => runSession env (← host) a

end Depot.Program

def main (words : List String) : IO UInt32 :=
  Depot.Program.start words
