import Depot.Cache.Basic

/-!
# Fetching

`fetch` brings a file into the cache and `refresh` the list of downloads together with the catalog.
Both ask only for what has changed. A new body is first written to a staging file; then the index
is drafted, the staging file takes the place of the old one, and the draft is committed. A failure
on the way leaves index and files as they were.
-/

namespace Depot.Cache

variable {σ α : Type}

/-- A body that waits beside the place of its file. -/
structure Staged where
  temp : Location
  dest : Location
  record : Record

inductive Delivery where
  /-- The file at this place is current. -/
  | unchanged (dest : Location)
  | changed (s : Staged)

/-- Steps after which a call may be broken off. -/
inductive Step where
  | stage
  | rebuild
  | upsert
  | rename
  | commit
  deriving DecidableEq, Repr

/-- Goes on, or ends the call if it is broken off after step `s`. -/
def pass (breaks : Step → Bool) (s : Step) : Work σ Unit :=
  if breaks s then throw .io else pure ()

/-- The beginning of the names of staging files. -/
def stagingName (n : Nat) : String := s!".download-{n}"

def stagingMode : Nat := 0o600

/-- The first name from number `n` on, of `left` tries, that nothing in `directory` has and that is
not `taken`. -/
def freeName (t : FileTree) (directory : Location) (taken : String) (n : Nat) :
    (left : Nat) → String
  | 0 => stagingName n
  | left + 1 =>
    let name := stagingName n
    if (t.find? (directory ++ [name])).isNone ∧ name ≠ taken then name
    else freeName t directory taken (n + 1) left

def makeStagingFile (dest : Location) : FileTree.Action Location := do
  let directory := dest.dropLast
  FileTree.makeDirectories directory
  let t ← get
  let place ← FileTree.place true directory
  let temp := directory ++ [freeName t place (dest.getLast?.getD "") 0 (t.nodes.length + 1)]
  let _ ← FileTree.create temp
  FileTree.setMode temp stagingMode
  return temp

/-- Runs `work`, and if it fails removes the staging file. -/
def guarding (temp : Location) (work : Work σ α) : Work σ α := fun w =>
  match work w with
  | .ok a w => .ok a w
  | .error e w =>
    match FileTree.remove temp w.tree with
    | .ok () t | .error _ t => .error e { w with tree := t }

/-- Writes a body to the staging file; one that breaks off is an error. -/
def receive (temp : Location) (body : Body) : Work σ Unit := do
  onTree do
    let p ← FileTree.create temp
    FileTree.fill p body.data
  match body.failure with
  | none => pure ()
  | some e => throw e

def ask (t : Transport σ) (url : String) (conditions : Validators) : Work σ Response := fun w =>
  match t url conditions w.origin with
  | .ok r o => .ok r { w with origin := o }
  | .error e o => .error e { w with origin := o }

/-- Asks for `url` unless the copy at hand is current. A new body is staged; `now` is its time. -/
def download (c : Cache) (t : Transport σ) (now : Int) (url : String) : Work σ Delivery := do
  let dest ← check (c.pathFor url)
  let known ← record? url
  match ← ask t url ((known.map (·.validators)).getD .absent) with
  | .notModified =>
    if (← get).tree.isFile dest then return .unchanged dest
    else throw (.inconsistent (Location.render dest))
  | .body validators body =>
    let temp ← onTree (makeStagingFile dest)
    guarding temp (receive temp body)
    return .changed ⟨temp, dest, ⟨url, validators, now⟩⟩

structure Fetched where
  changed : Bool
  path : Location
  deriving DecidableEq, Repr

/-- `fetch` that is broken off after the steps that `breaks` names. -/
def fetchUntil (breaks : Step → Bool) (c : Cache) (t : Transport σ) (now : Int) (url : String) :
    Work σ Fetched := do
  match ← c.download t now url with
  | .unchanged dest => return ⟨false, dest⟩
  | .changed s => guarding s.temp do
    pass breaks .stage
    let draft := (← index).upsert s.record
    pass breaks .upsert
    onTree (FileTree.rename s.temp s.dest)
    pass breaks .rename
    commit draft
    pass breaks .commit
    return ⟨true, s.dest⟩

def fetch (c : Cache) (t : Transport σ) (now : Int) (url : String) : Work σ Fetched :=
  c.fetchUntil (fun _ => false) t now url

/-- `refresh` that is broken off after the steps that `breaks` names. -/
def refreshUntil (breaks : Step → Bool) (c : Cache) (t : Transport σ) (now : Int) :
    Work σ Bool := do
  match ← c.download t now c.manifestUrl with
  | .unchanged _ => return false
  | .changed s => guarding s.temp do
    pass breaks .stage
    let bytes ← onTree fun tree =>
      match tree.read s.temp with
      | .ok b => .ok b tree
      | .error e => .error e tree
    let manifest ← check (Manifest.parse bytes)
    let draft ← check ((← index).rebuild manifest)
    pass breaks .rebuild
    let draft := draft.upsert s.record
    pass breaks .upsert
    onTree (FileTree.rename s.temp s.dest)
    pass breaks .rename
    commit draft
    pass breaks .commit
    return true

/-- Brings the list of downloads and the catalog up to date, and tells whether they have changed. -/
def refresh (c : Cache) (t : Transport σ) (now : Int) : Work σ Bool :=
  c.refreshUntil (fun _ => false) t now

end Depot.Cache
