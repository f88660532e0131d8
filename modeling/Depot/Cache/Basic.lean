import Depot.Blake3
import Depot.Cache.Index
import Depot.Catalog.Query
import Depot.FileTree.Operations
import Depot.Retry
import Depot.Url.Parser

/-!
# Caches

A cache keeps files below `files` in its directory and its index in a database there. It works on a
`World` of files, database and transport. The place of a file follows from its URL alone.
-/

namespace Depot

structure Cache where
  root : Location
  manifestUrl : String
  /-- Hashes URLs, as hexadecimal digits. -/
  digest : ByteArray → String := Blake3.hex
  /-- Spells the names of hosts. -/
  [naming : Url.Naming]

namespace Cache

def databaseFile : String := "data.db"

def filesDirectory : String := "files"

/-- How many digits of the hash of a URL name a directory. -/
def hashDigits : Nat := 4

def bucket (c : Cache) (url : String) : Location :=
  let hash := (c.digest url.toUTF8).toList.take hashDigits
  c.root ++ [filesDirectory, String.ofList hash]

def pathFor (c : Cache) (url : String) : Except Error Location :=
  match Url.parse? c.naming url >>= Url.fileName? with
  | none => .error (.notFileUrl url)
  | some name => .ok (c.bucket url ++ [name])

/-- All that a cache works on; `σ` is the state of the transport. -/
structure World (σ : Type) where
  tree : FileTree
  database : Database
  /-- Whether the database is open. -/
  isOpen : Bool
  origin : σ

/-- Work of a cache. What it has done to the world stays when it fails. -/
abbrev Work (σ : Type) := EStateM Error (World σ)

variable {σ α : Type}

/-- Something that goes right or wrong without touching the world. -/
def check (r : Except Error α) : Work σ α := fun w =>
  match r with
  | .ok a => .ok a w
  | .error e => .error e w

/-- A change of the tree. What goes wrong there is not told apart. -/
def onTree (a : FileTree.Action α) : Work σ α := fun w =>
  match a w.tree with
  | .ok x t => .ok x { w with tree := t }
  | .error _ t => .error .io { w with tree := t }

/-- The index, while the database is open. -/
def index : Work σ Index := fun w =>
  if w.isOpen then .ok w.database.index w else .error .database w

/-- Puts `i` in the place of the index. -/
def commit (i : Index) : Work σ Unit := fun w =>
  if w.isOpen then .ok () { w with database := { w.database with index := i } }
  else .error .database w

/-- Runs `work` again after failures that may pass. -/
def retry (r : Retry) (work : Work σ α) : Work σ α := fun w =>
  let attempt : StateM (World σ) (Except Error α) := fun w =>
    match work w with
    | .ok a w => (.ok a, w)
    | .error e w => (.error e, w)
  match r.run Error.isRetryable (fun _ => pure ()) attempt w with
  | (.ok a, w) => .ok a w
  | (.error e, w) => .error e w

/-- Opens the database file; it is made if it is missing. The tables are kept beside the tree, so in
the tree the file of a database is empty and any other file is none. -/
def openDatabase (c : Cache) : Work σ Unit := fun w =>
  let file := c.root ++ [databaseFile]
  match w.tree.lookup file with
  | .ok (.file data _) => if data.isEmpty then migrate w else .error .database w
  | .ok _ => .error .database w
  | .error _ =>
    match FileTree.write file .empty w.tree with
    | .ok _ t => migrate { w with tree := t, database := .new }
    | .error _ t => .error .database { w with tree := t }
where
  migrate (w : World σ) : EStateM.Result Error (World σ) Unit :=
    match w.database.migrate with
    | .ok d => .ok () { w with database := d, isOpen := true }
    | .error e => .error e w

/-- Opens the cache; its directory is made if it is missing. -/
def «open» (c : Cache) : Work σ Unit := do
  onTree (FileTree.makeDirectories c.root)
  c.openDatabase

/-- From here on there is no index. -/
def close : Work σ Unit := modify fun w => { w with isOpen := false }

def record? (url : String) : Work σ (Option Record) := do
  check ((← index).record? url)

def query (q : Query) : Work σ (List Entry) := do
  check ((← index).catalog.query q)

def choices : Work σ Catalog.Choices := return (← index).catalog.choices

def counts : Work σ Catalog.Counts := return (← index).catalog.counts

end Cache

end Depot
