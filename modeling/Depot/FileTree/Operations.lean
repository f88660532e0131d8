import Depot.FileTree.Basic

/-!
# Changing a tree

Each operation changes the tree at one place, or fails and leaves it. Only `makeDirectories` takes
several steps: what it has made stays when it fails.
-/

namespace Depot.FileTree

/-- An operation on a tree; what it has done so far stays when it fails. -/
abbrev Action := EStateM Error FileTree

def newFileMode : Nat := 0o644

/-- The bits of a mode that a file keeps. -/
def permissions (mode : Nat) : Nat := mode % 0o10000

def place (follow : Bool) (l : Location) : Action Location := fun t =>
  match t.resolve follow l with
  | .ok p => .ok p t
  | .error e => .error e t

def node? (l : Location) : Action (Option Node) := fun t => .ok (t.find? l) t

def put (l : Location) (n : Node) : Action Unit := fun t => .ok () (t.insert l n)

def makeDirectory (l : Location) : Action Unit := do
  let p ← place false l
  match ← node? p with
  | some _ => throw .exists
  | none => put p .directory

/-- Makes the directory, which may exist already. -/
def ensureDirectory (l : Location) : Action Unit := fun t =>
  match makeDirectory l t with
  | .ok () t => .ok () t
  | .error e t => if t.isDirectory l then .ok () t else .error e t

def makeDirectories (l : Location) : Action Unit := fun t =>
  match makeDirectory l t with
  | .ok () t => .ok () t
  | .error .missing t =>
    if _h : l = [] then .error .missing t
    else
      match makeDirectories l.dropLast t with
      | .ok () t => ensureDirectory l t
      | .error e t => .error e t
  | .error e t => if t.isDirectory l then .ok () t else .error e t
  termination_by l.length
  decreasing_by
    have := List.length_pos_iff.2 _h
    simp only [List.length_dropLast]
    omega

/-- Removes a file or a link. -/
def remove (l : Location) : Action Unit := do
  let p ← place false l
  match ← node? p with
  | none => throw .missing
  | some .directory => throw .isDirectory
  | some _ => modify (·.erase p)

/-- Opens `l` for writing as an empty file, new or not, and gives its place. -/
def create (l : Location) : Action Location := do
  let p ← place true l
  match ← node? p with
  | some .directory => throw .isDirectory
  | some (.file _ mode) => put p (.file .empty mode)
  | _ => put p (.file .empty newFileMode)
  return p

def fill (p : Location) (data : ByteArray) : Action Unit := do
  match ← node? p with
  | some (.file _ mode) => put p (.file data mode)
  | _ => throw .missing

def setMode (l : Location) (mode : Nat) : Action Unit := do
  let p ← place true l
  match ← node? p with
  | none => throw .missing
  | some (.file data _) => put p (.file data (permissions mode))
  | some _ => pure ()

/-- Moves the file at `source` over `dest`, which may not be a directory. -/
def rename (source dest : Location) : Action Unit := do
  let p ← place false source
  let q ← place false dest
  match ← node? p, ← node? q with
  | none, _ => throw .missing
  | _, some .directory => throw .isDirectory
  | some n, _ => modify fun t => (t.erase p).insert q n

def write (l : Location) (data : ByteArray) : Action Unit := do
  let p ← create l
  fill p data

end Depot.FileTree
