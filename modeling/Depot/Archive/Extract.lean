import Depot.Archive.Member
import Depot.Archive.Pattern
import Depot.Archive.Report
import Depot.FileTree.Operations

/-!
# Extraction

Members are visited in the order of the archive. A member is selected if its path is safe, has more
names than are stripped, and matches the pattern with all its names. Selected directories are made
and selected files replace what stands at their place; a test only selects.
-/

namespace Depot.Archive

/-- The names on a member's path; none if it starts at the root, climbs, or holds a NUL. -/
def safeNames? (path : String) : Option (List String) :=
  let names := Location.names path
  if Location.isAbsolute path ∨ ".." ∈ names ∨ path.toList.contains '\x00' then none
  else some names

structure Selection where
  dest : Location
  pattern : Option Pattern
  strip : Nat
  test : Bool

def Selection.target? (s : Selection) (names : List String) : Option Location :=
  if names.length ≤ s.strip then none
  else if s.pattern.all (·.matches names) then some (s.dest ++ names.drop s.strip)
  else none

/-- Puts a member at its place. What stood there as a file is removed first, since it may not be
writable or be a link. -/
def place (m : Member) (target : Location) : FileTree.Action Unit := do
  if m.isDirectory then FileTree.makeDirectories target
  else
    FileTree.makeDirectories target.dropLast
    if (← get).isFile target then FileTree.remove target
    let p ← FileTree.create target
    FileTree.fill p m.content.data
    if m.content.failed then throw .missing
    FileTree.setMode target m.mode

structure Progress where
  tree : FileTree
  report : Report

abbrev Extraction := EStateM Error Progress

/-- A change of the tree as a part of an extraction. -/
def onTree (a : FileTree.Action Unit) : Extraction Unit := fun p =>
  match a p.tree with
  | .ok () t => .ok () ⟨t, p.report⟩
  | .error _ t => .error .io ⟨t, p.report⟩

def onReport (f : Report → Report) : Extraction Unit := fun p =>
  .ok () ⟨p.tree, f p.report⟩

def visit (s : Selection) (m : Member) : Extraction Unit := do
  onReport fun r => { r with members := r.members + 1 }
  match safeNames? m.name with
  | none => onReport fun r => { r with unsafeMembers := r.unsafeMembers + 1 }
  | some names =>
    match s.target? names with
    | none => pure ()
    | some target =>
      if !s.test then onTree (place m target)
      onReport fun r => { r with selected := r.selected ++ [target] }

def visitEntry (s : Selection) : Entry → Extraction Unit
  | .member m => visit s m
  | .skipped => pure ()

/-- Visits all entries; `archive` is what an error names. -/
def visitAll (archive : String) (s : Selection) (es : Entries) : Extraction Unit := do
  es.list.forM (visitEntry s)
  if !es.isComplete then throw (.invalidArchive archive)

def extractEntries (archive : String) (dest : Location) (o : Options) (pattern : Option Pattern)
    (es : Entries) : EStateM Error FileTree Report := fun t =>
  match visitAll archive ⟨dest, pattern, o.strip, o.test⟩ es ⟨t, .start o.test⟩ with
  | .ok () p => .ok p.report p.tree
  | .error e p => .error e p.tree

end Depot.Archive
