import Depot.Instances
import Depot.Location

/-!
# File trees

A tree of files, directories and symbolic links, kept as the nodes at their locations. The root is
always a directory. `find?` looks at exactly one location; `resolve` walks there as the system
does, through links and parents.
-/

namespace Depot

namespace FileTree

inductive Node where
  /-- A regular file with its permission bits. -/
  | file (data : ByteArray) (mode : Nat)
  | directory
  | link (target : String)
  deriving DecidableEq

end FileTree

structure FileTree where
  nodes : List (Location × FileTree.Node)
  deriving DecidableEq

namespace FileTree

def empty : FileTree := ⟨[]⟩

def find? (t : FileTree) (l : Location) : Option Node :=
  if l = [] then some .directory else t.nodes.lookup l

def erase (t : FileTree) (l : Location) : FileTree :=
  ⟨t.nodes.filter (·.1 ≠ l)⟩

def insert (t : FileTree) (l : Location) (n : Node) : FileTree :=
  ⟨(l, n) :: (t.erase l).nodes⟩

/-- The nodes below `l`, with their ways from there. -/
def below (t : FileTree) (l : Location) : List (Location × Node) :=
  t.nodes.filterMap fun (p, n) =>
    if l.isPrefixOf p ∧ p ≠ l then some (p.drop l.length, n) else none

inductive Error where
  | missing
  | exists
  | notDirectory
  | isDirectory
  | tooLong
  | tooManyLinks
  deriving DecidableEq, Repr

/-- Bytes that a name may have. -/
def maxNameBytes : Nat := 255

/-- Bytes that a whole path may have. -/
def maxPathBytes : Nat := 4095

/-- Links that are followed on one walk. -/
def maxLinks : Nat := 40

def isTooLong (name : String) : Bool :=
  name.utf8ByteSize > maxNameBytes

/-- How many steps a link takes. -/
def Node.span : Node → Nat
  | .link target => (Location.steps target).length
  | .file .. | .directory => 0

/-- The steps of the longest link. -/
def longestLink (t : FileTree) : Nat :=
  (t.nodes.map fun p => p.2.span).max?.getD 0

theorem mem_nodes_of_find? {t : FileTree} {l : Location} {n : Node} (hl : l ≠ [])
    (h : t.find? l = some n) : (l, n) ∈ t.nodes := by
  rw [find?, if_neg hl, List.lookup_eq_some_iff] at h
  obtain ⟨l₁, l₂, hnodes, -⟩ := h
  rw [hnodes]
  exact List.mem_append_right l₁ List.mem_cons_self

theorem length_steps_le {t : FileTree} {here : Location} {name target : String}
    (h : t.find? (here ++ [name]) = some (.link target)) :
    (Location.steps target).length ≤ t.longestLink := by
  have hmem : (here ++ [name], Node.link target) ∈ t.nodes := mem_nodes_of_find? (by simp) h
  exact List.le_max?_getD_of_mem (List.mem_map_of_mem (f := fun p => p.2.span) hmem)

/-- Walks from the directory `here` along `names` and gives the place that is reached, which need
not exist while its directory does. A link in last place is followed if `follow` says so. -/
def walk (t : FileTree) (follow : Bool) (links : Nat) (here : Location) :
    List String → Except Error Location
  | [] => .ok here
  | name :: rest =>
    if name = ".." then walk t follow links here.dropLast rest
    else if name = "." then walk t follow links here rest
    else if isTooLong name then .error .tooLong
    else
      let l := here ++ [name]
      match _hl : t.find? l with
      | none => if rest = [] then .ok l else .error .missing
      | some .directory => walk t follow links l rest
      | some (.file ..) => if rest = [] then .ok l else .error .notDirectory
      | some (.link target) =>
        if rest = [] ∧ !follow then .ok l
        else
          match links with
          | 0 => .error .tooManyLinks
          | links + 1 =>
            let start := if Location.isAbsolute target then [] else here
            walk t follow links start (Location.steps target ++ rest)
  termination_by names => links * t.longestLink + names.length
  decreasing_by
    · simp
    · simp
    · simp
    · have hsteps := length_steps_le _hl
      simp only [List.length_append, List.length_cons, Nat.succ_mul]
      omega

/-- The place that `l` leads to. -/
def resolve (t : FileTree) (follow : Bool) (l : Location) : Except Error Location :=
  if l.render.utf8ByteSize > maxPathBytes then .error .tooLong
  else walk t follow maxLinks [] l

/-- What `l` leads to. -/
def lookup (t : FileTree) (l : Location) : Except Error Node :=
  match t.resolve true l with
  | .error e => .error e
  | .ok p =>
    match t.find? p with
    | none => .error .missing
    | some n => .ok n

def isFile (t : FileTree) (l : Location) : Bool :=
  match t.lookup l with
  | .ok (.file ..) => true
  | _ => false

def isDirectory (t : FileTree) (l : Location) : Bool :=
  match t.lookup l with
  | .ok .directory => true
  | _ => false

def read (t : FileTree) (l : Location) : Except Error ByteArray :=
  match t.lookup l with
  | .error e => .error e
  | .ok (.file data _) => .ok data
  | .ok _ => .error .isDirectory

end FileTree

end Depot
