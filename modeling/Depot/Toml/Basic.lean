/-!
# TOML documents

The values of a document, and tables while they are built. A table that a header or a key has named
on the way to another may be completed later; one that was written out may not.
-/

namespace Depot.Toml

inductive Value where
  | text (s : String)
  | integer (n : Int)
  /-- A floating point number as it is written. -/
  | float (written : String)
  | boolean (b : Bool)
  /-- A date or a time as it is written. -/
  | moment (written : String)
  | array (items : List Value)
  | table (fields : List (String × Value))

/-- How a table has come about. -/
inductive Origin where
  /-- By a header, or written out. -/
  | defined
  /-- On the way to another header. -/
  | implied
  /-- On the way to a dotted key. -/
  | dotted
  deriving DecidableEq, Repr

inductive Item where
  | value (v : Value)
  | table (origin : Origin) (fields : List (String × Item))
  /-- An array of tables, each with its fields. -/
  | tables (list : List (List (String × Item)))

namespace Item

/-- The fields with what `f` makes of the item under `k`. -/
def update? (k : String) (f : Option Item → Option Item) :
    List (String × Item) → Option (List (String × Item))
  | [] => (f none).map fun i => [(k, i)]
  | (k', i) :: fs =>
    if k' = k then (f (some i)).map fun i => (k, i) :: fs
    else (update? k f fs).map ((k', i) :: ·)

/-- The array with what `f` makes of its last table. -/
def updateLast? (f : List (String × Item) → Option (List (String × Item))) :
    List (List (String × Item)) → Option (List (List (String × Item)))
  | [] => none
  | [fs] => (f fs).map ([·])
  | fs :: rest => (updateLast? f rest).map (fs :: ·)

/-- Adds a field under a key below `path`. The tables on the way must have come about on the way to
something, and the last of them by a dotted key. -/
def assign? (v : Value) (key : String) (origin : Origin) (below : Bool) :
    (path : List String) → List (String × Item) → Option (List (String × Item))
  | [], fs =>
    if below = (origin = .dotted) then
      update? key (fun | none => some (.value v) | some _ => none) fs
    else none
  | k :: path, fs =>
    update? k (fun
      | none => (assign? v key .dotted true path []).map (.table .dotted)
      | some (.table .defined _) => none
      | some (.table origin fs) => (assign? v key origin true path fs).map (.table origin)
      | some (.tables list) =>
        (updateLast? (assign? v key .defined true path) list).map .tables
      | some (.value _) => none) fs

/-- Changes the item under a key below `path`, where tables on the way are made if need be. -/
def descend? (f : Option Item → Option Item) (key : String) :
    (path : List String) → List (String × Item) → Option (List (String × Item))
  | [], fs => update? key f fs
  | k :: path, fs =>
    update? k (fun
      | none => (descend? f key path []).map (.table .implied)
      | some (.table origin fs) => (descend? f key path fs).map (.table origin)
      | some (.tables list) => (updateLast? (descend? f key path) list).map .tables
      | some (.value _) => none) fs

mutual

def toValue : Item → Value
  | .value v => v
  | .table _ fs => .table (toFields fs)
  | .tables list => .array (toTables list)

def toFields : List (String × Item) → List (String × Value)
  | [] => []
  | (k, i) :: fs => (k, toValue i) :: toFields fs

def toTables : List (List (String × Item)) → List Value
  | [] => []
  | fs :: rest => .table (toFields fs) :: toTables rest

end

end Item

structure Assignment where
  path : List String
  key : String
  value : Value

/-- A header with what stands below it. -/
structure Section where
  inArray : Bool
  path : List String
  key : String
  assignments : List Assignment

structure Document where
  root : List Assignment
  sections : List Section

/-- The fields with the assignments added in order. -/
def assignAll? (as : List Assignment) (fs : List (String × Item)) :
    Option (List (String × Item)) :=
  as.foldlM (fun fs a => Item.assign? a.value a.key .defined false a.path fs) fs

/-- Puts a section in its place: a new table, or one more of an array. -/
def Section.place? (s : Section) (fs : List (String × Item)) : Option (List (String × Item)) :=
  Item.descend? (fun
    | none =>
      (assignAll? s.assignments []).map fun fs =>
        if s.inArray then .tables [fs] else .table .defined fs
    | some (.table .implied fs) =>
      if s.inArray then none else (assignAll? s.assignments fs).map (.table .defined)
    | some (.tables list) =>
      if s.inArray then (assignAll? s.assignments []).map fun fs => .tables (list ++ [fs])
      else none
    | some _ => none) s.key s.path fs

/-- What the document says, if nothing in it is said twice. -/
def Document.fields? (d : Document) : Option (List (String × Value)) := do
  let fs ← assignAll? d.root []
  let fs ← d.sections.foldlM (fun fs s => s.place? fs) fs
  return Item.toFields fs

end Depot.Toml
