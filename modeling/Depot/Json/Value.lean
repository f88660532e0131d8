import Depot.Json.Node

/-!
# Values

What a document stands for. The fields of an object are in the order of their keys, and of several
with one key the last counts. `ofNode?` refuses texts that are not well formed, numbers that are
too large and values that are nested too deeply.
-/

namespace Depot.Json

inductive Value where
  | null
  | bool (b : Bool)
  | number (n : Number)
  | text (s : String)
  | array (items : List Value)
  | object (fields : List (String × Value))

namespace Value

def insert {α : Type} (k : String) (v : α) : List (String × α) → List (String × α)
  | [] => [(k, v)]
  | (k', v') :: fs =>
    match compare k k' with
    | .lt => (k, v) :: (k', v') :: fs
    | .eq => (k, v) :: fs
    | .gt => (k', v') :: insert k v fs

/-- The fields in order, later ones in place of earlier ones with the same key. -/
def ofFields {α : Type} (fs : List (String × α)) : List (String × α) :=
  fs.foldl (fun acc (k, v) => insert k v acc) []

/-- How many arrays and objects may be nested in one another. -/
def maxDepth : Nat := 127

mutual

/-- The value of a node that `depth` more arrays and objects may be nested in. -/
def ofNode? (depth : Nat) : Node → Option Value
  | .word .null => some .null
  | .word .true => some (.bool true)
  | .word .false => some (.bool false)
  | .number n => n.value?.map .number
  | .text gs => (Glyph.text? gs).map .text
  | .array items => if depth = 0 then none else (ofItems? (depth - 1) items).map .array
  | .object fields =>
    if depth = 0 then none else (ofPairs? (depth - 1) fields).map fun fs => .object (ofFields fs)

def ofItems? (depth : Nat) : List Node → Option (List Value)
  | [] => some []
  | n :: ns => do return (← ofNode? depth n) :: (← ofItems? depth ns)

def ofPairs? (depth : Nat) : List (List Glyph × Node) → Option (List (String × Value))
  | [] => some []
  | (k, n) :: ns => do
    return (← Glyph.text? k, ← ofNode? depth n) :: (← ofPairs? depth ns)

end

def parse? (text : String) : Option Value :=
  Node.read? (text.toList.map some) >>= ofNode? maxDepth

def field? (k : String) : Value → Option Value
  | .object fs => fs.lookup k
  | _ => none

def text? : Value → Option String
  | .text s => some s
  | _ => none

end Value

end Depot.Json
