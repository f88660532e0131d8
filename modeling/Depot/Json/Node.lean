import Depot.Json.Token

/-!
# Documents

A document is read token by token onto a stack of the arrays and objects that are open. Texts and
numbers stay as written: `Json.Value` is what they stand for.
-/

namespace Depot.Json

inductive Node where
  | word (w : Word)
  | number (n : Numeral)
  | text (glyphs : List Glyph)
  | array (items : List Node)
  | object (fields : List (List Glyph × Node))

namespace Node

/-- An array or object that is open, with what it holds so far, backwards. -/
inductive Frame where
  | array (items : List Node)
  /-- `key` belongs to the value that is read next. -/
  | object (fields : List (List Glyph × Node)) (key : List Glyph)

/-- What may come next. -/
inductive Expect where
  | value
  /-- A value, or the end of an array that is still empty. -/
  | firstItem
  /-- A key, or the end of an object that is still empty. -/
  | firstKey
  | key
  | colon
  /-- A comma or the end of what is open. -/
  | next
  | done

structure State where
  expect : Expect
  frames : List Frame
  fields : List (List Glyph × Node)
  result : Option Node

def State.initial : State := ⟨.value, [], [], none⟩

/-- The state after a complete value. -/
def State.push (v : Node) : List Frame → State
  | [] => ⟨.done, [], [], some v⟩
  | .array items :: fs => ⟨.next, .array (v :: items) :: fs, [], none⟩
  | .object fields key :: fs => ⟨.next, .object ((key, v) :: fields) [] :: fs, [], none⟩

def State.value? (fs : List Frame) : Token → Option State
  | .word w => some (.push (.word w) fs)
  | .number n => some (.push (.number n) fs)
  | .text gs => some (.push (.text gs) fs)
  | .openArray => some ⟨.firstItem, .array [] :: fs, [], none⟩
  | .openObject => some ⟨.firstKey, fs, [], none⟩
  | _ => none

def State.step? (s : State) (t : Token) : Option State :=
  match s.expect, t, s.frames with
  | .firstItem, .closeArray, .array _ :: fs => some (.push (.array []) fs)
  | .value, t, fs | .firstItem, t, fs => State.value? fs t
  | .firstKey, .closeObject, fs => some (.push (.object []) fs)
  | .firstKey, .text k, fs | .key, .text k, fs =>
    some ⟨.colon, .object s.fields k :: fs, [], none⟩
  | .colon, .colon, fs => some ⟨.value, fs, [], none⟩
  | .next, .comma, .array items :: fs => some ⟨.value, .array items :: fs, [], none⟩
  | .next, .comma, .object fields _ :: fs => some ⟨.key, fs, fields, none⟩
  | .next, .closeArray, .array items :: fs => some (.push (.array items.reverse) fs)
  | .next, .closeObject, .object fields _ :: fs => some (.push (.object fields.reverse) fs)
  | _, _, _ => none

def ofTokens? (ts : List Token) : Option Node :=
  (ts.foldlM State.step? .initial).bind State.result

/-- The document that the characters write; `none` among them is no character. -/
def read? (cs : List (Option Char)) : Option Node :=
  Token.scan? cs >>= ofTokens?

end Node

end Depot.Json
