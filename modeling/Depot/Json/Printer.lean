import Depot.Json.Value

/-!
# Writing values

Values are written without blanks. In texts, quotes, backslashes and control characters are
escaped and nothing else.
-/

namespace Depot.Json.Value

def hexDigit (n : Nat) : Char :=
  if n < 10 then Char.ofNat ('0'.toNat + n) else Char.ofNat ('a'.toNat + n - 10)

def escape (c : Char) : List Char :=
  match c with
  | '"' => ['\\', '"']
  | '\\' => ['\\', '\\']
  | '\x08' => ['\\', 'b']
  | '\x0c' => ['\\', 'f']
  | '\n' => ['\\', 'n']
  | '\r' => ['\\', 'r']
  | '\t' => ['\\', 't']
  | c =>
    if c < ' ' then ['\\', 'u', '0', '0', hexDigit (c.toNat / 16), hexDigit (c.toNat % 16)]
    else [c]

def quote (s : String) : List Char :=
  '"' :: s.toList.flatMap escape ++ ['"']

mutual

def chars : Value → List Char
  | .null => ['n', 'u', 'l', 'l']
  | .bool true => ['t', 'r', 'u', 'e']
  | .bool false => ['f', 'a', 'l', 's', 'e']
  | .number n => n.render
  | .text s => quote s
  | .array [] => ['[', ']']
  | .array (v :: vs) => '[' :: chars v ++ itemChars vs
  | .object [] => ['\x7b', '\x7d']
  | .object ((k, v) :: fs) => '\x7b' :: quote k ++ ':' :: chars v ++ fieldChars fs

/-- What follows the first item of an array. -/
def itemChars : List Value → List Char
  | [] => [']']
  | v :: vs => ',' :: chars v ++ itemChars vs

def fieldChars : List (String × Value) → List Char
  | [] => ['\x7d']
  | (k, v) :: fs => ',' :: quote k ++ ':' :: chars v ++ fieldChars fs

end

def render (v : Value) : String :=
  String.ofList v.chars

end Depot.Json.Value
