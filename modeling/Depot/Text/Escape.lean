import Depot.Text.Digit

/-!
# Escapes

The escapes that quoted texts of several formats have in common: one letter behind a backslash, and
a character given by its number.
-/

namespace Depot.Text

def escaped? (c : Char) : Option Char :=
  match c with
  | '"' | '\\' => some c
  | 'b' => some '\x08'
  | 'f' => some '\x0c'
  | 'n' => some '\n'
  | 'r' => some '\r'
  | 't' => some '\t'
  | _ => none

/-- The character with the number that the hexadecimal digits are. -/
def scalar? (ds : List Char) : Option Char := do
  let n ← valueIn? 16 ds
  if n < 0xD800 ∨ (0xE000 ≤ n ∧ n < 0x110000) then some (Char.ofNat n) else none

end Depot.Text
