import Depot.Text.Lowercase
import Depot.Url.Punycode

/-!
# Names of hosts

A name may be written in letters of any script and has one spelling in ASCII, which `Naming` gives.
How these spellings come about is laid down outside of this library, so everything that reads URLs
is told. The instance is what the program itself uses: it is exact for names of ASCII characters
that spell no others, and knows of other scripts lower case, wide forms and Punycode, but not how
letters combine or which of them may stand side by side.
-/

namespace Depot.Url

open Depot.Text

class Naming where
  /-- The spelling of a name in ASCII, unless it has none. -/
  ascii? : List Char → Option (List Char)

namespace Name

/-- Characters that are left out of a name. -/
def ignored : List (Nat × Nat) :=
  [(0xAD, 0xAD), (0x34F, 0x34F), (0x180B, 0x180F), (0x200B, 0x200B), (0x2060, 0x2060),
    (0x2064, 0x2064), (0xFE00, 0xFE0F), (0xFEFF, 0xFEFF)]

/-- Control, format and private characters, which have no place in a name, and nor have blanks. -/
def refused : List (Nat × Nat) :=
  [(0x80, 0xA0), (0x61C, 0x61C), (0x1680, 0x1680), (0x2000, 0x200A), (0x200C, 0x200F),
    (0x2028, 0x202F), (0x205F, 0x205F), (0x2061, 0x2063), (0x2065, 0x206F), (0x3000, 0x3000),
    (0xE000, 0xF8FF), (0xFDD0, 0xFDEF), (0xFFF0, 0xFFFF), (0xE0000, 0x10FFFF)]

/-- Dots of other scripts. -/
def isDot (c : Char) : Bool := c == '\u3002' || c == '\uFF0E' || c == '\uFF61'

/-- The character that stands for `c` in a name: wide forms become ASCII. -/
def fold (c : Char) : Char :=
  if isDot c then '.'
  else if 0xFF01 ≤ c.toNat ∧ c.toNat ≤ 0xFF5E then Char.ofNat (c.toNat - 0xFEE0)
  else c

/-- The characters of a name in their one form. -/
def plain? (cs : List Char) : Option (List Char) :=
  let cs := ((cs.filter (!inRanges ignored ·)).map fold).map lowerChar
  if cs.any (inRanges refused) then none else some cs

/-- What a part of a name in Punycode starts with. -/
def mark : List Char := ['x', 'n', '-', '-']

/-- A part of a name that is written in Punycode; it has to be one that needs it. -/
def decoded? (cs : List Char) : Option (List Char) := do
  let cs ← Punycode.decode? cs
  if cs.all Punycode.isBasic ∨ plain? cs ≠ some cs then none else some cs

def part? (cs : List Char) : Option (List Char) := do
  let cs ← match mark.isPrefixOf? cs with
    | some r => decoded? r
    | none => some cs
  return if cs.all Punycode.isBasic then cs else mark ++ Punycode.encode cs

def ascii? (cs : List Char) : Option (List Char) := do
  let parts ← ((← plain? cs).splitOn '.').mapM part?
  return ['.'].intercalate parts

end Name

instance : Naming := ⟨Name.ascii?⟩

end Depot.Url
