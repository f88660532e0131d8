import Depot.Text.Digit

/-!
# Punycode

The spelling of a text in ASCII letters and digits. The other characters are left out, and each of
them is told by how far it lies behind the one before, in the order of their numbers and places.
The distances are numbers of varying length whose last digit is below a threshold; the thresholds
adapt to the distances.
-/

namespace Depot.Url.Punycode

def isBasic (c : Char) : Bool := c.toNat < 0x80

/-- The number of the first character that is left out. -/
def firstCode : Nat := 0x80

def firstBias : Nat := 72

/-- The threshold of digit number `i`. -/
def threshold (bias i : Nat) : Nat := min 26 (max 1 (36 * (i + 1) - bias))

theorem threshold_bounds (bias i : Nat) : 1 ≤ threshold bias i ∧ threshold bias i ≤ 26 := by
  rw [threshold]
  omega

/-- The bias for the next distance after one of `distance` to the text's character `count`. -/
def adapt (distance count : Nat) (first : Bool) : Nat :=
  let d := distance / (if first then 700 else 2)
  scale 0 (d + d / count)
where
  scale (k d : Nat) : Nat := if 455 < d then scale (k + 36) (d / 35) else k + 36 * d / (d + 38)
  termination_by d
  decreasing_by omega

/-- A digit: letters come before numerals. -/
def digit (n : Nat) : Char :=
  if n < 26 then Char.ofNat ('a'.toNat + n) else Char.ofNat ('0'.toNat + (n - 26))

def digit? (c : Char) : Option Nat :=
  if c.isLower then some (c.toNat - 'a'.toNat)
  else if c.isDigit then some (c.toNat - '0'.toNat + 26)
  else none

/-- The digits of a distance from digit `i` on. -/
def digits (bias i n : Nat) : List Char :=
  let t := threshold bias i
  if n < t then [digit n]
  else digit (t + (n - t) % (36 - t)) :: digits bias (i + 1) ((n - t) / (36 - t))
  termination_by n
  decreasing_by
    have h := threshold_bounds bias i
    have hle := Nat.div_le_self (n - threshold bias i) (36 - threshold bias i)
    omega

/-- How far the writer has come: the last character that was written, the place behind it among
those written before, their count, and how many of them needed no distance. -/
structure Writer where
  code : Nat
  place : Nat
  count : Nat
  basic : Nat
  bias : Nat

/-- The characters left out of `cs`, each with its place, in the order in which they are written. -/
def leftOut (cs : List Char) : List (Char × Nat) :=
  (cs.zipIdx.filter (!isBasic ·.1)).mergeSort fun a b => a.1.toNat ≤ b.1.toNat

/-- How many characters in front of place `i` of `cs` are written before the character `c` there. -/
def placeOf (cs : List Char) (c : Char) (i : Nat) : Nat :=
  (cs.take i).countP (·.toNat ≤ c.toNat)

/-- The distances to the characters of `cs` that are left. -/
def write (cs : List Char) : Writer → List (Char × Nat) → List Char
  | _, [] => []
  | w, (c, i) :: rest =>
    let place := placeOf cs c i
    let distance := (c.toNat - w.code) * (w.count + 1) + place - w.place
    let bias := adapt distance (w.count + 1) (w.count == w.basic)
    digits w.bias 0 distance ++
      write cs { w with code := c.toNat, place := place + 1, count := w.count + 1, bias } rest

def encode (cs : List Char) : List Char :=
  let basic := cs.filter isBasic
  (if basic = [] then [] else basic ++ ['-']) ++
    write cs ⟨firstCode, 0, basic.length, basic.length, firstBias⟩ (leftOut cs)

/-- The text so far, the last character put into it, the place to count from, and the distance as
far as it has been read: its value, the weight of its next digit, and how many digits it has. -/
structure Reader where
  text : List Char
  code : Nat
  place : Nat
  bias : Nat
  distance : Nat
  weight : Nat
  digits : Nat

def Reader.start (text : List Char) : Reader :=
  ⟨text, firstCode, 0, firstBias, 0, 1, 0⟩

/-- Puts in the character at the distance that has been read. -/
def Reader.put? (r : Reader) (first : Bool) : Option Reader :=
  let count := r.text.length + 1
  let code := r.code + (r.place + r.distance) / count
  let place := (r.place + r.distance) % count
  if code < 0xD800 ∨ (0xE000 ≤ code ∧ code < 0x110000) then
    some { text := r.text.insertIdx place (Char.ofNat code), code, place := place + 1,
           bias := adapt r.distance count first, distance := 0, weight := 1, digits := 0 }
  else none

/-- The text once all distances have been read. -/
def read? (first : Bool) (r : Reader) : List Char → Option (List Char)
  | [] => if r.digits = 0 then some r.text else none
  | c :: cs => do
    let d ← digit? c
    let t := threshold r.bias r.digits
    let distance := r.distance + d * r.weight
    if d < t then
      read? false (← Reader.put? { r with distance } first) cs
    else
      read? first { r with distance, weight := r.weight * (36 - t), digits := r.digits + 1 } cs

/-- The text that is spelled `cs`; its basic characters stand in front of the last hyphen. -/
def decode? (cs : List Char) : Option (List Char) :=
  let distances := (cs.reverse.takeWhile (· ≠ '-')).reverse
  read? true (.start (cs.take (cs.length - distances.length - 1))) distances

end Depot.Url.Punycode
