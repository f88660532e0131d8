import Depot.CommandLine.Basic
import Depot.Settings.Environment
import Depot.Text.Digit

/-!
# Reading a command line

Words are read from left to right. An option takes its value from the same word or from the next
one, which may not look like an option. A value is only looked at when the next known option
comes or the words end, so an unknown word before that is the first error.
-/

namespace Depot.CommandLine

structure State where
  arguments : Arguments
  seen : List Key
  /-- The option that was read last, with its value if that has come. -/
  pending : Option (Key × Option String)
  /-- Two dashes have been read, so there are no more options. -/
  ended : Bool

def State.start : State := ⟨.default, [], none, false⟩

/-- A path has a name at least. -/
def path? (v : String) : Except Error (Option String) :=
  if v = "" then .error .invalidValue else .ok (some v)

def retries? (v : String) : Except Error (Option Nat) :=
  match Text.signed64? v.toList with
  | some n => if 0 ≤ n ∧ n < 2 ^ 32 then .ok (some n.toNat) else .error .notANumber
  | none => .error .notANumber

def strip? (v : String) : Except Error Nat :=
  match Text.unsigned? (2 ^ 64) v.toList with
  | some n => .ok n
  | none => .error .notANumber

/-- The arguments with the option `k` set to `v`; the value of a flag does not count. -/
def assign (a : Arguments) (k : Key) (v : String) : Except Error Arguments :=
  match k with
  | .cacheDir => return { a with cacheDir := ← path? v }
  | .config => return { a with config := ← path? v }
  | .retries => return { a with retries := ← retries? v }
  | .verbose => return { a with verbose := true }
  | .quiet => return { a with quiet := true }
  | .list => return { a with list := true }
  | .version => return { a with version := some v }
  | .target => return { a with target := some v }
  | .arch => return { a with arch := some v }
  | .edition => return { a with edition := some v }
  | .component => return { a with component := some v }
  | .out => return { a with out := ← path? v }
  | .only => return { a with only := some v }
  | .strip => return { a with strip := ← strip? v }
  | .test => return { a with test := true }
  | .noDownload => return { a with noDownload := true }
  | .emptyIsError => return { a with emptyIsError := true }
  | .help => throw .helpWanted

namespace State

/-- Sets an option that has not been set before. -/
def set (s : State) (k : Key) (v : String) : Except Error State :=
  if s.seen.contains k then .error .conflict
  else do
    return { s with arguments := ← assign s.arguments k v, seen := k :: s.seen }

/-- Looks at the value of the last option. -/
def settle (s : State) : Except Error State :=
  match s.pending with
  | none => .ok s
  | some (_, none) => .error .invalidValue
  | some (k, some v) => { s with pending := none }.set k v

/-- An option with its value in the same word, or a flag. -/
def enter (s : State) (k : Key) (v : String) : Except Error State := do
  (← s.settle).set k v

/-- An option whose value is to come. -/
def expect (s : State) (k : Key) : Except Error State := do
  return { (← s.settle) with pending := some (k, none) }

def long (s : State) (name : String) (value : Option String) : Except Error State :=
  match Key.ofLong? name with
  | none => .error .unknownArgument
  | some k =>
    match k.takesValue, value with
    | true, some v => s.enter k v
    | true, none => s.expect k
    | false, some _ => .error .unneededValue
    | false, none => s.enter k ""

/-- Options of one letter: flags, and at last one that takes the rest as its value. -/
def shorts (s : State) : List Char → Except Error State
  | [] => .ok s
  | c :: r =>
    match Key.ofShort? c with
    | none => .error .unknownArgument
    | some k =>
      if k.takesValue then
        match r with
        | [] => s.expect k
        | '=' :: v => s.enter k (String.ofList v)
        | v => s.enter k (String.ofList v)
      else do
        shorts (← s.enter k "") r

def plain (s : State) (word : String) : Except Error State :=
  match s.pending with
  | some (k, none) => .ok { s with pending := some (k, some word) }
  | _ => .error .unknownArgument

/-- The name of a long option, and the value behind an equals sign. -/
def splitLong (cs : List Char) : String × Option String :=
  let name := String.ofList (cs.takeWhile (· ≠ '='))
  match cs.dropWhile (· ≠ '=') with
  | [] => (name, none)
  | _ :: v => (name, some (String.ofList v))

def read (s : State) (word : String) : Except Error State :=
  if s.ended then .error .unknownArgument
  else
    match word.toList with
    | ['-', '-'] => .ok { s with ended := true }
    | '-' :: '-' :: cs =>
      let (name, value) := splitLong cs
      s.long name value
    | '-' :: c :: cs => s.shorts (c :: cs)
    | _ => s.plain word

def finish (s : State) : Except Error Arguments :=
  let a := s.arguments
  if a.verbose && a.quiet then .error .conflict
  else if !a.list && (a.version.isNone || a.component.isNone) then .error .missingArgument
  else .ok a

end State

/-- Names a settings file for when the command line does not. -/
def configVariable : String := "MONGODL_CONFIG"

def parse (env : Environment) (words : List String) : Except Error Arguments := do
  let s ← (← words.foldlM State.read .start).settle
  let s ←
    match env.lookup configVariable with
    | some v => if s.seen.contains .config then pure s else s.set .config v
    | none => pure s
  s.finish

end Depot.CommandLine
