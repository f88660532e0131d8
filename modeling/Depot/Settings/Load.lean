import Depot.FileTree.Basic
import Depot.Settings.Basic
import Depot.Settings.Environment
import Depot.Settings.Literal
import Depot.Text.Utf8
import Depot.Toml.Parser

/-!
# Loading settings

Settings come in layers: defaults, a file, and variables of the environment. Each setting takes its
value from the last layer that gives it one, and only that value has to be of the right kind.
-/

namespace Depot.Settings

/-- The values that a layer gives, by name. -/
abbrev Layer := List (String × Literal)

def Literal.ofToml : Toml.Value → Literal
  | .text s => .text s
  | .integer n => .integer n
  | _ => .other

def fileLayer? (bytes : ByteArray) : Option Layer := do
  let text ← Text.Utf8.text? bytes
  let fields ← Toml.parse? text.toList
  return fields.map fun (k, v) => (k, Literal.ofToml v)

def variablePrefix : String := "MONGODL_"

/-- The setting that a variable names: its name without the prefix, both in any case. A dot in it
names something inside the setting, so the setting is no plain value. -/
def setting? (name value : String) : Option (String × Literal) := do
  let cs := name.toList.map Char.toLower
  let rest ← (variablePrefix.toList.map Char.toLower).isPrefixOf? cs
  let parts := (Text.trimBy Text.isBlank rest).splitOn '.'
  if parts.any (·.isEmpty) then none
  else
    match parts with
    | [k] => some (String.ofList k, Literal.ofText value)
    | k :: _ => some (String.ofList k, .other)
    | [] => none

def environmentLayer (env : Environment) : Layer :=
  env.filterMap fun (name, value) => setting? name value

def find? (layers : List Layer) (name : String) : Option Literal :=
  (layers.reverse.findSome? fun l => l.reverse.lookup name)

def textOf (layers : List Layer) (name default : String) : Except Error String :=
  match find? layers name with
  | none => .ok default
  | some (.text s) => .ok s
  | some _ => .error .unreadable

/-- A number below `bound`. -/
def numberOf (layers : List Layer) (name : String) (bound : Nat) :
    Except Error (Option Nat) :=
  match find? layers name with
  | none => .ok none
  | some (.integer n) => if 0 ≤ n ∧ n < bound then .ok (some n.toNat) else .error .unreadable
  | some _ => .error .unreadable

/-- The settings that the layers and the defaults make; `account` is the home directory of the
account. -/
def ofLayers (env : Environment) (layers : List Layer)
    (account : Option String := some Environment.rootHome) : Except Error Settings := do
  let cacheDir ← textOf layers "cache_dir" (env.cacheDirectory account)
  let manifestUrl ← textOf layers "manifest_url" defaultManifestUrl
  let edition ← textOf layers "edition" defaultEdition
  let retries ← numberOf layers "retries" (2 ^ 32)
  let timeout ← numberOf layers "timeout" (2 ^ 64)
  return ⟨cacheDir, manifestUrl, edition, retries.getD 0, timeout⟩

/-- The layers of a file with these bytes, if there is one, and of the environment. -/
def layers (file : Option ByteArray) (env : Environment) : Except Error (List Layer) :=
  match file with
  | none => .ok [environmentLayer env]
  | some bytes =>
    match fileLayer? bytes with
    | none => .error .unreadable
    | some l => .ok [l, environmentLayer env]

def ofSources (file : Option ByteArray) (env : Environment)
    (account : Option String := some Environment.rootHome) : Except Error Settings := do
  let s ← ofLayers env (← layers file env) account
  s.validate

/-- Loads the settings from the file that was asked for, which must exist, or else from the usual
one if it does. -/
def load (t : FileTree) (base : Location) (file : Option String) (env : Environment)
    (account : Option String := some Environment.rootHome) : Except Error Settings :=
  let read (path : String) := (t.read (Location.ofText base path)).toOption
  match file with
  | some path =>
    match read path with
    | none => .error (.notFound path)
    | some bytes => ofSources (some bytes) env account
  | none => ofSources (env.settingsFile? account >>= read) env account

end Depot.Settings
