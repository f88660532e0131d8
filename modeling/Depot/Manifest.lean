import Depot.Cache.Error
import Depot.Json.Value
import Depot.Version.Parser

/-!
# The download manifest

The manifest lists releases, each with its downloads. A download is made for a target and an
architecture and holds named fields; those with a URL are its components. Fields of a manifest or
a release that have no meaning here only have to be written correctly.
-/

namespace Depot

open Json

structure Download where
  target : Option String
  arch : Option String
  edition : String
  /-- All other fields, in the order of their names. -/
  fields : List (String × Value)

structure Release where
  version : String
  githash : String
  date : String
  downloads : List Download

structure Manifest where
  releases : List Release

namespace Download

/-- Stands for a target or an architecture that is not given. -/
def unspecified : String := "null"

def targetName (d : Download) : String := d.target.getD unspecified

def archName (d : Download) : String := d.arch.getD unspecified

/-- The fields that can be downloaded: objects with a text under `url`. -/
def components (d : Download) : List (String × Value) :=
  d.fields.filter fun (_, v) => ((v.field? "url").bind Value.text?).isSome

end Download

namespace Manifest

variable {α : Type}

def readText? : Node → Option String
  | .text gs => Glyph.text? gs
  | _ => none

/-- A text, or nothing where the node says so. -/
def readName? : Node → Option (Option String)
  | .word .null => some none
  | n => (readText? n).map some

def readArray? (read : Node → Option α) : Node → Option (List α)
  | .array items => items.mapM read
  | _ => none

/-- The fields of an object with their keys read. -/
def keyed? (fields : List (List Glyph × Node)) : Option (List (String × Node)) :=
  fields.mapM fun (k, n) => (Glyph.text? k).map (·, n)

/-- The one node under `key`, `none` inside where there is none; a second one is an error. -/
def single? (key : String) (fields : List (String × Node)) : Option (Option Node) :=
  match fields.filter (·.1 = key) with
  | [] => some none
  | [(_, n)] => some (some n)
  | _ => none

/-- A record is an object, or an array of the fields in the order of `keys`, of which the last may
be missing. -/
def record? (keys : List String) : Node → Option (List (Option Node))
  | .object fields => do
    let fields ← keyed? fields
    keys.mapM fun k => single? k fields
  | .array items =>
    if items.length ≤ keys.length then
      some (items.map some ++ List.replicate (keys.length - items.length) none)
    else none
  | _ => none

def required? (read : Node → Option α) (n : Option Node) : Option α :=
  n >>= read

def optional? (default : α) (read : Node → Option α) : Option Node → Option α
  | none => some default
  | some n => read n

def ownKeys : List String := ["target", "arch", "edition"]

/-- Around a field of a download stand the manifest, its list, the release, its list and the
download. -/
def fieldDepth : Nat := Value.maxDepth - 5

def readDownload? : Node → Option Download
  | .object fields => do
    let fields ← keyed? fields
    let target ← optional? none readName? (← single? "target" fields)
    let arch ← optional? none readName? (← single? "arch" fields)
    let edition ← required? readText? (← single? "edition" fields)
    let others ← (fields.filter (·.1 ∉ ownKeys)).mapM fun (k, n) =>
      (Value.ofNode? fieldDepth n).map (k, ·)
    some ⟨target, arch, edition, Value.ofFields others⟩
  | _ => none

def readRelease? (n : Node) : Option Release := do
  match ← record? ["version", "githash", "date", "downloads"] n with
  | [version, githash, date, downloads] =>
    some ⟨← required? readText? version, ← optional? "" readText? githash,
      ← optional? "" readText? date, ← optional? [] (readArray? readDownload?) downloads⟩
  | _ => none

def ofNode? (n : Node) : Option Manifest := do
  match ← record? ["versions"] n with
  | [versions] => some ⟨← required? (readArray? readRelease?) versions⟩
  | _ => none

def badVersion? (m : Manifest) : Option Version.Error :=
  m.releases.findSome? fun r =>
    match Version.parse r.version with
    | .ok _ => none
    | .error e => some e

def parse (bytes : ByteArray) : Except Cache.Error Manifest :=
  match Node.read? (Text.Utf8.decode bytes.toList) >>= ofNode? with
  | none => .error (.invalidManifest none)
  | some m =>
    match m.badVersion? with
    | some e => .error (.invalidManifest (some e))
    | none => .ok m

end Manifest

end Depot
