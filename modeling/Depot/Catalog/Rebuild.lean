import Depot.Catalog.Basic
import Depot.Json.Printer

/-!
# Making a catalog

`rebuild` empties the tables and enters a manifest row by row. A row has to refer to a row that
exists, and a download has one component of a name.
-/

namespace Depot.Catalog

/-- A change of the catalog, which is given up as a whole when it fails. -/
abbrev Change := EStateM Cache.Error Catalog

def nextId (ids : List Nat) : Nat := ids.foldl max 0 + 1

def insertRelease (r : Release) : Change Nat := fun c =>
  match Version.parse r.version with
  | .error e => .error (.invalidManifest (some e)) c
  | .ok v =>
    let id := nextId (c.releases.map (·.id))
    .ok id { c with releases := c.releases ++ [⟨id, r.version, v, r.githash, r.date⟩] }

def insertDownload (release : Nat) (d : Download) : Change Nat := fun c =>
  if c.releases.any (·.id == release) then
    let id := nextId (c.downloads.map (·.id))
    let row := ⟨id, release, d.targetName, d.archName, d.edition⟩
    .ok id { c with downloads := c.downloads ++ [row] }
  else .error .database c

def insertComponent (download : Nat) (key : String) (v : Json.Value) : Change Unit := fun c =>
  if c.downloads.any (·.id == download)
      ∧ ¬ c.components.any (fun k => k.download == download && k.key == key) then
    let id := nextId (c.components.map (·.id))
    .ok () { c with components := c.components ++ [⟨id, download, key, v.render⟩] }
  else .error .database c

def addDownload (release : Nat) (d : Download) : Change Unit := do
  let id ← insertDownload release d
  d.components.forM fun (key, v) => insertComponent id key v

def addRelease (r : Release) : Change Unit := do
  let id ← insertRelease r
  r.downloads.forM (addDownload id)

def countsOf (m : Manifest) : Counts :=
  let downloads := m.releases.flatMap (·.downloads)
  ⟨m.releases.length, downloads.length, (downloads.flatMap (·.components)).length⟩

/-- Replaces the whole catalog and tells how much was entered. -/
def rebuild (m : Manifest) : Change Counts := do
  set Catalog.empty
  m.releases.forM addRelease
  return countsOf m

end Depot.Catalog
