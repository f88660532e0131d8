import Depot.Cache.Error
import Depot.Manifest
import Depot.Version.Parser

/-!
# The catalog

Releases, their downloads and the components of those, in tables whose rows refer to one another by
number. The catalog is made from a manifest as a whole and never changed in parts.
-/

namespace Depot

namespace Catalog

structure ReleaseRow where
  id : Nat
  text : String
  /-- What `text` reads as. -/
  version : Version
  githash : String
  date : String

structure DownloadRow where
  id : Nat
  release : Nat
  target : String
  arch : String
  edition : String

structure ComponentRow where
  id : Nat
  download : Nat
  key : String
  /-- The value of the component as it is written. -/
  data : String

end Catalog

structure Catalog where
  releases : List Catalog.ReleaseRow
  downloads : List Catalog.DownloadRow
  components : List Catalog.ComponentRow

namespace Catalog

def empty : Catalog := ⟨[], [], []⟩

structure Counts where
  versions : Nat
  downloads : Nat
  components : Nat
  deriving DecidableEq, Repr

def counts (c : Catalog) : Counts :=
  ⟨c.releases.length, c.downloads.length, c.components.length⟩

structure Choices where
  arches : List String
  targets : List String
  editions : List String
  versions : List String
  components : List String
  deriving DecidableEq, Repr

/-- Every text once, in order. -/
def distinct (texts : List String) : List String :=
  texts.eraseDups.mergeSort (· ≤ ·)

def choices (c : Catalog) : Choices where
  arches := distinct (c.downloads.map (·.arch))
  targets := distinct (c.downloads.map (·.target))
  editions := distinct (c.downloads.map (·.edition))
  versions := Version.sortTexts (c.releases.map (·.text)).eraseDups
  components := distinct (c.components.map (·.key))

end Catalog

end Depot
