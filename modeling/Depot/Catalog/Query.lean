import Depot.Catalog.Basic
import Depot.Version.Filter

/-!
# Queries

A query asks for components by version, target, architecture, edition and name; what it leaves out
matches everything. The answer has the greatest version first and is in the order of the manifest
otherwise.
-/

namespace Depot

structure Query where
  version : Option VersionFilter
  target : Option String
  arch : Option String
  edition : Option String
  component : Option String
  deriving DecidableEq, Repr

namespace Query

def all : Query := ⟨none, none, none, none, none⟩

def isEmpty (q : Query) : Bool := q = all

end Query

structure Entry where
  version : String
  githash : String
  date : String
  target : String
  arch : String
  edition : String
  component : String
  data : Json.Value

def Entry.url? (e : Entry) : Option String :=
  (e.data.field? "url").bind Json.Value.text?

namespace Catalog

structure Row where
  release : ReleaseRow
  download : DownloadRow
  component : ComponentRow

def rows (c : Catalog) : List Row :=
  c.components.filterMap fun k => do
    let d ← c.downloads.find? (·.id = k.download)
    let r ← c.releases.find? (·.id = d.release)
    return ⟨r, d, k⟩

/-- A filter that is not set lets everything through. -/
def matchesText (filter : Option String) (text : String) : Bool :=
  filter.all (· == text)

def Row.matches (q : Query) (r : Row) : Bool :=
  matchesText q.component r.component.key && matchesText q.target r.download.target
    && matchesText q.arch r.download.arch && matchesText q.edition r.download.edition
    && q.version.all (·.accepts r.release.text (some r.release.version))

/-- Greater versions first, then by the numbers of download and component. -/
def Row.compare (a b : Row) : Ordering :=
  (Version.collate b.release.text a.release.text).then <|
  (Ord.compare a.download.id b.download.id).then <|
  Ord.compare a.component.id b.component.id

def Row.entry (r : Row) : Except Cache.Error Entry :=
  match Json.Value.parse? r.component.data with
  | none => .error (.invalidData .componentData)
  | some v =>
    .ok ⟨r.release.text, r.release.githash, r.release.date, r.download.target, r.download.arch,
      r.download.edition, r.component.key, v⟩

def query (c : Catalog) (q : Query) : Except Cache.Error (List Entry) :=
  ((c.rows.filter (·.matches q)).mergeSort fun a b => (a.compare b).isLE).mapM Row.entry

end Catalog

end Depot
