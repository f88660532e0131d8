import Depot.Archive.Extract
import Depot.Archive.Format
import Depot.Tar
import Depot.Zip

/-!
# Extracting an archive

`extract` takes an archive in a file tree. Its name says which format it has; a bad name or pattern
fails before the archive is looked at.
-/

namespace Depot.Archive

def Format.read (f : Format) (b : ByteArray) : Entries :=
  match f with
  | .zip => Zip.read b
  | .tarGzip => Tar.read (Gzip.stream b)

/-- The entries of the archive at `l`. A directory can be opened but not read. -/
def openAt (t : FileTree) (f : Format) (l : Location) : Except Error Entries :=
  match t.lookup l with
  | .ok (.file data _) => .ok (f.read data)
  | .ok _ => .ok ⟨[], false⟩
  | .error _ => .error .io

def extract (archive : String) (source dest : Location) (o : Options) :
    EStateM Error FileTree Report := fun t =>
  match Format.ofPath archive with
  | .error e => .error e t
  | .ok f =>
    match o.pattern.mapM Pattern.parse with
    | .error e => .error e t
    | .ok pattern =>
      match openAt t f source with
      | .error e => .error e t
      | .ok es => extractEntries archive dest o pattern es t

end Depot.Archive
