import Depot.Cache.Transport
import Depot.Catalog.Rebuild
import Depot.Table

/-!
# The index of a cache

For every file in the cache there is a record of where it came from, and beside the records stands
the catalog. Both are kept in a database, which is brought up to date when it is opened.
-/

namespace Depot.Cache

/-- Where a file came from, and what tells whether it is current. -/
structure Record where
  url : String
  validators : Validators
  /-- Seconds since 1970. -/
  fetchedAt : Int
  deriving DecidableEq, Repr

/-- Whether a stored time is one that dates are made of: the years from -9999 to 9999. -/
def isDate (seconds : Int) : Bool :=
  -377705116800 ≤ seconds ∧ seconds ≤ 253402300799

structure Index where
  records : Table Record
  catalog : Catalog

namespace Index

def empty : Index := ⟨[], .empty⟩

/-- The record of `url`, if its time can be read. -/
def record? (i : Index) (url : String) : Except Error (Option Record) :=
  match i.records.get? url with
  | none => .ok none
  | some r => if isDate r.fetchedAt then .ok (some r) else .error (.invalidData .fetchDate)

def upsert (i : Index) (r : Record) : Index :=
  { i with records := i.records.set r.url r }

def rebuild (i : Index) (m : Manifest) : Except Error Index :=
  match Catalog.rebuild m i.catalog with
  | .ok _ c => .ok { i with catalog := c }
  | .error e _ => .error e

end Index

structure Database where
  /-- The numbers of the migrations that have been carried out. -/
  migrations : List Nat
  hasTables : Bool
  index : Index

namespace Database

def new : Database := ⟨[], false, .empty⟩

/-- The migration that makes the tables. -/
def firstMigration : Nat := 20250601000000

/-- The database with all migrations carried out. One that is not known cannot be undone, and tables
that no migration has made stand in the way. -/
def migrate (d : Database) : Except Error Database :=
  if d.migrations.any (· != firstMigration) then .error .migration
  else if d.migrations.contains firstMigration then .ok d
  else if d.hasTables then .error .migration
  else .ok ⟨[firstMigration], true, .empty⟩

end Database

end Depot.Cache
