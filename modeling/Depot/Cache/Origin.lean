import Depot.Blake3
import Depot.Cache.Transport
import Depot.Table

/-!
# An origin in memory

An origin serves fixed bodies. It tags each body with a hash of it, knows a copy with the same tag
as current, counts the requests, and can be told to fail a number of times.
-/

namespace Depot.Cache

structure Origin where
  resources : Table ByteArray
  /-- How many of the next requests fail. -/
  failures : Table Nat
  requests : Table Nat

namespace Origin

def empty : Origin := ⟨[], [], []⟩

def serve (o : Origin) (url : String) (body : ByteArray) : Origin :=
  { o with resources := o.resources.set url body }

def failNext (o : Origin) (url : String) (times : Nat) : Origin :=
  { o with failures := o.failures.set url times }

/-- How many requests there have been, those that failed among them. -/
def requestCount (o : Origin) (url : String) : Nat := (o.requests.get? url).getD 0

def pending (o : Origin) (url : String) : Nat := (o.failures.get? url).getD 0

/-- The tag of a body, where `digest` hashes. -/
def etag (digest : ByteArray → String) (body : ByteArray) : String :=
  "\"" ++ digest body ++ "\""

def chunkSize : Nat := 16

def chunksFrom (data : ByteArray) (start : Nat) : List ByteArray :=
  if start < data.size then
    data.extract start (start + chunkSize) :: chunksFrom data (start + chunkSize)
  else []
  termination_by data.size - start
  decreasing_by
    simp only [chunkSize]
    omega

def count (o : Origin) (url : String) : Origin :=
  { o with requests := o.requests.set url (o.requestCount url + 1) }

/-- Counts the request, fails if it has been told to, and else serves the body or knows the copy. -/
def transport (digest : ByteArray → String) : Transport Origin := fun url conditions o =>
  let o := o.count url
  if 0 < o.pending url then .error (.download url) (o.failNext url (o.pending url - 1))
  else
    match o.resources.get? url with
    | none => .error (.httpStatus url 404) o
    | some data =>
      let tag := etag digest data
      if conditions.etag = some tag then .ok .notModified o
      else .ok (.body ⟨some tag, none⟩ ⟨chunksFrom data 0, none⟩) o

end Origin

end Depot.Cache
