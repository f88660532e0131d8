import Depot.Cache.Basic
import Depot.Proofs.Blake3
import Depot.Proofs.FileTree.Walk
import Depot.Proofs.Url.Path

/-!
# The places of cached files

The place of a file has three names below the root of the cache: `files`, a part of the hash of its
URL, and the last segment of that URL (`pathFor_eq_ok`). None of them is a step up or to where one
is. The hash counts with its first digits only (`pathFor_eq_iff`).
-/

namespace Depot.Cache

open FileTree

variable {c : Cache} {url v n : String} {p q : Location}

/-- The digits of the hash of `url` that name a directory. -/
def prefixOf (c : Cache) (url : String) : List Char :=
  (c.digest url.toUTF8).toList.take hashDigits

/-- The name that `url` gives to its file. -/
def nameOf? (c : Cache) (url : String) : Option String :=
  Url.parse? c.naming url >>= Url.fileName?

/-- The directory, below the root of the cache, of the file downloaded from `url`. -/
def directoryOf (c : Cache) (url : String) : List String :=
  [filesDirectory] ++ [String.ofList (c.prefixOf url)]

theorem pathFor_eq_ok_iff :
    c.pathFor url = .ok p ↔
      ∃ n, c.nameOf? url = some n ∧ p = c.root ++ (c.directoryOf url ++ [n]) := by
  have hb : ∀ n, c.bucket url ++ [n] = c.root ++ (c.directoryOf url ++ [n]) := fun n =>
    List.append_assoc ..
  rw [pathFor, nameOf?]
  rcases Url.parse? c.naming url >>= Url.fileName? with _ | n
  · simp
  · simp [hb, eq_comm]

theorem pathFor_eq_error_iff {e : Error} :
    c.pathFor url = .error e ↔ c.nameOf? url = none ∧ e = .notFileUrl url := by
  rw [pathFor, nameOf?]
  rcases Url.parse? c.naming url >>= Url.fileName? with _ | n <;> simp [eq_comm]

theorem nameOf?_plain (h : c.nameOf? url = some n) : n ≠ ".." ∧ n ≠ "." := by
  obtain ⟨u, hu, hn⟩ := Option.bind_eq_some_iff.1 h
  exact Url.fileName?_plain hu hn

/-- A part of a hash is no step. -/
theorem prefixOf_plain (hd : IsHexDigest c.digest) (url : String) :
    String.ofList (c.prefixOf url) ≠ ".." ∧ String.ofList (c.prefixOf url) ≠ "." := by
  obtain ⟨-, hmem⟩ := hd url.toUTF8
  have hdot : '.' ∉ c.prefixOf url := fun h =>
    absurd (hmem '.' (List.mem_of_mem_take h)) (by decide)
  constructor <;> intro h <;> refine hdot ?_ <;> have := congrArg String.toList h <;>
    rw [String.toList_ofList] at this <;> rw [this] <;> decide

theorem directoryOf_plain (hd : IsHexDigest c.digest) (hn : c.nameOf? url = some n) :
    Plain (c.directoryOf url ++ [n]) := by
  intro m hm
  have hfiles : filesDirectory ≠ ".." ∧ filesDirectory ≠ "." := by decide
  rw [directoryOf, List.append_assoc] at hm
  rcases List.mem_cons.1 hm with rfl | hm
  · exact hfiles
  rcases List.mem_cons.1 hm with rfl | hm
  · exact prefixOf_plain hd url
  · rw [List.mem_singleton.1 hm]
    exact nameOf?_plain hn

theorem length_directoryOf (c : Cache) (url : String) : (c.directoryOf url).length = 2 := rfl

theorem directoryOf_inj : c.directoryOf url = c.directoryOf v ↔ c.prefixOf url = c.prefixOf v := by
  simp [directoryOf, String.ofList_inj]

/-- Two files have one place if their URLs agree in the first digits of the hash and in the name. -/
theorem pathFor_eq_iff (hu : c.pathFor url = .ok p) (hv : c.pathFor v = .ok q) :
    p = q ↔ c.prefixOf url = c.prefixOf v ∧ c.nameOf? url = c.nameOf? v := by
  obtain ⟨n, hn, rfl⟩ := pathFor_eq_ok_iff.1 hu
  obtain ⟨m, hm, rfl⟩ := pathFor_eq_ok_iff.1 hv
  rw [List.append_cancel_left_eq, hn, hm, ← directoryOf_inj]
  constructor
  · intro h
    obtain ⟨h1, h2⟩ := List.append_inj' h rfl
    exact ⟨h1, congrArg some (List.singleton_inj.1 h2)⟩
  · rintro ⟨h1, h2⟩
    rw [h1, Option.some.inj h2]

end Depot.Cache
