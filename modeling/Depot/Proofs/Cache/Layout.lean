import Depot.Proofs.Archive.Names
import Depot.Proofs.Cache.Room
import Depot.Proofs.Url.Query

/-!
# The layout of a cache

Every URL that has a place has it three names below the root, whatever its text (`pathFor_layout`):
the name at the end cannot lead anywhere else, since it is a segment of a path, and the query of the
URL has no part in it. A URL without a place is turned down before anything is done.
-/

namespace Depot.Cache

open FileTree

variable {c : Cache} {url n : String}

theorem nameOf?_downward (h : c.nameOf? url = some n) : Archive.Downward n := by
  obtain ⟨u, hu, hn⟩ := Option.bind_eq_some_iff.1 h
  obtain ⟨hparent, hhere⟩ := Url.fileName?_plain hu hn
  obtain ⟨hempty, s, hs, rfl⟩ := Url.isSegment_of_fileName? hu hn
  refine ⟨hempty, hhere, hparent, ?_, ?_⟩ <;> rw [String.toList_ofList]
  · exact hs.slash_notMem
  · exact hs.nul_notMem

theorem nameOf?_eq_none_iff :
    c.nameOf? url = none ↔ Url.parse? c.naming url = none ∨
      ∃ u, Url.parse? c.naming url = some u ∧ (u.path = [] ∨ u.path.getLast? = some "") := by
  rw [nameOf?]
  cases Url.parse? c.naming url with
  | none => simp
  | some u =>
    have hlast : u.path = [] ↔ u.path.getLast? = none := List.getLast?_eq_none_iff.symm
    simp only [Option.bind_eq_bind, Option.bind_some, Url.fileName?, reduceCtorEq, false_or,
      Option.some.injEq, exists_eq_left', hlast]
    cases u.path.getLast? <;> simp [Option.filter]

theorem nameOf?_congr {v : String} (h : Url.parse? c.naming url = Url.parse? c.naming v) :
    c.nameOf? url = c.nameOf? v := by
  rw [nameOf?, nameOf?, h]

theorem fetch_of_error {σ : Type} {e : Error} (h : c.pathFor url = .error e) (t : Transport σ)
    (now : Int) (w : World σ) : c.fetch t now url w = .error e w := by
  rw [fetch, fetchUntil, bind_apply, download, bind_apply, h]
  rfl

theorem length_prefixOf (hd : IsHexDigest c.digest) (url : String) :
    (c.prefixOf url).length = hashDigits := by
  rw [prefixOf, List.length_take, (hd _).1]
  rfl

/-- A file lies three names below the root: in the directory of files, in one that four digits of
the hash of its URL name, and under a name that leads one level down and has nothing of the query
and the fragment. There is none for a text that is no URL, and for one whose path is missing or
ends with a slash: fetching that asks for nothing and changes nothing. -/
theorem pathFor_layout (hd : IsHexDigest c.digest) (url : String) :
    (∀ p, c.pathFor url = .ok p → ∃ hash name, c.nameOf? url = some name ∧
      p = c.root ++ [filesDirectory, hash, name] ∧
      hash.toList = (c.digest url.toUTF8).toList.take 4 ∧ hash.length = 4 ∧
      (∀ d ∈ hash.toList, d ∈ "0123456789abcdef".toList) ∧
      Archive.Downward name ∧
      Location.ofText (c.root ++ [filesDirectory, hash]) name = p) ∧
    (∀ mark ∈ ["?", "#"], ∀ mark' ∈ ["?", "#"], ∀ a q q',
      c.nameOf? (a ++ mark ++ q) = c.nameOf? (a ++ mark' ++ q')) ∧
    (∀ mark ∈ ["?", "#"], ∀ a q, (∀ ch ∈ a.toList.getLast?, 0x20 < ch.toNat) →
      c.nameOf? (a ++ mark ++ q) = c.nameOf? a) ∧
    (∀ e, c.pathFor url = .error e ↔ e = .notFileUrl url ∧
      (Url.parse? c.naming url = none ∨
        ∃ u, Url.parse? c.naming url = some u ∧ (u.path = [] ∨ u.path.getLast? = some ""))) ∧
    ∀ e, c.pathFor url = .error e → ∀ (σ : Type) (t : Transport σ) now w,
      c.fetch t now url w = .error (.notFileUrl url) w := by
  refine ⟨fun p hp => ?_, ?_, ?_, fun e => ?_, fun e he σ t now w => ?_⟩
  · obtain ⟨name, hname, rfl⟩ := pathFor_eq_ok_iff.1 hp
    have hdown := nameOf?_downward hname
    refine ⟨String.ofList (c.prefixOf url), name, hname, rfl, String.toList_ofList, ?_, ?_, hdown,
      ?_⟩
    · rw [String.length_ofList, length_prefixOf hd]
      rfl
    · rw [String.toList_ofList]
      exact fun d hmem => (hd _).2 d (List.mem_of_mem_take hmem)
    · rw [hdown.ofText_eq, List.append_assoc]
      rfl
  · exact fun mark hm mark' hm' a q q' =>
      nameOf?_congr (Url.parse?_congr_query c.naming hm hm' a q q')
  · exact fun mark hm a q ha => nameOf?_congr (Url.parse?_query c.naming hm ha q)
  · rw [pathFor_eq_error_iff, nameOf?_eq_none_iff, and_comm]
  · rw [← (pathFor_eq_error_iff.1 he).2]
    exact fetch_of_error he t now w

section Sample

/-- A URL that climbs, with backslashes and escapes for some of the slashes and dots. -/
def climbing : String := "https://h/a/%2e%2E\\..\\..%2F%00"

/-- What is left of the path is a name, and the query makes no other one of it. Of a URL that ends
with a slash nothing is left. -/
theorem pathFor_layout_climbing : IsHexDigest sample.digest ∧
    (∃ hash, sample.pathFor (climbing ++ "?" ++ "/../x") =
      .ok (sample.root ++ [filesDirectory, hash, "..%2F%00"]) ∧ hash.length = 4) ∧
    sample.fetch (Origin.transport sample.digest) 0 "https://h/a/" unused =
      .error (.notFileUrl "https://h/a/") unused := by
  have hd : IsHexDigest sample.digest := Blake3.isHexDigest_hex
  have hclimbing : sample.nameOf? climbing = some "..%2F%00" := by decide +kernel
  refine ⟨hd, ?_, ?_⟩
  · obtain ⟨hok, -, hquery, -⟩ := pathFor_layout hd (climbing ++ "?" ++ "/../x")
    have hlast : climbing.toList.getLast? = some '0' := by decide +kernel
    have hname : sample.nameOf? (climbing ++ "?" ++ "/../x") = some "..%2F%00" := by
      rw [hquery "?" (by decide) climbing "/../x" (fun ch hch => ?_), hclimbing]
      rw [hlast] at hch
      cases hch
      decide
    obtain ⟨p, hpath⟩ : ∃ p, sample.pathFor (climbing ++ "?" ++ "/../x") = .ok p :=
      ⟨_, pathFor_eq_ok_iff.2 ⟨_, hname, rfl⟩⟩
    obtain ⟨hash, name, hname', hp, -, hlength, -⟩ := hok p hpath
    obtain rfl := Option.some.inj (hname.symm.trans hname')
    exact ⟨hash, hp ▸ hpath, hlength⟩
  · obtain ⟨-, -, -, herror, hfetch⟩ := pathFor_layout hd "https://h/a/"
    have hpath := (herror (.notFileUrl "https://h/a/")).2
      ⟨rfl, .inr ⟨⟨"https", "h", ["a", ""]⟩, by decide +kernel, .inr rfl⟩⟩
    exact hfetch _ hpath _ _ _ _

end Sample

end Depot.Cache
