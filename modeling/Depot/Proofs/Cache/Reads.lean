import Depot.Proofs.Cache.Fetch

/-!
# What can be read after a call

A call that leaves more directories at most changes nothing that can be read in the cache
(`Quiet.read_iff`), and one that brings in a new file changes that file alone (`Stored.read_iff`).
-/

namespace Depot.Cache

open FileTree

variable {σ : Type} {c : Cache} {url v n : String} {p r root : Location} {ns : List String}
  {w w' : World σ} {t t' : FileTree} {data b : ByteArray}

theorem read_congr {ms : List String} {m : String} (hb : Base t root r) (hb' : Base t' root r)
    (hp : Plain (ms ++ [m]))
    (h : ∀ mode, t'.find? (r ++ ms ++ [m]) = some (.file b mode) ↔
      t.find? (r ++ ms ++ [m]) = some (.file b mode)) :
    t'.read (root ++ (ms ++ [m])) = .ok b ↔ t.read (root ++ (ms ++ [m])) = .ok b := by
  rw [hb.read_eq_ok_iff hp, hb'.read_eq_ok_iff hp]
  simp only [h]

theorem Quiet.read_iff (h : Quiet c r url w w') (hd : IsHexDigest c.digest)
    (hb : Base w.tree c.root r) (hp : c.pathFor v = .ok p) :
    w'.tree.read p = .ok b ↔ w.tree.read p = .ok b := by
  obtain ⟨m, hm, rfl⟩ := pathFor_eq_ok_iff.1 hp
  exact read_congr hb h.base (directoryOf_plain hd hm) fun mode => h.tree.file_iff _

theorem Stored.read_eq (h : Stored t t' root r ns n data) (hp : Plain (ns ++ [n])) :
    t'.read (root ++ (ns ++ [n])) = .ok data :=
  (h.base.read_eq_ok_iff hp).2 ⟨h.fits, _, h.file⟩

theorem Stored.read_iff (h : Stored t t' c.root r (c.directoryOf url) n data)
    (hd : IsHexDigest c.digest) (hb : Base t c.root r) (hn : c.nameOf? url = some n)
    (hp : c.pathFor v = .ok p) (hne : c.pathFor url ≠ .ok p) :
    t'.read p = .ok b ↔ t.read p = .ok b := by
  obtain ⟨m, hm, rfl⟩ := pathFor_eq_ok_iff.1 hp
  refine read_congr hb h.base (directoryOf_plain hd hm) fun mode => h.file_iff ?_
  rw [List.append_assoc, List.append_assoc]
  intro heq
  exact hne (pathFor_eq_ok_iff.2 ⟨n, hn, by rw [List.append_cancel_left heq]⟩)

end Depot.Cache
