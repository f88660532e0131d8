import Depot.Cache.Fetch
import Depot.Proofs.FileTree.Clear
import Mathlib.Data.List.Nodup
import Std.Data.String.ToNat

/-!
# Staging files

A staging file has a name that nothing else in its directory has and that is not the name of the
file it waits for (`freeName_spec`). `StagedIn` describes the tree while there is one: without it,
the tree is what it was before with some more directories. From there the body is received
(`StagedIn.insert`), and then the staging file is removed (`StagedIn.base_erase`) or takes the
place of the other one (`StagedIn.rename_spec`).
-/

namespace Depot.Cache

open FileTree

variable {σ : Type} {t t' : FileTree} {root r : Location} {ns : List String} {n name : String}
  {data : ByteArray}

theorem stagingName_injective {i j : Nat} (h : stagingName i = stagingName j) : i = j := by
  simp only [stagingName, toString] at h
  exact Nat.repr_injective (by simpa using h)

theorem stagingName_plain (i : Nat) : stagingName i ≠ ".." ∧ stagingName i ≠ "." := by
  constructor <;> intro h <;> have := congrArg String.toList h <;>
    simp [stagingName, toString] at this

/-- Whether a staging file in `d` may have the name `name`. -/
def Free (t : FileTree) (d : Location) (taken name : String) : Prop :=
  t.find? (d ++ [name]) = none ∧ name ≠ taken

theorem freeName_eq (t : FileTree) (d : Location) (taken : String) :
    ∀ left i : Nat, ∃ k, i ≤ k ∧ k ≤ i + left ∧ freeName t d taken i left = stagingName k ∧
      (k < i + left → Free t d taken (stagingName k)) ∧
      ∀ j, i ≤ j → j < k → ¬ Free t d taken (stagingName j)
  | 0, i =>
    ⟨i, Nat.le_refl _, Nat.le_refl _, rfl, fun h => absurd h (by omega), fun j h1 h2 => by omega⟩
  | left + 1, i => by
    by_cases hf : Free t d taken (stagingName i)
    · refine ⟨i, Nat.le_refl _, by omega, ?_, fun _ => hf, fun j h1 h2 => by omega⟩
      simp only [freeName, Option.isNone_iff_eq_none]
      exact if_pos hf
    · obtain ⟨k, h1, h2, h3, h4, h5⟩ := freeName_eq t d taken left (i + 1)
      refine ⟨k, by omega, by omega, ?_, fun h => h4 (by omega), fun j hj hk => ?_⟩
      · simp only [freeName, Option.isNone_iff_eq_none]
        exact (if_neg hf).trans h3
      · rcases Nat.eq_or_lt_of_le hj with rfl | hj
        · exact hf
        · exact h5 j hj hk

/-- One name more than there are nodes is enough, besides the one that is taken. -/
theorem freeName_spec (t : FileTree) (d : Location) (taken : String) :
    Free t d taken (freeName t d taken 0 (t.nodes.length + 1)) := by
  obtain ⟨k, -, hk, heq, hfree, hnot⟩ := freeName_eq t d taken (t.nodes.length + 1) 0
  rw [heq]
  by_contra hno
  have hk' : k = t.nodes.length + 1 := by
    by_contra hne
    exact hno (hfree (by omega))
  have hall : ∀ j < t.nodes.length + 2, ¬ Free t d taken (stagingName j) := fun j hj => by
    rcases Nat.lt_or_ge j k with h | h
    · exact hnot j (Nat.zero_le _) h
    · obtain rfl : j = k := by omega
      exact hno
  have hsub : (List.range (t.nodes.length + 2)).map (fun j => d ++ [stagingName j]) ⊆
      (d ++ [taken]) :: t.nodes.map (·.1) := by
    intro l hl
    obtain ⟨j, hj, rfl⟩ := List.mem_map.1 hl
    by_cases ht : stagingName j = taken
    · rw [ht]
      exact List.mem_cons_self
    · have hf : t.find? (d ++ [stagingName j]) ≠ none := fun hf =>
        hall j (List.mem_range.1 hj) ⟨hf, ht⟩
      refine List.mem_cons_of_mem _ ?_
      rw [find?, if_neg (by simp), Ne, List.lookup_eq_none_iff] at hf
      push Not at hf
      obtain ⟨p, hp, hne⟩ := hf
      have hne : d ++ [stagingName j] = p.1 := by simpa using hne
      rw [hne]
      exact List.mem_map_of_mem hp
  have hnd : ((List.range (t.nodes.length + 2)).map
      (fun j => d ++ [stagingName j])).Nodup := by
    refine List.Nodup.map (fun i j hij => ?_) List.nodup_range
    exact stagingName_injective (by simpa using hij)
  have := hnd.length_le_of_subset hsub
  simp at this

/-- Whether `k` is the number of the first name that a staging file in `d` may have. -/
def FirstFree (t : FileTree) (d : Location) (taken : String) (k : Nat) : Prop :=
  Free t d taken (stagingName k) ∧ ∀ j < k, ¬ Free t d taken (stagingName j)

theorem freeName_firstFree (t : FileTree) (d : Location) (taken : String) :
    ∃ k, freeName t d taken 0 (t.nodes.length + 1) = stagingName k ∧ FirstFree t d taken k := by
  obtain ⟨k, -, -, heq, -, hnot⟩ := freeName_eq t d taken (t.nodes.length + 1) 0
  exact ⟨k, heq, heq ▸ freeName_spec t d taken, fun j hj => hnot j (Nat.zero_le j) hj⟩

/-- Whether nothing is in the way of a new file `n` in the directory `ns`: no path is too long, and
there are directories only where directories have to be. -/
structure Room (t : FileTree) (root r : Location) (ns : List String) (n : String) : Prop where
  clear : Clear t r ns
  fits : Fits root (ns ++ [n])
  noDirectory : t.find? (r ++ ns ++ [n]) ≠ some .directory
  staging : ∀ k, FirstFree t (r ++ ns) n k → Fits root (ns ++ [stagingName k])

/-- In `t'` there is a staging file called `name` for the file `n` in the directory `ns`. It holds
`data`, and apart from it `t'` is `t` with some more directories. -/
structure StagedIn (t t' : FileTree) (root r : Location) (ns : List String) (n name : String)
    (data : ByteArray) : Prop where
  base : Base t' root r
  directory : t'.find? (r ++ ns) = some .directory
  file : t'.find? (r ++ ns ++ [name]) = some (.file data stagingMode)
  rest : Widened r ns t (t'.erase (r ++ ns ++ [name]))
  ne : name ≠ n
  plain : name ≠ ".." ∧ name ≠ "."
  fits : Fits root (ns ++ [name])

/-- `t'` is `t` with `data` in the file `n` of the directory `ns`, and perhaps more directories. -/
structure Stored (t t' : FileTree) (root r : Location) (ns : List String) (n : String)
    (data : ByteArray) : Prop where
  base : Base t' root r
  file : t'.find? (r ++ ns ++ [n]) = some (.file data stagingMode)
  rest : ∃ t₁, Widened r ns t t₁ ∧ ∀ l, l ≠ r ++ ns ++ [n] → t'.find? l = t₁.find? l
  fits : Fits root (ns ++ [n])

namespace StagedIn

theorem reaches (h : StagedIn t t' root r ns n name data) : Reaches t' root r ns name :=
  ⟨h.fits, h.directory⟩

theorem plain_append (h : StagedIn t t' root r ns n name data) (hp : Plain ns) :
    Plain (ns ++ [name]) := by
  intro m hm
  rcases List.mem_append.1 hm with hm | hm
  · exact hp m hm
  · rw [List.mem_singleton.1 hm]
    exact h.plain

/-- Nothing stood where the staging file is. -/
theorem find?_eq_none (h : StagedIn t t' root r ns n name data) :
    t.find? (r ++ ns ++ [name]) = none := by
  have herase : (t'.erase (r ++ ns ++ [name])).find? (r ++ ns ++ [name]) = none := by
    rw [find?_erase, if_pos ⟨rfl, by simp⟩]
  rcases h.rest (r ++ ns ++ [name]) with heq | ⟨hnone, -⟩
  · rw [← heq, herase]
  · exact hnone

theorem base_erase (h : StagedIn t t' root r ns n name data) :
    Base (t'.erase (r ++ ns ++ [name])) root r :=
  h.base.erase (prefix_below r ns) (by rw [h.file]; simp)

/-- Writing to the staging file. -/
theorem insert (h : StagedIn t t' root r ns n name data) (body : ByteArray) :
    StagedIn t (t'.insert (r ++ ns ++ [name]) (.file body stagingMode)) root r ns n name body where
  base := h.base.insert (prefix_below r ns) h.directory (by simp) (.inr (by rw [h.file]; simp))
  directory := by
    rw [find?_insert_of_ne (ne_append_singleton (r ++ ns) name), h.directory]
  file := find?_insert_self ..
  rest := h.rest.congr fun l => by
    simp only [find?_erase, find?_insert]
    split_ifs <;> rfl
  ne := h.ne
  plain := h.plain
  fits := h.fits

theorem remove_eq (h : StagedIn t t' root r ns n name data) (hp : Plain ns) :
    FileTree.remove (root ++ (ns ++ [name])) t' = .ok () (t'.erase (r ++ ns ++ [name])) :=
  h.base.remove_of_file (h.plain_append hp) h.reaches h.file

/-- The staging file takes the place of the file that it waits for, unless the path to that is too
long or a directory stands there. -/
theorem rename_spec (h : StagedIn t t' root r ns n name data) (hp : Plain (ns ++ [n])) :
    (∃ t'', FileTree.rename (root ++ (ns ++ [name])) (root ++ (ns ++ [n])) t' = .ok () t'' ∧
        Stored t t'' root r ns n data) ∨
      (∃ e, FileTree.rename (root ++ (ns ++ [name])) (root ++ (ns ++ [n])) t' = .error e t') ∧
        ¬ Room t root r ns n := by
  have hname := h.base.resolve_of_reaches (h.plain_append hp.init) false h.reaches
  have hne : r ++ ns ++ [n] ≠ r ++ ns ++ [name] := by
    simpa using h.ne.symm
  by_cases hfit : Fits root (ns ++ [n])
  · have hdest := h.base.resolve_of_reaches hp false ⟨hfit, h.directory⟩
    by_cases hd : t'.find? (r ++ ns ++ [n]) = some .directory
    · right
      refine ⟨⟨.isDirectory, ?_⟩, fun hroom => hroom.noDirectory ?_⟩
      · rw [rename_apply, hname, hdest]
        simp only [h.file, hd]
      · have hrest := h.rest (r ++ ns ++ [n])
        rw [find?_erase_of_ne hne] at hrest
        rcases hrest with heq | ⟨-, -, -, hpre⟩
        · rw [← heq, hd]
        · have := hpre.length_le
          rw [List.length_append, List.length_singleton] at this
          omega
    · left
      refine ⟨(t'.erase (r ++ ns ++ [name])).insert (r ++ ns ++ [n]) (.file data stagingMode),
        ?_, ?_, ?_, ⟨_, h.rest, fun l hl => ?_⟩, hfit⟩
      · rw [rename_apply, hname, hdest]
        simp only [h.file]
      · refine h.base_erase.insert (prefix_below r ns) ?_ (by simp) (.inr ?_)
        · rw [find?_erase_of_ne (ne_append_singleton (r ++ ns) name), h.directory]
        · rwa [find?_erase_of_ne hne]
      · exact find?_insert_self ..
      · exact find?_insert_of_ne hl ..
  · right
    obtain ⟨e, he⟩ := h.base.resolve_of_not_reaches hp false (fun hr => hfit hr.1)
    refine ⟨⟨e, ?_⟩, fun hroom => hfit hroom.fits⟩
    rw [rename_apply, hname, he]

end StagedIn

/-- Apart from the new file, files are neither made nor changed. -/
theorem Stored.file_iff (h : Stored t t' root r ns n data) {l : Location} {b : ByteArray}
    {mode : Nat} (hl : l ≠ r ++ ns ++ [n]) :
    t'.find? l = some (.file b mode) ↔ t.find? l = some (.file b mode) := by
  obtain ⟨t₁, hw, heq⟩ := h.rest
  rw [heq l hl, hw.file_iff]

theorem StagedIn.find?_of_stored {t'' : FileTree} (h : StagedIn t t' root r ns n name data)
    (h' : Stored t t'' root r ns n data) : t''.find? (r ++ ns ++ [name]) = none := by
  obtain ⟨t₁, hw, heq⟩ := h'.rest
  have hne : r ++ ns ++ [name] ≠ r ++ ns ++ [n] := by
    simpa using h.ne
  rw [heq _ hne]
  rcases hw (r ++ ns ++ [name]) with hl | ⟨-, -, -, hpre⟩
  · rw [hl, h.find?_eq_none]
  · have := hpre.length_le
    rw [List.length_append, List.length_singleton] at this
    omega

theorem create_staging (h : Base t root r) (hp : Plain (ns ++ [name]))
    (hd : t.find? (r ++ ns) = some .directory) (hnone : t.find? (r ++ ns ++ [name]) = none)
    (hfit : Fits root (ns ++ [name])) (hne : name ≠ n) :
    ∃ t', (do
        let _ ← FileTree.create (root ++ (ns ++ [name]))
        FileTree.setMode (root ++ (ns ++ [name])) stagingMode
        return root ++ (ns ++ [name]) : FileTree.Action Location) t =
          .ok (root ++ (ns ++ [name])) t' ∧
      StagedIn t t' root r ns n name .empty := by
  have hne' := ne_append_singleton (r ++ ns) name
  set t₁ := t.insert (r ++ ns ++ [name]) (.file .empty newFileMode)
  have h₁ : Base t₁ root r :=
    h.insert (prefix_below r ns) hd (by simp) (.inr (by rw [hnone]; simp))
  have hd₁ : t₁.find? (r ++ ns) = some .directory := by rw [find?_insert_of_ne hne', hd]
  have hf₁ : t₁.find? (r ++ ns ++ [name]) = some (.file .empty newFileMode) :=
    find?_insert_self ..
  refine ⟨t₁.insert (r ++ ns ++ [name]) (.file .empty stagingMode), ?_, ?_⟩
  · rw [bind_apply, h.create_of_none hp ⟨hfit, hd⟩ hnone]
    simp only [bind_apply]
    rw [h₁.setMode_of_file hp ⟨hfit, hd₁⟩ hf₁]
    rfl
  · refine ⟨?_, ?_, find?_insert_self .., fun l => .inl ?_, hne, hp name (by simp), hfit⟩
    · exact h₁.insert (prefix_below r ns) hd₁ (by simp) (.inr (by rw [hf₁]; simp))
    · rw [find?_insert_of_ne hne', hd₁]
    · rw [find?_erase, find?_insert, find?_insert]
      split_ifs with hl
      · rw [hl.1, hnone]
      · rfl

/-- Directories on the way make no difference to what names are free in the last one. -/
theorem FirstFree.of_widened {k : Nat} (h : FirstFree t' (r ++ ns) n k) (hw : Widened r ns t t') :
    FirstFree t (r ++ ns) n k := by
  have hfree : ∀ m, Free t' (r ++ ns) n m ↔ Free t (r ++ ns) n m := fun m => by
    rcases hw (r ++ ns ++ [m]) with heq | ⟨-, -, -, hpre⟩
    · rw [Free, Free, heq]
    · have := hpre.length_le
      rw [List.length_append, List.length_singleton] at this
      omega
  exact ⟨(hfree _).1 h.1, fun j hj hf => h.2 j hj ((hfree _).2 hf)⟩

/-- Either there is a staging file afterwards, or some more directories at most. -/
theorem makeStagingFile_spec {m : String} (h : Base t root r) (hp : Plain (ns ++ [m] ++ [n])) :
    (∃ e t', makeStagingFile (root ++ (ns ++ [m] ++ [n])) t = .error e t' ∧ Base t' root r ∧
        Widened r (ns ++ [m]) t t' ∧ ¬ Room t root r (ns ++ [m]) n) ∨
      ∃ name t', makeStagingFile (root ++ (ns ++ [m] ++ [n])) t =
          .ok (root ++ (ns ++ [m] ++ [name])) t' ∧
        StagedIn t t' root r (ns ++ [m]) n name .empty := by
  have hdl : (root ++ (ns ++ [m] ++ [n])).dropLast = root ++ (ns ++ [m]) := by
    rw [← List.append_assoc, List.dropLast_concat]
  have hlast : (root ++ (ns ++ [m] ++ [n])).getLast?.getD "" = n := by
    rw [← List.append_assoc, List.getLast?_concat]
    rfl
  obtain ⟨t₁, h₁, hw, ⟨hok, hfit, hdir⟩ | ⟨e, he⟩⟩ := h.makeDirectories_spec ns hp.init
  case inr =>
    left
    refine ⟨e, t₁, ?_, h₁, hw, fun hroom => ?_⟩
    · rw [makeStagingFile, bind_apply, hdl, he]
    · obtain ⟨t₂, hok⟩ := h.makeDirectories_of_clear ns hp.init hroom.fits.init hroom.clear
      rw [he] at hok
      cases hok
  have hparent : t₁.find? (r ++ ns) = some .directory :=
    h₁.parent _ m (prefix_below r ns) (by rw [hdir]; simp)
  have hplace := h₁.place_of_reaches hp.init true ⟨hfit, hparent⟩
  rw [List.append_assoc] at hdir hplace
  obtain ⟨hnone, hne⟩ := freeName_spec t₁ (r ++ (ns ++ [m])) n
  obtain ⟨k, hk, hfirst⟩ := freeName_firstFree t₁ (r ++ (ns ++ [m])) n
  generalize hname : freeName t₁ (r ++ (ns ++ [m])) n 0 (t₁.nodes.length + 1) = name at *
  have hp' : Plain (ns ++ [m] ++ [name]) := by
    intro x hx
    rcases List.mem_append.1 hx with hx | hx
    · exact hp.init x hx
    · rw [List.mem_singleton.1 hx, hk]
      exact stagingName_plain k
  have heq : makeStagingFile (root ++ (ns ++ [m] ++ [n])) t =
      (do
        let _ ← FileTree.create (root ++ (ns ++ [m] ++ [name]))
        FileTree.setMode (root ++ (ns ++ [m] ++ [name])) stagingMode
        return root ++ (ns ++ [m] ++ [name]) : FileTree.Action Location) t₁ := by
    rw [makeStagingFile, bind_apply, hdl, hok]
    simp only [bind_apply, get_apply, hplace, hlast, hname]
    simp only [List.append_assoc]
  rw [heq, bind_apply, create_apply]
  by_cases hfit' : Fits root (ns ++ [m] ++ [name])
  · right
    obtain ⟨t₂, h₂, hs⟩ := create_staging h₁ hp' hdir hnone hfit' hne
    refine ⟨name, t₂, ?_, hs.base, hs.directory, hs.file, fun l => ?_, hs.ne, hs.plain, hs.fits⟩
    · rw [← create_apply, ← bind_apply, h₂]
    · exact hw.trans hs.rest l
  · left
    obtain ⟨e, he⟩ := h₁.resolve_of_not_reaches hp' true (fun hr => hfit' hr.1)
    refine ⟨e, t₁, by rw [he], h₁, hw, fun hroom => hfit' ?_⟩
    rw [hk]
    exact hroom.staging k (hfirst.of_widened hw)

end Depot.Cache
