import Depot.Cache.Basic
import Depot.Proofs.FileTree.Vacant

/-!
# Opening a cache

In an empty directory `open` makes a `Fresh` cache (`open_of_empty`), and in a directory that is
missing it makes the same one (`open_of_vacant`). A cache that is `Sound` can be opened again, and
that changes nothing (`open_of_sound`).
-/

namespace Depot.Cache

open FileTree

variable {σ : Type} {c : Cache} {r : Location} {w w' : World σ}

/-- The directory of the cache and its database file are as `open` needs them. -/
structure Sound (c : Cache) (r : Location) (w : World σ) : Prop where
  base : Base w.tree c.root r
  file : ∃ mode, w.tree.find? (r ++ [databaseFile]) = some (.file .empty mode)
  fits : Fits c.root [databaseFile]
  migrated : w.database.migrations = [Database.firstMigration]

theorem Sound.withOrigin (h : Sound c r w) (o : σ) : Sound c r { w with origin := o } :=
  ⟨h.base, h.file, h.fits, h.migrated⟩

/-- A cache that has just been opened for the first time. -/
structure Fresh (c : Cache) (r : Location) (w : World σ) : Prop extends Sound c r w where
  isOpen : w.isOpen
  index : w.database.index = .empty
  empty : ∀ l, Below r l → l ≠ r ++ [databaseFile] → w.tree.find? l = none

theorem Database.migrate_of_migrated {d : Database} (h : d.migrations = [firstMigration]) :
    d.migrate = .ok d := by
  simp [Database.migrate, h]

theorem databaseFile_plain : Plain ([] ++ [databaseFile]) := by
  intro n hn
  rw [List.mem_singleton.1 hn]
  decide

theorem resolve_root {t : FileTree} {root : Location} (h : Base t root r) :
    t.resolve true root = .ok r :=
  h.leads t fun _ _ => rfl

theorem open_of_base (h : Base w.tree c.root r) : c.open w = c.openDatabase w := by
  rw [«open», bind_apply, onTree, makeDirectories_of_directory (resolve_root h) h.directory]

/-- Where the directory of the cache is missing, opening the cache does what it does in the empty
directory that is made. -/
theorem open_of_vacant {l p : Location} {n : String} {ns : List String}
    (hroot : c.root = l ++ n :: ns) (h : Vacant w.tree l p n ns) :
    ∃ t, EmptyDirectory t c.root (p ++ n :: ns) ∧ c.open w = c.open { w with tree := t } := by
  obtain ⟨t, hmake, hempty⟩ := makeDirectories_of_vacant h
  rw [← hroot] at hmake hempty
  have hopen : c.open { w with tree := t } = c.openDatabase { w with tree := t } :=
    open_of_base hempty.base
  refine ⟨t, hempty, ?_⟩
  rw [hopen, «open», bind_apply, onTree, hmake]

theorem open_of_sound (h : Sound c r w) : c.open w = .ok () { w with isOpen := true } := by
  obtain ⟨mode, hf⟩ := h.file
  have hr : Reaches w.tree c.root r [] databaseFile := ⟨h.fits, by
    rw [List.append_nil, h.base.directory]⟩
  have hlookup := h.base.lookup_of_reaches databaseFile_plain hr
  rw [List.append_nil, hf] at hlookup
  rw [open_of_base h.base, openDatabase]
  simp only [List.nil_append] at hlookup
  simp only [hlookup, openDatabase.migrate, Database.migrate_of_migrated h.migrated]
  rfl

/-- An empty directory can be made a cache unless the path to its database is too long. -/
theorem open_of_empty (h : EmptyDirectory w.tree c.root r) :
    (Fits c.root [databaseFile] ∧ ∃ w', c.open w = .ok () w' ∧ Fresh c r w' ∧
        w'.origin = w.origin) ∨
      ¬ Fits c.root [databaseFile] ∧ ∃ e w', c.open w = .error e w' := by
  have hb := h.base
  have hnone : w.tree.find? (r ++ [databaseFile]) = none :=
    h.empty _ (Base.below_child (List.prefix_refl r) _)
  have hreaches : Fits c.root [databaseFile] → Reaches w.tree c.root r [] databaseFile :=
    fun hfit => ⟨hfit, by rw [List.append_nil, h.directory]⟩
  have hlookup : ∃ e, w.tree.lookup (c.root ++ [databaseFile]) = .error e := by
    by_cases hr : Reaches w.tree c.root r [] databaseFile
    · have := hb.lookup_of_reaches databaseFile_plain hr
      rw [List.append_nil, hnone] at this
      exact ⟨_, this⟩
    · obtain ⟨e, he⟩ := hb.resolve_of_not_reaches databaseFile_plain true hr
      rw [List.nil_append] at he
      exact ⟨e, by rw [lookup, he]⟩
  obtain ⟨e, he⟩ := hlookup
  rw [open_of_base hb, openDatabase]
  simp only [he]
  by_cases hfit : Fits c.root [databaseFile]
  · left
    have hwrite := hb.write_of_none databaseFile_plain (hreaches hfit)
      (by rw [List.append_nil, hnone]) .empty
    rw [List.nil_append, List.append_nil] at hwrite
    rw [hwrite]
    set t₁ := w.tree.insert (r ++ [databaseFile]) (.file .empty newFileMode)
    have h₁ : Base t₁ c.root r :=
      hb.insert (List.prefix_refl r) h.directory (by simp) (.inr (by rw [hnone]; simp))
    have h₂ : Base (t₁.insert (r ++ [databaseFile]) (.file .empty newFileMode)) c.root r :=
      h₁.insert (List.prefix_refl r) h₁.directory (by simp)
        (.inr (by rw [find?_insert_self]; simp))
    refine ⟨hfit, _, rfl, ⟨⟨h₂, ⟨newFileMode, ?_⟩, hfit, rfl⟩, rfl, rfl, fun l hl hne => ?_⟩, rfl⟩
    · exact find?_insert_self _ r databaseFile _
    · rw [find?_insert_of_ne hne, find?_insert_of_ne hne, h.empty l hl]
  · right
    obtain ⟨e, he⟩ := hb.resolve_of_not_reaches databaseFile_plain true (fun hr => hfit hr.1)
    rw [List.nil_append] at he
    refine ⟨hfit, .database, w, ?_⟩
    rw [FileTree.write, bind_apply, create_apply, he]

end Depot.Cache
