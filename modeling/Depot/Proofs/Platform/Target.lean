import Depot.Platform.Target
import Depot.Proofs.Text.Glob
import Mathlib.Data.List.Forall2

/-!
# What the tables of targets say

No version is sent to two values by one table, so the order of rows does not count, and each version
of a derived distribution stands for one that has a target. Both are facts about patterns, told from
the published tables by evaluation (`Tables.published_wellFormed`); every answer follows from them
by one walk through the two lookups (`Tables.WellFormed.inferred`). `target_determined` says what
comes of a file in terms of rows alone.
-/

namespace Depot.Platform

open Depot.Text

variable {T T' : Tables} {t t' : VersionTable} {id version value : String} {r : OsRelease}

namespace VersionTable

/-- Rows that match one version agree. -/
def Unambiguous (t : VersionTable) : Prop :=
  ∀ version, ∀ a ∈ t, ∀ b ∈ t, Covers a.1 version → Covers b.1 version → a.2 = b.2

theorem find?_eq_none_iff : t.find? version = none ↔ ∀ row ∈ t, ¬Covers row.1 version := by
  simp only [find?, List.findSome?_eq_none_iff]
  refine forall_congr' fun row => forall_congr' fun _ => ?_
  rcases h : Glob.parse? row.1 with _ | g
  · simp [Covers, h]
  · simp [Covers, h]

theorem exists_of_find? (h : t.find? version = some value) :
    ∃ row ∈ t, Covers row.1 version ∧ row.2 = value := by
  obtain ⟨row, hrow, h⟩ := List.exists_of_findSome?_eq_some h
  refine ⟨row, hrow, ?_⟩
  dsimp only at h
  split at h
  · next g hg =>
    split_ifs at h with hm
    exact ⟨⟨g, hg, hm⟩, Option.some.inj h⟩
  · cases h

theorem Unambiguous.find?_eq_some_iff (ht : t.Unambiguous) :
    t.find? version = some value ↔ ∃ row ∈ t, Covers row.1 version ∧ row.2 = value := by
  refine ⟨exists_of_find?, ?_⟩
  rintro ⟨row, hrow, hcovers, rfl⟩
  rcases h : t.find? version with _ | v
  · exact absurd hcovers (find?_eq_none_iff.1 h row hrow)
  · obtain ⟨row', hrow', hcovers', rfl⟩ := exists_of_find? h
    rw [ht version row hrow row' hrow' hcovers hcovers']

theorem Unambiguous.find?_perm (ht : t.Unambiguous) (h : t.Perm t') (version : String) :
    t'.find? version = t.find? version := by
  have ht' : t'.Unambiguous := fun v a ha b hb => ht v a (h.mem_iff.2 ha) b (h.mem_iff.2 hb)
  refine Option.ext fun value => ?_
  rw [ht'.find?_eq_some_iff, ht.find?_eq_some_iff]
  simp only [h.mem_iff]

/-- A table is unambiguous if the patterns of rows that differ are apart. -/
def rowsApart (a b : String × String) : Bool :=
  a.2 = b.2 || (Glob.parse? a.1).all fun g => (Glob.parse? b.1).all fun h =>
    Glob.apart g.tokens h.tokens

theorem unambiguous_of_rowsApart (h : ∀ a ∈ t, ∀ b ∈ t, rowsApart a b = true) :
    t.Unambiguous := by
  rintro version a ha b hb ⟨g, hg, hga⟩ ⟨g', hg', hgb⟩
  have hab := h a ha b hb
  rw [rowsApart, hg, hg', Option.all_some, Option.all_some, Bool.or_eq_true, decide_eq_true_eq]
    at hab
  refine hab.resolve_right fun hapart => ?_
  rw [Glob.matches, Glob.not_matchList_of_apart hapart hga] at hgb
  cases hgb

end VersionTable

/-! ## Rows found by their key -/

section Lookup

variable {β : Type} {l l' : List (String × β)} {k : String} {v : β}

theorem mem_keys (h : (k, v) ∈ l) : k ∈ l.map Prod.fst :=
  List.mem_map.2 ⟨_, h, rfl⟩

theorem lookup_eq_some_iff_mem (h : (l.map Prod.fst).Nodup) :
    l.lookup k = some v ↔ (k, v) ∈ l := by
  induction l with
  | nil => simp
  | cons p l ih =>
    rw [List.map_cons, List.nodup_cons] at h
    rw [List.lookup_cons, List.mem_cons]
    rcases hk : k == p.1
    · have hne : (k, v) ≠ p := fun he => beq_eq_false_iff_ne.1 hk (congrArg Prod.fst he)
      simp only [ih h.2, hne, false_or]
    · obtain rfl := eq_of_beq hk
      have hnot : (p.1, v) ∉ l := fun hm => h.1 (mem_keys hm)
      simp only [Option.some.injEq, hnot, or_false]
      exact ⟨fun hv => hv ▸ rfl, fun hp => (congrArg Prod.snd hp).symm⟩

theorem lookup_eq_none_iff_notMem : l.lookup k = none ↔ k ∉ l.map Prod.fst := by
  rw [List.lookup_eq_none_iff, List.mem_map]
  simp only [bne_iff_ne, not_exists, not_and]
  exact ⟨fun h p hp hk => h p hp hk.symm, fun h p hp hk => h p hp hk.symm⟩

theorem key_unique {w : β} (h : (l.map Prod.fst).Nodup) (hv : (k, v) ∈ l) (hw : (k, w) ∈ l) :
    v = w :=
  Option.some.inj (((lookup_eq_some_iff_mem h).2 hv).symm.trans ((lookup_eq_some_iff_mem h).2 hw))

theorem lookup_perm (h : (l.map Prod.fst).Nodup) (hl : l.Perm l') : l'.lookup k = l.lookup k := by
  refine Option.ext fun v => ?_
  rw [lookup_eq_some_iff_mem h, lookup_eq_some_iff_mem ((hl.map Prod.fst).nodup_iff.1 h),
    hl.mem_iff]

end Lookup

/-- The same tables in another order, with the rows of each in another order. -/
def SameRows (l l' : List (String × VersionTable)) : Prop :=
  ∃ m, l.Perm m ∧ List.Forall₂ (fun a b => a.1 = b.1 ∧ a.2.Perm b.2) m l'

theorem lookup_sameRows {l l' : List (String × VersionTable)} (h : (l.map Prod.fst).Nodup)
    (hl : SameRows l l') (id : String) :
    (l.lookup id = none ∧ l'.lookup id = none) ∨
      ∃ t t', l.lookup id = some t ∧ l'.lookup id = some t' ∧ t.Perm t' := by
  obtain ⟨m, hperm, hrows⟩ := hl
  rw [← lookup_perm h hperm]
  clear hperm h
  induction hrows with
  | nil => exact .inl ⟨rfl, rfl⟩
  | @cons a b m l' hab _ ih =>
    rw [List.lookup_cons, List.lookup_cons, hab.1]
    rcases id == b.1
    · exact ih
    · exact .inr ⟨_, _, rfl, rfl, hab.2⟩

namespace Tables

/-- What the tables have to be like. -/
structure WellFormed (T : Tables) : Prop where
  families_nodup : (T.families.map Prod.fst).Nodup
  derived_nodup : (T.derived.map Prod.fst).Nodup
  targets_nodup : (T.targets.map Prod.fst).Nodup
  unambiguous : ∀ p ∈ T.derived ++ T.targets, p.2.Unambiguous
  /-- Every family has targets. -/
  family_known : ∀ p ∈ T.families, p.2 ∈ T.targets.map Prod.fst
  /-- Every distribution with versions of its own is taken for another one. -/
  derived_listed : ∀ p ∈ T.derived, p.1 ∈ T.families.map Prod.fst
  /-- Every version that stands for another one has a target. -/
  closed : ∀ p ∈ T.derived, ∀ row ∈ p.2, ∃ table, (T.familyOf p.1, table) ∈ T.targets ∧
    ∃ row' ∈ table, Covers row'.1 row.2

structure Rearranged (T T' : Tables) : Prop where
  families : T.families.Perm T'.families
  derived : SameRows T.derived T'.derived
  targets : SameRows T.targets T'.targets

theorem WellFormed.familyOf_rearranged (h : T.WellFormed) (hT : T.Rearranged T') (id : String) :
    T'.familyOf id = T.familyOf id := by
  rw [familyOf, familyOf, lookup_perm h.families_nodup hT.families]

theorem WellFormed.familyVersion_rearranged (h : T.WellFormed) (hT : T.Rearranged T')
    (id version : String) : T'.familyVersion id version = T.familyVersion id version := by
  rw [familyVersion, familyVersion]
  obtain ⟨hl, hl'⟩ | ⟨t, t', hl, hl', hperm⟩ := lookup_sameRows h.derived_nodup hT.derived id
  · rw [hl, hl']
  · have hmem := (lookup_eq_some_iff_mem h.derived_nodup).1 hl
    have ht := h.unambiguous _ (List.mem_append_left _ hmem)
    simp only [hl, hl', ht.find?_perm hperm]

theorem WellFormed.familyTarget_rearranged (h : T.WellFormed) (hT : T.Rearranged T')
    (id version : String) : T'.familyTarget id version = T.familyTarget id version := by
  rw [familyTarget, familyTarget, h.familyOf_rearranged hT]
  obtain ⟨hl, hl'⟩ | ⟨t, t', hl, hl', hperm⟩ :=
    lookup_sameRows h.targets_nodup hT.targets (T.familyOf id)
  · rw [hl, hl']
  · have hmem := (lookup_eq_some_iff_mem h.targets_nodup).1 hl
    have ht := h.unambiguous _ (List.mem_append_right _ hmem)
    simp only [hl, hl', ht.find?_perm hperm]

/-- The order of rows does not count, nor does that of the tables. -/
theorem WellFormed.target_rearranged (h : T.WellFormed) (hT : T.Rearranged T') (r : OsRelease) :
    T'.target r = T.target r := by
  rw [target, target]
  simp only [h.familyVersion_rearranged hT, funext (h.familyTarget_rearranged hT r.id)]

/-- What a target is inferred from, case by case. -/
inductive Inferred (T : Tables) (r : OsRelease) : Except Error String → Prop
  | rolling (hid : r.id = "arch") : Inferred T r (.ok "rhel80")
  | versionless (hid : r.id ≠ "arch") (hv : r.versionId = none) :
    Inferred T r (.error (.missingField "VERSION_ID"))
  | derived (hid : r.id ≠ "arch") {version : String} (hv : r.versionId = some version)
    {own table : VersionTable} {row row' : String × String} (ht : (r.id, own) ∈ T.derived)
    (hrow : row ∈ own) (hc : Covers row.1 version) (ht' : (T.familyOf r.id, table) ∈ T.targets)
    (hrow' : row' ∈ table) (hc' : Covers row'.1 row.2) : Inferred T r (.ok row'.2)
  | derivedUnmapped (hid : r.id ≠ "arch") {version : String} (hv : r.versionId = some version)
    {own : VersionTable} (ht : (r.id, own) ∈ T.derived) (hc : ∀ row ∈ own, ¬Covers row.1 version) :
    Inferred T r (.error (.unmappedVersion r.id version))
  | direct (hid : r.id ≠ "arch") {version : String} (hv : r.versionId = some version)
    (hd : r.id ∉ T.derived.map Prod.fst) {table : VersionTable} {row : String × String}
    (ht : (T.familyOf r.id, table) ∈ T.targets) (hrow : row ∈ table)
    (hc : Covers row.1 version) : Inferred T r (.ok row.2)
  | unmapped (hid : r.id ≠ "arch") {version : String} (hv : r.versionId = some version)
    (hd : r.id ∉ T.derived.map Prod.fst) {table : VersionTable}
    (ht : (T.familyOf r.id, table) ∈ T.targets) (hc : ∀ row ∈ table, ¬Covers row.1 version) :
    Inferred T r (.error (.unmappedVersion (T.familyOf r.id) version))
  | unknown (hid : r.id ≠ "arch") {version : String} (hv : r.versionId = some version)
    (hd : r.id ∉ T.derived.map Prod.fst) (ht : T.familyOf r.id ∉ T.targets.map Prod.fst) :
    Inferred T r (.error (.unknownDistribution r.id))

theorem WellFormed.inferred (h : T.WellFormed) (r : OsRelease) : Inferred T r (T.target r) := by
  rw [target]
  split_ifs with hid
  · exact .rolling hid
  rcases hv : r.versionId with _ | version
  · exact .versionless hid hv
  dsimp only
  rcases hl : T.derived.lookup r.id with _ | own
  · have hd := lookup_eq_none_iff_notMem.1 hl
    have hversion : T.familyVersion r.id version = .ok version := by
      rw [familyVersion, hl]
    rw [hversion]
    change Inferred T r (T.familyTarget r.id version)
    rw [familyTarget]
    rcases hl' : T.targets.lookup (T.familyOf r.id) with _ | table
    · exact .unknown hid hv hd (lookup_eq_none_iff_notMem.1 hl')
    have ht := (lookup_eq_some_iff_mem h.targets_nodup).1 hl'
    dsimp only
    rcases hf : table.find? version with _ | target
    · exact .unmapped hid hv hd ht (VersionTable.find?_eq_none_iff.1 hf)
    · obtain ⟨row, hrow, hc, rfl⟩ := VersionTable.exists_of_find? hf
      exact .direct hid hv hd ht hrow hc
  · have hown := (lookup_eq_some_iff_mem h.derived_nodup).1 hl
    rw [familyVersion, hl]
    dsimp only
    rcases hf : own.find? version with _ | v
    · exact .derivedUnmapped hid hv hown (VersionTable.find?_eq_none_iff.1 hf)
    obtain ⟨row, hrow, hc, rfl⟩ := VersionTable.exists_of_find? hf
    obtain ⟨table, ht, row', hrow', hc'⟩ := h.closed _ hown row hrow
    have htarget : T.familyTarget r.id row.2 = .ok row'.2 := by
      have hl' := (lookup_eq_some_iff_mem h.targets_nodup).2 ht
      have hu := h.unambiguous _ (List.mem_append_right _ ht)
      rw [familyTarget, hl']
      simp only [hu.find?_eq_some_iff.2 ⟨row', hrow', hc', rfl⟩]
    change Inferred T r (T.familyTarget r.id row.2)
    rw [htarget]
    exact .derived hid hv hown hrow hc ht hrow' hc'

theorem published_wellFormed : published.WellFormed where
  families_nodup := by decide
  derived_nodup := by decide
  targets_nodup := by decide
  unambiguous := by
    have h : ∀ p ∈ published.derived ++ published.targets, ∀ a ∈ p.2, ∀ b ∈ p.2,
        VersionTable.rowsApart a b = true := by
      decide +kernel
    exact fun p hp => VersionTable.unambiguous_of_rowsApart (h p hp)
  family_known := by decide
  derived_listed := by decide
  closed := by
    have h : (published.derived.all fun p => p.2.all fun row => published.targets.any fun q =>
        q.1 == published.familyOf p.1 && (q.2.find? row.2).isSome) = true := by
      decide +kernel
    intro p hp row hrow
    have hany := List.all_eq_true.1 (List.all_eq_true.1 h p hp) row hrow
    obtain ⟨q, hq, hfind⟩ := List.any_eq_true.1 hany
    rw [Bool.and_eq_true, beq_iff_eq, Option.isSome_iff_exists] at hfind
    obtain ⟨hkey, value, hfind⟩ := hfind
    obtain ⟨row', hrow', hc, -⟩ := VersionTable.exists_of_find? hfind
    exact ⟨q.2, hkey ▸ hq, row', hrow', hc⟩

/-- What comes of the system `r`, told by the rows of the tables alone. -/
structure Determined (T : Tables) (r : OsRelease) (x : Except Error String) : Prop where
  rolling : r.id = "arch" → x = .ok "rhel80"
  versionless : r.id ≠ "arch" → r.versionId = none → x = .error (.missingField "VERSION_ID")
  /-- A distribution with versions of its own; what they stand for always has a target. -/
  derived : r.id ≠ "arch" → ∀ version own, r.versionId = some version → (r.id, own) ∈ T.derived →
    ((∃ target, x = .ok target) ↔ ∃ row ∈ own, Covers row.1 version) ∧
      (∀ target, x = .ok target ↔ ∃ row ∈ own, Covers row.1 version ∧
        ∃ table, (T.familyOf r.id, table) ∈ T.targets ∧
          ∃ row' ∈ table, Covers row'.1 row.2 ∧ row'.2 = target) ∧
      ∀ row ∈ own, ∃ table, (T.familyOf r.id, table) ∈ T.targets ∧
        ∃ row' ∈ table, Covers row'.1 row.2
  direct : r.id ≠ "arch" → ∀ version, r.versionId = some version →
    r.id ∉ T.derived.map Prod.fst →
    ∀ target, x = .ok target ↔ ∃ table, (T.familyOf r.id, table) ∈ T.targets ∧
      ∃ row ∈ table, Covers row.1 version ∧ row.2 = target
  unmapped : ∀ distribution version, x = .error (.unmappedVersion distribution version) →
    r.versionId = some version ∧
      distribution = if r.id ∈ T.derived.map Prod.fst then r.id else T.familyOf r.id
  unknown : ∀ id, x = .error (.unknownDistribution id) ↔
    id = r.id ∧ r.versionId ≠ none ∧ r.id ≠ "arch" ∧ r.id ∉ T.families.map Prod.fst ∧
      r.id ∉ T.targets.map Prod.fst

theorem WellFormed.familyOf_mem (h : T.WellFormed) (hid : id ∈ T.families.map Prod.fst) :
    T.familyOf id ∈ T.targets.map Prod.fst := by
  obtain ⟨p, hp, rfl⟩ := List.mem_map.1 hid
  rw [familyOf, (lookup_eq_some_iff_mem h.families_nodup).2 hp]
  exact h.family_known p hp

theorem familyOf_of_notMem (hid : id ∉ T.families.map Prod.fst) : T.familyOf id = id := by
  rw [familyOf, lookup_eq_none_iff_notMem.2 hid, Option.getD_none]

theorem WellFormed.ok_iff_derived (h : T.WellFormed) {x : Except Error String} {own : VersionTable}
    (hx : Inferred T r x) (hid : r.id ≠ "arch") (hv : r.versionId = some version)
    (hown : (r.id, own) ∈ T.derived) (target : String) :
    x = .ok target ↔ ∃ row ∈ own, Covers row.1 version ∧
      ∃ table, (T.familyOf r.id, table) ∈ T.targets ∧
        ∃ row' ∈ table, Covers row'.1 row.2 ∧ row'.2 = target := by
  have hkey : r.id ∈ T.derived.map Prod.fst := mem_keys hown
  cases hx with
  | rolling hid' => exact absurd hid' hid
  | versionless _ hv' => cases hv.symm.trans hv'
  | direct _ _ hd | unmapped _ _ hd | unknown _ _ hd => exact absurd hkey hd
  | @derived _ _ hv' own' table row row' ht hrow hc ht' hrow' hc' =>
    cases hv.symm.trans hv'
    obtain rfl := key_unique h.derived_nodup hown ht
    constructor
    · intro he
      exact ⟨row, hrow, hc, table, ht', row', hrow', hc', Except.ok.inj he⟩
    · rintro ⟨a, ha, hca, table', hmem, b, hb, hcb, rfl⟩
      obtain rfl := key_unique h.targets_nodup ht' hmem
      have hab := h.unambiguous _ (List.mem_append_left _ hown) version a ha row hrow hca hc
      rw [hab] at hcb
      rw [h.unambiguous _ (List.mem_append_right _ hmem) row.2 b hb row' hrow' hcb hc']
  | @derivedUnmapped _ _ hv' own' ht hc =>
    cases hv.symm.trans hv'
    obtain rfl := key_unique h.derived_nodup hown ht
    constructor
    · nofun
    · rintro ⟨a, ha, hca, -⟩
      exact absurd hca (hc a ha)

theorem WellFormed.ok_iff_direct (h : T.WellFormed) {x : Except Error String}
    (hx : Inferred T r x) (hid : r.id ≠ "arch") (hv : r.versionId = some version)
    (hd : r.id ∉ T.derived.map Prod.fst) (target : String) :
    x = .ok target ↔ ∃ table, (T.familyOf r.id, table) ∈ T.targets ∧
      ∃ row ∈ table, Covers row.1 version ∧ row.2 = target := by
  cases hx with
  | rolling hid' => exact absurd hid' hid
  | versionless _ hv' => cases hv.symm.trans hv'
  | derived _ _ ht | derivedUnmapped _ _ ht => exact absurd (mem_keys ht) hd
  | @direct _ _ hv' _ table row ht hrow hc =>
    cases hv.symm.trans hv'
    constructor
    · intro he
      exact ⟨table, ht, row, hrow, hc, Except.ok.inj he⟩
    · rintro ⟨table', hmem, a, ha, hca, rfl⟩
      obtain rfl := key_unique h.targets_nodup ht hmem
      rw [h.unambiguous _ (List.mem_append_right _ hmem) version a ha row hrow hca hc]
  | @unmapped _ _ hv' _ table ht hc =>
    cases hv.symm.trans hv'
    constructor
    · nofun
    · rintro ⟨table', hmem, a, ha, hca, -⟩
      obtain rfl := key_unique h.targets_nodup ht hmem
      exact absurd hca (hc a ha)
  | unknown _ _ _ ht =>
    constructor
    · nofun
    · rintro ⟨table, hmem, -⟩
      exact absurd (mem_keys hmem) ht

theorem WellFormed.determined (h : T.WellFormed) {x : Except Error String}
    (hx : Inferred T r x) : Determined T r x where
  rolling hid := by
    cases hx with
    | rolling => rfl
    | _ => contradiction
  versionless hid hv := by
    cases hx with
    | rolling hid' => exact absurd hid' hid
    | versionless => rfl
    | _ _ hv' => cases hv.symm.trans hv'
  derived hid version own hv hown := by
    have hok := h.ok_iff_derived hx hid hv hown
    refine ⟨?_, hok, h.closed _ hown⟩
    constructor
    · rintro ⟨target, htarget⟩
      obtain ⟨row, hrow, hc, -⟩ := (hok target).1 htarget
      exact ⟨row, hrow, hc⟩
    · rintro ⟨row, hrow, hc⟩
      obtain ⟨table, ht, row', hrow', hc'⟩ := h.closed _ hown row hrow
      exact ⟨row'.2, (hok _).2 ⟨row, hrow, hc, table, ht, row', hrow', hc', rfl⟩⟩
  direct hid version hv hd := h.ok_iff_direct hx hid hv hd
  unmapped distribution version he := by
    cases hx with
    | derivedUnmapped _ hv ht =>
      cases he
      exact ⟨hv, (if_pos (mem_keys ht)).symm⟩
    | unmapped _ hv hd =>
      cases he
      exact ⟨hv, (if_neg hd).symm⟩
    | _ => cases he
  unknown id := by
    constructor
    · rintro rfl
      cases hx with
      | unknown hid hv hd ht =>
        have hf : r.id ∉ T.families.map Prod.fst := fun hf => ht (h.familyOf_mem hf)
        rw [familyOf_of_notMem hf] at ht
        exact ⟨rfl, by simp [hv], hid, hf, ht⟩
    · rintro ⟨rfl, hv, hid, hf, ht⟩
      have hd : r.id ∉ T.derived.map Prod.fst := by
        intro hd
        obtain ⟨p, hp, hp'⟩ := List.mem_map.1 hd
        exact hf (hp' ▸ h.derived_listed p hp)
      have hkey := familyOf_of_notMem hf
      cases hx with
      | rolling hid' => exact absurd hid' hid
      | versionless _ hv' => exact absurd hv' hv
      | derived _ _ ht' | derivedUnmapped _ _ ht' => exact absurd (mem_keys ht') hd
      | direct _ _ _ ht' | unmapped _ _ _ ht' =>
        exact absurd (mem_keys (hkey ▸ ht')) ht
      | unknown => rfl

end Tables

/-- Whatever the order of the rows of the tables, no version is sent to two values, and a file that
can be read has the target that its rows tell. -/
theorem target_determined :
    (∀ p ∈ Tables.published.derived ++ Tables.published.targets, ∀ version, ∀ a ∈ p.2, ∀ b ∈ p.2,
        Covers a.1 version → Covers b.1 version → a.2 = b.2) ∧
      (∀ T, Tables.published.Rearranged T → ∀ content,
        OsRelease.parse content >>= T.target = targetOf content) ∧
      ∀ content r, OsRelease.parse content = .ok r →
        Tables.published.Determined r (targetOf content) := by
  have hwf := Tables.published_wellFormed
  refine ⟨hwf.unambiguous, fun T hT content => ?_, fun content r hr => ?_⟩
  · rw [targetOf, funext (hwf.target_rearranged hT)]
  · rw [targetOf, hr]
    exact hwf.determined (hwf.inferred r)

section Sample

def fedora : String := "ID=fedora\nVERSION_ID=38\n"

/-- The published tables from the last row to the first. -/
def backwards : Tables where
  families := Tables.published.families.reverse
  derived := (Tables.published.derived.map fun p => (p.1, p.2.reverse)).reverse
  targets := (Tables.published.targets.map fun p => (p.1, p.2.reverse)).reverse

theorem sameRows_reverse (l : List (String × VersionTable)) :
    SameRows l (l.map fun p => (p.1, p.2.reverse)).reverse := by
  refine ⟨l.reverse, (List.reverse_perm l).symm, ?_⟩
  rw [← List.map_reverse, List.forall₂_map_right_iff, List.forall₂_same]
  exact fun p _ => ⟨rfl, (List.reverse_perm p.2).symm⟩

/-- The version of a derived distribution, and one that no row matches. -/
theorem target_determined_fedora :
    OsRelease.parse fedora = .ok ⟨"fedora", some "38"⟩ ∧ targetOf fedora = .ok "rhel90" ∧
      OsRelease.parse fedora >>= backwards.target = .ok "rhel90" := by
  obtain ⟨-, hback, hdetermined⟩ := target_determined
  have hwf := Tables.published_wellFormed
  have hparse : OsRelease.parse fedora = .ok ⟨"fedora", some "38"⟩ := by decide +kernel
  have hd := (hdetermined fedora _ hparse).derived (by decide) "38" _ rfl
    ((lookup_eq_some_iff_mem hwf.derived_nodup).1 rfl)
  have htarget : targetOf fedora = .ok "rhel90" := by
    have hrelease : Covers "3[4-9]" "38" :=
      ⟨⟨[.one '3', .within [⟨'4', '9'⟩]]⟩, by decide +kernel, by decide +kernel⟩
    have hversion : Covers "9" "9" := ⟨⟨[.one '9']⟩, by decide +kernel, by decide +kernel⟩
    refine (hd.2.1 "rhel90").2 ⟨("3[4-9]", "9"), by decide, hrelease, ?_⟩
    exact ⟨_, (lookup_eq_some_iff_mem hwf.targets_nodup).1 rfl, ("9", "rhel90"), by decide,
      hversion, rfl⟩
  refine ⟨hparse, htarget, ?_⟩
  rw [hback backwards ⟨(List.reverse_perm _).symm, sameRows_reverse _, sameRows_reverse _⟩, htarget]

end Sample

end Depot.Platform
