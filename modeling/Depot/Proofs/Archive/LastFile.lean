import Depot.Proofs.Archive.Place

/-!
# The tree after an extraction

Storing a member leaves directories where they are and files that are at other targets
(`Placed.lookup_file`). So after a run each file is that of the last member that goes there, each
directory is there, and nothing else has changed (`storeAll_stored`).
-/

namespace Depot.Archive

open FileTree (Grows OnWay Unlinked Plain permissions)

variable {t t' t₁ : FileTree} {dest l : Location} {ns ks : List String} {s : Selection}
  {m m' : Member} {ms : List Member} {data : ByteArray} {mode : Nat}

theorem permissions_eq_and (mode : Nat) : permissions mode = mode &&& 0o7777 :=
  (Nat.and_two_pow_sub_one_eq_mod mode 12).symm

/-- A file stays unless another one is put at its place. -/
theorem Placed.lookup_file (hu : Unlinked t dest) (hns : ns ≠ []) (hp : Plain ns) (hks : ks ≠ [])
    (hq : Plain ks) (h : Placed m (dest ++ ks) t t') (hne : m.isDirectory = false → ks ≠ ns)
    (hl : t.lookup (dest ++ ns) = .ok (.file data mode)) :
    t'.lookup (dest ++ ns) = .ok (.file data mode) := by
  obtain ⟨p, hr, hf⟩ := FileTree.lookup_eq_ok_iff.1 hl
  have hr' := FileTree.resolve_true_of_grows h.grows hr
  refine FileTree.lookup_eq_ok_iff.2 ⟨p, hr', ?_⟩
  rcases h.find?_cases p with heq | ⟨hnone, -⟩ | ⟨hm, hk⟩
  · rw [heq, hf]
  · rw [hnone] at hf
    cases hf
  · have hu' := hu.grows h.grows
    obtain ⟨r, hdest, -, rfl⟩ := hu'.resolve_append hp hns hr'
    obtain ⟨r', hdest', -, heq⟩ := hu'.resolve_append hq hks hk
    obtain rfl : r = r' := Except.ok.inj (hdest.symm.trans hdest')
    exact absurd (List.append_cancel_left heq).symm (hne hm)

theorem Present.isDirectory_above (h : Present m l t) {a : Location} (ha : a <+: l) (hne : a ≠ l) :
    t.isDirectory a := by
  obtain ⟨ys, rfl⟩ := ha
  have hys : ys ≠ [] := by
    rintro rfl
    exact hne (List.append_nil a).symm
  obtain ⟨p, hr⟩ : ∃ p, t.resolve true (a ++ ys) = .ok p := by
    rw [Present] at h
    split_ifs at h
    · obtain ⟨p, hr, -⟩ := FileTree.isDirectory_eq_true_iff.1 h
      exact ⟨p, hr⟩
    · obtain ⟨p, hr, -⟩ := FileTree.lookup_eq_ok_iff.1 h
      exact ⟨p, hr⟩
  exact FileTree.isDirectory_above hr hys

/-- The last of the selected files that go to `l`. -/
def lastFile? (s : Selection) (l : Location) (ms : List Member) : Option Member :=
  ms.reverse.find? fun m => s.Wants m ∧ m.isDirectory = false ∧ s.goal m = l

theorem lastFile?_cons (s : Selection) (l : Location) (m : Member) (ms : List Member) :
    lastFile? s l (m :: ms) =
      (lastFile? s l ms).or
        (if s.Wants m ∧ m.isDirectory = false ∧ s.goal m = l then some m else none) := by
  rw [lastFile?, List.reverse_cons, List.find?_append, ← lastFile?, List.find?_singleton]
  simp only [decide_eq_true_eq]

/-- What has become of `t` when all the members are stored. -/
structure Stored (s : Selection) (ms : List Member) (t t' : FileTree) : Prop where
  file : ∀ l m, lastFile? s l ms = some m →
    t'.lookup l = .ok (.file m.content.data (m.mode &&& 0o7777))
  directory : ∀ m ∈ ms, s.Wants m → m.isDirectory = true → t'.isDirectory (s.goal m)
  above : ∀ m ∈ ms, s.Wants m → ∀ l, l <+: s.goal m → l ≠ s.goal m → t'.isDirectory l
  other : ∀ q, (∀ m ∈ ms, s.Wants m → ¬OnWay t' (s.goal m) q) → t'.find? q = t.find? q

theorem storeAll_lookup_file (hu : Unlinked t s.dest) (ht : s.test = false) (hns : ns ≠ [])
    (hp : Plain ns) (hlast : lastFile? s (s.dest ++ ns) ms = none)
    (hl : t.lookup (s.dest ++ ns) = .ok (.file data mode)) (h : storeAll s ms t = .ok () t') :
    t'.lookup (s.dest ++ ns) = .ok (.file data mode) := by
  induction ms generalizing t with
  | nil =>
    cases h
    exact hl
  | cons m ms ih =>
    rw [lastFile?_cons, Option.or_eq_none_iff] at hlast
    obtain ⟨hlast, hm⟩ := hlast
    obtain ⟨t₁, hstep, h⟩ := storeAll_cons_eq_ok_iff.1 h
    by_cases hw : s.Wants m
    · obtain ⟨hplaced, -⟩ := store_ok hu ht hw hstep
      refine ih (hu.grows hplaced.grows) hlast ?_ h
      refine hplaced.lookup_file hu hns hp (s.way_ne_nil hw) (s.plain_way hw) (fun hd he => ?_) hl
      rw [if_pos ⟨hw, hd, by rw [Selection.goal, he]⟩] at hm
      cases hm
    · rw [store_of_not_wants hw] at hstep
      cases hstep
      exact ih hu hlast hl h

theorem Stored.cons_of_not_wants (hw : ¬s.Wants m) (h : Stored s ms t t') :
    Stored s (m :: ms) t t' := by
  have hmem : ∀ k ∈ m :: ms, s.Wants k → k ∈ ms := by
    intro k hk hwk
    refine (List.mem_cons.1 hk).resolve_left ?_
    rintro rfl
    exact hw hwk
  refine ⟨fun l k hlast => ?_, fun k hk hwk => h.directory k (hmem k hk hwk) hwk,
    fun k hk hwk => h.above k (hmem k hk hwk) hwk,
    fun q hq => h.other q fun k hk => hq k (List.mem_cons_of_mem m hk)⟩
  rw [lastFile?_cons, if_neg fun hc => hw hc.1, Option.or_none] at hlast
  exact h.file l k hlast

theorem Stored.cons (hu : Unlinked t s.dest) (ht : s.test = false) (hw : s.Wants m)
    (hplaced : Placed m (s.goal m) t t₁) (hpresent : Present m (s.goal m) t₁)
    (hrun : storeAll s ms t₁ = .ok () t') (h : Stored s ms t₁ t') : Stored s (m :: ms) t t' where
  file l k hlast := by
    rw [lastFile?_cons] at hlast
    rcases hms : lastFile? s l ms with _ | j
    -- no later member goes to `l`, so the file that was put there stays
    · rw [hms, Option.none_or, Option.ite_none_right_eq_some] at hlast
      obtain ⟨⟨-, hd, rfl⟩, hk⟩ := hlast
      obtain rfl := Option.some.inj hk
      rw [Present, if_neg (by simp [hd]), permissions_eq_and] at hpresent
      exact storeAll_lookup_file (hu.grows hplaced.grows) ht (s.way_ne_nil hw) (s.plain_way hw) hms
        hpresent hrun
    · rw [hms, Option.some_or] at hlast
      exact h.file l k (hms.trans hlast)
  directory k hk hwk hd := by
    rcases List.mem_cons.1 hk with rfl | hk
    · rw [Present, if_pos hd] at hpresent
      exact FileTree.isDirectory_of_grows (storeAll_grows_of_ok (hu.grows hplaced.grows) hrun)
        hpresent
    · exact h.directory k hk hwk hd
  above k hk hwk l hl hne := by
    rcases List.mem_cons.1 hk with rfl | hk
    · exact FileTree.isDirectory_of_grows (storeAll_grows_of_ok (hu.grows hplaced.grows) hrun)
        (hpresent.isDirectory_above hl hne)
    · exact h.above k hk hwk l hl hne
  other q hq := by
    have hg := storeAll_grows_of_ok (hu.grows hplaced.grows) hrun
    have hway := hq m List.mem_cons_self hw
    rw [h.other q fun k hk => hq k (List.mem_cons_of_mem m hk)]
    rcases hplaced.find?_cases q with heq | ⟨-, -, hnew⟩ | ⟨-, hr⟩
    · exact heq
    · exact absurd (hnew.grows hg) hway
    · exact absurd ⟨s.goal m, List.prefix_refl _, FileTree.resolve_true_of_grows hg hr⟩ hway

/-- A run that succeeds leaves just what the members that it selects ask for. -/
theorem storeAll_stored (hu : Unlinked t s.dest) (ht : s.test = false)
    (h : storeAll s ms t = .ok () t') : Stored s ms t t' := by
  induction ms generalizing t with
  | nil =>
    cases h
    exact ⟨nofun, nofun, nofun, fun _ _ => rfl⟩
  | cons m ms ih =>
    obtain ⟨t₁, hstep, h⟩ := storeAll_cons_eq_ok_iff.1 h
    by_cases hw : s.Wants m
    · obtain ⟨hplaced, hpresent⟩ := store_ok hu ht hw hstep
      exact .cons hu ht hw hplaced hpresent h (ih (hu.grows hplaced.grows) h)
    · rw [store_of_not_wants hw] at hstep
      cases hstep
      exact (ih hu h).cons_of_not_wants hw

/-- What a successful extraction of `es` reports and leaves. -/
structure Extracted (dest : Location) (o : Options) (pattern : Option Pattern) (es : Entries)
    (r : Report) (t t' : FileTree) : Prop where
  selected : r.selected = (es.members.filter (o.selection dest pattern).Wants).map
    (o.selection dest pattern).goal
  members : r.members = es.members.length
  stored : Stored (o.selection dest pattern) es.members t t'

theorem extractEntries_extracted {archive : String} {o : Options} {pattern : Option Pattern}
    {es : Entries} {r : Report} (hu : Unlinked t dest) (ho : o.test = false)
    (h : extractEntries archive dest o pattern es t = .ok r t') :
    Extracted dest o pattern es r t t' := by
  obtain ⟨hrun, -, rfl⟩ := extractEntries_eq_ok_iff.1 h
  exact ⟨rfl, rfl, storeAll_stored (s := o.selection dest pattern) hu ho hrun⟩

/-- A successful extraction of any entries, those of an archive among them, selects the members that
are wanted and leaves the tree with the last file for each place. -/
theorem extract_last {o : Options} (hu : Unlinked t dest) (ho : o.test = false) (archive : String)
    (source : Location) :
    (∀ pattern es r t', extractEntries archive dest o pattern es t = .ok r t' →
      Extracted dest o pattern es r t t') ∧
    ∀ r t', extract archive source dest o t = .ok r t' →
      ∃ pattern es, opened t archive source o.pattern = .ok (pattern, es) ∧
        Extracted dest o pattern es r t t' := by
  refine ⟨fun pattern es r t' => extractEntries_extracted hu ho, fun r t' h => ?_⟩
  rw [extract_eq] at h
  rcases hopen : opened t archive source o.pattern with e | ⟨pattern, es⟩ <;> simp only [hopen] at h
  · cases h
  · exact ⟨pattern, es, rfl, extractEntries_extracted hu ho h⟩

section Sample

/-- Two members of the sample go to one place, where another file was. -/
theorem extract_last_sample : Unlinked sampleTree ["latest"] ∧ ∃ r t',
    extract "a.zip" ["a.zip"] ["latest"] (sampleOptions false) sampleTree = .ok r t' ∧
    r.selected = [["latest", "d", "f"], ["latest", "d", "f"]] ∧ r.members = 3 ∧
    t'.lookup ["latest", "d", "f"] = .ok (.file ⟨#[98]⟩ 0o600) := by
  have h := reportOf?_eq_some reportOf?_sample
  obtain ⟨pattern, es, ho, hx⟩ := (extract_last unlinked_sample rfl "a.zip" ["a.zip"]).2 _ _ h
  obtain ⟨rfl, rfl⟩ := Prod.mk.inj (Except.ok.inj (opened_sample.symm.trans ho))
  refine ⟨unlinked_sample, _, _, h, rfl, rfl, ?_⟩
  exact hx.stored.file ["latest", "d", "f"] ⟨"d//f", false, 0o100600, ⟨⟨#[98]⟩, false⟩⟩
    (by decide +kernel)

end Sample

end Depot.Archive
