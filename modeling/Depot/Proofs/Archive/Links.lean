import Depot.Proofs.Archive.Place
import Depot.Proofs.FileTree.DeadEnd

/-!
# Files that are put where links are

In a destination with links, a file that is stored takes the place of what is at its target, of a
link to another file among that. Only a link that dangles stays, and the file is made where it leads
(`Put`). A file that has come to its target stays there for the rest of a run, so whether there is
one in the end depends on what the visits to its place have found (`replaced_iff`).
-/

namespace Depot.Archive

open FileTree (Action bind_apply get_apply remove_apply DeadEnd Filled Steady makeDirectories Paved
  nodeAt?_eq_some_iff)

variable {s : Selection} {t t' t₁ : FileTree} {l l' target p q dest source : Location}
  {m k : Member} {ms : List Member} {o : Options} {pattern : Option Pattern} {es : Entries}
  {archive : String}

/-! ### One file -/

theorem clearPlace_cases (target : Location) (t : FileTree) :
    t.isFile target = false ∧ clearPlace target t = .ok () t ∨
      t.isFile target ∧ ∃ q, t.resolve false target = .ok q ∧ DeadEnd t q ∧
        clearPlace target t = .ok () (t.erase q) := by
  simp only [clearPlace, bind_apply, get_apply]
  by_cases hfile : t.isFile target
  case neg =>
    rw [if_neg hfile]
    exact .inl ⟨by simpa using hfile, rfl⟩
  obtain ⟨q, hr, hd, hne⟩ := FileTree.deadEnd_of_isFile hfile
  refine .inr ⟨hfile, q, hr, hd, ?_⟩
  rw [if_pos hfile, remove_apply, hr]
  rcases hf : t.find? q with _ | ⟨data, mode⟩ | _ | link
  · exact absurd hf hne
  · simp only [hf]
  · exact absurd hf hd.ne_directory
  · simp only [hf]

/-- How a file has come to a target, where the directories above it are there: it has taken the
place of what was there, or it has been made where a link leads. -/
inductive Put (target : Location) (t t' : FileTree) : Prop
  | replaced {q : Location} (hn : ¬ t.Dangles target) (hr : t.resolve false target = .ok q)
      (hd : DeadEnd t q) (hf : Filled q t t')
  | through {p : Location} (hd : t.Dangles target) (hr : t.resolve true target = .ok p)
      (hn : t.find? p = none) (hf : Filled p t t')

theorem Put.steady (h : Put target t t') : Steady t t' := by
  rcases h with ⟨-, -, hd, hf⟩ | ⟨-, -, hn, hf⟩
  · exact hd.steady hf
  · exact (DeadEnd.free hn).steady hf

/-- A link that dangles has a file at its end now, and is still a link. -/
theorem Put.holdsLink (h : Put target t t') (hd : t.Dangles target) : t'.HoldsLink target := by
  rcases h with ⟨hn, -, -, -⟩ | ⟨⟨⟨link, hl⟩, -⟩, -, hn, hf⟩
  · exact absurd hd hn
  obtain ⟨q, hq, hl⟩ := nodeAt?_eq_some_iff.1 hl
  refine ⟨link, nodeAt?_eq_some_iff.2 ⟨q, ((DeadEnd.free hn).steady hf).resolve _ _ hq, ?_⟩⟩
  rw [hf.other, hl]
  rintro rfl
  cases hn.symm.trans hl

theorem Put.holdsFile_iff (h : Put target t t') : t'.HoldsFile target ↔ ¬ t.Dangles target := by
  refine ⟨fun hfile hd => (h.holdsLink hd).not_holdsFile hfile, fun hn => ?_⟩
  rcases h with ⟨-, hr, hd, hf⟩ | ⟨hd, -, -, -⟩
  · obtain ⟨data, mode, hfile⟩ := hf.file
    exact ⟨data, mode, nodeAt?_eq_some_iff.2 ⟨_, (hd.steady hf).resolve _ _ hr, hfile⟩⟩
  · exact absurd hd hn

/-- What may have become of a tree in which a file was to be put at a target, also if that has
failed. -/
structure Tried (target : Location) (t t' : FileTree) : Prop where
  spared : ¬ t.Dangles target → ∀ p, t.resolve false target ≠ .ok p → t'.find? p = t.find? p
  through : t.Dangles target →
    ∃ p, t.resolve true target = .ok p ∧ t.find? p = none ∧ Filled p t t'

/-- Where no file is reached, a member is written to a free place or not at all. -/
theorem writeMember_free (hfile : t.isFile target = false) (m : Member) :
    ∃ t', Tried target t t' ∧
      (m.content.failed = false ∧ writeMember m target t = .ok () t' ∧ Put target t t' ∨
        ∃ e, writeMember m target t = .error e t') := by
  obtain ⟨⟨e, he⟩, hne⟩ | ⟨p, t', hr, hs, hf, h⟩ := writeMember_spec m target t
  · refine ⟨t, ⟨fun _ _ _ => rfl, fun hd => ?_⟩, .inr ⟨e, he⟩⟩
    obtain ⟨-, p, hr, hn⟩ := hd
    exact absurd hn (hne p hr)
  have hfilled : Filled p t t' := ⟨hs.other, hf⟩
  have hn : t.find? p = none := by
    rcases hp : t.find? p with _ | ⟨data, mode⟩ | _ | link
    · rfl
    · rw [FileTree.isFile_eq_true_iff.2 ⟨p, data, mode, hr, hp⟩] at hfile
      cases hfile
    · exact absurd hp hs.before.1
    · exact absurd hp (hs.before.2 link)
  obtain ⟨q, hq, rfl | ⟨link, -, hl, -⟩⟩ := FileTree.resolve_end hr
  · have hnot : ¬ t.Dangles target := fun ⟨⟨link, hl⟩, _⟩ => by
      rw [FileTree.nodeAt?_of_resolve hq, hn] at hl
      cases hl
    refine ⟨t', ⟨fun _ p hp => hs.other p ?_, fun hd => absurd hd hnot⟩, ?_⟩
    · rintro rfl
      exact hp hq
    · exact h.imp (fun ⟨hc, hok, _⟩ => ⟨hc, hok, .replaced hnot hq (.free hn) hfilled⟩) (·.2)
  · have hdangles : t.Dangles target :=
      ⟨⟨link, nodeAt?_eq_some_iff.2 ⟨q, hq, hl⟩⟩, p, hr, hn⟩
    refine ⟨t', ⟨fun hnot => absurd hdangles hnot, fun _ => ⟨p, hr, hn, hfilled⟩⟩, ?_⟩
    exact h.imp (fun ⟨hc, hok, _⟩ => ⟨hc, hok, .through hdangles hr hn hfilled⟩) (·.2)

/-- What stood at the target and was a file, or led to one, has been removed, so a member is written
to its place as far as it can be read. -/
theorem writeMember_erased (hfile : t.isFile target) (hr : t.resolve false target = .ok q)
    (hd : DeadEnd t q) (m : Member) :
    ∃ t', Tried target t t' ∧
      (m.content.failed = false ∧ writeMember m target (t.erase q) = .ok () t' ∧ Put target t t' ∨
        m.content.failed = true ∧ ∃ e, writeMember m target (t.erase q) = .error e t') := by
  have hnot : ¬ t.Dangles target := by
    rintro ⟨-, p, hp, hn⟩
    obtain ⟨p', data, mode, hp', hf⟩ := FileTree.isFile_eq_true_iff.1 hfile
    obtain rfl : p = p' := Except.ok.inj (hp.symm.trans hp')
    cases hn.symm.trans hf
  have htried : ∀ {t'}, (∀ p, p ≠ q → t'.find? p = t.find? p) → Tried target t t' := fun hother =>
    ⟨fun _ p hp => hother p fun hpq => hp (hpq ▸ hr), fun h => absurd h hnot⟩
  have hother : ∀ p, p ≠ q → (t.erase q).find? p = t.find? p := fun p hp =>
    FileTree.find?_erase_of_ne hp t
  have hnone : (t.erase q).find? q = none := by
    have hq : q ≠ [] := by
      rintro rfl
      exact hd.ne_directory rfl
    rw [FileTree.find?_erase, if_pos ⟨rfl, hq⟩]
  have hr' : (t.erase q).resolve true target = .ok q :=
    FileTree.resolve_follow (hd.resolve_eq hother hr) (by simp [hnone])
  obtain ⟨-, hne⟩ | ⟨p, t', hp, hs, hf, h⟩ := writeMember_spec m target (t.erase q)
  · exact absurd hnone (hne q hr')
  obtain rfl : q = p := Except.ok.inj (hr'.symm.trans hp)
  have hfilled : Filled q t t' := ⟨fun p hp => (hs.other p hp).trans (hother p hp), hf⟩
  exact ⟨t', htried hfilled.other,
    h.imp_left fun ⟨hc, hok, _⟩ => ⟨hc, hok, .replaced hnot hr hd hfilled⟩⟩

theorem replaceFile_cases (m : Member) (target : Location) (t : FileTree) :
    ∃ t', Tried target t t' ∧
      (m.content.failed = false ∧
          (clearPlace target >>= fun _ => writeMember m target) t = .ok () t' ∧ Put target t t' ∨
        (t.isFile target → m.content.failed = true) ∧
          ∃ e, (clearPlace target >>= fun _ => writeMember m target) t = .error e t') := by
  rw [bind_apply]
  obtain ⟨hfile, hclear⟩ | ⟨hfile, q, hr, hd, hclear⟩ := clearPlace_cases target t <;>
    simp only [hclear]
  · obtain ⟨t', htried, h⟩ := writeMember_free hfile m
    exact ⟨t', htried, h.imp_right fun he => ⟨by simp [hfile], he⟩⟩
  · obtain ⟨t', htried, h⟩ := writeMember_erased hfile hr hd m
    exact ⟨t', htried, h.imp_right fun ⟨hc, he⟩ => ⟨fun _ => hc, he⟩⟩

/-- A file that has been put at its target, with directories made on the way. -/
theorem place_file_ok (hm : m.isDirectory = false) (h : place m target t = .ok () t') :
    m.content.failed = false ∧ ∃ t₁, makeDirectories target.dropLast t = .ok () t₁ ∧
      Paved target.dropLast t t₁ ∧ Put target t₁ t' := by
  rw [place_file hm, bind_apply _ _ t] at h
  obtain ⟨t₁, hpaved, ⟨hok, -⟩ | ⟨e, he⟩⟩ := FileTree.makeDirectories_paved target.dropLast t
  · simp only [hok] at h
    obtain ⟨t₂, -, ⟨hc, hok', hput⟩ | ⟨-, e, he⟩⟩ := replaceFile_cases m target t₁
    · cases hok'.symm.trans h
      exact ⟨hc, t₁, hok, hpaved, hput⟩
    · cases he.symm.trans h
  · rw [he] at h
    cases h

/-- Above a path that leads somewhere the directories are there. -/
theorem makeDirectories_above {follow : Bool} (hne : target ≠ [])
    (h : t.resolve follow target = .ok p) : makeDirectories target.dropLast t = .ok () t := by
  rw [← List.dropLast_concat_getLast hne] at h
  obtain ⟨r, hr, hs⟩ := FileTree.resolve_above h (by simp)
  exact FileTree.makeDirectories_of_directory hr hs.directory

/-- Where there is a link at the target nothing has to be made on the way there. -/
theorem place_file_tried (hm : m.isDirectory = false) (hne : target ≠ [])
    (hl : t.HoldsLink target) : Tried target t (treeAfter (place m target t)) := by
  obtain ⟨link, hl⟩ := hl
  obtain ⟨q, hq, -⟩ := nodeAt?_eq_some_iff.1 hl
  rw [place_file hm, bind_apply _ _ t]
  simp only [makeDirectories_above hne hq]
  obtain ⟨t', htried, ⟨-, hok, -⟩ | ⟨-, e, he⟩⟩ := replaceFile_cases m target t
  · rw [hok]
    exact htried
  · rw [he]
    exact htried

/-! ### A whole run -/

theorem store_steady (h : store s m t = .ok () t') : Steady t t' := by
  by_cases hw : s.Wants m ∧ s.test = false
  case neg =>
    rw [store, if_neg hw] at h
    cases h
    exact .refl t
  rw [store, if_pos hw] at h
  cases hm : m.isDirectory with
  | true =>
    rw [place_directory hm] at h
    obtain ⟨t₁, hpaved, ⟨hok, -⟩ | ⟨e, he⟩⟩ := FileTree.makeDirectories_paved (s.goal m) t
    · cases hok.symm.trans h
      exact hpaved.widens.steady
    · cases he.symm.trans h
  | false =>
    obtain ⟨-, t₁, -, hpaved, hput⟩ := place_file_ok hm h
    exact hpaved.widens.steady.trans hput.steady

theorem storeAll_steady (h : storeAll s ms t = .ok () t') : Steady t t' := by
  induction ms generalizing t with
  | nil =>
    cases h
    exact .refl t'
  | cons m ms ih =>
    obtain ⟨t₁, hstep, h⟩ := storeAll_cons_eq_ok_iff.1 h
    exact (store_steady hstep).trans (ih h)

/-- In a run of `s` over members from a tree on, the file `k` comes to be stored when the tree, with
the directories above its target, is `t₁`. -/
inductive Visits (s : Selection) (k : Member) (t₁ : FileTree) : List Member → FileTree → Prop
  | here {ms : List Member} {t : FileTree} (hw : s.Wants k) (hk : k.isDirectory = false)
      (h : makeDirectories (s.goal k).dropLast t = .ok () t₁) : Visits s k t₁ (k :: ms) t
  | later {m : Member} {ms : List Member} {t t' : FileTree} (h : store s m t = .ok () t')
      (hv : Visits s k t₁ ms t') : Visits s k t₁ (m :: ms) t

/-- One of the visits to the place of `l`, as it is in `t'`, finds no link there that dangles. -/
def FoundSound (s : Selection) (l : Location) (t' : FileTree) (ms : List Member) (t : FileTree) :
    Prop :=
  ∃ k t₁, Visits s k t₁ ms t ∧ t'.resolve false (s.goal k) = t'.resolve false l ∧
    ¬ t₁.Dangles (s.goal k)

theorem FoundSound.later (h : store s m t = .ok () t₁) (hf : FoundSound s l t' ms t₁) :
    FoundSound s l t' (m :: ms) t := by
  obtain ⟨k, t₂, hv, hsame, hd⟩ := hf
  exact ⟨k, t₂, .later h hv, hsame, hd⟩

/-- A file that has been put where no link dangled is there for good. -/
theorem Visits.holdsFile (ht : s.test = false) (hv : Visits s k t₁ ms t)
    (hd : ¬ t₁.Dangles (s.goal k)) (h : storeAll s ms t = .ok () t') :
    t'.HoldsFile (s.goal k) := by
  induction hv with
  | here hw hk hmade =>
    obtain ⟨t₂, hstep, h⟩ := storeAll_cons_eq_ok_iff.1 h
    rw [store_of_wants hw ht] at hstep
    obtain ⟨-, t₃, hok, -, hput⟩ := place_file_ok hk hstep
    cases hok.symm.trans hmade
    exact (storeAll_steady h).holdsFile (hput.holdsFile_iff.2 hd)
  | later hstep hv ih =>
    obtain ⟨t₂, hstep', h⟩ := storeAll_cons_eq_ok_iff.1 h
    cases hstep.symm.trans hstep'
    exact ih h

/-- Where there is a link, there is a file in the end only if one has been put there. -/
theorem foundSound_of_link (ht : s.test = false) {link : String} (hr : t.resolve false l = .ok q)
    (hl : t.find? q = some (.link link)) (h : storeAll s ms t = .ok () t')
    (hf : t'.HoldsFile l) : FoundSound s l t' ms t := by
  induction ms generalizing t with
  | nil =>
    cases h
    exact absurd hf (FileTree.HoldsLink.not_holdsFile ⟨link, nodeAt?_eq_some_iff.2 ⟨q, hr, hl⟩⟩)
  | cons m ms ih =>
    obtain ⟨t₁, hstep, h⟩ := storeAll_cons_eq_ok_iff.1 h
    have hr₁ := (store_steady hstep).resolve _ _ hr
    -- either the member is put there, or the link stays
    by_cases hl₁ : t₁.find? q = some (.link link)
    · exact (ih hr₁ hl₁ h).later hstep
    by_cases hw : s.Wants m
    case neg =>
      rw [store_of_not_wants hw] at hstep
      cases hstep
      exact absurd hl hl₁
    have hplace := hstep
    rw [store_of_wants hw ht] at hplace
    cases hm : m.isDirectory with
    | true =>
      rw [place_directory hm] at hplace
      obtain ⟨t₂, hpaved, ⟨hok, -⟩ | ⟨e, he⟩⟩ := FileTree.makeDirectories_paved (s.goal m) t
      · cases hok.symm.trans hplace
        exact absurd ((hpaved.grows.link q link).2 hl) hl₁
      · cases he.symm.trans hplace
    | false =>
      obtain ⟨-, t₂, hmade, hpaved, hput⟩ := place_file_ok hm hplace
      have hl₂ : t₂.find? q = some (.link link) := (hpaved.grows.link q link).2 hl
      have hsteady := hput.steady.trans (storeAll_steady h)
      rcases hput with @⟨q', hn, hq', hd, hfilled⟩ | @⟨p, -, -, hn, hfilled⟩
      · by_cases hqq : q = q'
        · subst hqq
          refine ⟨m, t₂, .here hw hm hmade, ?_, hn⟩
          rw [hsteady.resolve _ _ hq', (storeAll_steady h).resolve _ _ hr₁]
        · exact absurd ((hfilled.other q hqq).trans hl₂) hl₁
      · refine absurd ((hfilled.other q ?_).trans hl₂) hl₁
        rintro rfl
        cases hn.symm.trans hl₂

/-- A visit that finds a link that dangles leaves a link, so another one has to come. -/
theorem Visits.foundSound (ht : s.test = false) (hv : Visits s k t₁ ms t)
    (h : storeAll s ms t = .ok () t') (hf : t'.HoldsFile (s.goal k)) :
    FoundSound s (s.goal k) t' ms t := by
  induction hv with
  | here hw hk hmade =>
    by_cases hd : t₁.Dangles (s.goal k)
    case neg => exact ⟨k, t₁, .here hw hk hmade, rfl, hd⟩
    obtain ⟨t₂, hstep, h⟩ := storeAll_cons_eq_ok_iff.1 h
    have hplace := hstep
    rw [store_of_wants hw ht] at hplace
    obtain ⟨-, t₃, hok, -, hput⟩ := place_file_ok hk hplace
    cases hok.symm.trans hmade
    obtain ⟨link, hl⟩ := hput.holdsLink hd
    obtain ⟨q, hr, hl⟩ := nodeAt?_eq_some_iff.1 hl
    exact (foundSound_of_link ht hr hl h hf).later hstep
  | later hstep hv ih =>
    obtain ⟨t₂, hstep', h⟩ := storeAll_cons_eq_ok_iff.1 h
    cases hstep.symm.trans hstep'
    exact (ih h).later hstep

theorem exists_visits (ht : s.test = false) (h : storeAll s ms t = .ok () t') (hm : m ∈ ms)
    (hw : s.Wants m) (hf : m.isDirectory = false) : ∃ t₁, Visits s m t₁ ms t := by
  induction ms generalizing t with
  | nil => cases hm
  | cons k ms ih =>
    obtain ⟨t₂, hstep, h⟩ := storeAll_cons_eq_ok_iff.1 h
    rcases List.mem_cons.1 hm with rfl | hm
    · rw [store_of_wants hw ht] at hstep
      obtain ⟨-, t₁, hmade, -⟩ := place_file_ok hf hstep
      exact ⟨t₁, .here hw hf hmade⟩
    · obtain ⟨t₁, hv⟩ := ih h hm
      exact ⟨t₁, .later hstep hv⟩

/-- After a run that succeeds there is a file at the target of one that it has stored unless every
visit to the place has found a link that dangles. -/
theorem storeAll_holdsFile_iff (ht : s.test = false) (h : storeAll s ms t = .ok () t')
    (hm : m ∈ ms) (hw : s.Wants m) (hf : m.isDirectory = false) :
    t'.HoldsFile (s.goal m) ↔ FoundSound s (s.goal m) t' ms t := by
  constructor
  · obtain ⟨t₁, hv⟩ := exists_visits ht h hm hw hf
    exact hv.foundSound ht h
  · rintro ⟨k, t₁, hv, hsame, hd⟩
    obtain ⟨data, mode, hk⟩ := hv.holdsFile ht hd h
    exact ⟨data, mode, by rwa [FileTree.nodeAt?, ← hsame]⟩

/-- What the files that a run of `s` has stored are in the end. -/
def FilesHeld (s : Selection) (ms : List Member) (t t' : FileTree) : Prop :=
  ∀ m ∈ ms, s.Wants m → m.isDirectory = false →
    (t'.HoldsFile (s.goal m) ↔ FoundSound s (s.goal m) t' ms t)

/-- How far an extraction has come, also after an error. -/
def progressAfter : EStateM.Result Error Progress Unit → Progress
  | .ok _ p => p
  | .error _ p => p

theorem tree_progressAfter_visit (s : Selection) (m : Member) (t : FileTree) (r : Report) :
    (progressAfter (visit s m ⟨t, r⟩)).tree = treeAfter (store s m t) := by
  rw [visit_apply]
  rcases store s m t with ⟨⟨⟩, t'⟩ | ⟨e, t'⟩ <;> rfl

/-- The place that a path to `l` leads to is in `t'` as it is in `t`, also if nothing is there. -/
def Spared (l : Location) (t t' : FileTree) : Prop :=
  ∀ p, t.resolve true l = .ok p → t'.find? p = t.find? p

/-- What a visit does to a tree in which there is a link at the target. -/
structure LinkVisited (target : Location) (t t' : FileTree) : Prop where
  spared_iff : Spared target t t' ↔ ¬ t.Dangles target
  /-- Nothing but the link itself may have changed. -/
  other : ¬ t.Dangles target → ∀ p, t.resolve false target ≠ .ok p → t'.find? p = t.find? p

theorem Tried.linkVisited (h : Tried target t t') (hl : t.HoldsLink target) :
    LinkVisited target t t' := by
  refine ⟨⟨fun hs hd => ?_, fun hd p hr => h.spared hd p fun hr' => ?_⟩, h.spared⟩
  · obtain ⟨p, hr, hn, hfilled⟩ := h.through hd
    obtain ⟨data, mode, hf⟩ := hfilled.file
    cases (hf.symm.trans (hs p hr)).trans hn
  · obtain ⟨link, hl⟩ := hl
    rw [FileTree.nodeAt?_of_resolve hr'] at hl
    exact FileTree.resolve_ne_link hr link hl

/-- A target of a file that was extracted is a file itself, and no link, just if one of the visits
to its place has found no link there that dangles. A visit to a link leaves what it leads to, also
if that is missing, just if it does not dangle. -/
theorem replaced_iff (ho : o.test = false) (archive : String) (source dest : Location)
    (t : FileTree) :
    (∀ pattern es r t', extractEntries archive dest o pattern es t = .ok r t' →
      FilesHeld (o.selection dest pattern) es.members t t') ∧
    (∀ r t', extract archive source dest o t = .ok r t' →
      ∃ pattern es, opened t archive source o.pattern = .ok (pattern, es) ∧
        FilesHeld (o.selection dest pattern) es.members t t') ∧
    ∀ pattern m r, (o.selection dest pattern).Wants m → m.isDirectory = false →
      t.HoldsLink ((o.selection dest pattern).goal m) →
      LinkVisited ((o.selection dest pattern).goal m) t
        (progressAfter (visit (o.selection dest pattern) m ⟨t, r⟩)).tree := by
  have hentries : ∀ pattern es r t', extractEntries archive dest o pattern es t = .ok r t' →
      FilesHeld (o.selection dest pattern) es.members t t' := fun pattern es r t' h m hm hw hf =>
    storeAll_holdsFile_iff ho (extractEntries_eq_ok_iff.1 h).1 hm hw hf
  refine ⟨hentries, fun r t' h => ?_, fun pattern m r hw hf hl => ?_⟩
  · rw [extract_eq] at h
    rcases hopen : opened t archive source o.pattern with e | ⟨pattern, es⟩ <;>
      simp only [hopen] at h
    · cases h
    · exact ⟨pattern, es, rfl, hentries pattern es r t' h⟩
  · rw [tree_progressAfter_visit, store_of_wants hw ho]
    have hne : (o.selection dest pattern).goal m ≠ [] := fun hnil =>
      Selection.way_ne_nil hw (List.append_eq_nil_iff.1 hnil).2
    exact (place_file_tried hf hne hl).linkVisited hl

section Sample

/-- A zip file with the file `x`. -/
def singleZip : ByteArray :=
  ⟨#[80, 75, 3, 4, 20, 0, 0, 0, 0, 0, 0, 0, 33, 0, 210, 163, 8, 120, 1, 0, 0, 0, 1, 0, 0, 0, 1, 0,
    0, 0, 120, 110,
    80, 75, 1, 2, 20, 3, 20, 0, 0, 0, 0, 0, 0, 0, 33, 0, 210, 163, 8, 120, 1, 0, 0, 0, 1, 0, 0, 0,
    1, 0, 0, 0, 0, 0, 0, 0, 0, 0, 0, 0, 160, 129, 0, 0, 0, 0, 120,
    80, 75, 5, 6, 0, 0, 0, 0, 1, 0, 1, 0, 47, 0, 0, 0, 32, 0, 0, 0, 0, 0]⟩

def singleMember : Member := ⟨"x", false, 0o100640, ⟨⟨#[110]⟩, false⟩⟩

/-- Where `x` is to be there is a link to nothing. -/
def danglingTree : FileTree where
  nodes := [(["a.zip"], .file singleZip 0o644), (["out"], .directory),
    (["out", "x"], .link "y")]

def writtenThrough : FileTree where
  nodes := [(["out", "y"], .file ⟨#[110]⟩ 0o640), (["a.zip"], .file singleZip 0o644),
    (["out"], .directory), (["out", "x"], .link "y")]

theorem read_singleZip : Zip.read singleZip = ⟨[.member singleMember], true⟩ := by decide +kernel

theorem opened_danglingTree :
    opened danglingTree "a.zip" ["a.zip"] none = .ok (none, ⟨[.member singleMember], true⟩) :=
  opened_of_read (f := .zip) (by decide +kernel) rfl (by decide +kernel) read_singleZip

theorem extract_danglingTree :
    extract "a.zip" ["a.zip"] ["out"] .default danglingTree =
      .ok ⟨[["out", "x"]], 1, 0, false⟩ writtenThrough := by
  rw [extract_eq, show Options.default.pattern = none from rfl, opened_danglingTree]
  exact extractEntries_eq_ok_iff.2 ⟨by decide +kernel, rfl, by decide +kernel⟩

theorem wants_singleMember :
    (Options.default.selection ["out"] none).Wants singleMember := by decide

theorem goal_singleMember :
    (Options.default.selection ["out"] none).goal singleMember = ["out", "x"] := by decide

theorem dangles_danglingTree : danglingTree.Dangles ["out", "x"] :=
  ⟨⟨"y", by decide +kernel⟩, ["out", "y"], by decide +kernel, by decide +kernel⟩

theorem holdsLink_writtenThrough : writtenThrough.HoldsLink ["out", "x"] := ⟨"y", by decide +kernel⟩

/-- The link stays, and the file is made where it leads. -/
theorem written_through :
    (¬ ∀ archive source dest o t r t' pattern es, o.test = false →
      extract archive source dest o t = .ok r t' →
      opened t archive source o.pattern = .ok (pattern, es) →
      ∀ m ∈ es.members, (o.selection dest pattern).Wants m → m.isDirectory = false →
        t'.HoldsFile ((o.selection dest pattern).goal m)) ∧
    ¬ ∀ (dest : Location) (o : Options) t r pattern m, o.test = false →
      (o.selection dest pattern).Wants m →
      m.isDirectory = false → t.HoldsLink ((o.selection dest pattern).goal m) →
      Spared ((o.selection dest pattern).goal m) t
        (progressAfter (visit (o.selection dest pattern) m ⟨t, r⟩)).tree := by
  refine ⟨fun h => ?_, fun h => ?_⟩
  · have hfile := h _ _ _ _ _ _ _ _ _ rfl extract_danglingTree opened_danglingTree singleMember
      (by decide) wants_singleMember rfl
    rw [goal_singleMember] at hfile
    exact holdsLink_writtenThrough.not_holdsFile hfile
  · have hspared := h ["out"] .default danglingTree (.start false) none singleMember rfl
      wants_singleMember rfl (goal_singleMember ▸ dangles_danglingTree.1)
    have hnone : danglingTree.find? ["out", "y"] = none := by decide +kernel
    have hmade : (progressAfter (visit (Options.default.selection ["out"] none) singleMember
        ⟨danglingTree, .start false⟩)).tree.find? ["out", "y"] =
          some (.file ⟨#[110]⟩ 0o640) := by decide +kernel
    cases hmade.symm.trans ((hspared ["out", "y"] (by decide +kernel)).trans hnone)

/-- The only visit finds a link that dangles. -/
theorem replaced_iff_dangling :
    extract "a.zip" ["a.zip"] ["out"] .default danglingTree =
      .ok ⟨[["out", "x"]], 1, 0, false⟩ writtenThrough ∧
    (writtenThrough.HoldsFile ["out", "x"] ↔
      FoundSound (Options.default.selection ["out"] none) ["out", "x"] writtenThrough [singleMember]
        danglingTree) ∧
    LinkVisited ["out", "x"] danglingTree (progressAfter
      (visit (Options.default.selection ["out"] none) singleMember
        ⟨danglingTree, .start false⟩)).tree := by
  obtain ⟨-, hrun, hvisit⟩ :=
    replaced_iff (o := .default) rfl "a.zip" ["a.zip"] ["out"] danglingTree
  obtain ⟨pattern, es, hopen, hfiles⟩ := hrun _ _ extract_danglingTree
  obtain ⟨rfl, rfl⟩ := Prod.mk.inj (Except.ok.inj (opened_danglingTree.symm.trans hopen))
  have hfile := hfiles singleMember (by decide) wants_singleMember rfl
  have hlink := hvisit none singleMember (.start false) wants_singleMember rfl
    (goal_singleMember ▸ dangles_danglingTree.1)
  rw [goal_singleMember] at hfile hlink
  exact ⟨extract_danglingTree, hfile, hlink⟩

end Sample

end Depot.Archive
