import Depot.Proofs.Cache.Download

/-!
# What fetching and refreshing come to

After a download, `fetch` and `refresh` end alike: the staging file takes its place and the draft is
committed (`settle`), unless the call fails or is broken off before. `fetchUntil_cases` and
`refreshUntil_cases` are all that the calls can do, wherever they are broken off.
-/

namespace Depot.Cache

open FileTree

variable {σ α : Type} {breaks : Step → Bool} {c : Cache} {t : Transport σ} {now : Int}
  {url n name : String} {dest temp r : Location} {w w' : World σ} {e : Error} {data : ByteArray}
  {work : Work σ α} {a : α}

/-- The end of a call: the staging file takes its place and `draft` becomes the index. -/
def settle (breaks : Step → Bool) (s : Staged) (draft : Index) (a : α) : Work σ α := do
  onTree (FileTree.rename s.temp s.dest)
  pass breaks .rename
  commit draft
  pass breaks .commit
  return a

/-- A call with result `x` has brought the tree to `t'` from the world `w`, and the index to `draft`
unless it was broken off before. -/
inductive Settled (breaks : Step → Bool) (w : World σ) (t' : FileTree) (draft : Index) (a : α) :
    EStateM.Result Error (World σ) α → Prop
  | done (hr : ¬ breaks .rename) (hc : ¬ breaks .commit) :
      Settled breaks w t' draft a
        (.ok a { w with tree := t', database := { w.database with index := draft } })
  | afterCommit (hr : ¬ breaks .rename) (hc : breaks .commit) :
      Settled breaks w t' draft a
        (.error .io { w with tree := t', database := { w.database with index := draft } })
  | afterRename (hr : breaks .rename) :
      Settled breaks w t' draft a (.error .io { w with tree := t' })

theorem pass_apply (breaks : Step → Bool) (s : Step) (w : World σ) :
    pass breaks s w = if breaks s then .error .io w else .ok () w := by
  unfold pass
  split <;> rfl

theorem settle_apply (breaks : Step → Bool) (s : Staged) (draft : Index) (a : α) (ho : w.isOpen) :
    settle breaks s draft a w =
      match FileTree.rename s.temp s.dest w.tree with
      | .error _ t' => .error .io { w with tree := t' }
      | .ok () t' =>
        if breaks .rename then .error .io { w with tree := t' }
        else if breaks .commit then
          .error .io { w with tree := t', database := { w.database with index := draft } }
        else .ok a { w with tree := t', database := { w.database with index := draft } } := by
  rw [settle, bind_apply, onTree]
  rcases FileTree.rename s.temp s.dest w.tree with ⟨⟨⟩, t'⟩ | ⟨e, t'⟩
  · simp only [bind_apply, pass_apply, commit, ho]
    by_cases hr : breaks .rename
    · simp only [hr, if_true]
    · by_cases hc : breaks .commit
      · simp only [hr, hc, if_true, if_false, Bool.false_eq_true]
      · simp only [hr, hc, if_false, Bool.false_eq_true]
        rfl
  · rfl

section Guarded

variable {t' : FileTree} {o : σ}

/-- Work that fails beside the staging file leaves more directories at most. -/
theorem guarding_quiet (hs : StagedIn w.tree t' c.root r (c.directoryOf url) n name data)
    (hp : Plain (c.directoryOf url))
    (hwork : work { w with tree := t', origin := o } =
      .error e { w with tree := t', origin := o }) :
    ∃ w', guarding (c.root ++ (c.directoryOf url ++ [name])) work
        { w with tree := t', origin := o } = .error e w' ∧
      Quiet c r url w w' ∧ w'.origin = o :=
  ⟨_, guarding_of_error hwork (.inl (hs.remove_eq hp)), ⟨hs.base_erase, hs.rest, rfl, rfl⟩, rfl⟩

/-- Where the staging file cannot be moved, there are more directories at most. -/
theorem guarding_settle_of_error (hs : StagedIn w.tree t' c.root r (c.directoryOf url) n name data)
    (hp : Plain (c.directoryOf url)) (ho : w.isOpen) {s : Staged} {draft : Index}
    {e : FileTree.Error} (hmove : FileTree.rename s.temp s.dest t' = .error e t')
    (htemp : s.temp = c.root ++ (c.directoryOf url ++ [name]))
    (hwork : work { w with tree := t', origin := o } =
      settle breaks s draft a { w with tree := t', origin := o }) :
    ∃ w', guarding s.temp work { w with tree := t', origin := o } = .error .io w' ∧
      Quiet c r url w w' ∧ w'.origin = o := by
  rw [settle_apply _ _ _ _ (by exact ho)] at hwork
  simp only [hmove] at hwork
  rw [htemp]
  exact guarding_quiet hs hp hwork

/-- Where it can be moved, the new file is in its place, also if the call is broken off then. -/
theorem guarding_settle_of_ok (hs : StagedIn w.tree t' c.root r (c.directoryOf url) n name data)
    (hp : Plain (c.directoryOf url)) (ho : w.isOpen) {s : Staged} {draft : Index}
    {t'' : FileTree} (hmove : FileTree.rename s.temp s.dest t' = .ok () t'')
    (htemp : s.temp = c.root ++ (c.directoryOf url ++ [name]))
    (hst : Stored w.tree t'' c.root r (c.directoryOf url) n data)
    (hwork : work { w with tree := t', origin := o } =
      settle breaks s draft a { w with tree := t', origin := o }) :
    Settled breaks { w with origin := o } t'' draft a
      (guarding s.temp work { w with tree := t', origin := o }) := by
  have hnone := hst.base.remove_of_none (hs.plain_append hp) (hs.find?_of_stored hst)
  rw [← htemp] at hnone
  rw [settle_apply _ _ _ _ (by exact ho)] at hwork
  simp only [hmove] at hwork
  by_cases hr : breaks .rename
  · rw [if_pos hr] at hwork
    rw [guarding_of_error hwork (.inr hnone)]
    exact .afterRename hr
  rw [if_neg hr] at hwork
  by_cases hc : breaks .commit
  · rw [if_pos hc] at hwork
    rw [guarding_of_error hwork (.inr hnone)]
    exact .afterCommit hr hc
  · rw [if_neg hc] at hwork
    rw [guarding_of_ok hwork]
    exact .done hr hc

end Guarded

/-- What a fetch does with the staged file. -/
def takeFile (breaks : Step → Bool) (s : Staged) : Work σ Fetched := do
  pass breaks .stage
  let i ← index
  pass breaks .upsert
  settle breaks s (i.upsert s.record) ⟨true, s.dest⟩

theorem takeFile_apply (breaks : Step → Bool) (s : Staged) (ho : w.isOpen) :
    takeFile breaks s w =
      if breaks .stage ∨ breaks .upsert then .error .io w
      else settle breaks s (w.database.index.upsert s.record) ⟨true, s.dest⟩ w := by
  simp only [takeFile, bind_apply, pass_apply]
  by_cases h1 : breaks .stage <;> by_cases h2 : breaks .upsert <;>
    simp [h1, h2, index_of_open ho]

/-- Whether a fetch moves its staging file, and where, is settled before any break after that: it
fails wherever it is broken off, or the copy at hand is current, or the new body is staged and, if
the call is not broken off before, takes its place. -/
theorem fetchUntil_split (hd : IsHexDigest c.digest) (hb : Base w.tree c.root r)
    (t : Transport σ) (now : Int) (url : String) :
    (∀ breaks, ∃ e w', c.fetchUntil breaks t now url w = .error e w' ∧ Quiet c r url w w' ∧
        Fails breaks c r t url w e w'.origin) ∨
      (∃ dest o, c.pathFor url = .ok dest ∧ Asked t url w (.ok .notModified o) ∧
        w.tree.isFile dest ∧
        ∀ breaks, c.fetchUntil breaks t now url w = .ok ⟨false, dest⟩ { w with origin := o }) ∨
      ∃ n v body o t', c.nameOf? url = some n ∧ Asked t url w (.ok (.body v body) o) ∧
        body.failure = none ∧ Stored w.tree t' c.root r (c.directoryOf url) n body.data ∧
        ∀ breaks, if breaks .stage ∨ breaks .upsert then
            ∃ w', c.fetchUntil breaks t now url w = .error .io w' ∧ Quiet c r url w w' ∧
              Fails breaks c r t url w .io w'.origin
          else Settled breaks { w with origin := o } t' (w.database.index.upsert ⟨url, v, now⟩)
            ⟨true, c.root ++ (c.directoryOf url ++ [n])⟩ (c.fetchUntil breaks t now url w) := by
  rcases download_cases (fun _ => false) hd hb t now url with ⟨e, w', he, hq, hf⟩ |
    ⟨dest, o, hp, ha, hfile, hok⟩ | ⟨n, v, body, o, name, t', hn, ha, hf, hs, hok⟩
  · left
    exact fun breaks => ⟨e, w', by rw [fetchUntil, bind_apply, he], hq, hf.mono breaks⟩
  · right; left
    exact ⟨dest, o, hp, ha, hfile, fun breaks => by rw [fetchUntil, bind_apply, hok]; rfl⟩
  have hp := directoryOf_plain hd hn
  set staged : Staged := ⟨c.root ++ (c.directoryOf url ++ [name]),
    c.root ++ (c.directoryOf url ++ [n]), ⟨url, v, now⟩⟩ with hstaged
  set w₁ : World σ := { w with tree := t', origin := o }
  have hcall : ∀ breaks, c.fetchUntil breaks t now url w =
      guarding staged.temp (takeFile breaks staged) w₁ := fun breaks => by
    rw [fetchUntil, bind_apply, hok]
    rfl
  have hstep := fun breaks => takeFile_apply breaks staged (w := w₁) ha.1
  have hearly : ∀ breaks : Step → Bool, breaks .stage ∨ breaks .upsert →
      ∃ w', c.fetchUntil breaks t now url w = .error .io w' ∧ Quiet c r url w w' ∧
        Fails breaks c r t url w .io w'.origin := fun breaks hbreak => by
    specialize hstep breaks
    rw [if_pos hbreak] at hstep
    obtain ⟨w', he, hq, ho⟩ := guarding_quiet hs hp.init hstep
    refine ⟨w', (hcall breaks).trans he, hq, ?_⟩
    rw [ho]
    rcases hbreak with h | h
    · exact .halted .stage h ha
    · exact .halted .upsert h ha
  rcases hs.rename_spec hp with ⟨t'', hmove, hst⟩ | ⟨⟨e, hmove⟩, hroom⟩
  · refine .inr (.inr ⟨n, v, body, o, t'', hn, ha, hf, hst, fun breaks => ?_⟩)
    split
    next hbreak => exact hearly breaks hbreak
    next hbreak =>
      rw [hcall breaks]
      exact guarding_settle_of_ok hs hp.init ha.1 hmove rfl hst
        ((hstep breaks).trans (if_neg hbreak))
  · refine .inl fun breaks => ?_
    by_cases hbreak : breaks .stage ∨ breaks .upsert
    · exact ⟨.io, hearly breaks hbreak⟩
    · obtain ⟨w', he, hq, ho⟩ := guarding_settle_of_error hs hp.init ha.1 hmove rfl
        ((hstep breaks).trans (if_neg hbreak))
      exact ⟨.io, w', (hcall breaks).trans he, hq, ho ▸ .noRoom hn ha hroom⟩

/-- A fetch fails and leaves more directories at most, or the copy at hand is current, or a new body
takes its place. -/
theorem fetchUntil_cases (breaks : Step → Bool) (hd : IsHexDigest c.digest)
    (hb : Base w.tree c.root r) (t : Transport σ) (now : Int) (url : String) :
    (∃ e w', c.fetchUntil breaks t now url w = .error e w' ∧ Quiet c r url w w' ∧
        Fails breaks c r t url w e w'.origin) ∨
      (∃ dest o, c.pathFor url = .ok dest ∧ Asked t url w (.ok .notModified o) ∧
        w.tree.isFile dest ∧
        c.fetchUntil breaks t now url w = .ok ⟨false, dest⟩ { w with origin := o }) ∨
      ∃ n v body o t', c.nameOf? url = some n ∧ Asked t url w (.ok (.body v body) o) ∧
        body.failure = none ∧ Stored w.tree t' c.root r (c.directoryOf url) n body.data ∧
        Settled breaks { w with origin := o } t' (w.database.index.upsert ⟨url, v, now⟩)
          ⟨true, c.root ++ (c.directoryOf url ++ [n])⟩ (c.fetchUntil breaks t now url w) := by
  rcases fetchUntil_split hd hb t now url with h | ⟨dest, o, hp, ha, hfile, h⟩ |
    ⟨n, v, body, o, t', hn, ha, hf, hst, h⟩
  · exact .inl (h breaks)
  · exact .inr (.inl ⟨dest, o, hp, ha, hfile, h breaks⟩)
  specialize h breaks
  split at h
  · exact .inl ⟨.io, h⟩
  · exact .inr (.inr ⟨n, v, body, o, t', hn, ha, hf, hst, h⟩)

/-- The bytes of the staging file. -/
def bytesOf (temp : Location) : Work σ ByteArray :=
  onTree fun tree =>
    match tree.read temp with
    | .ok b => .ok b tree
    | .error e => .error e tree

theorem bytesOf_of_read (h : w.tree.read temp = .ok data) : bytesOf temp w = .ok data w := by
  have hread : (match w.tree.read temp with
      | .ok b => .ok b w.tree
      | .error e => .error e w.tree : EStateM.Result FileTree.Error FileTree ByteArray) =
        .ok data w.tree := by rw [h]
  unfold bytesOf onTree
  dsimp only
  rw [hread]

/-- What a refresh does with the staged list. -/
def takeList (breaks : Step → Bool) (s : Staged) : Work σ Bool := do
  pass breaks .stage
  let bytes ← bytesOf s.temp
  let manifest ← check (Manifest.parse bytes)
  let draft ← check ((← index).rebuild manifest)
  pass breaks .rebuild
  pass breaks .upsert
  settle breaks s (draft.upsert s.record) true

theorem takeList_apply (breaks : Step → Bool) {s : Staged} (ho : w.isOpen)
    (hread : w.tree.read s.temp = .ok data) :
    takeList breaks s w =
      if breaks .stage then .error .io w
      else match Manifest.parse data with
        | .error e => .error e w
        | .ok m =>
          match w.database.index.rebuild m with
          | .error e => .error e w
          | .ok i =>
            if breaks .rebuild ∨ breaks .upsert then .error .io w
            else settle breaks s (i.upsert s.record) true w := by
  simp only [takeList, bind_apply, pass_apply]
  by_cases h1 : breaks .stage
  · simp only [h1, if_true]
  simp only [h1, if_false, Bool.false_eq_true, bytesOf_of_read hread]
  rcases Manifest.parse data with e | m
  · rfl
  simp only [check, index_of_open ho]
  rcases w.database.index.rebuild m with e | i
  · rfl
  by_cases h2 : breaks .rebuild <;> by_cases h3 : breaks .upsert <;> simp [h2, h3]

/-- After a download that brings a list, the refresh works on the staged list. -/
theorem refreshUntil_of_download (breaks : Step → Bool) {s : Staged}
    (h : c.download t now c.manifestUrl w = .ok (.changed s) w') :
    c.refreshUntil breaks t now w = guarding s.temp (takeList breaks s) w' := by
  rw [refreshUntil, bind_apply, h]
  rfl

theorem StagedIn.read_eq {t t' : FileTree} {root : Location} {ns : List String}
    (hs : StagedIn t t' root r ns n name data) (hp : Plain ns) :
    t'.read (root ++ (ns ++ [name])) = .ok data :=
  (hs.base.read_eq_ok_iff (hs.plain_append hp)).2 ⟨hs.fits, _, hs.file⟩

/-- What a refresh comes to, as for a fetch; a list that is no list is an error wherever the call is
broken off. -/
theorem refreshUntil_split (hd : IsHexDigest c.digest) (hb : Base w.tree c.root r)
    (t : Transport σ) (now : Int) :
    (∀ breaks, ∃ e w', c.refreshUntil breaks t now w = .error e w' ∧
        Quiet c r c.manifestUrl w w' ∧ Left t c.manifestUrl w w'.origin) ∨
      (∃ dest o, c.pathFor c.manifestUrl = .ok dest ∧
        Asked t c.manifestUrl w (.ok .notModified o) ∧ w.tree.isFile dest ∧
        ∀ breaks, c.refreshUntil breaks t now w = .ok false { w with origin := o }) ∨
      ∃ n v body o t' m i, c.nameOf? c.manifestUrl = some n ∧
        Asked t c.manifestUrl w (.ok (.body v body) o) ∧ body.failure = none ∧
        Manifest.parse body.data = .ok m ∧ w.database.index.rebuild m = .ok i ∧
        Stored w.tree t' c.root r (c.directoryOf c.manifestUrl) n body.data ∧
        ∀ breaks, if breaks .stage ∨ breaks .rebuild ∨ breaks .upsert then
            ∃ w', c.refreshUntil breaks t now w = .error .io w' ∧ Quiet c r c.manifestUrl w w' ∧
              Left t c.manifestUrl w w'.origin
          else Settled breaks { w with origin := o } t' (i.upsert ⟨c.manifestUrl, v, now⟩) true
            (c.refreshUntil breaks t now w) := by
  rcases download_cases (fun _ => false) hd hb t now c.manifestUrl with ⟨e, w', he, hq, hf⟩ |
    ⟨dest, o, hp, ha, hfile, hok⟩ | ⟨n, v, body, o, name, t', hn, ha, hf, hs, hok⟩
  · left
    exact fun breaks => ⟨e, w', by rw [refreshUntil, bind_apply, he], hq, hf.left⟩
  · right; left
    exact ⟨dest, o, hp, ha, hfile, fun breaks => by rw [refreshUntil, bind_apply, hok]; rfl⟩
  have hp := directoryOf_plain hd hn
  have hleft : Left t c.manifestUrl w o := .inr (.inr ⟨_, ha⟩)
  set staged : Staged := ⟨c.root ++ (c.directoryOf c.manifestUrl ++ [name]),
    c.root ++ (c.directoryOf c.manifestUrl ++ [n]), ⟨c.manifestUrl, v, now⟩⟩
  set w₁ : World σ := { w with tree := t', origin := o }
  have hcall : ∀ breaks, c.refreshUntil breaks t now w =
      guarding staged.temp (takeList breaks staged) w₁ := fun breaks =>
    refreshUntil_of_download breaks hok
  have hquiet : ∀ {breaks e}, takeList breaks staged w₁ = .error e w₁ →
      ∃ w', c.refreshUntil breaks t now w = .error e w' ∧ Quiet c r c.manifestUrl w w' ∧
        Left t c.manifestUrl w w'.origin := fun hwork => by
    obtain ⟨w', he, hq, ho⟩ := guarding_quiet hs hp.init hwork
    exact ⟨w', (hcall _).trans he, hq, ho ▸ hleft⟩
  have hstep := fun breaks =>
    takeList_apply breaks (s := staged) (w := w₁) ha.1 (hs.read_eq hp.init)
  -- A list that cannot be taken in is noticed unless the call is broken off before.
  have hbad : ∀ {e}, (∀ breaks : Step → Bool, ¬ breaks .stage → takeList breaks staged w₁ =
      .error e w₁) → ∀ breaks, ∃ e w', c.refreshUntil breaks t now w = .error e w' ∧
        Quiet c r c.manifestUrl w w' ∧ Left t c.manifestUrl w w'.origin := fun h breaks => by
    by_cases hstage : breaks .stage
    · exact ⟨.io, hquiet ((hstep breaks).trans (if_pos hstage))⟩
    · exact ⟨_, hquiet (h breaks hstage)⟩
  rcases hm : Manifest.parse body.data with e | m <;> simp only [hm] at hstep
  · exact .inl (hbad fun breaks hstage => (hstep breaks).trans (if_neg hstage))
  rcases hi : w₁.database.index.rebuild m with e | i <;> simp only [hi] at hstep
  · exact .inl (hbad fun breaks hstage => (hstep breaks).trans (if_neg hstage))
  have hlate : ∀ breaks : Step → Bool, ¬ (breaks .stage ∨ breaks .rebuild ∨ breaks .upsert) →
      takeList breaks staged w₁ = settle breaks staged (i.upsert staged.record) true w₁ :=
    fun breaks hbreak => by
      rw [hstep, if_neg fun h => hbreak (.inl h), if_neg fun h => hbreak (.inr h)]
  have hearly : ∀ breaks : Step → Bool, breaks .stage ∨ breaks .rebuild ∨ breaks .upsert →
      takeList breaks staged w₁ = .error .io w₁ := fun breaks hbreak => by
    rw [hstep]
    by_cases hstage : breaks .stage
    · exact if_pos hstage
    · rw [if_neg hstage, if_pos (hbreak.resolve_left hstage)]
  rcases hs.rename_spec hp with ⟨t'', hmove, hst⟩ | ⟨⟨e, hmove⟩, -⟩
  · refine .inr (.inr ⟨n, v, body, o, t'', m, i, hn, ha, hf, hm, hi, hst, fun breaks => ?_⟩)
    split
    next hbreak => exact hquiet (hearly breaks hbreak)
    next hbreak =>
      rw [hcall breaks]
      exact guarding_settle_of_ok hs hp.init ha.1 hmove rfl hst (hlate breaks hbreak)
  · refine .inl fun breaks => ?_
    by_cases hbreak : breaks .stage ∨ breaks .rebuild ∨ breaks .upsert
    · exact ⟨.io, hquiet (hearly breaks hbreak)⟩
    · obtain ⟨w', he, hq, ho⟩ := guarding_settle_of_error hs hp.init ha.1 hmove rfl
        (hlate breaks hbreak)
      exact ⟨.io, w', (hcall breaks).trans he, hq, ho ▸ hleft⟩

/-- A refresh fails and leaves more directories at most, or the list at hand is current, or a new
one takes its place and the catalog is made from it. -/
theorem refreshUntil_cases (breaks : Step → Bool) (hd : IsHexDigest c.digest)
    (hb : Base w.tree c.root r) (t : Transport σ) (now : Int) :
    (∃ e w', c.refreshUntil breaks t now w = .error e w' ∧ Quiet c r c.manifestUrl w w' ∧
        Left t c.manifestUrl w w'.origin) ∨
      (∃ dest o, c.pathFor c.manifestUrl = .ok dest ∧
        Asked t c.manifestUrl w (.ok .notModified o) ∧ w.tree.isFile dest ∧
        c.refreshUntil breaks t now w = .ok false { w with origin := o }) ∨
      ∃ n v body o t' m i, c.nameOf? c.manifestUrl = some n ∧
        Asked t c.manifestUrl w (.ok (.body v body) o) ∧ body.failure = none ∧
        Manifest.parse body.data = .ok m ∧ w.database.index.rebuild m = .ok i ∧
        Stored w.tree t' c.root r (c.directoryOf c.manifestUrl) n body.data ∧
        Settled breaks { w with origin := o } t' (i.upsert ⟨c.manifestUrl, v, now⟩) true
          (c.refreshUntil breaks t now w) := by
  rcases refreshUntil_split hd hb t now with h | ⟨dest, o, hp, ha, hfile, h⟩ |
    ⟨n, v, body, o, t', m, i, hn, ha, hf, hm, hi, hst, h⟩
  · exact .inl (h breaks)
  · exact .inr (.inl ⟨dest, o, hp, ha, hfile, h breaks⟩)
  specialize h breaks
  split at h
  · exact .inl ⟨.io, h⟩
  · exact .inr (.inr ⟨n, v, body, o, t', m, i, hn, ha, hf, hm, hi, hst, h⟩)

end Depot.Cache
