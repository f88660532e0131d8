import Depot.Proofs.Cache.Current

/-!
# A refresh does all or nothing

A refresh that brings in a list has put its bytes, its tag and its catalog in their places; any
other one has left every file, every record and the catalog (`refreshUntil_outcome`). This holds of
every world that a run reaches, whatever is served there and wherever the call fails before its
commit (`refresh_all_or_nothing`).
-/

namespace Depot.Cache

open FileTree

variable {breaks : Step → Bool} {c : Cache} {r : Location} {w w₀ w' : World Origin} {n : String}
  {data : ByteArray} {m : Manifest} {i : Index}

/-- From `w` to `w'` no file has come, gone or changed, and nothing in the tables of the database:
the catalog and the records. -/
structure Untouched (w w' : World Origin) : Prop where
  database : w'.database = w.database
  file : ∀ l b mode, w'.tree.find? l = some (.file b mode) ↔ w.tree.find? l = some (.file b mode)

theorem Quiet.untouched {url : String} (h : Quiet c r url w w') : Untouched w w' :=
  ⟨h.database, fun l _ _ => h.tree.file_iff l⟩

/-- From `w` to `w'` the list `b` that is served at `url` has been taken in. -/
structure TakenIn (c : Cache) (r : Location) (url : String) (b : ByteArray)
    (w w' : World Origin) : Prop where
  serves : Serves w.origin url b
  catalog : catalogOf? b = some w'.database.index.catalog
  record : ∃ rec, record? url w' = .ok (some rec) w' ∧
    rec.validators.etag = some (Origin.etag c.digest b)
  /-- The list is in its file, and all other files are as they were. -/
  file : ∃ ns, c.pathFor url = .ok (c.root ++ ns) ∧ w'.tree.read (c.root ++ ns) = .ok b ∧
    ∀ l, l ≠ r ++ ns → ∀ a mode,
      (w'.tree.find? l = some (.file a mode) ↔ w.tree.find? l = some (.file a mode))

theorem Brought.takenIn {url : String} {now : Date} (hd : IsHexDigest c.digest)
    (hm : Manifest.parse data = .ok m) (hi : w.database.index.rebuild m = .ok i)
    (h : Brought c r url now.seconds data i.catalog w w') : TakenIn c r url data w w' where
  serves := h.serves
  catalog := by
    rw [h.catalog_eq]
    exact catalogOf?_of_rebuild hm hi
  record := by
    refine ⟨⟨url, ⟨some (Origin.etag c.digest data), none⟩, now.seconds⟩, ?_, rfl⟩
    rw [record?_of_open h.isOpen, h.record?_eq now.valid]
    rfl
  file := by
    obtain ⟨n, hn, hst⟩ := h.tree
    have hp : c.pathFor url = .ok (c.root ++ (c.directoryOf url ++ [n])) :=
      pathFor_eq_ok_iff.2 ⟨n, hn, rfl⟩
    refine ⟨_, hp, h.read_eq hd hp, fun l hl a mode => hst.file_iff ?_⟩
    rwa [List.append_assoc]

/-- What a refresh comes to that fails only before its staging file is moved. -/
theorem refreshUntil_outcome (hd : IsHexDigest c.digest) (hb : Base w.tree c.root r) (url : String)
    (now : Date) (hrename : ¬ breaks .rename) (hcommit : ¬ breaks .commit) :
    match (c.withManifest url).refreshUntil breaks (Origin.transport c.digest) now.seconds w with
    | .ok true w' => ∃ b, TakenIn c r url b w w'
    | .ok false w' => Untouched w w'
    | .error _ w' => Untouched w w' := by
  rcases refreshUntil_cases (c := c.withManifest url) breaks hd hb (Origin.transport c.digest)
      now.seconds with
    ⟨e, w', he, hq, -⟩ | ⟨dest, o, -, -, -, hok⟩ |
    ⟨n, v, body, o, t', m, i, hn, ha, -, hm, hi, hst, hset⟩
  · rw [he]
    exact hq.untouched
  · rw [hok]
    exact ⟨rfl, fun _ _ _ => Iff.rfl⟩
  · generalize (c.withManifest url).refreshUntil breaks (Origin.transport c.digest) now.seconds w =
      x at hset ⊢
    cases hset with
    | done =>
      have hbrought : Brought (c.withManifest url) r url now.seconds body.data i.catalog w _ :=
        .of_asked ha hn hst (Index.records_of_rebuild hi)
      exact ⟨body.data, hbrought.of_withManifest.takenIn hd hm hi⟩
    | afterCommit _ hc => exact absurd hc hcommit
    | afterRename hr => exact absurd hr hrename

/-- In every state that a run from an empty directory reaches a refresh takes in the list that is
served, or it leaves the cache as it was: if the list has not changed, and whatever it is that goes
wrong before the commit. -/
theorem refresh_all_or_nothing (hd : IsHexDigest c.digest) (he : EmptyDirectory w.tree c.root r)
    (ho : c.open w = .ok () w₀) (es : List Event) (manifestUrl : String) (now : Date)
    (breaks : Step → Bool) (hrename : ¬ breaks .rename) (hcommit : ¬ breaks .commit) :
    match (c.withManifest manifestUrl).refreshUntil breaks (Origin.transport c.digest) now.seconds
        (run c w₀ es) with
    | .ok true w' => ∃ b, TakenIn c r manifestUrl b (run c w₀ es) w'
    | .ok false w' => Untouched (run c w₀ es) w'
    | .error _ w' => Untouched (run c w₀ es) w' := by
  rcases open_of_empty he with ⟨-, w', hok, hfresh, -⟩ | ⟨-, e, w', herr⟩
  · cases ho.symm.trans hok
    exact refreshUntil_outcome hd (sound_run hd hfresh.toSound es).base manifestUrl now hrename
      hcommit
  · cases ho.symm.trans herr

/-- The first refresh takes in the list that is served, if it can be read. -/
theorem refresh_first (hd : IsHexDigest c.digest) (hs : Sound c r w) (now : Int) (ho : w.isOpen)
    (hn : c.nameOf? c.manifestUrl = some n)
    (hrec : w.database.index.records.get? c.manifestUrl = none)
    (hpending : w.origin.pending c.manifestUrl = 0) (hserves : Serves w.origin c.manifestUrl data)
    (hroom : Room w.tree c.root r (c.directoryOf c.manifestUrl) n)
    (hm : Manifest.parse data = .ok m) (hi : w.database.index.rebuild m = .ok i) :
    ∃ w', c.refresh (Origin.transport c.digest) now w = .ok true w' ∧
      Brought c r c.manifestUrl now data i.catalog w w' := by
  obtain ⟨w₁, hfetch, -⟩ := fetch_first hd hs now ho hn hrec hpending hserves hroom
  rw [fetch, fetchUntil, bind_apply] at hfetch
  rcases download_cases (fun _ => false) hd hs.base (Origin.transport c.digest) now c.manifestUrl
    with ⟨e, w', he, -⟩ | ⟨dest, o, -, -, -, hok⟩ | ⟨n', v, body, o, name, t', hn', ha, -, hst, hok⟩
  · rw [he] at hfetch
    cases hfetch
  · rw [hok] at hfetch
    cases hfetch
  obtain rfl := Option.some.inj (hn.symm.trans hn')
  obtain ⟨-, b, hs', -, -, hdata⟩ := ha.of_body
  obtain rfl : body.data = data := hdata.trans (Option.some.inj (hs'.symm.trans hserves))
  have hp := directoryOf_plain hd hn
  set staged : Staged := ⟨c.root ++ (c.directoryOf c.manifestUrl ++ [name]),
    c.root ++ (c.directoryOf c.manifestUrl ++ [n]), ⟨c.manifestUrl, v, now⟩⟩
  have hstep := takeList_apply (fun _ => false) (s := staged)
    (w := { w with tree := t', origin := o }) ha.1 (hst.read_eq hp.init)
  simp only [hm, hi, Bool.false_eq_true, or_self, if_false] at hstep
  rw [refresh, refreshUntil_of_download _ hok]
  rcases hst.rename_spec hp with ⟨t'', hmove, hstored⟩ | ⟨-, hroom'⟩
  · exact ⟨_, (guarding_settle_of_ok hst hp.init ha.1 hmove rfl hstored hstep).eq_ok,
      .of_asked ha hn hstored (Index.records_of_rebuild hi)⟩
  · exact absurd hroom hroom'

theorem exists_rebuild {k : Catalog} (h : catalogOf? data = some k) (old : Index) :
    ∃ m i, Manifest.parse data = .ok m ∧ old.rebuild m = .ok i := by
  rw [catalogOf?] at h
  rcases hm : Manifest.parse data with e | m <;> simp only [hm] at h
  · cases h
  have hsame : Catalog.rebuild m old.catalog = Catalog.rebuild m .empty := rfl
  rcases hk : Catalog.rebuild m .empty with ⟨_, k'⟩ | ⟨e, k'⟩ <;> simp only [hk] at h
  · exact ⟨m, { old with catalog := k' }, rfl, by rw [Index.rebuild, hsame, hk]⟩
  · cases h

section Sample

/-- A list is served that no refresh has seen. -/
theorem refresh_all_or_nothing_listBody : ∃ w₀ w' b, sample.open unused = .ok () w₀ ∧
    (sample.withManifest firstUrl).refresh (Origin.transport Blake3.hex) epoch.seconds
      (run sample w₀ [.serve firstUrl listBody]) = .ok true w' ∧
    TakenIn sample sample.root firstUrl b (run sample w₀ [.serve firstUrl listBody]) w' := by
  have hd : IsHexDigest sample.digest := Blake3.isHexDigest_hex
  obtain ⟨w₀, ho, hfresh₀, horigin⟩ := open_sample
  have h := refresh_all_or_nothing hd emptyDirectory_unused ho [.serve firstUrl listBody] firstUrl
    epoch (fun _ => false) (by simp) (by simp)
  set w₁ := run sample w₀ [.serve firstUrl listBody]
  have hfresh : Fresh sample sample.root w₁ := hfresh₀.withOrigin _
  have hs : Serves w₁.origin firstUrl listBody := Table.get?_set_self ..
  have hpending : w₁.origin.pending firstUrl = 0 := by
    change (w₀.origin.serve firstUrl listBody).pending firstUrl = 0
    rw [horigin]
    rfl
  obtain ⟨k, hk⟩ : ∃ k, catalogOf? listBody = some k :=
    Option.isSome_iff_exists.1 (by decide +kernel)
  obtain ⟨m, i, hm, hi⟩ := exists_rebuild hk w₁.database.index
  have hp := pathFor_firstUrl
  obtain ⟨w', hok, -⟩ := refresh_first (c := sample.withManifest firstUrl) hd
    ⟨hfresh.base, hfresh.file, hfresh.fits, hfresh.migrated⟩ epoch.seconds hfresh.isOpen
    (directoryOf_shared hp).1 (by rw [hfresh.index]; rfl) hpending hs (room_sample hfresh hp) hm hi
  have hok' : (sample.withManifest firstUrl).refreshUntil (fun _ => false)
      (Origin.transport sample.digest) epoch.seconds w₁ = .ok true w' := hok
  rw [hok'] at h
  obtain ⟨b, hb⟩ := h
  exact ⟨w₀, w', b, ho, hok, hb⟩

end Sample

end Depot.Cache
