import Depot.Proofs.Cache.Refresh
import Depot.Proofs.Catalog.Legible
import Depot.Proofs.Session.Frame

/-!
# Every query is answered

A refresh leaves a catalog that can be read, and nothing else that happens to a cache changes the
catalog (`Readable.run`). So after a refresh no query fails for what is stored, and a download says
that nothing matches only if that is so (`answers_of_refresh`).
-/

namespace Depot

namespace Cache

open FileTree

variable {c : Cache} {r : Location} {w w₀ w' : World Origin} {e : Event} {es : List Event}
  {taken : Option ByteArray}

/-- Whether the body is no list of downloads or one of whole numbers. -/
def WholeList (body : ByteArray) : Prop :=
  ∀ m, Manifest.parse body = .ok m → m.Whole

/-- What is in the catalog, and whatever a refresh may bring into it, can be read. -/
structure Readable (c : Cache) (r : Location) (w : World Origin) : Prop where
  sound : Sound c r w
  served : ∀ url b, Serves w.origin url b → WholeList b
  legible : w.database.index.catalog.Legible

theorem legible_of_rebuild {b : ByteArray} {m : Manifest} {old i : Index}
    (hm : Manifest.parse b = .ok m) (hw : m.Whole) (hi : old.rebuild m = .ok i) :
    i.catalog.Legible := by
  obtain ⟨n, k, hk, -, hlegible⟩ := Catalog.rebuild_legible hm hw old.catalog
  rw [Index.rebuild, hk] at hi
  cases hi
  exact hlegible

namespace Readable

theorem of_resources (h : Readable c r w) (hs : Sound c r w')
    (hres : w'.origin.resources = w.origin.resources)
    (hl : w'.database.index.catalog.Legible) : Readable c r w' :=
  ⟨hs, fun url b hb => h.served url b ((serves_congr hres).1 hb), hl⟩

theorem change (h : Readable c r w) (hchange : Change c r w e w' taken)
    (he : ∀ url b, e = .serve url b → WholeList b) : Readable c r w' := by
  have hs := hchange.sound h.sound
  cases hchange with
  | idle hi => exact h.of_resources hs hi.resources (hi.database ▸ h.legible)
  | serve url body => exact ⟨hs, offered_serve h.served (he url body rfl) url, h.legible⟩
  | fetch hb => exact h.of_resources hs hb.resources (hb.catalog_eq ▸ h.legible)
  | refresh hm hi hb =>
    have hl := legible_of_rebuild hm (h.served _ _ hb.serves _ hm) hi
    exact h.of_resources hs hb.resources (hb.catalog_eq ▸ hl)

theorem run (hd : IsHexDigest c.digest) (h : Readable c r w)
    (hes : ∀ url b, Event.serve url b ∈ es → WholeList b) : Readable c r (run c w es) := by
  induction es generalizing w with
  | nil => exact h
  | cons e es ih =>
    have hstep := h.change (change_step hd h.sound e) fun url b he =>
      hes url b (he ▸ List.mem_cons_self)
    exact ih hstep fun url b hb => hes url b (List.mem_cons_of_mem e hb)

end Readable

theorem Fresh.readable (h : Fresh c r w)
    (hserved : ∀ url b, Serves w.origin url b → WholeList b) : Readable c r w :=
  ⟨h.toSound, hserved, by rw [h.index]; exact Catalog.legible_empty⟩

theorem isOpen_of_refresh {now : Int} {changed : Bool} (hd : IsHexDigest c.digest)
    (hb : Base w.tree c.root r)
    (h : c.refresh (Origin.transport c.digest) now w = .ok changed w') :
    w'.isOpen := by
  rcases refresh_cases hd hb now with ⟨e, w₁, he, -⟩ | ⟨dest, b, w₁, hok, hc⟩ |
    ⟨b, m, i, w₁, hok, -, -, hbrought⟩
  · cases h.symm.trans he
  · cases h.symm.trans hok
    exact hc.isOpen
  · cases h.symm.trans hok
    exact hbrought.isOpen

theorem query_of_legible {σ : Type} {w : World σ} (ho : w.isOpen)
    (hl : w.database.index.catalog.Legible) (q : Query) :
    ∃ entries, query q w = .ok entries w ∧ ∀ e ∈ entries, e.url?.isSome := by
  obtain ⟨entries, hquery, hurl⟩ := hl q
  refine ⟨entries, ?_, hurl⟩
  rw [query_of_open ho, hquery]
  rfl

end Cache

namespace Session

open Cache FileTree

/-- Where every entry has a URL, a download that finds no URL has found no entry. -/
theorem noMatch_iff {σ : Type} {w : World σ} {q : Request} {entries : List Entry}
    (hquery : Cache.query q.query w = .ok entries w) (hurl : ∀ e ∈ entries, e.url?.isSome)
    (c : Cache) (t : Transport σ) (now : Int) (base : Location) (r : Retry) :
    (∃ text w', download c t now base r q w = .error (.noMatch text) w') ↔ entries = [] := by
  rw [download_apply, hquery]
  cases entries with
  | nil => exact iff_of_true ⟨_, w, rfl⟩ rfl
  | cons e es =>
    refine iff_of_false ?_ (List.cons_ne_nil e es)
    obtain ⟨url, he⟩ := Option.isSome_iff_exists.1 (hurl e List.mem_cons_self)
    have hhead : (e :: es).head? >>= Entry.url? = some url := he
    rintro ⟨text, w', h⟩
    simp only [hhead] at h
    split at h
    · cases h
    · split at h
      · cases h
      · split at h <;> cases h

/-- Whether every query is answered, each entry has a URL, and a download says that nothing matches
only if there is no entry. -/
def Answers (c : Cache) (w : World Origin) : Prop :=
  ∀ q, ∃ entries, Cache.query q w = .ok entries w ∧ (∀ e ∈ entries, e.url?.isSome) ∧
    ∀ (request : Request) (t : Transport Origin) now base retry, request.query = q →
      ((∃ text w', download c t now base retry request w = .error (.noMatch text) w') ↔
        entries = [])

theorem answers_of_readable {c : Cache} {r : Location} {w : World Origin} (h : Readable c r w)
    (ho : w.isOpen) : Answers c w := by
  intro q
  obtain ⟨entries, hquery, hurl⟩ := query_of_legible ho h.legible q
  refine ⟨entries, hquery, hurl, ?_⟩
  rintro request t now base retry rfl
  exact noMatch_iff hquery hurl c t now base retry

/-- A list of downloads that can be read, its numbers whole, can be made into a catalog whatever
the catalog held before, with no row that is refused, and every query of it is answered. So once a
refresh has succeeded, in a run from an empty directory where only such lists are served, every
query is answered, also later on as long as the cache is open. -/
theorem answers_of_refresh (c : Cache) :
    (∀ bytes m, Manifest.parse bytes = .ok m → m.Whole → ∀ old,
      ∃ n k, Catalog.rebuild m old = .ok n k ∧ k.Consistent ∧ k.Legible) ∧
    ∀ r w w₀ w' es fs url (now : Date) changed, IsHexDigest c.digest →
      EmptyDirectory w.tree c.root r → c.open w = .ok () w₀ →
      (∀ b, Offers w.origin (es ++ fs) b → WholeList b) →
      (c.withManifest url).refresh (Origin.transport c.digest) now.seconds (Cache.run c w₀ es) =
        .ok changed w' →
      w'.isOpen ∧ Answers c w' ∧ ((Cache.run c w' fs).isOpen → Answers c (Cache.run c w' fs)) := by
  refine ⟨fun bytes m hm hw old => Catalog.rebuild_legible hm hw old, ?_⟩
  intro r w w₀ w' es fs url now changed hd he ho hwhole hok
  obtain ⟨hfresh, horigin⟩ : Fresh c r w₀ ∧ w₀.origin = w.origin := by
    rcases open_of_empty he with ⟨-, w₁, hopen, h⟩ | ⟨-, e, w₁, herr⟩
    · cases ho.symm.trans hopen
      exact h
    · cases ho.symm.trans herr
  have h₀ : Readable c r w₀ :=
    hfresh.readable fun url b hb => hwhole b (.inl ⟨url, horigin ▸ hb⟩)
  have hes : ∀ url b, Event.serve url b ∈ es → WholeList b := fun url b hb =>
    hwhole b (.inr ⟨url, List.mem_append_left fs hb⟩)
  have hfs : ∀ url b, Event.serve url b ∈ fs → WholeList b := fun url b hb =>
    hwhole b (.inr ⟨url, List.mem_append_right es hb⟩)
  have h₁ : Readable c r (Cache.run c w₀ es) := h₀.run hd hes
  have h₂ : Readable c r w' := by
    have hstep : Readable c r (step c (Cache.run c w₀ es) (.refresh now url)) :=
      h₁.change (change_step hd h₁.sound _) (by simp)
    have heq : step c (Cache.run c w₀ es) (.refresh now url) = w' := congrArg worldOf hok
    exact heq ▸ hstep
  have hopen : w'.isOpen := isOpen_of_refresh (c := c.withManifest url) hd h₁.sound.base hok
  exact ⟨hopen, answers_of_readable h₂ hopen, answers_of_readable (h₂.run hd hfs)⟩

section Sample

theorem parse_twoReleases : ∃ m, Manifest.parse Catalog.twoReleases = .ok m ∧ m.Whole :=
  Manifest.exists_parse (p := fun m => ∀ i ∈ m.items, ∀ n ∈ i.data.numbers, n.Whole)
    (by decide +kernel)

/-- The first refresh takes in the list that is served. -/
theorem refresh_twoReleases :
    ∃ w₀ w', sample.open unused = .ok () w₀ ∧ Fresh sample sample.root w₀ ∧
      (sample.withManifest firstUrl).refresh (Origin.transport Blake3.hex) epoch.seconds
        (Cache.run sample w₀ [.serve firstUrl Catalog.twoReleases]) = .ok true w' := by
  obtain ⟨w₀, ho, hfresh₀, horigin⟩ := open_sample
  set w₁ := Cache.run sample w₀ [.serve firstUrl Catalog.twoReleases]
  have hfresh : Fresh sample sample.root w₁ := hfresh₀.withOrigin _
  have hs : Serves w₁.origin firstUrl Catalog.twoReleases := Table.get?_set_self ..
  have hpending : w₁.origin.pending firstUrl = 0 := by
    change (w₀.origin.serve firstUrl Catalog.twoReleases).pending firstUrl = 0
    rw [horigin]
    rfl
  obtain ⟨m, hm, hw⟩ := parse_twoReleases
  obtain ⟨n, k, hk, -⟩ := Catalog.rebuild_legible hm hw w₁.database.index.catalog
  have hi : w₁.database.index.rebuild m = .ok { w₁.database.index with catalog := k } := by
    rw [Index.rebuild, hk]
  have hp := pathFor_firstUrl
  obtain ⟨w', hok, -⟩ := refresh_first (c := sample.withManifest firstUrl) Blake3.isHexDigest_hex
    ⟨hfresh.base, hfresh.file, hfresh.fits, hfresh.migrated⟩ epoch.seconds hfresh.isOpen
    (directoryOf_shared hp).1 (by rw [hfresh.index]; rfl) hpending hs (room_sample hfresh hp) hm hi
  exact ⟨w₀, w', ho, hfresh₀, hok⟩

/-- After a refresh every query is answered, and again when the cache has been closed and opened. -/
theorem answers_of_refresh_twoReleases :
    (∃ m, Manifest.parse Catalog.twoReleases = .ok m ∧ m.Whole ∧ ∀ old,
      ∃ n k, Catalog.rebuild m old = .ok n k ∧ k.Consistent ∧ k.Legible) ∧
    ∃ w₀ w', sample.open unused = .ok () w₀ ∧
      (sample.withManifest firstUrl).refresh (Origin.transport Blake3.hex) epoch.seconds
        (Cache.run sample w₀ [.serve firstUrl Catalog.twoReleases]) = .ok true w' ∧
      w'.isOpen ∧ Answers sample w' ∧ Answers sample (Cache.run sample w' [.close, .reopen]) := by
  have hd : IsHexDigest sample.digest := Blake3.isHexDigest_hex
  obtain ⟨m, hm, hw⟩ := parse_twoReleases
  have hlist : WholeList Catalog.twoReleases := fun m' hm' => by
    cases hm.symm.trans hm'
    exact hw
  refine ⟨⟨m, hm, hw, (answers_of_refresh sample).1 _ m hm hw⟩, ?_⟩
  obtain ⟨w₀, w', ho, hfresh, hok⟩ := refresh_twoReleases
  have hbodies : ∀ b, Offers unused.origin ([.serve firstUrl Catalog.twoReleases] ++
      [.close, .reopen]) b → WholeList b := by
    rintro b (⟨url, h⟩ | ⟨url, h⟩)
    · cases h
    · simp at h
      exact h.2 ▸ hlist
  obtain ⟨hopen, hanswers, hlater⟩ := (answers_of_refresh sample).2 sample.root unused w₀ w' _ _
    firstUrl epoch true hd emptyDirectory_unused ho hbodies hok
  have hsound : Sound sample sample.root (step sample w' .close) := by
    have hstep : step sample _ (.refresh epoch firstUrl) = w' := congrArg worldOf hok
    rw [← hstep]
    exact sound_run hd hfresh.toSound
      [.serve firstUrl Catalog.twoReleases, .refresh epoch firstUrl, .close]
  refine ⟨w₀, w', ho, hok, hopen, hanswers, hlater ?_⟩
  change (worldOf (sample.open (step sample w' .close))).isOpen
  rw [open_of_sound hsound]
  rfl

end Sample

end Session

end Depot
