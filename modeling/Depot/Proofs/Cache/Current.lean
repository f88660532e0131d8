import Depot.Proofs.Cache.Coherence

/-!
# Whether the catalog is current

The catalog is that of the list of downloads that was taken in last (`tables_run`). A refresh that
is told that its list has not changed leaves the catalog alone, although another list may have been
taken in since, or that list may have been fetched and never taken in: `refresh_current_iff` says
when the catalog is that of the served list. It always is where nobody fetches the list and there
is no other one (`Only`).
-/

namespace Depot.Cache

open FileTree

variable {c : Cache} {r p : Location} {w w₀ w' : World Origin} {manifestUrl : String} {e : Event}
  {es : List Event} {last taken : Option ByteArray} {data b : ByteArray} {changed : Bool}

/-- The catalog that a list of downloads makes, if it can be read. -/
def catalogOf? (bytes : ByteArray) : Option Catalog :=
  match Manifest.parse bytes with
  | .error _ => none
  | .ok m =>
    match Catalog.rebuild m .empty with
    | .ok _ c => some c
    | .error .. => none

/-- The catalog after `last` has been taken in, or nothing at all. -/
def tables? : Option ByteArray → Option Catalog
  | none => some .empty
  | some bytes => catalogOf? bytes

/-- The list of downloads that was taken in last, where it was `last` before the run. -/
def lastTaken (c : Cache) (w : World Origin) (last : Option ByteArray) :
    List Event → Option ByteArray
  | [] => last
  | e :: es => lastTaken c (step c w e) ((takes c w e).or last) es

/-- Whether the run refreshes from `manifestUrl` alone and does not fetch it. -/
def Only (manifestUrl : String) (es : List Event) : Prop :=
  ∀ e ∈ es, ∀ now url, (e = .refresh now url → url = manifestUrl) ∧
    (e = .fetch now url → url ≠ manifestUrl)

/-- What is in the catalog before makes no difference. -/
theorem catalogOf?_of_rebuild {m : Manifest} {old i : Index} (hm : Manifest.parse data = .ok m)
    (hi : old.rebuild m = .ok i) : catalogOf? data = some i.catalog := by
  have hsame : Catalog.rebuild m old.catalog = Catalog.rebuild m .empty := rfl
  rw [Index.rebuild, hsame] at hi
  rw [catalogOf?, hm]
  cases hc : Catalog.rebuild m .empty with
  | ok _ k =>
    rw [hc] at hi
    cases hi
    simp only [hc]
  | error e k =>
    rw [hc] at hi
    cases hi

theorem Change.tables (h : Change c r w e w' taken)
    (hl : tables? last = some w.database.index.catalog) :
    tables? (taken.or last) = some w'.database.index.catalog := by
  cases h with
  | idle h => rw [h.database, Option.none_or, hl]
  | serve url body => exact hl
  | fetch h => rw [h.catalog_eq, Option.none_or, hl]
  | refresh hm hi h =>
    rw [h.catalog_eq, Option.some_or]
    exact catalogOf?_of_rebuild hm hi

theorem tables_run (hd : IsHexDigest c.digest) (hs : Sound c r w)
    (hl : tables? last = some w.database.index.catalog) :
    tables? (lastTaken c w last es) = some (run c w es).database.index.catalog := by
  induction es generalizing w last with
  | nil => exact hl
  | cons e es ih => exact ih (sound_step hd hs e) ((change_step hd hs e).tables hl)

/-- If only refreshes bring in the list, then what is in its file has been taken in. -/
theorem Change.taken_of_read (h : Change c r w e w' taken) (hd : IsHexDigest c.digest)
    (hb : Base w.tree c.root r) (hp : c.pathFor manifestUrl = .ok p)
    (hne : ∀ v, e.url? = some v → v ≠ manifestUrl → c.pathFor v ≠ .ok p)
    (honly : ∀ now url, (e = .refresh now url → url = manifestUrl) ∧
      (e = .fetch now url → url ≠ manifestUrl))
    (hl : ∀ b, w.tree.read p = .ok b → last = some b) :
    ∀ b, w'.tree.read p = .ok b → taken.or last = some b := by
  intro b hb'
  cases h with
  | idle h => exact hl b ((h.read_iff hd hb hp).1 hb')
  | serve url body => exact hl b hb'
  | @fetch now url _ _ h =>
    exact hl b ((h.read_iff hd hb hp (hne url rfl ((honly now url).2 rfl))).1 hb')
  | @refresh now url _ _ _ _ hm hi h =>
    obtain rfl := (honly now url).1 rfl
    rw [h.read_eq hd hp] at hb'
    cases hb'
    rfl

theorem lastTaken_of_read (hd : IsHexDigest c.digest) (hs : Sound c r w)
    (hp : c.pathFor manifestUrl = .ok p) (hne : Apart c es manifestUrl)
    (honly : Only manifestUrl es) (hl : ∀ b, w.tree.read p = .ok b → last = some b) :
    ∀ b, (run c w es).tree.read p = .ok b → lastTaken c w last es = some b := by
  induction es generalizing w last with
  | nil => exact hl
  | cons e es ih =>
    refine ih (sound_step hd hs e) (fun e' he' => hne e' (List.mem_cons_of_mem e he'))
      (fun e' he' => honly e' (List.mem_cons_of_mem e he'))
      ((change_step hd hs e).taken_of_read hd hs.base hp (fun v hv hvu => ?_)
        (honly e List.mem_cons_self) hl)
    exact hne e List.mem_cons_self v hv hvu p hp

/-- What a refresh says after a run from an empty directory. It takes in the served list `b` unless
that is what the file holds already, and the catalog is that of `b` afterwards exactly if it did so
or the list that was taken in last makes the same catalog. -/
theorem refresh_current_iff (hd : IsHexDigest c.digest) (he : EmptyDirectory w.tree c.root r)
    (ho : c.open w = .ok () w₀)
    (hinj : ∀ a b, Offers w.origin es a → Offers w.origin es b → c.digest a = c.digest b → a = b)
    (hne : Apart c es manifestUrl) (now : Int)
    (hok : (c.withManifest manifestUrl).refresh (Origin.transport c.digest) now (run c w₀ es) =
      .ok changed w') :
    ∃ p b, c.pathFor manifestUrl = .ok p ∧ Serves (run c w₀ es).origin manifestUrl b ∧
      (changed = false ↔ (run c w₀ es).tree.read p = .ok b) ∧
      (catalogOf? b = some w'.database.index.catalog ↔
        changed = true ∨ tables? (lastTaken c w₀ none es) = catalogOf? b) ∧
      (Only manifestUrl es → catalogOf? b = some w'.database.index.catalog) := by
  rcases open_of_empty he with ⟨-, w'', hopen, hfresh, horigin⟩ | ⟨-, e, w'', herr⟩
  case inr =>
    rw [ho] at herr
    cases herr
  rw [ho] at hopen
  cases hopen
  have hkept : ∀ {p}, c.pathFor manifestUrl = .ok p →
      Kept c r p (Offers w.origin es) manifestUrl (run c w₀ es) := fun hp =>
    (hfresh.kept hd hp fun url b hs => .inl ⟨url, horigin ▸ hs⟩).run hd hp
      (fun url b h => .inr ⟨url, h⟩) hne
  have htables : tables? (lastTaken c w₀ none es) = some (run c w₀ es).database.index.catalog :=
    tables_run hd hfresh.toSound (by rw [hfresh.index]; rfl)
  have hbase := (sound_run hd hfresh.toSound es).base
  rcases refresh_cases (c := c.withManifest manifestUrl) hd hbase now with ⟨e, w₁, herr, -⟩ |
    ⟨dest, b, w₁, hok', h⟩ | ⟨b, m, i, w₁, hok', hm, hi, h⟩
  · exact absurd (hok.symm.trans herr) (by simp)
  · cases hok.symm.trans hok'
    have hp : c.pathFor manifestUrl = .ok dest := h.place
    have hk := hkept hp
    have hread := (hk.tagOf_eq_iff (hk.offered _ b h.serves) hinj).1 h.tag
    have hiff : catalogOf? b = some w'.database.index.catalog ↔
        false = true ∨ tables? (lastTaken c w₀ none es) = catalogOf? b := by
      rw [h.database, ← htables]
      simp [eq_comm]
    refine ⟨dest, b, hp, h.serves, by simp [hread], hiff, fun honly => hiff.2 (.inr ?_)⟩
    have hk₀ := hfresh.kept (S := fun _ => True) hd hp fun _ _ _ => trivial
    have hempty : ∀ b, w₀.tree.read dest = .ok b → none = some b := fun b hb =>
      absurd hb (hk₀.absent (by rw [hfresh.index]; rfl) b)
    rw [lastTaken_of_read hd hfresh.toSound hp hne honly hempty b hread]
    rfl
  · cases hok.symm.trans hok'
    obtain ⟨n, hn, -⟩ := h.tree
    have hp : c.pathFor manifestUrl = .ok (c.root ++ (c.directoryOf manifestUrl ++ [n])) :=
      pathFor_eq_ok_iff.2 ⟨n, hn, rfl⟩
    have hk := hkept hp
    have htag := mt (hk.tagOf_eq_iff (hk.offered _ b h.serves) hinj).2 h.tag
    have hcatalog : catalogOf? b = some w'.database.index.catalog := by
      rw [h.catalog_eq]
      exact catalogOf?_of_rebuild hm hi
    exact ⟨_, b, hp, h.serves, by simp [htag], by simp [hcatalog], fun _ => hcatalog⟩

section Sample

/-- A list with one release. -/
def listBody : ByteArray :=
  ⟨("\x7b\"versions\":[\x7b\"version\":\"1.0\"\x7d]\x7d".toList.map fun c =>
    UInt8.ofNat c.toNat).toArray⟩

theorem catalogOf?_listBody : catalogOf? listBody ≠ some .empty := by
  have h : (catalogOf? listBody).map (·.releases.length) = some 1 := by decide +kernel
  intro hempty
  rw [hempty] at h
  cases h

/-- The list is fetched before any refresh. -/
def fetchedList : List Event := [.serve firstUrl listBody, .fetch epoch firstUrl]

/-- A refresh is told that the list has not changed. -/
theorem refresh_fetchedList : ∃ w₀ w', sample.open unused = .ok () w₀ ∧
    (sample.withManifest firstUrl).refresh (Origin.transport Blake3.hex) epoch.seconds
      (run sample w₀ fetchedList) = .ok false w' ∧
    Serves (run sample w₀ fetchedList).origin firstUrl listBody ∧
    w'.database.index.catalog = .empty := by
  have hd : IsHexDigest sample.digest := Blake3.isHexDigest_hex
  have hp := pathFor_firstUrl
  obtain ⟨w₀, ho, hfresh₀, horigin⟩ := open_sample
  set w₁ := step sample w₀ (.serve firstUrl listBody)
  have hfresh : Fresh sample sample.root w₁ := hfresh₀.withOrigin _
  have hs : Serves w₁.origin firstUrl listBody := Table.get?_set_self ..
  have hpending : w₁.origin.pending firstUrl = 0 := by
    change (w₀.origin.serve firstUrl listBody).pending firstUrl = 0
    rw [horigin]
    rfl
  obtain ⟨w₂, h₂, hw₂⟩ := fetch_sample hfresh hp epoch.seconds hpending hs
  have hrun : run sample w₀ fetchedList = w₂ := by
    change worldOf (sample.fetch (Origin.transport Blake3.hex) _ _ w₁) = w₂
    rw [h₂]
    rfl
  have hrefresh := refresh_of_current (c := sample.withManifest firstUrl) epoch.seconds hp
    hw₂.isOpen (hw₂.record?_eq epoch.valid) (by rw [hw₂.origin]; exact hpending)
    ((serves_congr hw₂.resources).2 hs) hw₂.tagOf_eq ((isFile_iff _ _).2 ⟨_, hw₂.read_eq hd hp⟩)
  rw [← hrun] at hrefresh
  refine ⟨w₀, _, ho, hrefresh, hrun ▸ (serves_congr hw₂.resources).2 hs, ?_⟩
  rw [hrun]
  change w₂.database.index.catalog = .empty
  rw [hw₂.catalog_eq, hfresh.index]
  rfl

/-- A refresh succeeds and the catalog is not that of the served list. -/
theorem refresh_stale : ∃ w₀ w', sample.open unused = .ok () w₀ ∧
    (sample.withManifest firstUrl).refresh (Origin.transport Blake3.hex) epoch.seconds
      (run sample w₀ fetchedList) = .ok false w' ∧
    Serves (run sample w₀ fetchedList).origin firstUrl listBody ∧
    catalogOf? listBody ≠ some w'.database.index.catalog := by
  obtain ⟨w₀, w', ho, hok, hs, hempty⟩ := refresh_fetchedList
  exact ⟨w₀, w', ho, hok, hs, hempty ▸ catalogOf?_listBody⟩

theorem refresh_current_iff_fetchedList : ∃ w₀ w' b, sample.open unused = .ok () w₀ ∧
    (sample.withManifest firstUrl).refresh (Origin.transport Blake3.hex) epoch.seconds
      (run sample w₀ fetchedList) = .ok false w' ∧
    Serves (run sample w₀ fetchedList).origin firstUrl b ∧
    (catalogOf? b = some w'.database.index.catalog ↔
      false = true ∨ tables? (lastTaken sample w₀ none fetchedList) = catalogOf? b) := by
  have hd : IsHexDigest sample.digest := Blake3.isHexDigest_hex
  obtain ⟨w₀, w', ho, hok, -⟩ := refresh_fetchedList
  have hbodies : ∀ a, Offers unused.origin fetchedList a → a = listBody := by
    rintro a (⟨url, h⟩ | ⟨url, h⟩)
    · cases h
    · simp [fetchedList] at h
      exact h.2
  obtain ⟨p, b, -, hs, -, hiff, -⟩ := refresh_current_iff hd emptyDirectory_unused ho
    (fun a b ha hb _ => (hbodies a ha).trans (hbodies b hb).symm)
    (by simp [fetchedList, Apart, Event.url?]) epoch.seconds hok
  exact ⟨w₀, w', b, ho, hok, hs, hiff⟩

end Sample

end Depot.Cache
