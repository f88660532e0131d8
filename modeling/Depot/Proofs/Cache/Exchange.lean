import Depot.Proofs.Cache.Origin
import Depot.Proofs.Cache.Reads

/-!
# Calls to an origin

With an `Origin` as transport, the copy at hand counts as current if the tag on record is that of
the served body. `fetch_cases` and `refresh_cases` tell what a call comes to in terms of that body.
-/

namespace Depot.Cache

open FileTree

variable {σ : Type} {c : Cache} {now : Int} {url : String} {r : Location} {w w' : World Origin}
  {known : Option Record} {e : Error} {o : Origin} {data : ByteArray}

/-- The tag on record for `url`. -/
def tagOf (w : World σ) (url : String) : Option String :=
  (w.database.index.records.get? url).bind (·.validators.etag)

/-- The origin serves `data` at `url`. -/
def Serves (o : Origin) (url : String) (data : ByteArray) : Prop :=
  o.resources.get? url = some data

theorem serves_congr {o' : Origin} (h : o'.resources = o.resources) :
    Serves o' url data ↔ Serves o url data := by
  rw [Serves, Serves, h]

theorem etag_conditionsOf {w : World σ} (h : w.database.index.record? url = .ok known) :
    (conditionsOf known).etag = tagOf w url := by
  rw [tagOf, get?_of_record? h, conditionsOf]
  rcases known with _ | rec <;> rfl

section Asked

/-- An origin that answers has counted the request. -/
theorem Asked.of_ok {answer : Response}
    (h : Asked (Origin.transport c.digest) url w (.ok answer o)) :
    o = w.origin.count url ∧ ∃ data known, Serves w.origin url data ∧
      (conditionsOf known).etag = tagOf w url ∧
      answer = Origin.answer c.digest data (conditionsOf known) := by
  obtain ⟨-, known, hk, ht⟩ := h
  rcases Origin.transport_cases c.digest url (conditionsOf known) w.origin with
    ⟨e, o', he, -⟩ | ⟨data, hs, hok⟩
  · rw [he] at ht
    cases ht
  · rw [hok] at ht
    cases ht
    exact ⟨rfl, data, known, hs, etag_conditionsOf hk, rfl⟩

theorem Asked.of_error (h : Asked (Origin.transport c.digest) url w (.error e o)) :
    o.resources = w.origin.resources ∧ ∀ path, e ≠ .inconsistent path := by
  obtain ⟨-, known, hk, ht⟩ := h
  rcases Origin.transport_cases c.digest url (conditionsOf known) w.origin with
    ⟨e', o', he, ho', hne⟩ | ⟨data, hs, hok⟩
  · rw [he] at ht
    cases ht
    exact ⟨ho', hne⟩
  · rw [hok] at ht
    cases ht

theorem Asked.of_notModified
    (h : Asked (Origin.transport c.digest) url w (.ok .notModified o)) :
    o = w.origin.count url ∧ ∃ data, Serves w.origin url data ∧
      tagOf w url = some (Origin.etag c.digest data) := by
  obtain ⟨ho, data, known, hs, hk, ha⟩ := h.of_ok
  refine ⟨ho, data, hs, ?_⟩
  rw [Origin.answer] at ha
  split_ifs at ha with htag
  rw [← hk, htag]

theorem Asked.of_body {v : Validators} {body : Body}
    (h : Asked (Origin.transport c.digest) url w (.ok (.body v body) o)) :
    o = w.origin.count url ∧ ∃ data, Serves w.origin url data ∧
      tagOf w url ≠ some (Origin.etag c.digest data) ∧
      v = ⟨some (Origin.etag c.digest data), none⟩ ∧ body.data = data := by
  obtain ⟨ho, data, known, hs, hk, ha⟩ := h.of_ok
  refine ⟨ho, data, hs, ?_⟩
  rw [Origin.answer] at ha
  split_ifs at ha with htag
  cases ha
  exact ⟨hk ▸ htag, rfl, Origin.data_chunksFrom data⟩

theorem Left.resources (h : Left (Origin.transport c.digest) url w o) :
    o.resources = w.origin.resources := by
  rcases h with rfl | ⟨e, h⟩ | ⟨answer, h⟩
  · rfl
  · exact h.of_error.1
  · rw [h.of_ok.1]
    rfl

end Asked

/-- From `w` to `w'` the body `data` that is served at `url` has come into its place, with a record
of the time `now`, and `catalog` into the index. -/
structure Brought (c : Cache) (r : Location) (url : String) (now : Int) (data : ByteArray)
    (catalog : Catalog) (w w' : World Origin) : Prop where
  serves : Serves w.origin url data
  tag : tagOf w url ≠ some (Origin.etag c.digest data)
  tree : ∃ n, c.nameOf? url = some n ∧
    Stored w.tree w'.tree c.root r (c.directoryOf url) n data
  database : w'.database = { w.database with index :=
    ⟨w.database.index.records.set url ⟨url, ⟨some (Origin.etag c.digest data), none⟩, now⟩,
      catalog⟩ }
  wasOpen : w.isOpen
  isOpen : w'.isOpen
  origin : w'.origin = w.origin.count url

theorem Brought.resources {catalog : Catalog}
    (h : Brought c r url now data catalog w w') : w'.origin.resources = w.origin.resources := by
  rw [h.origin]
  rfl

theorem Brought.records {catalog : Catalog}
    (h : Brought c r url now data catalog w w') :
    w'.database.index.records = w.database.index.records.set url
      ⟨url, ⟨some (Origin.etag c.digest data), none⟩, now⟩ := by
  rw [h.database]

theorem Brought.get?_records {catalog : Catalog} (h : Brought c r url now data catalog w w') :
    w'.database.index.records.get? url =
      some ⟨url, ⟨some (Origin.etag c.digest data), none⟩, now⟩ := by
  rw [h.records, Table.get?_set_self]

theorem Brought.record?_eq {catalog : Catalog} (h : Brought c r url now data catalog w w')
    (hnow : isDate now) :
    w'.database.index.record? url =
      .ok (some ⟨url, ⟨some (Origin.etag c.digest data), none⟩, now⟩) := by
  rw [Index.record?, h.get?_records]
  exact if_pos hnow

theorem Brought.tagOf_eq {catalog : Catalog} (h : Brought c r url now data catalog w w') :
    tagOf w' url = some (Origin.etag c.digest data) := by
  rw [tagOf, h.get?_records]
  rfl

theorem Brought.catalog_eq {catalog : Catalog} (h : Brought c r url now data catalog w w') :
    w'.database.index.catalog = catalog := by
  rw [h.database]

theorem Brought.of_asked {n : String} {v : Validators} {body : Body} {t' : FileTree} {i : Index}
    (ha : Asked (Origin.transport c.digest) url w (.ok (.body v body) o))
    (hn : c.nameOf? url = some n)
    (hst : Stored w.tree t' c.root r (c.directoryOf url) n body.data)
    (hi : i.records = w.database.index.records) :
    Brought c r url now body.data i.catalog w
      { w with tree := t', origin := o,
               database := { w.database with index := i.upsert ⟨url, v, now⟩ } } := by
  obtain ⟨ho, data, hs, htag, rfl, rfl⟩ := ha.of_body
  refine ⟨hs, htag, ⟨n, hn, hst⟩, ?_, ha.1, ha.1, ho⟩
  rw [← hi]
  rfl

theorem Index.records_of_rebuild {i i' : Index} {m : Manifest} (h : i.rebuild m = .ok i') :
    i'.records = i.records := by
  rw [Index.rebuild] at h
  split at h <;> cases h
  rfl

/-- From `w` to `w'` the origin has been asked for `url`, and the copy at `dest` is current. -/
structure Confirmed (c : Cache) (url : String) (dest : Location) (data : ByteArray)
    (w w' : World Origin) : Prop where
  serves : Serves w.origin url data
  tag : tagOf w url = some (Origin.etag c.digest data)
  place : c.pathFor url = .ok dest
  isFile : w.tree.isFile dest
  tree : w'.tree = w.tree
  database : w'.database = w.database
  wasOpen : w.isOpen
  isOpen : w'.isOpen
  origin : w'.origin = w.origin.count url

theorem Confirmed.resources {dest : Location} (h : Confirmed c url dest data w w') :
    w'.origin.resources = w.origin.resources := by
  rw [h.origin]
  rfl

theorem Confirmed.of_asked {dest : Location} (hp : c.pathFor url = .ok dest)
    (ha : Asked (Origin.transport c.digest) url w (.ok .notModified o))
    (hf : w.tree.isFile dest) : ∃ data, Confirmed c url dest data w { w with origin := o } := by
  obtain ⟨ho, data, hs, ht⟩ := ha.of_notModified
  exact ⟨data, hs, ht, hp, hf, rfl, rfl, ha.1, ha.1, ho⟩

/-- A call that is not broken off ends with its result. -/
theorem Settled.eq_ok {α : Type} {w : World Origin} {t' : FileTree} {draft : Index} {a : α}
    {x : EStateM.Result Error (World Origin) α} (h : Settled (fun _ => false) w t' draft a x) :
    x = .ok a { w with tree := t', database := { w.database with index := draft } } := by
  cases h with
  | done => rfl
  | afterCommit _ hc => cases hc
  | afterRename hr => cases hr

theorem fetch_cases (hd : IsHexDigest c.digest) (hb : Base w.tree c.root r) (now : Int)
    (url : String) :
    (∃ e w', c.fetch (Origin.transport c.digest) now url w = .error e w' ∧ Quiet c r url w w' ∧
        Fails (fun _ => false) c r (Origin.transport c.digest) url w e w'.origin) ∨
      (∃ dest data w', c.fetch (Origin.transport c.digest) now url w = .ok ⟨false, dest⟩ w' ∧
        Confirmed c url dest data w w') ∨
      ∃ dest data w', c.fetch (Origin.transport c.digest) now url w = .ok ⟨true, dest⟩ w' ∧
        c.pathFor url = .ok dest ∧
        Brought c r url now data w.database.index.catalog w w' := by
  rcases fetchUntil_cases (fun _ => false) hd hb (Origin.transport c.digest) now url with
    ⟨e, w', he, hq, hf⟩ | ⟨dest, o, hp, ha, hfile, hok⟩ |
    ⟨n, v, body, o, t', hn, ha, -, hst, hset⟩
  · exact .inl ⟨e, w', he, hq, hf⟩
  · obtain ⟨data, h⟩ := Confirmed.of_asked hp ha hfile
    exact .inr (.inl ⟨dest, data, _, hok, h⟩)
  · exact .inr (.inr ⟨_, _, _, hset.eq_ok, pathFor_eq_ok_iff.2 ⟨n, hn, rfl⟩,
      .of_asked ha hn hst rfl⟩)

/-- A body from an origin does not break off. -/
theorem Asked.failure_eq_none {v : Validators} {body : Body}
    (h : Asked (Origin.transport c.digest) url w (.ok (.body v body) o)) :
    body.failure = none := by
  obtain ⟨-, data, known, -, -, ha⟩ := h.of_ok
  rw [Origin.answer] at ha
  split_ifs at ha
  cases ha
  rfl

/-- A fetch misses a file only if the tag on record is that of the served body. -/
theorem Fails.of_inconsistent {path : String}
    (h : Fails (fun _ => false) c r (Origin.transport c.digest) url w (.inconsistent path) o) :
    ∃ dest data, c.pathFor url = .ok dest ∧ Serves w.origin url data ∧
      tagOf w url = some (Origin.etag c.digest data) ∧ ¬ w.tree.isFile dest := by
  cases h with
  | refused h => exact absurd rfl (h.of_error.2 path)
  | @missing dest _ hp h hf =>
    obtain ⟨-, data, hs, ht⟩ := h.of_notModified
    exact ⟨dest, data, hp, hs, ht, hf⟩
  | brokenOff h hb =>
    rw [h.failure_eq_none] at hb
    cases hb

/-- Nothing else makes a fetch fail: it succeeds if the cache is open, the URL names a file, the
time on record is one, the origin answers, and either the copy at hand is current and there or
there is room for the body. -/
theorem fetch_eq_ok {n : String} (hd : IsHexDigest c.digest) (hb : Base w.tree c.root r) (now : Int)
    (ho : w.isOpen) (hn : c.nameOf? url = some n) (hk : w.database.index.record? url = .ok known)
    (hpending : w.origin.pending url = 0) (hs : Serves w.origin url data)
    (hfile : tagOf w url = some (Origin.etag c.digest data) →
      w.tree.isFile (c.root ++ (c.directoryOf url ++ [n])))
    (hroom : tagOf w url ≠ some (Origin.etag c.digest data) →
      Room w.tree c.root r (c.directoryOf url) n) :
    (∃ w', c.fetch (Origin.transport c.digest) now url w =
        .ok ⟨false, c.root ++ (c.directoryOf url ++ [n])⟩ w' ∧
        Confirmed c url (c.root ++ (c.directoryOf url ++ [n])) data w w') ∨
      ∃ w', c.fetch (Origin.transport c.digest) now url w =
          .ok ⟨true, c.root ++ (c.directoryOf url ++ [n])⟩ w' ∧
        Brought c r url now data w.database.index.catalog w w' := by
  have hplace : c.pathFor url = .ok (c.root ++ (c.directoryOf url ++ [n])) :=
    pathFor_eq_ok_iff.2 ⟨n, hn, rfl⟩
  have hdata : ∀ {b}, Serves w.origin url b → b = data := fun h =>
    Option.some.inj (Eq.trans (Eq.symm h) hs)
  rcases fetch_cases hd hb now url with ⟨e, w', he, -, hf⟩ | ⟨dest, b, w', hok, h⟩ |
    ⟨dest, b, w', hok, hdest, h⟩
  · exfalso
    generalize w'.origin = o at hf
    cases hf with
    | badUrl h =>
      rw [hn] at h
      cases h
    | closed h => exact h ho
    | badDate h =>
      rw [hk] at h
      cases h
    | refused h =>
      obtain ⟨-, known, -, ht⟩ := h
      rw [Origin.transport_of_served hpending hs] at ht
      cases ht
    | missing hp h hf =>
      obtain ⟨-, b, hsb, ht⟩ := h.of_notModified
      rw [hplace] at hp
      cases hp
      exact hf (hfile (hdata hsb ▸ ht))
    | noRoom hm h hr =>
      obtain ⟨-, b, hsb, ht, -⟩ := h.of_body
      obtain rfl := Option.some.inj (hn.symm.trans hm)
      exact hr (hroom (hdata hsb ▸ ht))
    | brokenOff h hb =>
      rw [h.failure_eq_none] at hb
      cases hb
    | halted s hs => cases hs
  · obtain rfl := Except.ok.inj (h.place.symm.trans hplace)
    exact .inl ⟨w', hok, hdata h.serves ▸ h⟩
  · obtain rfl := Except.ok.inj (hdest.symm.trans hplace)
    exact .inr ⟨w', hok, hdata h.serves ▸ h⟩

theorem refresh_cases (hd : IsHexDigest c.digest) (hb : Base w.tree c.root r) (now : Int) :
    (∃ e w', c.refresh (Origin.transport c.digest) now w = .error e w' ∧
        Quiet c r c.manifestUrl w w' ∧ w'.origin.resources = w.origin.resources) ∨
      (∃ dest data w', c.refresh (Origin.transport c.digest) now w = .ok false w' ∧
        Confirmed c c.manifestUrl dest data w w') ∨
      ∃ data m i w', c.refresh (Origin.transport c.digest) now w = .ok true w' ∧
        Manifest.parse data = .ok m ∧ w.database.index.rebuild m = .ok i ∧
        Brought c r c.manifestUrl now data i.catalog w w' := by
  rcases refreshUntil_cases (fun _ => false) hd hb (Origin.transport c.digest) now with
    ⟨e, w', he, hq, hl⟩ | ⟨dest, o, hp, ha, hfile, hok⟩ |
    ⟨n, v, body, o, t', m, i, hn, ha, -, hm, hi, hst, hset⟩
  · exact .inl ⟨e, w', he, hq, hl.resources⟩
  · obtain ⟨data, h⟩ := Confirmed.of_asked hp ha hfile
    exact .inr (.inl ⟨dest, data, _, hok, h⟩)
  · exact .inr (.inr ⟨_, m, i, _, hset.eq_ok, hm, hi,
      .of_asked ha hn hst (Index.records_of_rebuild hi)⟩)

/-- If the origin knows the tag on record and the file is there, a call only asks. -/
theorem download_of_current {dest : Location} (now : Int) (hp : c.pathFor url = .ok dest)
    (ho : w.isOpen) (hk : w.database.index.record? url = .ok known)
    (hpending : w.origin.pending url = 0) (hs : Serves w.origin url data)
    (ht : tagOf w url = some (Origin.etag c.digest data)) (hf : w.tree.isFile dest) :
    c.download (Origin.transport c.digest) now url w =
      .ok (.unchanged dest) { w with origin := w.origin.count url } := by
  rw [download_eq _ now hp ho hk, Origin.transport_of_served hpending hs, Origin.answer,
    if_pos (by rw [etag_conditionsOf hk, ht])]
  exact if_pos hf

theorem fetch_of_current {dest : Location} (now : Int) (hp : c.pathFor url = .ok dest)
    (ho : w.isOpen) (hk : w.database.index.record? url = .ok known)
    (hpending : w.origin.pending url = 0) (hs : Serves w.origin url data)
    (ht : tagOf w url = some (Origin.etag c.digest data)) (hf : w.tree.isFile dest) :
    c.fetch (Origin.transport c.digest) now url w =
      .ok ⟨false, dest⟩ { w with origin := w.origin.count url } := by
  rw [fetch, fetchUntil, bind_apply, download_of_current now hp ho hk hpending hs ht hf]
  rfl

theorem refresh_of_current {dest : Location} (now : Int) (hp : c.pathFor c.manifestUrl = .ok dest)
    (ho : w.isOpen) (hk : w.database.index.record? c.manifestUrl = .ok known)
    (hpending : w.origin.pending c.manifestUrl = 0) (hs : Serves w.origin c.manifestUrl data)
    (ht : tagOf w c.manifestUrl = some (Origin.etag c.digest data)) (hf : w.tree.isFile dest) :
    c.refresh (Origin.transport c.digest) now w =
      .ok false { w with origin := w.origin.count c.manifestUrl } := by
  rw [refresh, refreshUntil, bind_apply, download_of_current now hp ho hk hpending hs ht hf]
  rfl

end Depot.Cache
