import Depot.Proofs.Cache.Room

/-!
# Runs of a cache

A run is a list of events on one world: what its origin serves or fails to serve, calls with any
URL, and closing and opening. `change_step` is all that an event can do, and with it goes that the
cache stays `Sound` (`sound_run`).
-/

namespace Depot.Cache

open FileTree

variable {σ α : Type} {c : Cache} {r : Location} {w w' : World Origin} {e : Event}

/-- A time that dates can be made of. -/
structure Date where
  seconds : Int
  valid : isDate seconds

def epoch : Date := ⟨0, by decide⟩

inductive Event where
  /-- The origin serves `body` at `url` from now on. -/
  | serve (url : String) (body : ByteArray)
  /-- The origin fails to answer the next requests for `url`. -/
  | failNext (url : String) (times : Nat)
  | fetch (now : Date) (url : String)
  /-- A refresh by a cache with this manifest. -/
  | refresh (now : Date) (manifestUrl : String)
  | close
  | reopen

/-- The URL that the origin is asked for. -/
def Event.url? : Event → Option String
  | .fetch _ url | .refresh _ url => some url
  | _ => none

/-- The world that a call leaves. -/
def worldOf : EStateM.Result Error (World σ) α → World σ
  | .ok _ w | .error _ w => w

/-- The same cache with another manifest. -/
def withManifest (c : Cache) (url : String) : Cache := { c with manifestUrl := url }

def step (c : Cache) (w : World Origin) : Event → World Origin
  | .serve url body => { w with origin := w.origin.serve url body }
  | .failNext url times => { w with origin := w.origin.failNext url times }
  | .fetch now url => worldOf (c.fetch (Origin.transport c.digest) now.seconds url w)
  | .refresh now url =>
    worldOf ((c.withManifest url).refresh (Origin.transport c.digest) now.seconds w)
  | .close => worldOf (close w)
  | .reopen => worldOf (c.open w)

def run (c : Cache) (w : World Origin) (es : List Event) : World Origin := es.foldl (step c) w

@[simp] theorem run_nil (c : Cache) (w : World Origin) : run c w [] = w := rfl

@[simp] theorem run_cons (c : Cache) (w : World Origin) (e : Event) (es : List Event) :
    run c w (e :: es) = run c (step c w e) es := rfl

/-- What a refresh with this result has taken in, where `served` is served. -/
def takenFrom (served : Option ByteArray) :
    EStateM.Result Error (World σ) Bool → Option ByteArray
  | .ok true _ => served
  | _ => none

/-- The list of downloads that an event has brought in. -/
def takes (c : Cache) (w : World Origin) : Event → Option ByteArray
  | .refresh now url =>
    takenFrom (w.origin.resources.get? url)
      ((c.withManifest url).refresh (Origin.transport c.digest) now.seconds w)
  | _ => none

/-- From `w` to `w'` no file, no record and nothing in the catalog has changed, and the origin
serves the same. -/
structure Idle (root r : Location) (w w' : World Origin) : Prop where
  base : Base w'.tree root r
  file : ∀ l b mode, w'.tree.find? l = some (.file b mode) ↔ w.tree.find? l = some (.file b mode)
  database : w'.database = w.database
  resources : w'.origin.resources = w.origin.resources

theorem Quiet.idle {url : String} (h : Quiet c r url w w')
    (ho : w'.origin.resources = w.origin.resources) : Idle c.root r w w' :=
  ⟨h.base, fun l _ _ => h.tree.file_iff l, h.database, ho⟩

theorem Confirmed.idle {url : String} {dest : Location} {data : ByteArray}
    (h : Confirmed c url dest data w w') (hb : Base w.tree c.root r) : Idle c.root r w w' :=
  ⟨h.tree ▸ hb, fun _ _ _ => by rw [h.tree], h.database, h.resources⟩

/-- Which manifest the cache has makes no difference to the places of files. -/
theorem Brought.of_withManifest {url v : String} {now : Int} {data : ByteArray}
    {catalog : Catalog} (h : Brought (c.withManifest v) r url now data catalog w w') :
    Brought c r url now data catalog w w' :=
  ⟨h.serves, h.tag, h.tree, h.database, h.wasOpen, h.isOpen, h.origin⟩

/-- What an event can do; the last argument is the list of downloads that it has brought in. -/
inductive Change (c : Cache) (r : Location) (w : World Origin) :
    Event → World Origin → Option ByteArray → Prop
  | idle {e : Event} {w' : World Origin} (h : Idle c.root r w w') : Change c r w e w' none
  | serve (url : String) (body : ByteArray) :
      Change c r w (.serve url body) { w with origin := w.origin.serve url body } none
  | fetch {now : Date} {url : String} {data : ByteArray} {w' : World Origin}
      (h : Brought c r url now.seconds data w.database.index.catalog w w') :
      Change c r w (.fetch now url) w' none
  | refresh {now : Date} {url : String} {data : ByteArray} {m : Manifest} {i : Index}
      {w' : World Origin} (hm : Manifest.parse data = .ok m)
      (hi : w.database.index.rebuild m = .ok i)
      (h : Brought c r url now.seconds data i.catalog w w') :
      Change c r w (.refresh now url) w' (some data)

theorem change_step (hd : IsHexDigest c.digest) (hs : Sound c r w) (e : Event) :
    Change c r w e (step c w e) (takes c w e) := by
  have hsame : ∀ {w' : World Origin}, w'.tree = w.tree → w'.database = w.database →
      w'.origin.resources = w.origin.resources → Idle c.root r w w' := fun ht hdb ho =>
    ⟨ht ▸ hs.base, fun _ _ _ => by rw [ht], hdb, ho⟩
  cases e with
  | serve url body => exact .serve url body
  | failNext url times => exact .idle (hsame rfl rfl rfl)
  | close => exact .idle (hsame rfl rfl rfl)
  | reopen =>
    rw [step, open_of_sound hs]
    exact .idle (hsame rfl rfl rfl)
  | fetch now url =>
    rw [step]
    rcases fetch_cases hd hs.base now.seconds url with
      ⟨e, w', he, hq, hf⟩ | ⟨dest, data, w', hok, h⟩ |
      ⟨dest, data, w', hok, hp, h⟩
    · rw [he]
      exact .idle (hq.idle hf.left.resources)
    · rw [hok]
      exact .idle (h.idle hs.base)
    · rw [hok]
      exact .fetch h
  | refresh now url =>
    have hcases := refresh_cases (c := c.withManifest url) hd hs.base now.seconds
    change Change c r w _ (worldOf ((c.withManifest url).refresh
      (Origin.transport (c.withManifest url).digest) now.seconds w)) (takenFrom _
      ((c.withManifest url).refresh (Origin.transport (c.withManifest url).digest) now.seconds w))
    rcases hcases with ⟨e, w', he, hq, ho⟩ | ⟨dest, data, w', hok, h⟩ |
      ⟨data, m, i, w', hok, hm, hi, h⟩
    · rw [he]
      exact .idle (hq.idle ho)
    · rw [hok]
      exact .idle (h.idle hs.base)
    · have hserves : w.origin.resources.get? url = some data := h.serves
      rw [hok, hserves]
      exact .refresh hm hi h.of_withManifest

theorem Idle.sound (h : Idle c.root r w w') (hs : Sound c r w) : Sound c r w' where
  base := h.base
  file := by
    obtain ⟨mode, hf⟩ := hs.file
    exact ⟨mode, (h.file _ _ _).2 hf⟩
  fits := hs.fits
  migrated := h.database ▸ hs.migrated

theorem Brought.sound {url : String} {now : Int} {data : ByteArray} {catalog : Catalog}
    (h : Brought c r url now data catalog w w') (hs : Sound c r w) : Sound c r w' where
  base := by
    obtain ⟨n, -, hst⟩ := h.tree
    exact hst.base
  file := by
    obtain ⟨n, -, hst⟩ := h.tree
    obtain ⟨mode, hf⟩ := hs.file
    refine ⟨mode, (hst.file_iff fun heq => ?_).2 hf⟩
    have hlen := congrArg List.length heq
    simp [length_directoryOf] at hlen
  fits := hs.fits
  migrated := by
    rw [h.database]
    exact hs.migrated

theorem Change.sound {b : Option ByteArray} (h : Change c r w e w' b) (hs : Sound c r w) :
    Sound c r w' := by
  cases h with
  | idle h => exact h.sound hs
  | serve url body => exact hs.withOrigin _
  | fetch h => exact h.sound hs
  | refresh _ _ h => exact h.sound hs

theorem sound_step (hd : IsHexDigest c.digest) (hs : Sound c r w) (e : Event) :
    Sound c r (step c w e) :=
  (change_step hd hs e).sound hs

theorem sound_run (hd : IsHexDigest c.digest) (hs : Sound c r w) (es : List Event) :
    Sound c r (run c w es) := by
  induction es generalizing w with
  | nil => exact hs
  | cons e es ih => exact ih (sound_step hd hs e)

/-- An event that does not ask for `v` leaves the record of `v` alone. -/
theorem Change.get?_records {b : Option ByteArray} {v : String} (h : Change c r w e w' b)
    (hv : e.url? ≠ some v) :
    w'.database.index.records.get? v = w.database.index.records.get? v := by
  cases h with
  | idle h => rw [h.database]
  | serve url body => rfl
  | fetch h =>
    rw [h.records, Table.get?_set_of_ne]
    rintro rfl
    exact hv rfl
  | refresh _ _ h =>
    rw [h.records, Table.get?_set_of_ne]
    rintro rfl
    exact hv rfl

theorem Change.resources {b : Option ByteArray} (h : Change c r w e w' b)
    (he : ∀ url body, e ≠ .serve url body) : w'.origin.resources = w.origin.resources := by
  cases h with
  | idle h => exact h.resources
  | serve url body => exact absurd rfl (he url body)
  | fetch h => exact h.resources
  | refresh _ _ h => exact h.resources

theorem get?_records_run {v : String} {es : List Event} (hd : IsHexDigest c.digest)
    (hs : Sound c r w) (hv : ∀ e ∈ es, e.url? ≠ some v) :
    (run c w es).database.index.records.get? v = w.database.index.records.get? v := by
  induction es generalizing w with
  | nil => rfl
  | cons e es ih =>
    have hstep := (change_step hd hs e).get?_records (hv e List.mem_cons_self)
    rw [run_cons, ih (sound_step hd hs e) fun e' he' => hv e' (List.mem_cons_of_mem e he'), hstep]

end Depot.Cache
