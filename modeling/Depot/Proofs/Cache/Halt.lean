import Depot.Proofs.Cache.Coherence

/-!
# Calls that are broken off

A call may be broken off after any of its steps. Between the moving of its staging file and the
commit of its draft this parts the file from its record, and they stay apart until another call for
the URL comes through. In a run from an empty directory, records and files agree in all other
states, and only in those (`agree_iff`).
-/

namespace Depot.Cache

open FileTree

variable {c : Cache} {r p : Location} {S : ByteArray → Prop} {w w₀ w' : World Origin}
  {url u : String}

/-- An event, of which a call is broken off after the steps that `breaks` names. A call whose commit
fails is one that is broken off after the rename. -/
structure Attempt where
  event : Event
  breaks : Step → Bool

/-- Whether a call with this result has brought in a body, which `changed` tells from its value. -/
def brings {σ α : Type} (changed : α → Bool) : EStateM.Result Error (World σ) α → Bool
  | .ok a _ => changed a
  | .error _ _ => false

/-- Whether an event is a call that brings in a body if it is not broken off. -/
def renews (c : Cache) (w : World Origin) : Event → Bool
  | .fetch now url =>
    brings Fetched.changed (c.fetch (Origin.transport c.digest) now.seconds url w)
  | .refresh now url =>
    brings id ((c.withManifest url).refresh (Origin.transport c.digest) now.seconds w)
  | _ => false

/-- The steps of a call before its staging file is moved. -/
def Event.early : Event → List Step
  | .fetch .. => [.stage, .upsert]
  | .refresh .. => [.stage, .rebuild, .upsert]
  | _ => []

/-- Whether the staging file of a new body takes its place. -/
def Attempt.moves (c : Cache) (w : World Origin) (a : Attempt) : Bool :=
  renews c w a.event && !a.event.early.any a.breaks

def attempt (c : Cache) (w : World Origin) (a : Attempt) : World Origin :=
  match a.event with
  | .fetch now url =>
    worldOf (c.fetchUntil a.breaks (Origin.transport c.digest) now.seconds url w)
  | .refresh now url =>
    worldOf ((c.withManifest url).refreshUntil a.breaks (Origin.transport c.digest) now.seconds w)
  | e => step c w e

def runAttempts (c : Cache) (w : World Origin) (as : List Attempt) : World Origin :=
  as.foldl (attempt c) w

/-- Whether the last call in a run that has moved a file for `u` was broken off right after that;
`torn` is what is so before the run. -/
def tornIn (c : Cache) (u : String) (w : World Origin) (torn : Bool) : List Attempt → Bool
  | [] => torn
  | a :: as =>
    tornIn c u (attempt c w a)
      (if a.event.url? = some u ∧ a.moves c w then a.breaks .rename else torn) as

/-- What an event can do whose call may be broken off. -/
inductive Course (c : Cache) (r : Location) (w : World Origin) : Attempt → World Origin → Prop
  | idle {a : Attempt} {w' : World Origin} (hm : a.moves c w = false) (h : Idle c.root r w w') :
      Course c r w a w'
  | serve (url : String) (body : ByteArray) (breaks : Step → Bool) :
      Course c r w ⟨.serve url body, breaks⟩ { w with origin := w.origin.serve url body }
  | brought {a : Attempt} {now : Date} {url : String} {data : ByteArray} {catalog : Catalog}
      {w' : World Origin} (hu : a.event.url? = some url) (hm : a.moves c w = true)
      (hb : a.breaks .rename = false) (h : Brought c r url now.seconds data catalog w w') :
      Course c r w a w'
  | torn {a : Attempt} {now : Date} {url : String} {data : ByteArray} {catalog : Catalog}
      {w' : World Origin} (hu : a.event.url? = some url) (hm : a.moves c w = true)
      (hb : a.breaks .rename = true) (h : Brought c r url now.seconds data catalog w w') :
      Course c r w a { w' with database := w.database }

theorem idle_step {e : Event} (hd : IsHexDigest c.digest) (hs : Sound c r w) (hu : e.url? = none)
    (he : ∀ url body, e ≠ .serve url body) : Idle c.root r w (step c w e) := by
  have hchange := change_step hd hs e
  generalize step c w e = w' at hchange
  generalize takes c w e = taken at hchange
  cases hchange with
  | idle h => exact h
  | serve url body => exact absurd rfl (he url body)
  | fetch => cases hu
  | refresh => cases hu

section Call

variable {α : Type} {changed : α → Bool} {early : List Step} {now : Date}
  {call : (Step → Bool) → EStateM.Result Error (World Origin) α}

/-- What `call` comes to with any breaks: whether it moves a file does not depend on those after its
`early` steps, and `changed` tells it from the value. -/
inductive Outcome (c : Cache) (r : Location) (w : World Origin) (url : String) (now : Date)
    (early : List Step) (changed : α → Bool)
    (call : (Step → Bool) → EStateM.Result Error (World Origin) α) : Prop
  | fails (h : ∀ breaks, ∃ e w', call breaks = .error e w' ∧ Idle c.root r w w')
  | keeps {a : α} {w' : World Origin} (ha : changed a = false) (hi : Idle c.root r w w')
      (h : ∀ breaks, call breaks = .ok a w')
  | moves {a : α} {data : ByteArray} {catalog : Catalog} {o : Origin} {t' : FileTree}
      {draft : Index} (ha : changed a = true)
      (hb : Brought c r url now.seconds data catalog w
        { w with tree := t', origin := o, database := { w.database with index := draft } })
      (h : ∀ breaks, if early.any breaks then
          ∃ e w', call breaks = .error e w' ∧ Idle c.root r w w'
        else Settled breaks { w with origin := o } t' draft a (call breaks))

theorem outcome_fetch (hd : IsHexDigest c.digest) (hs : Sound c r w) (now : Date) (url : String) :
    Outcome c r w url now [.stage, .upsert] Fetched.changed fun breaks =>
      c.fetchUntil breaks (Origin.transport c.digest) now.seconds url w := by
  rcases fetchUntil_split hd hs.base (Origin.transport c.digest) now.seconds url with
    h | ⟨dest, o, hp, ha, hfile, h⟩ | ⟨n, v, body, o, t', hn, ha, -, hst, h⟩
  · refine .fails fun breaks => ?_
    obtain ⟨e, w', he, hq, hf⟩ := h breaks
    exact ⟨e, w', he, hq.idle hf.left.resources⟩
  · obtain ⟨data, hc⟩ := Confirmed.of_asked hp ha hfile
    exact .keeps rfl (hc.idle hs.base) h
  · refine .moves (a := ⟨true, c.root ++ (c.directoryOf url ++ [n])⟩) rfl (.of_asked ha hn hst rfl)
      fun breaks => ?_
    specialize h breaks
    by_cases hearly : breaks .stage ∨ breaks .upsert
    · rw [if_pos hearly] at h
      obtain ⟨w', he, hq, hf⟩ := h
      rw [if_pos (by simpa using hearly)]
      exact ⟨_, w', he, hq.idle hf.left.resources⟩
    · rw [if_neg hearly] at h
      rw [if_neg (by simpa using hearly)]
      exact h

theorem outcome_refresh (hd : IsHexDigest c.digest) (hs : Sound c r w) (now : Date)
    (url : String) :
    Outcome c r w url now [.stage, .rebuild, .upsert] id fun breaks =>
      (c.withManifest url).refreshUntil breaks (Origin.transport c.digest) now.seconds w := by
  rcases refreshUntil_split (c := c.withManifest url) hd hs.base (Origin.transport c.digest)
      now.seconds with
    h | ⟨dest, o, hp, ha, hfile, h⟩ | ⟨n, v, body, o, t', m, i, hn, ha, -, -, hi, hst, h⟩
  · refine .fails fun breaks => ?_
    obtain ⟨e, w', he, hq, hl⟩ := h breaks
    exact ⟨e, w', he, hq.idle (Left.resources (c := c) hl)⟩
  · obtain ⟨data, hc⟩ := Confirmed.of_asked hp ha hfile
    exact .keeps rfl (hc.idle hs.base) h
  · have hb : Brought _ r url now.seconds body.data i.catalog w
        { w with tree := t', origin := o, database := { w.database with index := _ } } :=
      .of_asked ha hn hst (Index.records_of_rebuild hi)
    refine .moves rfl hb.of_withManifest fun breaks => ?_
    specialize h breaks
    by_cases hearly : breaks .stage ∨ breaks .rebuild ∨ breaks .upsert
    · rw [if_pos hearly] at h
      obtain ⟨w', he, hq, hl⟩ := h
      rw [if_pos (by simpa using hearly)]
      exact ⟨_, w', he, hq.idle (Left.resources (c := c) hl)⟩
    · rw [if_neg hearly] at h
      rw [if_neg (by simpa using hearly)]
      exact h

theorem Outcome.course {a : Attempt} (h : Outcome c r w url now a.event.early changed call)
    (hu : a.event.url? = some url)
    (hrenews : renews c w a.event = brings changed (call fun _ => false)) :
    Course c r w a (worldOf (call a.breaks)) := by
  -- The call without breaks tells whether this one, with its own, gets to move a file.
  have hstays : renews c w a.event = false → a.moves c w = false := fun h => by
    rw [Attempt.moves, h, Bool.false_and]
  cases h with
  | fails h =>
    obtain ⟨e, w', he, hi⟩ := h a.breaks
    obtain ⟨e', w'', he', -⟩ := h fun _ => false
    rw [he'] at hrenews
    rw [he]
    exact .idle (hstays hrenews) hi
  | keeps ha hi h =>
    rw [h] at hrenews
    rw [h]
    exact .idle (hstays (hrenews.trans ha)) hi
  | moves ha hb h =>
    have hall := h fun _ => false
    rw [if_neg (by simp)] at hall
    rw [hall.eq_ok] at hrenews
    specialize h a.breaks
    have hmoves : a.moves c w = !a.event.early.any a.breaks := by
      rw [Attempt.moves, hrenews.trans ha, Bool.true_and]
    by_cases hearly : a.event.early.any a.breaks = true
    · rw [if_pos hearly] at h
      obtain ⟨e, w', he, hi⟩ := h
      rw [he]
      exact .idle (by rw [hmoves, hearly]; rfl) hi
    · rw [if_neg hearly] at h
      have hm : a.moves c w = true := by simpa [hmoves] using hearly
      generalize call a.breaks = result at h
      cases h with
      | done hr => exact .brought hu hm (by simpa using hr) hb
      | afterCommit hr => exact .brought hu hm (by simpa using hr) hb
      | afterRename hr => exact .torn hu hm hr hb

end Call

theorem course_attempt (hd : IsHexDigest c.digest) (hs : Sound c r w) (a : Attempt) :
    Course c r w a (attempt c w a) := by
  obtain ⟨e, breaks⟩ := a
  cases e with
  | serve url body => exact .serve url body breaks
  | failNext url times => exact .idle rfl (idle_step (e := .failNext url times) hd hs rfl (by simp))
  | close => exact .idle rfl (idle_step (e := .close) hd hs rfl (by simp))
  | reopen => exact .idle rfl (idle_step (e := .reopen) hd hs rfl (by simp))
  | fetch now url =>
    exact (outcome_fetch hd hs now url).course (a := ⟨.fetch now url, breaks⟩) rfl rfl
  | refresh now url =>
    exact (outcome_refresh hd hs now url).course (a := ⟨.refresh now url, breaks⟩) rfl rfl

/-- A fetch that would bring in a body, broken off when it has moved the file, leaves it torn. -/
theorem torn_of_fetch {now : Date} {f : Fetched} (hd : IsHexDigest c.digest) (hs : Sound c r w)
    (hok : c.fetch (Origin.transport c.digest) now.seconds url w = .ok f w') (hf : f.changed) :
    (⟨.fetch now url, (· == .rename)⟩ : Attempt).moves c w = true ∧
      ∃ now' data catalog w', Brought c r url now' data catalog w w' ∧
        attempt c w ⟨.fetch now url, (· == .rename)⟩ = { w' with database := w.database } := by
  have hrenews : renews c w (.fetch now url) = true :=
    (congrArg (brings Fetched.changed) hok).trans hf
  have hmoves : (⟨.fetch now url, (· == .rename)⟩ : Attempt).moves c w = true := by
    rw [Attempt.moves, hrenews]
    rfl
  have hcourse := course_attempt hd hs ⟨.fetch now url, (· == .rename)⟩
  generalize attempt c w ⟨.fetch now url, (· == .rename)⟩ = w₁ at hcourse
  cases hcourse with
  | idle hm => exact absurd hmoves (by rw [hm]; decide)
  | brought hu hm hb => exact Bool.noConfusion hb
  | torn hu hm hb h =>
    cases hu
    exact ⟨hmoves, _, _, _, _, h, rfl⟩

/-- The file at `p` is not the one that is on record for `u`, if there is any on record. -/
def Parted (c : Cache) (p : Location) (u : String) (w : World Origin) : Prop :=
  ∃ b, w.tree.read p = .ok b ∧ tagOf w u ≠ some (Origin.etag c.digest b)

/-- The file of `u` is parted from its record, or they agree. -/
structure Held (c : Cache) (r p : Location) (S : ByteArray → Prop) (u : String) (torn : Bool)
    (w : World Origin) : Prop where
  sound : Sound c r w
  offered : ∀ url b, Serves w.origin url b → S b
  kept : torn = false → Kept c r p S u w
  parted : torn = true → Parted c p u w

theorem Kept.held (h : Kept c r p S u w) : Held c r p S u false w :=
  ⟨h.sound, h.offered, fun _ => h, fun ht => absurd ht (by decide)⟩

namespace Held

variable {torn : Bool} {a : Attempt} {as : List Attempt}

theorem frame (h : Held c r p S u torn w) (hs : Sound c r w')
    (hoffered : ∀ url b, Serves w'.origin url b → S b)
    (hrec : w'.database.index.records.get? u = w.database.index.records.get? u)
    (hread : ∀ b, w'.tree.read p = .ok b ↔ w.tree.read p = .ok b) : Held c r p S u torn w' where
  sound := hs
  offered := hoffered
  kept ht := (h.kept ht).frame hs hoffered hrec hread
  parted ht := by
    obtain ⟨b, hb, htag⟩ := h.parted ht
    rw [tagOf, ← hrec] at htag
    exact ⟨b, (hread b).2 hb, htag⟩

theorem attempt (h : Held c r p S u torn w) (hd : IsHexDigest c.digest) (hp : c.pathFor u = .ok p)
    (hS : ∀ url b, a.event = .serve url b → S b)
    (hne : ∀ v, a.event.url? = some v → v ≠ u → c.pathFor v ≠ .ok p) :
    Held c r p S u (if a.event.url? = some u ∧ a.moves c w then a.breaks .rename else torn)
      (attempt c w a) := by
  have hcourse := course_attempt hd h.sound a
  generalize Cache.attempt c w a = w' at hcourse
  have hsame : ∀ {w' : World Origin}, w'.origin.resources = w.origin.resources →
      ∀ url b, Serves w'.origin url b → S b := fun hres url b hb =>
    h.offered url b ((serves_congr hres).1 hb)
  cases hcourse with
  | idle hm hi =>
    rw [hm, if_neg (by simp)]
    exact h.frame (hi.sound h.sound) (hsame hi.resources) (by rw [hi.database])
      fun _ => hi.read_iff hd h.sound.base hp
  | serve url body breaks =>
    rw [if_neg (by simp [Event.url?])]
    exact h.frame (h.sound.withOrigin _) (offered_serve h.offered (hS url body rfl) url) rfl
      fun _ => Iff.rfl
  | @brought _ now url data catalog _ hu hm hb hbrought =>
    rw [hu, hm, hb]
    rcases eq_or_ne url u with rfl | hne'
    · rw [if_pos ⟨rfl, rfl⟩]
      exact (hbrought.kept hd h.sound h.offered hp now.valid).held
    · rw [if_neg (by simp [hne'])]
      exact h.frame (hbrought.sound h.sound) (hsame hbrought.resources)
        (hbrought.get?_records_of_ne hne'.symm)
        fun _ => hbrought.read_iff hd h.sound.base hp (hne url hu hne')
  | @torn _ now url data catalog w' hu hm hb hbrought =>
    have hs : Sound c r { w' with database := w.database } := by
      have := hbrought.sound h.sound
      exact ⟨this.base, this.file, this.fits, h.sound.migrated⟩
    rw [hu, hm, hb]
    rcases eq_or_ne url u with rfl | hne'
    -- The draft is lost, so what is on record is still the tag that the new body does not have.
    · have hread : w'.tree.read p = .ok data := hbrought.read_eq hd hp
      rw [if_pos ⟨rfl, rfl⟩]
      exact ⟨hs, hsame hbrought.resources, fun ht => absurd ht (by decide),
        fun _ => ⟨data, hread, hbrought.tag⟩⟩
    · have hread : ∀ b, w'.tree.read p = .ok b ↔ w.tree.read p = .ok b := fun _ =>
        hbrought.read_iff hd h.sound.base hp (hne url hu hne')
      rw [if_neg (by simp [hne'])]
      exact h.frame hs (hsame hbrought.resources) rfl hread

theorem run (hd : IsHexDigest c.digest) (hp : c.pathFor u = .ok p)
    (hS : ∀ url b, Event.serve url b ∈ as.map Attempt.event → S b)
    (hne : Apart c (as.map Attempt.event) u) (h : Held c r p S u torn w) :
    Held c r p S u (tornIn c u w torn as) (runAttempts c w as) := by
  induction as generalizing w torn with
  | nil => exact h
  | cons a as ih =>
    refine ih (fun url b hb => hS url b (List.mem_cons_of_mem _ hb))
      (fun e he => hne e (List.mem_cons_of_mem _ he)) (h.attempt hd hp ?_ ?_)
    · intro url b hb
      exact hS url b (hb ▸ List.mem_cons_self)
    · intro v hv hvu
      exact hne a.event List.mem_cons_self v hv hvu p hp

end Held

/-- A record of `u` is there exactly when a file is at `p`, and has the tag of its bytes. -/
def Agree (c : Cache) (u : String) (p : Location) (w : World Origin) : Prop :=
  ∃ known, (w.isOpen → record? u w = .ok known w) ∧ w.database.index.record? u = .ok known ∧
    (known.isSome ↔ w.tree.isFile p) ∧
    ∀ rec, known = some rec → ∃ b, w.tree.read p = .ok b ∧
      rec.validators.etag = some (Origin.etag c.digest b)

theorem Parted.not_agree (h : Parted c p u w) : ¬ Agree c u p w := by
  rintro ⟨known, -, hk, hsome, htag⟩
  obtain ⟨b, hread, ht⟩ := h
  obtain ⟨rec, rfl⟩ := Option.isSome_iff_exists.1 (hsome.2 ((isFile_iff _ _).2 ⟨b, hread⟩))
  obtain ⟨b', hread', htag'⟩ := htag rec rfl
  cases hread.symm.trans hread'
  rw [tagOf, get?_of_record? hk] at ht
  exact ht htag'

/-- Where the file is parted from its record, a fetch that finds it current is wrong. -/
theorem Parted.not_served {now : Int} {f : Fetched} (h : Parted c p u w)
    (hd : IsHexDigest c.digest) (hb : Base w.tree c.root r)
    (hf : c.fetch (Origin.transport c.digest) now u w = .ok f w') (hc : f.changed = false) :
    ¬ ∃ b, Serves w.origin u b ∧ w'.tree.read p = .ok b := by
  rintro ⟨b, hs, hread⟩
  obtain ⟨b', hread', ht⟩ := h
  rcases fetch_cases hd hb now u with ⟨e, w'', he, -⟩ | ⟨dest, data, w'', hok, hcon⟩ |
    ⟨dest, data, w'', hok, -⟩
  · cases he.symm.trans hf
  · cases hok.symm.trans hf
    rw [hcon.tree] at hread
    cases hread.symm.trans hread'
    obtain rfl : data = b := Option.some.inj (hcon.serves.symm.trans hs)
    exact ht hcon.tag
  · cases hok.symm.trans hf
    cases hc

theorem tornIn_of_unbroken {as : List Attempt} (h : ∀ a ∈ as, a.breaks .rename = false) :
    tornIn c u w false as = false := by
  induction as generalizing w with
  | nil => rfl
  | cons a as ih =>
    rw [tornIn, h a List.mem_cons_self, ite_self]
    exact ih fun a' ha' => h a' (List.mem_cons_of_mem a ha')

/-- In a run from an empty directory whose calls may be broken off, the file of `u` and its record
agree unless the last call that moved the file was broken off before its commit, and that is also
what a fetch that finds the file current depends on. -/
theorem agree_iff (hd : IsHexDigest c.digest) (he : EmptyDirectory w.tree c.root r)
    (ho : c.open w = .ok () w₀) (as : List Attempt)
    (hinj : ∀ a b, Offers w.origin (as.map Attempt.event) a →
      Offers w.origin (as.map Attempt.event) b → c.digest a = c.digest b → a = b)
    (hne : Apart c (as.map Attempt.event) u) (hp : c.pathFor u = .ok p) :
    (Agree c u p (runAttempts c w₀ as) ↔ tornIn c u w₀ false as = false) ∧
      (∀ now f w', c.fetch (Origin.transport c.digest) now u (runAttempts c w₀ as) = .ok f w' →
        f.changed = false →
        ((∃ b, Serves (runAttempts c w₀ as).origin u b ∧ w'.tree.read p = .ok b) ↔
          tornIn c u w₀ false as = false)) ∧
      ((∀ a ∈ as, a.breaks .rename = false) → Agree c u p (runAttempts c w₀ as)) := by
  rcases open_of_empty he with ⟨-, w', hok, hfresh, horigin⟩ | ⟨-, e, w', herr⟩
  case inr => cases ho.symm.trans herr
  cases ho.symm.trans hok
  have hk : Kept c r p (Offers w.origin (as.map Attempt.event)) u w₀ :=
    hfresh.kept hd hp fun url b hs => .inl ⟨url, horigin ▸ hs⟩
  have hheld : Held c r p _ u (tornIn c u w₀ false as) (runAttempts c w₀ as) :=
    hk.held.run hd hp (fun url b h => .inr ⟨url, h⟩) hne
  have hcoherent : tornIn c u w₀ false as = false → Coherent c u p (runAttempts c w₀ as) :=
    fun h => (hheld.kept h).coherent hd hp hinj
  refine ⟨⟨fun h => ?_, fun h => (hcoherent h).record⟩, fun now f w' hf hc => ⟨fun h => ?_,
    fun h => ?_⟩, fun h => (hcoherent (tornIn_of_unbroken h)).record⟩
  · by_contra htorn
    exact (hheld.parted (by simpa using htorn)).not_agree h
  · by_contra htorn
    exact (hheld.parted (by simpa using htorn)).not_served hd hheld.sound.base hf hc h
  · obtain ⟨-, b, hs, hread, -⟩ := (hcoherent h).fetch now f w' hf
    exact ⟨b, hs, hread⟩

section Sample

/-- A body is fetched, the fetch of another one is broken off when its file has been moved, and then
the origin has the first one again. -/
def halted : List Attempt :=
  [⟨.serve firstUrl firstBody, fun _ => false⟩, ⟨.fetch epoch firstUrl, fun _ => false⟩,
    ⟨.serve firstUrl secondBody, fun _ => false⟩, ⟨.fetch epoch firstUrl, (· == .rename)⟩,
    ⟨.serve firstUrl firstBody, fun _ => false⟩]

theorem runAttempts_halted : ∃ w₀ w w', sample.open unused = .ok () w₀ ∧
    runAttempts sample w₀ halted = w ∧ tornIn sample firstUrl w₀ false halted = true ∧
    Serves w.origin firstUrl firstBody ∧
    w.database.index.record? firstUrl =
      .ok (some ⟨firstUrl, ⟨some (Origin.etag Blake3.hex firstBody), none⟩, epoch.seconds⟩) ∧
    w.tree.read sharedPlace = .ok secondBody ∧
    sample.fetch (Origin.transport Blake3.hex) epoch.seconds firstUrl w =
      .ok ⟨false, sharedPlace⟩ w' ∧ w'.tree = w.tree := by
  have hd : IsHexDigest sample.digest := Blake3.isHexDigest_hex
  obtain ⟨w₀, ho, hfresh₀, horigin⟩ := open_sample
  set w₁ : World Origin := attempt sample w₀ ⟨.serve firstUrl firstBody, fun _ => false⟩ with hw₁
  have hfresh : Fresh sample sample.root w₁ := hfresh₀.withOrigin _
  have hpending₁ : w₁.origin.pending firstUrl = 0 := by
    change w₀.origin.pending firstUrl = 0
    rw [horigin]
    rfl
  obtain ⟨w₂, h₂, hw₂⟩ := fetch_sample hfresh pathFor_firstUrl epoch.seconds hpending₁
    (Table.get?_set_self ..)
  have hpending₂ : w₂.origin.pending firstUrl = 0 := by
    rw [hw₂.origin]
    exact hpending₁
  have hfirst : attempt sample w₁ ⟨.fetch epoch firstUrl, fun _ => false⟩ = w₂ :=
    congrArg worldOf h₂
  set served : World Origin := { w₂ with origin := w₂.origin.serve firstUrl secondBody }
  have hserved : attempt sample w₂ ⟨.serve firstUrl secondBody, fun _ => false⟩ = served := rfl
  obtain ⟨w₃, h₃, hw₃⟩ := refetch_sample hfresh hw₂ hpending₂
  have hsound : Sound sample sample.root served := (hw₂.sound hfresh.toSound).withOrigin _
  obtain ⟨hmoves, now, data, catalog, w₄, hw₄, hlast⟩ := torn_of_fetch hd hsound h₃ rfl
  obtain rfl : data = secondBody := Option.some.inj (hw₄.serves.symm.trans hw₃.serves)
  have htorn : tornIn sample firstUrl w₀ false halted = true := by
    rw [halted, tornIn, tornIn, ← hw₁, hfirst, tornIn, hserved, tornIn, hmoves]
    rfl
  have hrun : runAttempts sample w₀ halted =
      attempt sample { w₄ with database := w₂.database }
        ⟨.serve firstUrl firstBody, fun _ => false⟩ := by
    rw [halted, runAttempts, List.foldl_cons, List.foldl_cons, ← hw₁, hfirst, List.foldl_cons,
      hserved, List.foldl_cons, hlast]
    rfl
  have hread : w₄.tree.read sharedPlace = .ok secondBody := hw₄.read_eq hd pathFor_firstUrl
  have hserves : Serves (w₄.origin.serve firstUrl firstBody) firstUrl firstBody :=
    Table.get?_set_self ..
  have hpending₄ : w₄.origin.pending firstUrl = 0 := by
    rw [hw₄.origin]
    exact hpending₂
  exact ⟨w₀, _, _, ho, hrun, htorn, hserves, hw₂.record?_eq epoch.valid, hread,
    fetch_of_current epoch.seconds pathFor_firstUrl hw₄.isOpen (hw₂.record?_eq epoch.valid)
      hpending₄ hserves hw₂.tagOf_eq ((isFile_iff _ _).2 ⟨secondBody, hread⟩), rfl⟩

theorem apart_halted : Apart sample (halted.map Attempt.event) firstUrl := by
  simp [halted, Apart, Event.url?]

/-- Records and files need not agree, and then the wrong body passes for the one that is served. -/
theorem not_agree_halted : ∃ w₀ w', sample.open unused = .ok () w₀ ∧
    Apart sample (halted.map Attempt.event) firstUrl ∧
    ¬ Agree sample firstUrl sharedPlace (runAttempts sample w₀ halted) ∧
    Serves (runAttempts sample w₀ halted).origin firstUrl firstBody ∧
    sample.fetch (Origin.transport Blake3.hex) epoch.seconds firstUrl
      (runAttempts sample w₀ halted) = .ok ⟨false, sharedPlace⟩ w' ∧
    w'.tree.read sharedPlace = .ok secondBody := by
  obtain ⟨w₀, w, w', ho, rfl, -, hs, hk, hread, hok, htree⟩ := runAttempts_halted
  refine ⟨w₀, w', ho, apart_halted, ?_, hs, hok, by rw [htree, hread]⟩
  rintro ⟨known, -, hknown, -, htag⟩
  obtain rfl : some _ = known := Except.ok.inj (hk.symm.trans hknown)
  obtain ⟨b, hb, ht⟩ := htag _ rfl
  obtain rfl : secondBody = b := Except.ok.inj (hread.symm.trans hb)
  exact hex_ne (Origin.etag_inj (Option.some.inj ht))

/-- The fetch that is broken off parts the file from its record, and the next one is misled. -/
theorem agree_iff_halted : ∃ w₀ w', sample.open unused = .ok () w₀ ∧
    ¬ Agree sample firstUrl sharedPlace (runAttempts sample w₀ halted) ∧
    Agree sample firstUrl sharedPlace (runAttempts sample w₀ (halted.take 3)) ∧
    sample.fetch (Origin.transport Blake3.hex) epoch.seconds firstUrl
      (runAttempts sample w₀ halted) = .ok ⟨false, sharedPlace⟩ w' ∧
    ¬ ∃ b, Serves (runAttempts sample w₀ halted).origin firstUrl b ∧
      w'.tree.read sharedPlace = .ok b := by
  have hd : IsHexDigest sample.digest := Blake3.isHexDigest_hex
  obtain ⟨w₀, w, w', ho, rfl, htorn, -, -, -, hok, -⟩ := runAttempts_halted
  have hinj : ∀ as ⊆ halted, ∀ a b, Offers unused.origin (as.map Attempt.event) a →
      Offers unused.origin (as.map Attempt.event) b → sample.digest a = sample.digest b → a = b :=
    fun as has => eq_of_hex_eq fun a ha => by
      rcases ha with ⟨url, h⟩ | ⟨url, h⟩
      · cases h
      · have hmem := List.map_subset Attempt.event has h
        simp only [halted, List.map_cons, List.map_nil, List.mem_cons, Event.serve.injEq,
          reduceCtorEq, List.not_mem_nil, or_false, false_or] at hmem
        tauto
  have hall := agree_iff hd emptyDirectory_unused ho halted (hinj _ fun _ => id) apart_halted
    pathFor_firstUrl
  have hthree := agree_iff hd emptyDirectory_unused ho (halted.take 3)
    (hinj _ (List.take_subset 3 halted)) (by simp [halted, Apart, Event.url?]) pathFor_firstUrl
  rw [htorn] at hall
  exact ⟨w₀, w', ho, fun h => Bool.noConfusion (hall.1.1 h),
    hthree.2.2 (by simp [halted]), hok, fun h => Bool.noConfusion ((hall.2.1 _ _ _ hok rfl).1 h)⟩

end Sample

end Depot.Cache
