import Depot.Proofs.Cache.Run

/-!
# Records and files agree

In a run from an empty directory, a URL whose place no other URL in the run has is on record exactly
when there is a file at that place, and the tag on record is that of its bytes (`coherent_run`). So
an origin that knows the tag vouches for the right bytes. `Kept` is the invariant behind this.
-/

namespace Depot.Cache

open FileTree

variable {c : Cache} {r p dest : Location} {S : ByteArray → Prop} {w w₀ w' : World Origin}
  {url u : String} {e : Event} {es : List Event} {data b : ByteArray}

/-- Whether the origin has `b`, or is given it in the run `es`. -/
def Offers (o : Origin) (es : List Event) (b : ByteArray) : Prop :=
  (∃ url, Serves o url b) ∨ ∃ url, Event.serve url b ∈ es

/-- No other URL that is asked for in `es` has its file where `u` has it. -/
def Apart (c : Cache) (es : List Event) (u : String) : Prop :=
  ∀ e ∈ es, ∀ v, e.url? = some v → v ≠ u → ∀ p, c.pathFor u = .ok p → c.pathFor v ≠ .ok p

/-- What is on record for `u` describes the file at `p`, and the bodies are in `S`. -/
structure Kept (c : Cache) (r p : Location) (S : ByteArray → Prop) (u : String)
    (w : World Origin) : Prop where
  sound : Sound c r w
  offered : ∀ url b, Serves w.origin url b → S b
  date : ∀ rec, w.database.index.records.get? u = some rec → isDate rec.fetchedAt
  absent : w.database.index.records.get? u = none → ∀ b, w.tree.read p ≠ .ok b
  present : ∀ rec, w.database.index.records.get? u = some rec →
    ∃ b, w.tree.read p = .ok b ∧ S b ∧ rec.validators.etag = some (Origin.etag c.digest b)

theorem Idle.read_iff (h : Idle c.root r w w') (hd : IsHexDigest c.digest)
    (hb : Base w.tree c.root r) (hp : c.pathFor u = .ok p) :
    w'.tree.read p = .ok b ↔ w.tree.read p = .ok b := by
  obtain ⟨m, hm, rfl⟩ := pathFor_eq_ok_iff.1 hp
  exact read_congr hb h.base (directoryOf_plain hd hm) fun mode => h.file _ _ mode

theorem Brought.read_eq {now : Int} {catalog : Catalog} (hd : IsHexDigest c.digest)
    (h : Brought c r url now data catalog w w') (hp : c.pathFor url = .ok p) :
    w'.tree.read p = .ok data := by
  obtain ⟨n, hn, rfl⟩ := pathFor_eq_ok_iff.1 hp
  obtain ⟨m, hm, hst⟩ := h.tree
  obtain rfl : n = m := Option.some.inj (hn.symm.trans hm)
  exact hst.read_eq (directoryOf_plain hd hn)

theorem Brought.read_iff {now : Int} {catalog : Catalog} (hd : IsHexDigest c.digest)
    (hb : Base w.tree c.root r) (h : Brought c r url now data catalog w w')
    (hp : c.pathFor u = .ok p) (hne : c.pathFor url ≠ .ok p) :
    w'.tree.read p = .ok b ↔ w.tree.read p = .ok b := by
  obtain ⟨m, hm, hst⟩ := h.tree
  exact hst.read_iff hd hb hm hp hne

theorem Brought.get?_records_of_ne {now : Int} {catalog : Catalog} (hu : u ≠ url)
    (h : Brought c r url now data catalog w w') :
    w'.database.index.records.get? u = w.database.index.records.get? u := by
  rw [h.records, Table.get?_set_of_ne hu]

theorem offered_serve {o : Origin} (h : ∀ url b, Serves o url b → S b) (hb : S b) (url : String) :
    ∀ v a, Serves (o.serve url b) v a → S a := fun v a hs => by
  change (o.resources.set url b).get? v = some a at hs
  rcases eq_or_ne v url with rfl | hv
  · rw [Table.get?_set_self, Option.some.injEq] at hs
    exact hs ▸ hb
  · rw [Table.get?_set_of_ne hv] at hs
    exact h v a hs

/-- A body that comes in for `u` is at `p` and on record, whatever has been there before. -/
theorem Brought.kept {now : Int} {catalog : Catalog} (hd : IsHexDigest c.digest)
    (hs : Sound c r w) (hoffered : ∀ url b, Serves w.origin url b → S b)
    (hp : c.pathFor u = .ok p) (hnow : isDate now) (h : Brought c r u now data catalog w w') :
    Kept c r p S u w' := by
  have hself := h.get?_records
  refine ⟨h.sound hs, fun url b hb => hoffered url b ((serves_congr h.resources).1 hb),
    fun rec hrec => ?_, fun hnone => ?_, fun rec hrec => ?_⟩
  · rw [hself, Option.some.injEq] at hrec
    exact hrec ▸ hnow
  · rw [hself] at hnone
    cases hnone
  · rw [hself, Option.some.injEq] at hrec
    exact ⟨data, h.read_eq hd hp, hoffered u data h.serves, hrec ▸ rfl⟩

namespace Kept

/-- Only the record of `u` and the bytes at `p` matter. -/
theorem frame (hk : Kept c r p S u w) (hs : Sound c r w')
    (hoffered : ∀ url b, Serves w'.origin url b → S b)
    (hrec : w'.database.index.records.get? u = w.database.index.records.get? u)
    (hread : ∀ b, w'.tree.read p = .ok b ↔ w.tree.read p = .ok b) : Kept c r p S u w' where
  sound := hs
  offered := hoffered
  date rec h := hk.date rec (hrec ▸ h)
  absent h b hb := hk.absent (hrec ▸ h) b ((hread b).1 hb)
  present rec h := by
    obtain ⟨b, hb, hS, ht⟩ := hk.present rec (hrec ▸ h)
    exact ⟨b, (hread b).2 hb, hS, ht⟩

theorem idle (hk : Kept c r p S u w) (hd : IsHexDigest c.digest) (hp : c.pathFor u = .ok p)
    (h : Idle c.root r w w') : Kept c r p S u w' :=
  hk.frame (h.sound hk.sound) (fun url b hs => hk.offered url b ((serves_congr h.resources).1 hs))
    (by rw [h.database]) fun _ => h.read_iff hd hk.sound.base hp

theorem serve (hk : Kept c r p S u w) (hb : S b) (url : String) :
    Kept c r p S u { w with origin := w.origin.serve url b } :=
  hk.frame (hk.sound.withOrigin _) (offered_serve hk.offered hb url) rfl fun _ => Iff.rfl

/-- A new body either is the one for `u`, and then it is at `p` and on record, or it is somewhere
else and the record is another one. -/
theorem brought {now : Int} {catalog : Catalog} (hk : Kept c r p S u w)
    (hd : IsHexDigest c.digest) (hp : c.pathFor u = .ok p) (hnow : isDate now)
    (hne : url ≠ u → c.pathFor url ≠ .ok p) (h : Brought c r url now data catalog w w') :
    Kept c r p S u w' := by
  rcases eq_or_ne u url with rfl | hu
  · exact h.kept hd hk.sound hk.offered hp hnow
  · exact hk.frame (h.sound hk.sound)
      (fun url b hs => hk.offered url b ((serves_congr h.resources).1 hs))
      (h.get?_records_of_ne hu) fun _ => h.read_iff hd hk.sound.base hp (hne hu.symm)

theorem step (hk : Kept c r p S u w) (hd : IsHexDigest c.digest) (hp : c.pathFor u = .ok p)
    (hS : ∀ url b, e = .serve url b → S b)
    (hne : ∀ v, e.url? = some v → v ≠ u → c.pathFor v ≠ .ok p) :
    Kept c r p S u (step c w e) := by
  have hchange := change_step hd hk.sound e
  generalize Cache.step c w e = w' at hchange
  generalize takes c w e = taken at hchange
  cases hchange with
  | idle h => exact hk.idle hd hp h
  | serve url b => exact hk.serve (hS url b rfl) url
  | @fetch now url _ _ h => exact hk.brought hd hp now.valid (hne url rfl) h
  | @refresh now url _ _ _ _ hm hi h => exact hk.brought hd hp now.valid (hne url rfl) h

theorem run (hd : IsHexDigest c.digest) (hp : c.pathFor u = .ok p)
    (hS : ∀ url b, Event.serve url b ∈ es → S b) (hne : Apart c es u) (hk : Kept c r p S u w) :
    Kept c r p S u (run c w es) := by
  induction es generalizing w with
  | nil => exact hk
  | cons e es ih =>
    refine ih (fun url b h => hS url b (List.mem_cons_of_mem e h))
      (fun e' he' => hne e' (List.mem_cons_of_mem e he')) (hk.step hd hp ?_ ?_)
    · rintro url b rfl
      exact hS url b List.mem_cons_self
    · intro v hv hvu
      exact hne e List.mem_cons_self v hv hvu p hp

end Kept

theorem Fresh.kept (h : Fresh c r w) (hd : IsHexDigest c.digest) (hp : c.pathFor u = .ok p)
    (hS : ∀ url b, Serves w.origin url b → S b) : Kept c r p S u w := by
  have hrecords : w.database.index.records.get? u = none := by
    rw [h.index]
    rfl
  refine ⟨h.toSound, hS, fun rec hrec => ?_, fun _ b hb => ?_, fun rec hrec => ?_⟩
  · rw [hrecords] at hrec
    cases hrec
  · obtain ⟨n, hn, rfl⟩ := pathFor_eq_ok_iff.1 hp
    obtain ⟨-, mode, hf⟩ := (h.base.read_eq_ok_iff (directoryOf_plain hd hn)).1 hb
    have hbelow : Below r (r ++ c.directoryOf u ++ [n]) := Base.below_child (prefix_below r _) n
    rw [h.empty _ hbelow fun heq => ?_] at hf
    · cases hf
    · have hlen := congrArg List.length heq
      simp [length_directoryOf] at hlen
  · rw [hrecords] at hrec
    cases hrec

/-- Records and the file for `u` at `p` agree, and so do fetches of `u`. -/
structure Coherent (c : Cache) (u : String) (p : Location) (w : World Origin) : Prop where
  /-- There is a record exactly when there is a file, and it has the tag of the bytes. -/
  record : ∃ known, (w.isOpen → record? u w = .ok known w) ∧
    w.database.index.record? u = .ok known ∧ (known.isSome ↔ w.tree.isFile p) ∧
    ∀ rec, known = some rec → ∃ b, w.tree.read p = .ok b ∧
      rec.validators.etag = some (Origin.etag c.digest b)
  /-- A fetch leaves the served body, and tells whether it was not there before. -/
  fetch : ∀ now f w', c.fetch (Origin.transport c.digest) now u w = .ok f w' →
    f.path = p ∧ ∃ b, Serves w.origin u b ∧ w'.tree.read p = .ok b ∧
      (f.changed = false ↔ w.tree.read p = .ok b)
  /-- A fetch never misses a file that is on record. -/
  consistent : ∀ now path w', c.fetch (Origin.transport c.digest) now u w ≠
    .error (.inconsistent path) w'

theorem Kept.tagOf_eq_iff (hk : Kept c r p S u w) (hS : S b)
    (hinj : ∀ a b, S a → S b → c.digest a = c.digest b → a = b) :
    tagOf w u = some (Origin.etag c.digest b) ↔ w.tree.read p = .ok b := by
  rw [tagOf]
  rcases hrec : w.database.index.records.get? u with _ | rec
  · simp [hk.absent hrec b]
  · obtain ⟨a, hread, hSa, ht⟩ := hk.present rec hrec
    rw [hread, Option.bind_some, ht, Option.some.injEq, Except.ok.injEq]
    refine ⟨fun h => hinj a b hSa hS (Origin.etag_inj h), fun h => by rw [h]⟩

theorem Kept.coherent (hk : Kept c r p S u w) (hd : IsHexDigest c.digest)
    (hp : c.pathFor u = .ok p) (hinj : ∀ a b, S a → S b → c.digest a = c.digest b → a = b) :
    Coherent c u p w where
  record := by
    have hknown : w.database.index.record? u = .ok (w.database.index.records.get? u) := by
      rw [Index.record?]
      rcases hrec : w.database.index.records.get? u with _ | rec
      · rfl
      · simp [hk.date rec hrec]
    refine ⟨_, fun ho => by rw [record?_of_open ho, hknown]; rfl, hknown, ?_, fun rec hrec => ?_⟩
    · rw [isFile_iff]
      rcases hrec : w.database.index.records.get? u with _ | rec
      · simp [hk.absent hrec]
      · obtain ⟨b, hb, -⟩ := hk.present rec hrec
        simp [hb]
    · obtain ⟨b, hb, -, ht⟩ := hk.present rec hrec
      exact ⟨b, hb, ht⟩
  fetch now f w' hf := by
    rcases fetch_cases hd hk.sound.base now u with ⟨e, w'', he, -⟩ |
      ⟨dest, data, w'', hok, h⟩ | ⟨dest, data, w'', hok, hdest, h⟩
    · rw [he] at hf
      cases hf
    · rw [hok] at hf
      cases hf
      have hread := (hk.tagOf_eq_iff (hk.offered u data h.serves) hinj).1 h.tag
      refine ⟨Except.ok.inj (h.place.symm.trans hp), data, h.serves, ?_, ?_⟩
      · rw [h.tree, hread]
      · simp [hread]
    · rw [hok] at hf
      cases hf
      refine ⟨Except.ok.inj (hdest.symm.trans hp), data, h.serves, h.read_eq hd hp, ?_⟩
      have htag := mt (hk.tagOf_eq_iff (hk.offered u data h.serves) hinj).2 h.tag
      simp [htag]
  consistent now path w' hf := by
    rcases fetch_cases hd hk.sound.base now u with ⟨e, w'', he, -, hfails⟩ |
      ⟨dest, data, w'', hok, h⟩ | ⟨dest, data, w'', hok, hdest, h⟩
    · rw [he] at hf
      cases hf
      obtain ⟨dest, data, hdest, hs, ht, hmissing⟩ := hfails.of_inconsistent
      obtain rfl : dest = p := Except.ok.inj (hdest.symm.trans hp)
      exact hmissing ((isFile_iff _ _).2
        ⟨data, (hk.tagOf_eq_iff (hk.offered u data hs) hinj).1 ht⟩)
    · rw [hok] at hf
      cases hf
    · rw [hok] at hf
      cases hf

/-- In every state that a run from an empty directory reaches, records and files agree. -/
theorem coherent_run (hd : IsHexDigest c.digest) (he : EmptyDirectory w.tree c.root r)
    (ho : c.open w = .ok () w₀)
    (hinj : ∀ a b, Offers w.origin es a → Offers w.origin es b → c.digest a = c.digest b → a = b)
    (hne : Apart c es u) (hp : c.pathFor u = .ok p) : Coherent c u p (run c w₀ es) := by
  rcases open_of_empty he with ⟨-, w', hok, hfresh, horigin⟩ | ⟨-, e, w', herr⟩
  · rw [ho] at hok
    cases hok
    have hk : Kept c r p (Offers w.origin es) u w₀ :=
      hfresh.kept hd hp fun url b hs => .inl ⟨url, horigin ▸ hs⟩
    exact (hk.run hd hp (fun url b h => .inr ⟨url, h⟩) hne).coherent hd hp hinj
  · rw [ho] at herr
    cases herr

theorem eq_of_hex_eq {S : ByteArray → Prop} (hS : ∀ a, S a → a = firstBody ∨ a = secondBody)
    (a b : ByteArray) (ha : S a) (hb : S b) (h : Blake3.hex a = Blake3.hex b) : a = b := by
  rcases hS a ha with rfl | rfl <;> rcases hS b hb with rfl | rfl
  · rfl
  · exact absurd h hex_ne
  · exact absurd h hex_ne.symm
  · rfl

/-- Once another body has taken the place of the first one, a fetch brings that. -/
theorem refetch_sample {w₁ w₂ : World Origin} {catalog : Catalog}
    (hfresh : Fresh sample sample.root w₁)
    (hw₂ : Brought sample sample.root firstUrl epoch.seconds firstBody catalog w₁ w₂)
    (hpending : w₂.origin.pending firstUrl = 0) :
    ∃ w₄, sample.fetch (Origin.transport Blake3.hex) epoch.seconds firstUrl
        { w₂ with origin := w₂.origin.serve firstUrl secondBody } = .ok ⟨true, sharedPlace⟩ w₄ ∧
      Brought sample sample.root firstUrl epoch.seconds secondBody w₂.database.index.catalog
        { w₂ with origin := w₂.origin.serve firstUrl secondBody } w₄ := by
  have hd : IsHexDigest sample.digest := Blake3.isHexDigest_hex
  obtain ⟨hn, hdir⟩ := directoryOf_shared pathFor_firstUrl
  set w₃ : World Origin := { w₂ with origin := w₂.origin.serve firstUrl secondBody }
  have hknown : w₃.database.index.record? firstUrl = _ := hw₂.record?_eq epoch.valid
  have htag : tagOf w₃ firstUrl ≠ some (Origin.etag sample.digest secondBody) := fun h =>
    hex_ne (Origin.etag_inj (Option.some.inj (hw₂.tagOf_eq.symm.trans h)))
  have hserves : Serves w₃.origin firstUrl secondBody := Table.get?_set_self ..
  have hbase : Base w₃.tree sample.root sample.root := (hw₂.sound hfresh.toSound).base
  have hroom := hw₂.room hn (fun _ => ne_stagingName) (room_sample hfresh pathFor_firstUrl)
  rcases fetch_eq_ok hd hbase epoch.seconds hw₂.isOpen hn hknown hpending hserves
    (fun h => absurd h htag) (fun _ => hroom) with ⟨w₄, -, h⟩ | ⟨w₄, h₄, h⟩
  · exact absurd h.tag htag
  · rw [hdir] at h₄
    exact ⟨w₄, h₄, h⟩

/-- A body is fetched, another one takes its place at the origin, and a second fetch brings it. -/
theorem coherent_run_sample : ∃ w₀ w₁, sample.open unused = .ok () w₀ ∧
    sample.fetch (Origin.transport Blake3.hex) epoch.seconds firstUrl
      (run sample w₀ [.serve firstUrl firstBody, .fetch epoch firstUrl,
        .serve firstUrl secondBody]) = .ok ⟨true, sharedPlace⟩ w₁ ∧
    w₁.tree.read sharedPlace = .ok secondBody := by
  have hd : IsHexDigest sample.digest := Blake3.isHexDigest_hex
  have hp := pathFor_firstUrl
  obtain ⟨hn, hdir⟩ := directoryOf_shared hp
  obtain ⟨w₀, ho, hfresh₀, horigin⟩ := open_sample
  set es : List Event := [.serve firstUrl firstBody, .fetch epoch firstUrl,
    .serve firstUrl secondBody]
  have hfresh : Fresh sample sample.root (step sample w₀ (.serve firstUrl firstBody)) :=
    hfresh₀.withOrigin _
  have hs : Serves (step sample w₀ (.serve firstUrl firstBody)).origin firstUrl firstBody :=
    Table.get?_set_self ..
  obtain ⟨w₂, h₂, hw₂⟩ := fetch_sample hfresh hp epoch.seconds (by rw [step, horigin]; rfl) hs
  have hrun : run sample w₀ es = { w₂ with origin := w₂.origin.serve firstUrl secondBody } := by
    have hstep : step sample (step sample w₀ (.serve firstUrl firstBody)) (.fetch epoch firstUrl) =
        w₂ := by
      change worldOf (sample.fetch (Origin.transport Blake3.hex) _ _ _) = w₂
      rw [h₂]
      rfl
    rw [run_cons, run_cons, hstep]
    rfl
  have hinj : ∀ a b, Offers unused.origin es a → Offers unused.origin es b →
      sample.digest a = sample.digest b → a = b :=
    eq_of_hex_eq fun a ha => by
      rcases ha with ⟨url, h⟩ | ⟨url, h⟩
      · cases h
      · simp [es] at h
        exact h.imp And.right And.right
  have hcoherent := coherent_run hd emptyDirectory_unused ho hinj
    (by simp [es, Apart, Event.url?]) hp
  rw [hrun] at hcoherent
  refine ⟨w₀, ?_⟩
  rw [hrun]
  obtain ⟨w₄, h₄, hw₄⟩ := refetch_sample hfresh hw₂ (by rw [hw₂.origin, step, horigin]; rfl)
  obtain ⟨-, b, hb, hread, -⟩ := hcoherent.fetch _ _ _ h₄
  rw [Option.some.inj (hb.symm.trans hw₄.serves)] at hread
  exact ⟨w₄, ho, h₄, hread⟩

end Depot.Cache
