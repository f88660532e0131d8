import Depot.Proofs.Cache.Alike
import Depot.Proofs.Cache.Run
import Mathlib.Logic.Function.Iterate

/-!
# Retrying

Requests that the origin fails by order change its counters only, so a call that is retried often
enough comes to what it would have come to without them, and otherwise to the error of the last one
(`retry_transparent`).
-/

namespace Depot.Cache

open FileTree

variable {σ α : Type} {c : Cache} {r p : Location} {w w₀ w' : World σ} {u v : String} {k n : Nat}
  {work : Work σ α} {e : Error}

/-- The number of a retry matters to the wait before it only. -/
theorem runFrom_attempt (op : StateM (World σ) (Except Error α)) (left i j : Nat) :
    Retry.runFrom Error.isRetryable (fun _ => pure ()) op i left =
      Retry.runFrom Error.isRetryable (fun _ => pure ()) op j left := by
  induction left generalizing i j with
  | zero => rfl
  | succ left ih =>
    rw [Retry.runFrom, Retry.runFrom, ih (i + 1) (j + 1)]

theorem retry_zero (d : Duration) (work : Work σ α) (w : World σ) :
    retry ⟨0, d⟩ work w = work w := by
  rw [retry]
  dsimp only [Retry.run, Retry.runFrom]
  rcases work w with ⟨a, w'⟩ | ⟨e, w'⟩ <;> rfl

theorem retry_succ (n : Nat) (d : Duration) (work : Work σ α) (w : World σ) :
    retry ⟨n + 1, d⟩ work w =
      match work w with
      | .ok a w' => .ok a w'
      | .error e w' => if e.isRetryable then retry ⟨n, d⟩ work w' else .error e w' := by
  rw [retry]
  dsimp only [Retry.run, Retry.runFrom]
  rw [runFrom_attempt _ n (0 + 1) 0]
  simp only [Bind.bind, StateT.bind]
  rcases work w with ⟨a, w'⟩ | ⟨e, w'⟩
  · rfl
  · by_cases he : e.isRetryable
    · simp only [he, if_true]
      rfl
    · simp only [he]
      rfl

/-- A result that is no passing failure ends the retrying. -/
theorem retry_of_final (h : ∀ e w', work w = .error e w' → e.isRetryable = false) (policy : Retry) :
    retry policy work w = work w := by
  rcases policy with ⟨_ | n, d⟩
  · exact retry_zero d work w
  rw [retry_succ]
  rcases hw : work w with ⟨a, w'⟩ | ⟨e, w'⟩
  · rfl
  · simp only [h e w' hw, Bool.false_eq_true, if_false]

theorem retry_of_ok {a : α} (h : work w = .ok a w') (policy : Retry) :
    retry policy work w = .ok a w' := by
  rw [retry_of_final _ policy, h]
  intro e w'' he
  cases h.symm.trans he

theorem retry_of_error (he : e.isRetryable = false) (h : work w = .error e w') (policy : Retry) :
    retry policy work w = .error e w' := by
  rw [retry_of_final _ policy, h]
  intro e' w'' he'
  cases h.symm.trans he'
  exact he

/-- What relates the worlds before and after every attempt relates those before and after all. -/
theorem retry_related {R : World σ → World σ → Prop}
    (htrans : ∀ {w w' w''}, R w w' → R w' w'' → R w w'') (hwork : ∀ w, R w (worldOf (work w)))
    (policy : Retry) (w : World σ) : R w (worldOf (retry policy work w)) := by
  obtain ⟨n, d⟩ := policy
  induction n generalizing w with
  | zero =>
    rw [retry_zero]
    exact hwork w
  | succ n ih =>
    have hfirst := hwork w
    rw [retry_succ]
    rcases hw : work w with ⟨a, w'⟩ | ⟨e, w'⟩ <;> rw [hw] at hfirst
    · exact hfirst
    · dsimp only
      split
      · exact htrans hfirst (ih w')
      · exact hfirst

/-- Failures one after another use up one retry each. -/
theorem retry_iterate (d : Duration) {f : World σ → World σ} (he : e.isRetryable = true)
    (h : ∀ i < k, work (f^[i] w) = .error e (f^[i + 1] w)) :
    retry ⟨n, d⟩ work w =
      if k ≤ n then retry ⟨n - k, d⟩ work (f^[k] w) else .error e (f^[n + 1] w) := by
  induction k generalizing n w with
  | zero => rw [if_pos (Nat.zero_le n)]; rfl
  | succ k ih =>
    have hfirst : work w = .error e (f w) := h 0 (Nat.succ_pos k)
    rcases n with _ | n
    · rw [retry_zero, hfirst, if_neg (by omega)]
      rfl
    · have hrest := ih (n := n) (w := f w) fun i hi => h (i + 1) (by omega)
      simp only [retry_succ, hfirst, he, if_true, hrest, Nat.add_le_add_iff_right,
        Nat.add_sub_add_right]
      rfl

namespace Origin

variable {o o' : Origin} {digest : ByteArray → String} {url : String} {conditions : Validators}

/-- The origin after it has failed a request by order. -/
def refused (o : Origin) (url : String) : Origin := (o.count url).failNext url (o.pending url - 1)

/-- `o` is as `o'`, `k` requests for `url` later; how many of these are to fail may differ. -/
structure Later (k : Nat) (url : String) (o o' : Origin) : Prop where
  resources : o.resources = o'.resources
  requests : o.requestCount url = o'.requestCount url + k
  others : ∀ v ≠ url, o.requestCount v = o'.requestCount v ∧ o.pending v = o'.pending v

theorem requestCount_count (o : Origin) (url : String) :
    (o.count url).requestCount url = o.requestCount url + 1 := by
  rw [requestCount, count, Table.get?_set_self]
  rfl

theorem requestCount_count_of_ne (h : v ≠ url) (o : Origin) :
    (o.count url).requestCount v = o.requestCount v := by
  rw [requestCount, count, Table.get?_set_of_ne h]
  rfl

theorem pending_failNext (o : Origin) (url : String) (n : Nat) :
    (o.failNext url n).pending url = n := by
  rw [pending, failNext, Table.get?_set_self]
  rfl

theorem pending_failNext_of_ne (h : v ≠ url) (o : Origin) (n : Nat) :
    (o.failNext url n).pending v = o.pending v := by
  rw [pending, failNext, Table.get?_set_of_ne h]
  rfl

theorem later_failNext_iff (n : Nat) :
    Later k url o (o'.failNext url n) ↔ Later k url o o' := by
  have hothers : ∀ v ≠ url, (o'.failNext url n).requestCount v = o'.requestCount v ∧
      (o'.failNext url n).pending v = o'.pending v := fun v hv =>
    ⟨rfl, pending_failNext_of_ne hv o' n⟩
  refine ⟨fun h => ⟨h.resources, h.requests, fun v hv => ?_⟩,
    fun h => ⟨h.resources, h.requests, fun v hv => ?_⟩⟩
  · obtain ⟨hcount, hpending⟩ := hothers v hv
    exact ⟨hcount ▸ (h.others v hv).1, hpending ▸ (h.others v hv).2⟩
  · obtain ⟨hcount, hpending⟩ := hothers v hv
    rw [hcount, hpending]
    exact h.others v hv

theorem Later.count (h : Later k url o o') : Later (k + 1) url (o.count url) o' where
  resources := h.resources
  requests := by
    rw [requestCount_count, h.requests]
    rfl
  others v hv := by
    rw [requestCount_count_of_ne hv]
    exact h.others v hv

theorem Later.count_both (h : Later k url o o') : Later k url (o.count url) (o'.count url) where
  resources := h.resources
  requests := by
    rw [requestCount_count, requestCount_count, h.requests, Nat.add_right_comm]
  others v hv := by
    rw [requestCount_count_of_ne hv, requestCount_count_of_ne hv]
    exact h.others v hv

theorem later_refused (o : Origin) (url : String) (k : Nat) :
    Later k url ((refused · url)^[k] o) o ∧
      ((refused · url)^[k] o).pending url = o.pending url - k := by
  induction k with
  | zero => exact ⟨⟨rfl, rfl, fun v _ => ⟨rfl, rfl⟩⟩, rfl⟩
  | succ k ih =>
    obtain ⟨hlater, hpending⟩ := ih
    rw [Function.iterate_succ_apply']
    refine ⟨⟨hlater.resources, hlater.count.requests, fun v hv => ?_⟩, ?_⟩
    · rw [refused, pending_failNext_of_ne hv]
      exact hlater.count.others v hv
    · rw [refused, pending_failNext, hpending, Nat.sub_sub]

/-- `o` is as `o'`, `k` requests for `url` later, and neither has been told to fail one. -/
structure Recovered (k : Nat) (url : String) (o o' : Origin) : Prop extends Later k url o o' where
  pending : o.pending url = 0
  pending' : o'.pending url = 0

theorem Recovered.count (h : Recovered k url o o') : Recovered k url (o.count url) (o'.count url) :=
  ⟨h.toLater.count_both, h.pending, h.pending'⟩

theorem Recovered.transport (h : Recovered k url o o') (digest : ByteArray → String)
    (conditions : Validators) :
    Same Eq (Recovered k url) (transport digest url conditions o)
      (transport digest url conditions o') := by
  rcases hr : o.resources.get? url with _ | data
  · rw [transport_of_missing h.pending hr, transport_of_missing h.pending' (h.resources ▸ hr)]
    exact .error h.count
  · rw [transport_of_served h.pending hr, transport_of_served h.pending' (h.resources ▸ hr)]
    exact .ok rfl h.count

end Origin

section Calls

variable {known : Option Record} {dest : Location}

/-- A call with `url` can ask the transport. -/
structure Ready (url : String) (w : World σ) : Prop where
  isOpen : w.isOpen
  known : ∃ known, w.database.index.record? url = .ok known

/-- A call asks for `url` before all else, fails with the request, and does nothing else that
depends on the origin or on the time. -/
structure Asks (url : String) (call : Int → Work Origin α) : Prop where
  refused : ∀ {w : World Origin}, Ready url w → 0 < w.origin.pending url → ∀ now,
    call now w = .error (.download url) { w with origin := w.origin.refused url }
  same : ∀ {w : World Origin} {o : Origin} {k : Nat}, Ready url w →
    Origin.Recovered k url w.origin o → ∀ now now',
    Same Eq (Beside (Origin.Recovered k url)) (call now w) (call now' { w with origin := o })

theorem download_refused {w : World Origin} (hp : c.pathFor u = .ok dest) (hw : Ready u w)
    (hpending : 0 < w.origin.pending u) (now : Int) :
    c.download (Origin.transport c.digest) now u w =
      .error (.download u) { w with origin := w.origin.refused u } := by
  obtain ⟨ho, known, hk⟩ := hw
  rw [download_eq _ now hp ho hk, Origin.transport_of_pending hpending]
  rfl

theorem asks_fetch (hp : c.pathFor u = .ok dest) :
    Asks u fun now => c.fetch (Origin.transport c.digest) now u where
  refused hw hpending now := by
    rw [fetch, fetchUntil, bind_apply, download_refused hp hw hpending]
  same := by
    rintro w o k ⟨ho, known, hk⟩ h now now'
    have halike : Alike w { w with origin := o } := ⟨rfl, rfl, rfl, rfl, rfl, fun _ => rfl⟩
    exact fetchUntil_same _ halike hp ho hk hk (h.transport _ _)

theorem asks_refresh (hp : c.pathFor c.manifestUrl = .ok dest) :
    Asks c.manifestUrl (c.refresh (Origin.transport c.digest)) where
  refused hw hpending now := by
    rw [refresh, refreshUntil, bind_apply, download_refused hp hw hpending]
  same := by
    rintro w o k ⟨ho, known, hk⟩ h now now'
    have halike : Alike w { w with origin := o } := ⟨rfl, rfl, rfl, rfl, rfl, fun _ => rfl⟩
    exact refreshUntil_same _ halike hp ho hk hk (h.transport _ _)

/-- A closed cache asks for nothing, so there is nothing to be retried. -/
theorem fetch_of_closed {w : World Origin} (hp : c.pathFor u = .ok dest) (h : ¬ w.isOpen)
    (now : Int) : c.fetch (Origin.transport c.digest) now u w = .error .database w := by
  rw [fetch, fetchUntil, bind_apply, download_of_closed _ now hp h]

theorem refresh_of_closed {w : World Origin} (hp : c.pathFor c.manifestUrl = .ok dest)
    (h : ¬ w.isOpen) (now : Int) :
    c.refresh (Origin.transport c.digest) now w = .error .database w := by
  rw [refresh, refreshUntil, bind_apply, download_of_closed _ now hp h]

end Calls

/-- What comes of a call that is retried where the origin fails the next `k` requests for `url`. If
there are as many retries, it is what the call comes to without failures, at any time, unless that
may pass by itself; if not, it is the failure of the last request. -/
structure Transparent (policy : Retry) (k : Nat) (url : String) (call : Int → Work Origin α)
    (w : World Origin) : Prop where
  within : k ≤ policy.retries → ∀ now now',
    (∀ e w', call now' { w with origin := w.origin.failNext url 0 } = .error e w' →
      e.isRetryable = false) →
    Same Eq (Beside (Origin.Recovered k url))
      (retry policy (call now) { w with origin := w.origin.failNext url k })
      (call now' { w with origin := w.origin.failNext url 0 })
  beyond : policy.retries < k → ∀ now, ∃ o,
    retry policy (call now) { w with origin := w.origin.failNext url k } =
      .error (.download url) { w with origin := o } ∧
    Origin.Later (policy.retries + 1) url o w.origin ∧ o.pending url = k - policy.retries - 1

section Origins

variable {w w' : World Origin}

/-- The world after its origin has failed a request for `url`. -/
def refuse (url : String) (w : World Origin) : World Origin :=
  { w with origin := w.origin.refused url }

theorem iterate_refuse (url : String) (k : Nat) (w : World Origin) :
    (refuse url)^[k] w = { w with origin := (Origin.refused · url)^[k] w.origin } := by
  induction k with
  | zero => rfl
  | succ k ih =>
    rw [Function.iterate_succ_apply', Function.iterate_succ_apply', ih]
    rfl

theorem Ready.withOrigin (h : Ready u w) (o : Origin) : Ready u { w with origin := o } :=
  ⟨h.isOpen, h.known⟩

theorem Asks.transparent {call : Int → Work Origin α} (h : Asks u call) (hw : Ready u w)
    (policy : Retry) (k : Nat) : Transparent policy k u call w := by
  set o := w.origin.failNext u k with ho
  have hpending : o.pending u = k := Origin.pending_failNext w.origin u k
  have hlater : ∀ i, Origin.Later i u ((Origin.refused · u)^[i] o) w.origin := fun i =>
    (Origin.later_failNext_iff k).1 (Origin.later_refused o u i).1
  -- The first `k` calls are refused, each of them costs a retry, and nothing else changes.
  have hretry : ∀ now, retry policy (call now) { w with origin := o } =
      if k ≤ policy.retries then
        retry ⟨policy.retries - k, policy.step⟩ (call now) ((refuse u)^[k] { w with origin := o })
      else .error (.download u) ((refuse u)^[policy.retries + 1] { w with origin := o }) :=
    fun now => by
      refine retry_iterate policy.step rfl fun i hi => ?_
      rw [Function.iterate_succ_apply', iterate_refuse]
      refine h.refused (hw.withOrigin _) ?_ now
      rw [(Origin.later_refused o u i).2, hpending]
      omega
  constructor
  · intro hk now now' hfinal
    have hrecovered :
        Origin.Recovered k u ((Origin.refused · u)^[k] o) (w.origin.failNext u 0) := by
      refine ⟨(Origin.later_failNext_iff 0).2 (hlater k), ?_, Origin.pending_failNext ..⟩
      rw [(Origin.later_refused o u k).2, hpending, Nat.sub_self]
    have hsame := h.same (hw.withOrigin _) hrecovered now now'
    rw [hretry, if_pos hk, iterate_refuse, retry_of_final]
    · exact hsame
    · intro e w' he
      rw [he] at hsame
      dsimp only at hsame
      generalize call now' { w with origin := w.origin.failNext u 0 } = single at hfinal hsame
      cases hsame with
      | error => exact hfinal _ _ rfl
  · intro hk now
    rw [hretry, if_neg (by omega), iterate_refuse]
    refine ⟨_, rfl, hlater _, ?_⟩
    rw [(Origin.later_refused o u _).2, hpending]
    omega

end Origins

/-- The times of all records can be read. -/
def Dated (w : World σ) : Prop :=
  ∀ url rec, w.database.index.records.get? url = some rec → isDate rec.fetchedAt

theorem Dated.ready (h : Dated w) (ho : w.isOpen) (url : String) : Ready url w := by
  refine ⟨ho, w.database.index.records.get? url, ?_⟩
  rw [Index.record?]
  rcases hr : w.database.index.records.get? url with _ | rec
  · rfl
  · exact if_pos (h url rec hr)

section Runs

variable {w w₀ w' : World Origin} {es : List Event}

theorem Brought.dated {now : Date} {data : ByteArray} {catalog : Catalog} (h : Dated w)
    (hb : Brought c r u now.seconds data catalog w w') : Dated w' := by
  intro url rec hrec
  rw [hb.records] at hrec
  rcases eq_or_ne url u with rfl | hne
  · rw [Table.get?_set_self, Option.some.injEq] at hrec
    exact hrec ▸ now.valid
  · rw [Table.get?_set_of_ne hne] at hrec
    exact h url rec hrec

theorem dated_step (hd : IsHexDigest c.digest) (hs : Sound c r w) (h : Dated w) (e : Event) :
    Dated (step c w e) := by
  have hchange := change_step hd hs e
  generalize step c w e = w' at hchange
  generalize takes c w e = taken at hchange
  cases hchange with
  | idle hidle => exact fun url rec hrec => h url rec (hidle.database ▸ hrec)
  | serve url body => exact h
  | fetch hb => exact hb.dated h
  | refresh _ _ hb => exact hb.dated h

theorem dated_run (hd : IsHexDigest c.digest) (hs : Sound c r w) (h : Dated w) (es : List Event) :
    Dated (run c w es) := by
  induction es generalizing w with
  | nil => exact h
  | cons e es ih => exact ih (sound_step hd hs e) (dated_step hd hs h e)

/-- In every state that a run from an empty directory reaches, retrying a fetch or a refresh makes
up for as many failures as there are retries, and for no more. A closed cache makes no request, and
none is retried. -/
theorem retry_transparent (hd : IsHexDigest c.digest) (he : EmptyDirectory w.tree c.root r)
    (ho : c.open w = .ok () w₀) (es : List Event) (hp : c.pathFor u = .ok p) (policy : Retry)
    (k : Nat) :
    ((run c w₀ es).isOpen →
      Transparent policy k u (fun now => c.fetch (Origin.transport c.digest) now u) (run c w₀ es) ∧
        Transparent policy k u ((c.withManifest u).refresh (Origin.transport c.digest))
          (run c w₀ es)) ∧
      (¬ (run c w₀ es).isOpen → ∀ now o,
        retry policy (c.fetch (Origin.transport c.digest) now u)
            { run c w₀ es with origin := o } =
          .error .database { run c w₀ es with origin := o } ∧
        retry policy ((c.withManifest u).refresh (Origin.transport c.digest) now)
            { run c w₀ es with origin := o } =
          .error .database { run c w₀ es with origin := o }) := by
  rcases open_of_empty he with ⟨-, w', hok, hfresh, -⟩ | ⟨-, e, w', herr⟩
  case inr => cases ho.symm.trans herr
  cases ho.symm.trans hok
  have hdated : Dated w₀ := fun url rec hrec => by
    rw [hfresh.index] at hrec
    cases hrec
  refine ⟨fun hopen => ?_, fun hclosed now o => ?_⟩
  · have hready : Ready u (run c w₀ es) := (dated_run hd hfresh.toSound hdated es).ready hopen u
    exact ⟨(asks_fetch hp).transparent hready policy k,
      (asks_refresh (c := c.withManifest u) hp).transparent hready policy k⟩
  · have hclosed' : ¬ ({ run c w₀ es with origin := o } : World Origin).isOpen := hclosed
    exact ⟨retry_of_error rfl (fetch_of_closed hp hclosed' now) policy,
      retry_of_error rfl (refresh_of_closed (c := c.withManifest u) hp hclosed' now) policy⟩

end Runs

section Sample

/-- One failure costs one of two retries; of two failures one retry is left with the second. -/
theorem retry_transparent_sample : ∃ w₀ w₁ o, sample.open unused = .ok () w₀ ∧
    (run sample w₀ [.serve firstUrl firstBody]).isOpen ∧
    sample.pathFor firstUrl = .ok sharedPlace ∧
    retry ⟨2, .zero⟩ (sample.fetch (Origin.transport Blake3.hex) epoch.seconds firstUrl)
      (run sample w₀ [.serve firstUrl firstBody, .failNext firstUrl 1]) =
        .ok ⟨true, sharedPlace⟩ w₁ ∧
    w₁.origin.requestCount firstUrl = 2 ∧
    retry ⟨1, .zero⟩ (sample.fetch (Origin.transport Blake3.hex) epoch.seconds firstUrl)
      (run sample w₀ [.serve firstUrl firstBody, .failNext firstUrl 2]) =
        .error (.download firstUrl)
          { run sample w₀ [.serve firstUrl firstBody] with origin := o } := by
  have hd : IsHexDigest sample.digest := Blake3.isHexDigest_hex
  have hp := pathFor_firstUrl
  obtain ⟨w₀, ho, hfresh₀, horigin⟩ := open_sample
  set w := run sample w₀ [.serve firstUrl firstBody]
  have htransparent := fun policy k => ((retry_transparent hd emptyDirectory_unused ho
    [.serve firstUrl firstBody] hp policy k).1 hfresh₀.isOpen).1
  have hfresh : Fresh sample sample.root { w with origin := w.origin.failNext firstUrl 0 } :=
    hfresh₀.withOrigin _
  have hs : Serves (w.origin.failNext firstUrl 0) firstUrl firstBody := Table.get?_set_self ..
  obtain ⟨w₂, hok, hw₂⟩ := fetch_sample hfresh hp epoch.seconds (Origin.pending_failNext ..) hs
  have hsame : Same Eq (Beside (Origin.Recovered 1 firstUrl))
      (retry ⟨2, .zero⟩ (sample.fetch (Origin.transport Blake3.hex) epoch.seconds firstUrl)
        { w with origin := w.origin.failNext firstUrl 1 }) (.ok ⟨true, sharedPlace⟩ w₂) := by
    rw [← hok]
    refine (htransparent ⟨2, .zero⟩ 1).within (by decide) epoch.seconds epoch.seconds ?_
    intro e w' he
    cases hok.symm.trans he
  obtain ⟨o, herror, -⟩ := (htransparent ⟨1, .zero⟩ 2).beyond (by decide) epoch.seconds
  generalize hretried : retry ⟨2, .zero⟩ (sample.fetch (Origin.transport Blake3.hex)
    epoch.seconds firstUrl) { w with origin := w.origin.failNext firstUrl 1 } = retried at hsame
  cases hsame with
  | @ok _ _ w₁ _ h hw =>
    subst h
    refine ⟨w₀, w₁, o, ho, hfresh₀.isOpen, hp, hretried, ?_, herror⟩
    rw [hw.origin.requests, hw₂.origin, Origin.requestCount_count]
    have hnone : (w.origin.failNext firstUrl 0).requestCount firstUrl = 0 := by
      change w₀.origin.requestCount firstUrl = 0
      rw [horigin]
      rfl
    rw [hnone]

end Sample

end Depot.Cache
