import Depot.Retry
import Depot.Cache.Error
import Depot.Proofs.Number.Binary64
import Mathlib.Order.Bounds.Basic
import Mathlib.Tactic.Linarith

/-!
# The calls and the waits of a retried operation

A run calls the operation up to the first outcome that is not to be retried, or as often as there
are retries, and waits in between, each time for the number of the retry (`run_calls`). Every wait
is short enough to be a duration if the step is of no more than 2^63 seconds (`delay?_exists`).
-/

namespace Depot

namespace Duration

open Binary64

variable {s : Duration}

/-- The part of a second that the nanoseconds are is no more than one. -/
theorem exists_part (hn : s.nanos < 10 ^ 9) :
    ∃ nanos unit part, Binary64.ofNat? s.nanos = some nanos ∧
      Binary64.ofNat? (10 ^ 9) = some unit ∧ nanos.div? unit = some part ∧ part.value ≤ 1 := by
  obtain ⟨nanos, hnanos, hnanos'⟩ := ofNat?_exact (n := s.nanos) (by omega)
  obtain ⟨unit, hunit, hunit'⟩ := ofNat?_exact (n := 10 ^ 9) (by norm_num)
  have hpos : 0 < unit.value := by
    rw [hunit']
    norm_num
  have hle : nanos.value / unit.value ≤ one.value := by
    rw [value_one, div_le_one hpos, hnanos', hunit']
    exact_mod_cast hn.le
  obtain ⟨part, hpart, hpart'⟩ := div?_le hpos one_normal hle
  exact ⟨nanos, unit, part, hnanos, hunit, hpart, value_one ▸ hpart'⟩

theorem toBinary64?_le (hs : s.seconds ≤ 2 ^ 63) (hn : s.nanos < 10 ^ 9) :
    ∃ x, s.toBinary64? = some x ∧ x.value ≤ belowWord.value := by
  have hseconds : (s.seconds : ℚ) / (1 : Nat) ≤ halfWord.value := by
    rw [value_halfWord, Nat.cast_one, div_one]
    exact_mod_cast hs
  obtain ⟨whole, hwhole, hle⟩ := ofRatio?_le Nat.one_pos halfWord_normal hseconds
  obtain ⟨nanos, unit, part, hnanos, hunit, hpart, hpart'⟩ := exists_part hn
  have hsum : whole.value + part.value ≤ belowWord.value := by
    rw [value_halfWord] at hle
    rw [value_belowWord]
    linarith
  obtain ⟨x, hx, hx'⟩ := add?_le belowWord_normal hsum
  refine ⟨x, ?_, hx'⟩
  rw [toBinary64?, Binary64.ofNat?, hwhole, hnanos, hunit]
  simp only [Option.bind_eq_bind, Option.bind_some, hpart, hx]

theorem ofBinary64?_exists {x : Binary64} (h : x.value ≤ belowWord.value) :
    ∃ d, ofBinary64? x = some d := by
  have hround : roundHalfEven (x.numerator * 10 ^ 9) x.denominator ≤
      (2 ^ 64 - 2 ^ 11) * 10 ^ 9 := by
    refine roundHalfEven_le x.denominator_pos ?_
    have hpos : (0 : ℚ) < x.denominator := by exact_mod_cast x.denominator_pos
    rw [value_eq, value_belowWord, div_le_iff₀ hpos] at h
    have hle : x.numerator ≤ (2 ^ 64 - 2 ^ 11) * x.denominator := by
      norm_num at h ⊢
      exact_mod_cast h
    rw [Nat.mul_right_comm]
    exact Nat.mul_le_mul_right _ hle
  rw [ofBinary64?, if_pos (by omega)]
  exact ⟨_, rfl⟩

end Duration

namespace Retry

open Binary64

variable {r : Retry}

/-- A share of a step is no longer than the step, and rounding does not take it past 2^64 seconds.
-/
theorem delay?_exists (hr : r.retries < 2 ^ 32) (hs : r.step.seconds ≤ 2 ^ 63)
    (hn : r.step.nanos < 10 ^ 9) (attempt : Nat) : ∃ d, r.delay? attempt = some d := by
  rw [delay?]
  split_ifs with h0
  · exact ⟨_, rfl⟩
  obtain ⟨part, hpart, hpart'⟩ := ofNat?_exact (n := min attempt r.retries) (by omega)
  obtain ⟨whole, hwhole, hwhole'⟩ := ofNat?_exact (n := r.retries) (by omega)
  have hpos : 0 < whole.value := by
    rw [hwhole']
    exact_mod_cast Nat.pos_of_ne_zero h0
  have hle : part.value / whole.value ≤ one.value := by
    rw [value_one, div_le_one hpos, hpart', hwhole']
    exact_mod_cast Nat.min_le_right _ _
  obtain ⟨share, hshare, hshare'⟩ := div?_le hpos one_normal hle
  obtain ⟨step, hstep, hstep'⟩ := Duration.toBinary64?_le hs hn
  have hmul : step.value * share.value ≤ belowWord.value := by
    rw [value_one] at hshare'
    exact (mul_le_of_le_one_right step.value_nonneg hshare').trans hstep'
  obtain ⟨x, hx, hx'⟩ := mul?_le belowWord_normal hmul
  obtain ⟨d, hd⟩ := Duration.ofBinary64?_exists hx'
  refine ⟨d, ?_⟩
  simp only [Option.bind_eq_bind, Option.bind_eq_some_iff]
  exact ⟨part, hpart, whole, hwhole, share, hshare, step, hstep, x, hx, hd⟩

/-- What is seen of a run: a call, or the wait before retry number `attempt`. -/
inductive Step where
  | call
  | wait (attempt : Nat) (d : Duration)
  deriving DecidableEq

section Trace

variable {ε α : Type} {isRetryable : ε → Bool} {outcomes : Nat → Except ε α}
  {steps : List Step} {n attempt left : Nat}

/-- An operation that writes down its calls; call number `n`, from 0 on, has the outcome
`outcomes n`. -/
def called (outcomes : Nat → Except ε α) : EStateM Unit (List Step) (Except ε α) := fun steps =>
  .ok (outcomes (steps.count .call)) (steps ++ [.call])

/-- A wait that is written down. One that is too long for a duration ends the program. -/
def waited (r : Retry) (attempt : Nat) : EStateM Unit (List Step) Unit := fun steps =>
  match r.delay? attempt with
  | some d => .ok () (steps ++ [.wait attempt d])
  | none => .error () steps

/-- The first call and `n` retries, unless one of the waits is too long. -/
def history (r : Retry) : Nat → Option (List Step)
  | 0 => some [.call]
  | n + 1 => do
    let steps ← r.history n
    let d ← r.delay? (n + 1)
    some (steps ++ [.wait (n + 1) d, .call])

/-- An outcome after which nothing is run again. -/
def Settles (isRetryable : ε → Bool) (o : Except ε α) : Prop :=
  ∀ e, o = .error e → isRetryable e = false

/-- A run with `n` retries: its outcome is that of its last call. -/
structure EndsAfter (r : Retry) (outcomes : Nat → Except ε α) (n : Nat)
    (run : EStateM.Result Unit (List Step) (Except ε α)) : Prop where
  ended : ∀ steps, r.history n = some steps → run = .ok (outcomes n) steps
  /-- The first wait that cannot be told ends the program. -/
  stopped : r.history n = none → ∃ i < n, ∃ steps,
    r.history i = some steps ∧ r.delay? (i + 1) = none ∧ run = .error () steps

theorem history_succ (r : Retry) (n : Nat) :
    r.history (n + 1) = (r.history n).bind fun steps => (r.delay? (n + 1)).map fun d =>
      steps ++ [.wait (n + 1) d, .call] := by
  rw [history]
  cases r.history n <;> cases r.delay? (n + 1) <;> rfl

theorem history_isSome (h : ∀ a, ∃ d, r.delay? a = some d) (n : Nat) :
    ∃ steps, r.history n = some steps := by
  induction n with
  | zero => exact ⟨_, rfl⟩
  | succ n ih =>
    obtain ⟨steps, hsteps⟩ := ih
    obtain ⟨d, hd⟩ := h (n + 1)
    rw [history_succ, hsteps, hd]
    exact ⟨_, rfl⟩

theorem history_eq_none_of_le (h : r.history attempt = none) (hle : attempt ≤ n) :
    r.history n = none := by
  induction n, hle using Nat.le_induction with
  | base => exact h
  | succ n hle ih => rw [history_succ, ih, Option.bind_none]

theorem count_call_of_history (h : r.history n = some steps) : steps.count .call = n + 1 := by
  induction n generalizing steps with
  | zero =>
    cases h
    rfl
  | succ n ih =>
    rw [history_succ] at h
    obtain ⟨before, hbefore, h⟩ := Option.bind_eq_some_iff.1 h
    obtain ⟨d, -, rfl⟩ := Option.map_eq_some_iff.1 h
    rw [List.count_append, ih hbefore]
    rfl

theorem le_of_wait_mem {a : Nat} {d : Duration} (h : r.history n = some steps)
    (ha : .wait a d ∈ steps) : a ≤ n := by
  induction n generalizing steps with
  | zero =>
    cases h
    simp at ha
  | succ n ih =>
    rw [history_succ] at h
    obtain ⟨before, hbefore, h⟩ := Option.bind_eq_some_iff.1 h
    obtain ⟨d', -, rfl⟩ := Option.map_eq_some_iff.1 h
    rcases List.mem_append.1 ha with ha | ha
    · exact (ih hbefore ha).trans n.le_succ
    · simp only [List.mem_cons, Step.wait.injEq, reduceCtorEq, List.not_mem_nil, or_false] at ha
      exact ha.1.le

theorem endsAfter_of_history {run : EStateM.Result Unit (List Step) (Except ε α)}
    (h : r.history n = some steps) (hrun : run = .ok (outcomes n) steps) :
    r.EndsAfter outcomes n run := by
  refine ⟨fun steps' h' => ?_, fun h' => ?_⟩
  · cases h.symm.trans h'
    exact hrun
  · cases h.symm.trans h'

/-- A call whose outcome settles is the last one. -/
theorem runFrom_of_settles (h : Settles isRetryable (outcomes (steps.count .call))) :
    runFrom isRetryable r.waited (called outcomes) attempt left steps =
      .ok (outcomes (steps.count .call)) (steps ++ [.call]) := by
  cases left with
  | zero => rfl
  | succ left =>
    rw [runFrom]
    rcases hout : outcomes (steps.count .call) with e | a
    · simp only [bind, EStateM.bind, called, hout, h e hout, Bool.false_eq_true, if_false]
      rfl
    · simp only [bind, EStateM.bind, called, hout]
      rfl

/-- After any other call there is a wait, and then the run goes on. -/
theorem runFrom_of_not_settles (h : ¬ Settles isRetryable (outcomes (steps.count .call))) :
    runFrom isRetryable r.waited (called outcomes) attempt (left + 1) steps =
      match r.delay? (attempt + 1) with
      | some d => runFrom isRetryable r.waited (called outcomes) (attempt + 1) left
          (steps ++ [.call] ++ [.wait (attempt + 1) d])
      | none => .error () (steps ++ [.call]) := by
  simp only [Settles, not_forall, Bool.not_eq_false] at h
  obtain ⟨e, hout, he⟩ := h
  rw [runFrom]
  simp only [bind, EStateM.bind, called, hout, he, if_true, waited]
  cases r.delay? (attempt + 1) <;> rfl

/-- Behind `attempt` retries, all of them written down in `steps` but for the last call, the run
goes on up to the first outcome that settles. -/
theorem runFrom_endsAfter (hsteps : r.history attempt = some (steps ++ [.call]))
    (hle : attempt ≤ n) (hn : n ≤ attempt + left)
    (hbefore : ∀ i < n, ¬ Settles isRetryable (outcomes i))
    (hlast : n = attempt + left ∨ Settles isRetryable (outcomes n)) :
    r.EndsAfter outcomes n (runFrom isRetryable r.waited (called outcomes) attempt left steps) := by
  have hcount : steps.count .call = attempt := by
    have := count_call_of_history hsteps
    rw [List.count_append] at this
    exact Nat.succ.inj this
  induction left generalizing attempt steps with
  | zero =>
    obtain rfl : n = attempt := by omega
    refine endsAfter_of_history hsteps ?_
    rw [← hcount]
    rfl
  | succ left ih =>
    by_cases hs : Settles isRetryable (outcomes attempt)
    · obtain rfl : n = attempt := by
        by_contra hne
        exact hbefore attempt (by omega) hs
      refine endsAfter_of_history hsteps ?_
      rw [← hcount] at hs
      rw [runFrom_of_settles hs, hcount]
    · have hlt : attempt < n := by
        refine hle.lt_of_ne fun heq => ?_
        rcases hlast with h | h
        · omega
        · exact hs (heq ▸ h)
      have hsucc := r.history_succ attempt
      rw [hsteps, Option.bind_some] at hsucc
      rw [runFrom_of_not_settles (by rwa [hcount])]
      cases hd : r.delay? (attempt + 1) with
      | none =>
        rw [hd] at hsucc
        have hnone := history_eq_none_of_le hsucc hlt
        refine ⟨fun steps' h => ?_, fun _ => ⟨attempt, hlt, _, hsteps, hd, rfl⟩⟩
        cases hnone.symm.trans h
      | some d =>
        rw [hd, Option.map_some] at hsucc
        refine ih (by rw [hsucc]; simp) hlt (by omega) (hlast.imp_left fun h => by omega) ?_
        rw [List.count_append, List.count_append, hcount]
        rfl

/-- The run goes on up to the first outcome that settles, and otherwise up to the last retry. -/
theorem run_endsAfter (r : Retry) (hn : n ≤ r.retries)
    (hbefore : ∀ i < n, ¬ Settles isRetryable (outcomes i))
    (hlast : n = r.retries ∨ Settles isRetryable (outcomes n)) :
    r.EndsAfter outcomes n (r.run isRetryable r.waited (called outcomes) []) := by
  have hfirst : r.history 0 = some ([] ++ [.call]) := rfl
  exact runFrom_endsAfter hfirst n.zero_le (by omega) hbefore (hlast.imp_left (by omega))

/-- There is an `n` at which a search from 0 on stops: it has come to `limit` or found a `p`. -/
theorem exists_stop (p : Nat → Prop) (limit : Nat) :
    ∃ n ≤ limit, (∀ i < n, ¬ p i) ∧ (n = limit ∨ p n) := by
  classical
  have hex : ∃ n, n = limit ∨ p n := ⟨limit, .inl rfl⟩
  refine ⟨Nat.find hex, Nat.find_le (.inl rfl), fun i hi hp => ?_, Nat.find_spec hex⟩
  exact Nat.find_min hex hi (.inr hp)

/-- The operation is called up to the first outcome that settles, number `k`, but no more than
`r.retries` times again; the outcome of the last call is that of the run, and in between are the
waits before retries 1, 2 and so on. The number of a retry never passes `r.retries`. -/
theorem run_calls (hr : r.retries < 2 ^ 32) (hnanos : r.step.nanos < 10 ^ 9)
    (outcomes : Nat → Except Cache.Error α) :
    ∃ n ≤ r.retries,
      (∀ k, IsLeast {i | Settles Cache.Error.isRetryable (outcomes i)} k → n = min k r.retries) ∧
      ((∀ i, ¬ Settles Cache.Error.isRetryable (outcomes i)) → n = r.retries) ∧
      r.EndsAfter outcomes n (r.run Cache.Error.isRetryable r.waited (called outcomes) []) ∧
      (∀ i steps, r.history i = some steps →
        steps.count .call = i + 1 ∧ ∀ a d, .wait a d ∈ steps → a ≤ i) ∧
      (r.step.seconds ≤ 2 ^ 63 → ∃ steps, r.history n = some steps) := by
  obtain ⟨n, hn, hbefore, hlast⟩ :=
    exists_stop (fun i => Settles Cache.Error.isRetryable (outcomes i)) r.retries
  refine ⟨n, hn, fun k hk => ?_, fun hnone => hlast.resolve_right (hnone n),
    run_endsAfter r hn hbefore hlast,
    fun i steps h => ⟨count_call_of_history h, fun a d => le_of_wait_mem h⟩,
    fun hs => history_isSome (delay?_exists hr hs hnanos) n⟩
  rcases hlast with rfl | hlast
  · refine (min_eq_right (Nat.le_of_not_lt fun hlt => ?_)).symm
    exact hbefore k hlt hk.1
  · obtain rfl : n = k := by
      refine Nat.le_antisymm (Nat.le_of_not_lt fun hlt => ?_) (hk.2 hlast)
      exact hbefore k hlt hk.1
    exact (min_eq_left hn).symm

/-- A transfer that breaks off twice and then finds that there is nothing. -/
def brokenTwice : Nat → Except Cache.Error Unit
  | 0 | 1 => .error (.download "u")
  | _ => .error (.httpStatus "u" 404)

theorem isLeast_brokenTwice :
    IsLeast {i | Settles Cache.Error.isRetryable (brokenTwice i)} 2 := by
  refine ⟨fun e h => ?_, fun i hi => ?_⟩
  · cases h
    rfl
  · by_contra hlt
    have hfirst : brokenTwice i = .error (.download "u") := by
      obtain rfl | rfl : i = 0 ∨ i = 1 := by omega
      all_goals rfl
    cases hi _ hfirst

/-- The third outcome is one that is not retried, so the last of three retries is not made. -/
theorem run_calls_brokenTwice :
    Retry.run ⟨3, ⟨10, 0⟩⟩ Cache.Error.isRetryable (waited ⟨3, ⟨10, 0⟩⟩) (called brokenTwice) [] =
      .ok (.error (.httpStatus "u" 404))
        [.call, .wait 1 ⟨3, 333333333⟩, .call, .wait 2 ⟨6, 666666667⟩, .call] := by
  obtain ⟨n, -, hn, -, hrun, -⟩ := run_calls (r := ⟨3, ⟨10, 0⟩⟩) (by decide) (by decide) brokenTwice
  obtain rfl : n = 2 := hn 2 isLeast_brokenTwice
  exact hrun.ended _ (by decide +kernel)

end Trace

end Retry

end Depot
