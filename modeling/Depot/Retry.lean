import Depot.Number.Binary64

/-!
# Retrying

An operation that fails for a passing cause is run again, up to a number of times and each time
after a longer wait. `run` works in any monad that can wait, so that what it does can be observed.
-/

namespace Depot

/-- A time of `seconds`, below 2^64, and `nanos`, below 10^9. -/
structure Duration where
  seconds : Nat
  nanos : Nat
  deriving DecidableEq, Repr

namespace Duration

def zero : Duration := ⟨0, 0⟩

/-- The number of seconds; one of 64 bits is never too large. -/
def toBinary64? (s : Duration) : Option Binary64 := do
  let whole ← Binary64.ofNat? s.seconds
  let nanos ← Binary64.ofNat? s.nanos
  let unit ← Binary64.ofNat? (10 ^ 9)
  whole.add? (← nanos.div? unit)

/-- The duration nearest to a number of seconds, unless it has 2^64 seconds or more. -/
def ofBinary64? (x : Binary64) : Option Duration :=
  let nanos := roundHalfEven (x.numerator * 10 ^ 9) x.denominator
  if nanos / 10 ^ 9 < 2 ^ 64 then some ⟨nanos / 10 ^ 9, nanos % 10 ^ 9⟩ else none

end Duration

structure Retry where
  /-- How often the operation is run again; below 2^32. -/
  retries : Nat
  /-- The wait before the last attempt. -/
  step : Duration := ⟨10, 0⟩
  deriving DecidableEq, Repr

namespace Retry

/-- The wait before retry number `attempt`: that share of the step, unless rounding makes it longer
than a duration can be. -/
def delay? (r : Retry) (attempt : Nat) : Option Duration :=
  if r.retries = 0 then some .zero
  else do
    let part ← Binary64.ofNat? (min attempt r.retries)
    let whole ← Binary64.ofNat? r.retries
    let share ← part.div? whole
    Duration.ofBinary64? (← (← r.step.toBinary64?).mul? share)

section Run

variable {m : Type → Type} [Monad m] {ε α : Type}

/-- Runs `operation` and, after failures that `isRetryable` admits, up to `left` times more; the
attempts before this one are `attempt`. -/
def runFrom (isRetryable : ε → Bool) (wait : Nat → m Unit) (operation : m (Except ε α))
    (attempt : Nat) : (left : Nat) → m (Except ε α)
  | 0 => operation
  | left + 1 => do
    match ← operation with
    | .ok a => pure (.ok a)
    | .error e =>
      if isRetryable e then do
        wait (attempt + 1)
        runFrom isRetryable wait operation (attempt + 1) left
      else pure (.error e)

/-- `wait` is told the number of the retry that it comes before. -/
def run (r : Retry) (isRetryable : ε → Bool) (wait : Nat → m Unit)
    (operation : m (Except ε α)) : m (Except ε α) :=
  runFrom isRetryable wait operation 0 r.retries

end Run

end Retry

end Depot
