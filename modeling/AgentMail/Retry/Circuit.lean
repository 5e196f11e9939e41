import Mathlib.Algebra.Order.Ring.Nat
import AgentMail.Lib.Trace

/-!
# The circuit breaker

`crates/mcp-agent-mail-db/src/retry.rs:95–537`: calls are refused while the circuit is open, and a
half-open circuit lets one probe at a time through. Every step is one critical section; the clock is
read before the mutex is taken, so the readings of two steps may come in either order.

An `Arc` identity is a number that is handed out once. Durations are in nanoseconds. Left out are
the texts of the refusals, the logged transitions and the two unscoped calls `check` and
`record_success`, which are for callers that serialize themselves.
-/

namespace AgentMail.Retry

open Lib

inductive CircuitState where
  | closed
  | open
  | halfOpen
  deriving DecidableEq

def u64Max : Nat := 2 ^ 64 - 1

def u32Max : Nat := 2 ^ 32 - 1

/-- `micros_from_duration`. -/
def microsFromDuration (d : Nat) : Nat := min (d / 1000) u64Max

/-- `HALF_OPEN_PROBE_INTERVAL`. -/
def halfOpenProbeInterval : Nat := 5 * 10 ^ 9

/-- `HALF_OPEN_SUCCESS_THRESHOLD`. -/
def halfOpenSuccessThreshold : Nat := 3

structure CircuitData where
  failures : Nat
  halfOpenSuccesses : Nat
  openUntilUs : Option Nat
  lastProbeUs : Option Nat
  generation : Nat
  activeProbe : Option Nat

/-- `CircuitData::default` with a fresh generation. -/
def CircuitData.default (generation : Nat) : CircuitData :=
  ⟨0, 0, none, none, generation, none⟩

namespace CircuitData

def state (d : CircuitData) (nowUs : Nat) : CircuitState :=
  match d.openUntilUs with
  | none => .closed
  | some til => if nowUs < til then .open else .halfOpen

/-- `fresh` is the identity that a new generation gets. -/
def recordSuccess (d : CircuitData) (nowUs fresh : Nat) : CircuitData :=
  match d.state nowUs with
  | .closed => { d with failures := 0 }
  | .halfOpen =>
    let successes := min (d.halfOpenSuccesses + 1) u32Max
    if halfOpenSuccessThreshold ≤ successes then .default fresh
    else { d with halfOpenSuccesses := successes }
  | .open => d

def recordFailure (d : CircuitData) (nowUs threshold resetDuration fresh : Nat) : CircuitData :=
  let failures := min (d.failures + 1) u32Max
  if threshold ≤ failures then
    let til := min (nowUs + microsFromDuration resetDuration) u64Max
    { d with
      failures
      halfOpenSuccesses := 0
      openUntilUs := some (d.openUntilUs.elim til (max · til))
      generation := fresh
      activeProbe := none }
  else { d with failures, halfOpenSuccesses := 0 }

end CircuitData

structure CircuitRefusal where
  failures : Nat
  remainingUs : Nat
  halfOpen : Bool
  probeInFlight : Bool

/-- `admit_state`. -/
def admitState (d : CircuitData) (nowUs : Nat) :
    Except CircuitRefusal (CircuitState × CircuitData) :=
  let intervalUs := microsFromDuration halfOpenProbeInterval
  match d.state nowUs with
  | .closed => .ok (.closed, d)
  | .open => .error ⟨d.failures, d.openUntilUs.getD nowUs - nowUs, false, false⟩
  | .halfOpen =>
    if d.activeProbe.isSome then .error ⟨d.failures, intervalUs, true, true⟩
    else
      match d.lastProbeUs with
      | some last =>
        if nowUs - last < intervalUs then
          .error ⟨d.failures, intervalUs - (nowUs - last), true, false⟩
        else .ok (.halfOpen, { d with lastProbeUs := some nowUs })
      | none => .ok (.halfOpen, { d with lastProbeUs := some nowUs })

/-- `CircuitBreaker`; the threshold of a `u32` is at least one. -/
structure CircuitBreaker where
  threshold : Nat
  resetDuration : Nat
  one_le : 1 ≤ threshold
  fits : threshold ≤ u32Max

/-- `CircuitBreaker::with_subsystem`. -/
def CircuitBreaker.withSubsystem (threshold : UInt32) (resetDuration : Nat) : CircuitBreaker where
  threshold := max threshold.toNat 1
  resetDuration
  one_le := Nat.le_max_right _ _
  fits := Nat.max_le.mpr ⟨Nat.le_pred_of_lt threshold.toNat_lt, by decide⟩

/-- `CircuitAttempt`; `id` tells the tokens apart. -/
structure CircuitAttempt where
  id : Nat
  generation : Nat
  probe : Option Nat
  admittedState : CircuitState
  deriving DecidableEq

inductive AttemptResult where
  | success
  | failure
  | abandoned
  deriving DecidableEq

/-- The circuit with the tokens that are in flight; `issued` identities are taken. -/
structure Circuit where
  data : CircuitData
  inFlight : List CircuitAttempt
  issued : Nat

def Circuit.start : Circuit := ⟨.default 0, [], 1⟩

inductive Response where
  | admitted (attempt : CircuitAttempt)
  | refused (refusal : CircuitRefusal)
  | done

namespace Circuit

/-- `begin_attempt_at`. -/
def beginAttempt (s : Circuit) (nowUs : Nat) : Response × Circuit :=
  match admitState s.data nowUs with
  | .error refusal => (.refused refusal, s)
  | .ok (admittedState, data) =>
    let probe := if admittedState = .halfOpen then some s.issued else none
    let attempt : CircuitAttempt := ⟨s.issued, data.generation, probe, admittedState⟩
    (.admitted attempt, ⟨{ data with activeProbe := probe }, attempt :: s.inFlight, s.issued + 1⟩)

/-- Whether the token may still report: it is of the current generation, and a probe owns the
slot. -/
def accepts (s : Circuit) (attempt : CircuitAttempt) : Bool :=
  attempt.generation == s.data.generation &&
    (attempt.probe.isNone || attempt.probe == s.data.activeProbe)

end Circuit

namespace CircuitBreaker

/-- What the circuit learns from one result. -/
def record (b : CircuitBreaker) (data : CircuitData) (attempt : CircuitAttempt)
    (result : AttemptResult) (nowUs fresh : Nat) : CircuitData :=
  match result with
  | .success => data.recordSuccess nowUs fresh
  | .failure => data.recordFailure nowUs b.threshold b.resetDuration fresh
  | .abandoned => if attempt.probe.isSome then { data with halfOpenSuccesses := 0 } else data

/-- `finish_attempt`. -/
def finishAttempt (b : CircuitBreaker) (s : Circuit) (attempt : CircuitAttempt)
    (result : AttemptResult) (nowUs : Nat) : Circuit :=
  if s.accepts attempt then
    let data := if attempt.probe.isSome then { s.data with activeProbe := none } else s.data
    { s with data := b.record data attempt result nowUs s.issued, issued := s.issued + 1 }
  else s

/-- The token is used up, whatever its report does. `CircuitAttempt::drop` reports the loss of a
probe only. -/
def finish (b : CircuitBreaker) (s : Circuit) (attempt : CircuitAttempt) (result : AttemptResult)
    (nowUs : Nat) : Circuit :=
  let s := { s with inFlight := s.inFlight.erase attempt }
  if result = .abandoned ∧ attempt.probe = none then s
  else b.finishAttempt s attempt result nowUs

/-- `record_failure`. -/
def recordFailure (b : CircuitBreaker) (s : Circuit) (nowUs : Nat) : Circuit :=
  { s with
    data := s.data.recordFailure nowUs b.threshold b.resetDuration s.issued
    issued := s.issued + 1 }

end CircuitBreaker

/-- `reset`. -/
def Circuit.reset (s : Circuit) : Circuit :=
  { s with data := .default s.issued, issued := s.issued + 1 }

/-! ### Steps -/

/-- `elapsed` is how long ago the breaker was made, when the clock was read. A token that is dropped
is one that finishes abandoned. -/
inductive Event where
  | beginAttempt (elapsed : Nat)
  | finish (attempt : CircuitAttempt) (result : AttemptResult) (elapsed : Nat)
  | recordFailure (elapsed : Nat)
  | reset

/-- Only a token in flight can finish. -/
def CircuitBreaker.step (b : CircuitBreaker) (s : Circuit) : Event → Option (Response × Circuit)
  | .beginAttempt elapsed => some (s.beginAttempt (microsFromDuration elapsed))
  | .finish attempt result elapsed =>
    if attempt ∈ s.inFlight then
      some (.done, b.finish s attempt result (microsFromDuration elapsed))
    else none
  | .recordFailure elapsed => some (.done, b.recordFailure s (microsFromDuration elapsed))
  | .reset => some (.done, s.reset)

end AgentMail.Retry
