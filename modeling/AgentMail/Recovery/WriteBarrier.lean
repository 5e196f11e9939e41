import AgentMail.Lib.Trace

/-!
# The write barrier

`crates/mcp-agent-mail-db/src/write_barrier.rs:99–479`: writers hold write guards, a recovery that
swaps the database file holds the promotion barrier, and no swap may run under a live write. Every
step is what one thread does while it holds the state's mutex, together with the thread-local depth
that it reads and sets around it. Elapsed times are whatever the thread reads.

The writer count is a `usize`; it does not saturate, since no process has as many live guards.
Diagnostics while a writer waits are left out: they run without the mutex and change nothing.
-/

namespace AgentMail.Recovery

open Lib

structure BarrierState where
  writers : Nat
  promotionActive : Bool
  promotionReady : Bool

def BarrierState.canPromote (s : BarrierState) : Bool :=
  s.promotionActive && s.promotionReady && s.writers == 0

inductive DrainOutcome where
  | idle
  | drained (waited : Nat)
  | timedOut (remainingWriters : Nat)

def DrainOutcome.isTimedOut : DrainOutcome → Bool
  | .timedOut _ => true
  | _ => false

/-- The budget wins over a drain that ends too late. -/
def drainProgress (remainingWriters waited timeout : Nat) : Option DrainOutcome :=
  if timeout ≤ waited then some (.timedOut remainingWriters)
  else if remainingWriters = 0 then some (.drained waited)
  else none

/-! ### Threads -/

/-- Where a thread is: it runs, or it waits on a condition variable in `begin_write_activity` or in
`acquire_promotion_barrier_draining`. -/
inductive Phase where
  | running
  | beginning
  | queued (timeout : Nat)
  | draining (timeout : Nat)
  deriving DecidableEq

/-- `guards` are the promotion guards that the thread has, with their `participating` flags, and
`depth` is `THREAD_BARRIER_DEPTH`. -/
structure Thread where
  guards : List Bool
  depth : Nat
  phase : Phase

/-- `PromotionBarrierGuard::new_held`. -/
def Thread.newHeld (th : Thread) : Thread :=
  { guards := th.guards ++ [true], depth := th.depth + 1, phase := .running }

/-- `PromotionBarrierGuard::new_unheld`. -/
def Thread.newUnheld (th : Thread) : Thread :=
  { guards := th.guards ++ [false], depth := th.depth, phase := .running }

def Thread.wait (th : Thread) (phase : Phase) : Thread := { th with phase }

/-- Write guards may move between threads, so they belong to the process. -/
structure Process where
  barrier : BarrierState
  threads : Nat → Thread
  writeGuards : List Nat
  issued : Nat

def Process.start : Process where
  barrier := ⟨0, false, false⟩
  threads _ := ⟨[], 0, .running⟩
  writeGuards := []
  issued := 0

inductive Response where
  | waiting
  | refused
  | writing (guard : Nat)
  | granted
  | promotion (participating : Bool) (outcome : DrainOutcome)
  | dropped

/-- Whether a promotion may go ahead. -/
def Response.permits : Response → Bool
  | .granted => true
  | .promotion _ outcome => !outcome.isTimedOut
  | _ => false

namespace Process

/-- `current_thread_holds_barrier`. -/
def holdsBarrier (p : Process) (t : Nat) : Bool := 0 < (p.threads t).depth

/-- `current_thread_holds_promotion_barrier`. -/
def holdsPromotionBarrier (p : Process) (t : Nat) : Bool :=
  p.holdsBarrier t && p.barrier.canPromote

/-- What thread `t` leaves behind when it unlocks the mutex. -/
def unlock (p : Process) (t : Nat) (barrier : BarrierState) (th : Thread) : Process :=
  { p with barrier, threads := Function.update p.threads t th }

/-! ### Writers -/

/-- Counts a writer and gives it a guard. -/
def admitWriter (p : Process) (t : Nat) : Response × Process :=
  (.writing p.issued, { p.unlock t { p.barrier with writers := p.barrier.writers + 1 }
        ((p.threads t).wait .running) with
      writeGuards := p.writeGuards ++ [p.issued]
      issued := p.issued + 1 })

/-- `begin_write_activity`, up to its first wait. -/
def beginWriteActivity (p : Process) (t : Nat) : Response × Process :=
  if p.holdsBarrier t then p.admitWriter t
  else if p.barrier.promotionActive then
    (.waiting, p.unlock t p.barrier ((p.threads t).wait .beginning))
  else p.admitWriter t

/-- A writer that waited looks again. -/
def wakeWriter (p : Process) (t : Nat) : Response × Process :=
  if p.barrier.promotionActive then (.waiting, p) else p.admitWriter t

/-- `contended`: `try_lock` did not get the mutex. -/
def tryBeginWriteActivity (p : Process) (t : Nat) (contended : Bool) : Response × Process :=
  if contended then (.refused, p)
  else if p.barrier.promotionActive then (.refused, p)
  else p.admitWriter t

/-- `WriteActivityGuard::drop`. -/
def dropWriteGuard (p : Process) (guard : Nat) : Response × Process :=
  (.dropped, { p with
      barrier := { p.barrier with writers := p.barrier.writers - 1 }
      writeGuards := p.writeGuards.erase guard })

/-! ### Promotions -/

def tryAcquirePromotionBarrierIfIdle (p : Process) (t : Nat) : Response × Process :=
  if p.holdsBarrier t then
    if p.barrier.canPromote then (.granted, p.unlock t p.barrier (p.threads t).newHeld)
    else (.refused, p)
  else if p.barrier.promotionActive || decide (0 < p.barrier.writers) then (.refused, p)
  else
    (.granted, p.unlock t { p.barrier with promotionActive := true, promotionReady := true }
        (p.threads t).newHeld)

/-- A call that owns nothing. -/
def timeOutUnheld (p : Process) (t : Nat) : Response × Process :=
  (.promotion false (.timedOut p.barrier.writers), p.unlock t p.barrier (p.threads t).newUnheld)

/-- The end of a drain. -/
def finishDrain (p : Process) (t : Nat) (outcome : DrainOutcome) : Response × Process :=
  (.promotion true outcome,
    p.unlock t { p.barrier with promotionActive := true, promotionReady := !outcome.isTimedOut }
      (p.threads t).newHeld)

/-- One turn of the drain loop. -/
def drain (p : Process) (t timeout waited : Nat) : Response × Process :=
  match drainProgress p.barrier.writers waited timeout with
  | some outcome => p.finishDrain t outcome
  | none =>
    (.waiting, p.unlock t { p.barrier with promotionActive := true, promotionReady := false }
        ((p.threads t).wait (.draining timeout)))

/-- Takes the barrier, which nobody has. -/
def takeBarrier (p : Process) (t timeout waited : Nat) : Response × Process :=
  if p.barrier.writers = 0 then p.finishDrain t .idle else p.drain t timeout waited

/-- One turn of the queue loop. -/
def queue (p : Process) (t timeout elapsed : Nat) : Response × Process :=
  if timeout - elapsed = 0 then p.timeOutUnheld t
  else (.waiting, p.unlock t p.barrier ((p.threads t).wait (.queued timeout)))

/-- `acquire_promotion_barrier_draining`, up to its first wait. -/
def acquirePromotionBarrierDraining (p : Process) (t timeout elapsed waited : Nat) :
    Response × Process :=
  if p.holdsBarrier t then
    if p.barrier.canPromote then
      (.promotion true .idle, p.unlock t p.barrier (p.threads t).newHeld)
    else p.timeOutUnheld t
  else if p.barrier.promotionActive then p.queue t timeout elapsed
  else p.takeBarrier t timeout waited

/-- A queued promotion looks again. -/
def wakeQueued (p : Process) (t timeout elapsed waited : Nat) : Response × Process :=
  if p.barrier.promotionActive then p.queue t timeout elapsed
  else if timeout ≤ elapsed then p.timeOutUnheld t
  else p.takeBarrier t timeout waited

/-- `PromotionBarrierGuard::drop` of one of the thread's guards. -/
def dropPromotionGuard (p : Process) (t i : Nat) (participating : Bool) : Response × Process :=
  let th := p.threads t
  let guards := th.guards.eraseIdx i
  if !participating then (.dropped, p.unlock t p.barrier { th with guards })
  else
    let remaining := th.depth - 1
    (.dropped, p.unlock t
        (if remaining = 0 then { p.barrier with promotionReady := false, promotionActive := false }
          else p.barrier)
        { th with guards, depth := remaining })

end Process

/-! ### Steps -/

/-- The steps of the threads. A wake may be spurious; `elapsed` and `waited` are the times that the
thread reads in its two loops. -/
inductive Event where
  | beginWriteActivity (t : Nat)
  | wakeWriter (t : Nat)
  | tryBeginWriteActivity (t : Nat) (contended : Bool)
  | dropWriteGuard (guard : Nat)
  | tryAcquire (t : Nat)
  | acquire (t timeout elapsed waited : Nat)
  | wakeQueued (t elapsed waited : Nat)
  | wakeDraining (t waited : Nat)
  | dropPromotionGuard (t i : Nat)

/-- A step is taken only where it can be: a thread that waits does nothing else. -/
def Process.step (p : Process) : Event → Option (Response × Process)
  | .beginWriteActivity t =>
    if (p.threads t).phase = .running then some (p.beginWriteActivity t) else none
  | .wakeWriter t => if (p.threads t).phase = .beginning then some (p.wakeWriter t) else none
  | .tryBeginWriteActivity t contended =>
    if (p.threads t).phase = .running then some (p.tryBeginWriteActivity t contended) else none
  | .dropWriteGuard guard => if guard ∈ p.writeGuards then some (p.dropWriteGuard guard) else none
  | .tryAcquire t =>
    if (p.threads t).phase = .running then some (p.tryAcquirePromotionBarrierIfIdle t) else none
  | .acquire t timeout elapsed waited =>
    if (p.threads t).phase = .running then
      some (p.acquirePromotionBarrierDraining t timeout elapsed waited)
    else none
  | .wakeQueued t elapsed waited =>
    match (p.threads t).phase with
    | .queued timeout => some (p.wakeQueued t timeout elapsed waited)
    | _ => none
  | .wakeDraining t waited =>
    match (p.threads t).phase with
    | .draining timeout => some (p.drain t timeout waited)
    | _ => none
  | .dropPromotionGuard t i =>
    if (p.threads t).phase = .running then
      (p.threads t).guards[i]?.map fun participating => p.dropPromotionGuard t i participating
    else none

/-- The thread that asks for a promotion. -/
def Event.promoter? : Event → Option Nat
  | .tryAcquire t | .acquire t .. | .wakeQueued t .. | .wakeDraining t _ => some t
  | _ => none

end AgentMail.Recovery
