import AgentMail.Lib.FlushBarrier
import AgentMail.Lib.Trace

/-!
# The write-behind queue

`crates/mcp-agent-mail-storage/src/lib.rs:1204–1557`, `2895–3022` and `3473–3719`: callers accept
archive writes into a bounded channel, a drain thread takes them out in batches and executes them.
The receiver lives in a slot that every drain thread reads through, and a restart moves what is left
in an old channel to a new one.

A step is what one thread does under one lock, at one channel or at one counter. Who holds the
lifecycle mutex is stored with what he does next, since nobody else sees it. Ops are
numbered as they are accepted, flushes as they are called. A wait may end at any time: deadlines are not
modelled, nor is who still has a sender, so a receiver that finds nothing buffered may always be
told that the senders are gone. How many ops go into one write is up to the step. Metrics, logs and
what a write does are left out; a write that panics or fails ends like any other.
-/

namespace AgentMail.WriteBehind

open Lib

/-- `WbqMsg`. -/
abbrev WbqMsg := Item Nat

@[match_pattern] abbrev WbqMsg.op (op : Nat) : WbqMsg := Item.work op

@[match_pattern] abbrev WbqMsg.shutdown : WbqMsg := Item.other

/-- The channel capacity and the batch cap of the configuration. -/
structure WbqConfig where
  channelCapacity : Nat
  drainBatchCap : Nat

/-- What a drain thread does next. It holds the slot in `waiting` and `collecting`. -/
inductive DrainPhase where
  | receiving
  | waiting
  | collecting
  | settling
  | executing
  | final
  | finished
  deriving DecidableEq

/-- A drain thread: the ops that it has received and not begun, those that it writes, and the
flushes that it has to acknowledge. -/
structure DrainThread where
  phase : DrainPhase
  batch : List Nat
  running : List Nat
  flushWaiters : List Nat
  shuttingDown : Bool

/-- What the holder of the lifecycle mutex does next: the steps of `wbq_start_inner`, of an
admission and of `wbq_shutdown`. A start may be the first part of an enqueue. -/
inductive Stage where
  | replacing (enqueues : Bool)
  | salvaging (moved : List WbqMsg) (salvagedOps old : Nat) (enqueues : Bool)
  | installing (moved : List WbqMsg) (salvagedOps : Nat) (old : Option Nat) (enqueues : Bool)
  | spawning (channel : Nat) (enqueues : Bool)
  | publishing (channel drain : Nat) (enqueues : Bool)
  | handing (drain : Nat) (enqueues : Bool)
  | reserved (channel : Nat)
  | unsent (retry : Option Nat)
  | flushing (flush channel : Nat)
  | awaiting (flush channel : Nat)
  | stopping (channel : Nat) (safeToJoin : Bool)
  | closing (safeToJoin : Bool)
  | joining (safeToJoin : Bool)

/-- What a calling thread does next when it does not hold the lifecycle mutex. -/
inductive Call where
  | idle
  | starting (enqueues : Bool)
  | cloning
  | sending (channel : Nat)
  | flushing (flush channel : Nat)
  | awaiting (flush : Nat)
  | shuttingDown
  | inside

inductive SlotLock where
  | free
  | drain (drain : Nat)
  | starter
  deriving DecidableEq

/-- `WriteBehindQueue` with its threads. `accepted`, `executed` and `owed` are history that no step
reads; `owed f` is what had been accepted when the flush `f` was called. -/
structure Wbq where
  channels : Nat → List WbqMsg
  created : Nat
  receiverSlot : Option Nat
  slotLock : SlotLock
  sender : Option Nat
  drainHandle : Option Nat
  lifecycle : Option (Nat × Stage)
  opDepth : Nat
  drains : Nat → DrainThread
  spawned : Nat
  calls : Nat → Call
  acked : List Nat
  called : Nat
  accepted : List Nat
  executed : List Nat
  owed : Nat → List Nat

/-- `WbqFlushOutcome`. -/
inductive WbqFlushOutcome where
  | drained
  | timedOut
  | disconnected
  | noQueue

inductive Response where
  | goesOn
  | enqueued (op : Nat)
  | queueUnavailable
  | skippedDiskCritical
  | flushed (flush : Nat) (outcome : WbqFlushOutcome)
  | returned

/-- `TrySendError`. -/
inductive TrySend where
  | ok
  | full
  | disconnected

namespace DrainThread

def idle : DrainThread := ⟨.receiving, [], [], [], false⟩

/-- A thread that was never spawned is not alive. -/
def none : DrainThread := ⟨.finished, [], [], [], false⟩

/-- A message that was received. -/
def keep (d : DrainThread) : WbqMsg → DrainThread
  | .work op => { d with batch := d.batch ++ [op] }
  | .flush f => { d with flushWaiters := d.flushWaiters ++ [f] }
  | .other => { d with shuttingDown := true }

end DrainThread

namespace Wbq

def start : Wbq where
  channels _ := []
  created := 0
  receiverSlot := none
  slotLock := .free
  sender := none
  drainHandle := none
  lifecycle := none
  opDepth := 0
  drains _ := .none
  spawned := 0
  calls _ := .idle
  acked := []
  called := 0
  accepted := []
  executed := []
  owed _ := []

variable (cfg : WbqConfig) (s : Wbq)

/-- The receiver of the channel still exists: in the slot or with the thread that restarts. -/
def receiverAlive (c : Nat) : Bool :=
  s.receiverSlot == some c || match s.lifecycle with
    | some (_, .salvaging _ _ old _) => old == c
    | some (_, .installing _ _ old _) => old == some c
    | _ => false

/-- `SyncSender::try_send`. -/
def trySend (c : Nat) : TrySend :=
  if !s.receiverAlive c then .disconnected
  else if (s.channels c).length < cfg.channelCapacity then .ok
  else .full

def push (c : Nat) (msg : WbqMsg) : Wbq :=
  { s with channels := Function.update s.channels c (s.channels c ++ [msg]) }

def setCall (t : Nat) (call : Call) : Wbq := { s with calls := Function.update s.calls t call }

def setDrain (d : Nat) (thread : DrainThread) : Wbq :=
  { s with drains := Function.update s.drains d thread }

/-- The holder of the mutex goes on. -/
def hold (t : Nat) (stage : Stage) : Wbq := { s with lifecycle := some (t, stage) }

/-- The holder of the mutex drops it. -/
def unlock (t : Nat) (call : Call) : Wbq := { s.setCall t call with lifecycle := none }

/-- What follows a start. -/
def afterStart (enqueues : Bool) : Call := if enqueues then .cloning else .idle

/-! ### `wbq_start_inner` -/

/-- The drain thread of the handle is gone or has finished. -/
def needsDrain : Bool := s.drainHandle.all fun d => (s.drains d).phase == .finished

/-- A start waits for the lifecycle mutex and returns at once if a drain thread is at work;
otherwise it joins the finished one. -/
def lockStart (t : Nat) (enqueues : Bool) : Wbq :=
  if s.needsDrain then
    { (s.setCall t .inside).hold t (.replacing enqueues) with drainHandle := none }
  else s.setCall t (afterStart enqueues)

/-- The old receiver is taken out of the slot, which stays locked. -/
def takeSlot (t : Nat) (enqueues : Bool) : Wbq :=
  let stage : Stage :=
    match s.receiverSlot with
    | some old => .salvaging [] 0 old enqueues
    | none => .installing [] 0 none enqueues
  { s.hold t stage with receiverSlot := none, slotLock := .starter }

/-- One turn of the salvage loop. Nobody else has the new channel yet, so it is a list. -/
def salvage (t : Nat) (moved : List WbqMsg) (salvagedOps old : Nat) (enqueues : Bool) : Wbq :=
  match s.channels old with
  | [] => s.hold t (.installing moved salvagedOps (some old) enqueues)
  | msg :: rest =>
    let s := { s with channels := Function.update s.channels old rest }
    match msg with
    | .other => s
    | msg =>
      if moved.length < cfg.channelCapacity then
        s.hold t (.salvaging (moved ++ [msg])
          (if msg.work?.isSome then salvagedOps + 1 else salvagedOps) old enqueues)
      else s

/-- The new receiver is put into the slot and the old one is dropped. -/
def install (t : Nat) (moved : List WbqMsg) (salvagedOps : Nat) (enqueues : Bool) : Wbq :=
  { s.hold t (.spawning s.created enqueues) with
    channels := Function.update s.channels s.created moved
    created := s.created + 1
    receiverSlot := some s.created
    slotLock := .free
    opDepth := salvagedOps }

def spawn (t channel : Nat) (enqueues : Bool) : Wbq :=
  { (s.setDrain s.spawned .idle).hold t (.publishing channel s.spawned enqueues) with
    spawned := s.spawned + 1 }

/-! ### Enqueueing -/

/-- `wbq_try_send_counted`, up to the reservation. -/
def admission (t channel : Nat) (giveUp : Bool) : Response × Wbq :=
  if s.lifecycle.isNone then
    (.goesOn, { (s.setCall t .inside).hold t (.reserved channel) with opDepth := s.opDepth + 1 })
  else if giveUp then (.queueUnavailable, s.setCall t .idle)
  else (.goesOn, s)

/-- Its attempt to send. -/
def sendReserved (t channel : Nat) : Response × Wbq :=
  match s.trySend cfg channel with
  | .ok =>
    let op := s.accepted.length
    (.enqueued op, { (s.push channel (.op op)).unlock t .idle with accepted := s.accepted ++ [op] })
  | .full => (.goesOn, s.hold t (.unsent (some channel)))
  | .disconnected => (.goesOn, s.hold t (.unsent none))

/-- A reservation that was not used is undone; only a full channel is tried again. -/
def rollBack (t : Nat) (retry : Option Nat) (giveUp : Bool) : Response × Wbq :=
  let s := { s with opDepth := s.opDepth - 1 }
  match retry with
  | some channel =>
    if giveUp then (.queueUnavailable, s.unlock t .idle)
    else (.goesOn, s.unlock t (.sending channel))
  | none => (.queueUnavailable, s.unlock t .idle)

/-! ### Flushing and shutting down -/

/-- A flush is called: it gets its acknowledgement channel. -/
def callFlush : Wbq :=
  { s with owed := Function.update s.owed s.called s.accepted, called := s.called + 1 }

/-- `wbq_flush_status`, up to its sender. -/
def flushStatus (t : Nat) : Response × Wbq :=
  match s.sender with
  | some channel => (.goesOn, s.callFlush.setCall t (.flushing s.called channel))
  | none => (.flushed s.called .noQueue, s)

/-- `wbq_send_control_with_deadline` for a flush. -/
def sendFlush (t flush channel : Nat) (giveUp : Bool) : Response × Wbq :=
  match s.trySend cfg channel with
  | .ok => (.goesOn, (s.push channel (.flush flush)).setCall t (.awaiting flush))
  | .full => if giveUp then (.flushed flush .timedOut, s.setCall t .idle) else (.goesOn, s)
  | .disconnected => (.flushed flush .disconnected, s.setCall t .idle)

/-- `recv_timeout` on the acknowledgement channel. -/
def awaitFlush (t flush : Nat) (timedOut : Bool) : Response × Wbq :=
  (.flushed flush
    (if s.acked.contains flush then .drained
      else if timedOut then .timedOut
      else .disconnected), s.setCall t .idle)

/-- `wbq_shutdown`, up to its sender. -/
def lockShutdown (t : Nat) : Wbq :=
  match s.sender with
  | some channel => (s.callFlush.setCall t .inside).hold t (.flushing s.called channel)
  | none => (s.setCall t .inside).hold t (.closing true)

def shutdownFlush (t flush channel : Nat) (giveUp : Bool) : Wbq :=
  match s.trySend cfg channel with
  | .ok => (s.push channel (.flush flush)).hold t (.awaiting flush channel)
  | .full => if giveUp then s.hold t (.stopping channel false) else s
  | .disconnected => s.hold t (.stopping channel true)

def shutdownAwait (t flush channel : Nat) (timedOut : Bool) : Wbq :=
  s.hold t (.stopping channel (s.acked.contains flush || !timedOut))

def shutdownSend (t channel : Nat) (safeToJoin giveUp : Bool) : Wbq :=
  match s.trySend cfg channel with
  | .ok => (s.push channel .shutdown).hold t (.closing safeToJoin)
  | .full => if giveUp then s.hold t (.closing false) else s
  | .disconnected => s.hold t (.closing safeToJoin)

/-- The drain thread is joined when it has finished, and detached if it may be stuck. -/
def joinDrain (t : Nat) (safeToJoin : Bool) : Option Wbq :=
  if safeToJoin && !s.needsDrain then none
  else some { s.unlock t .idle with drainHandle := none }

/-! ### `wbq_drain_loop` -/

/-- The slot is locked for a pass; an empty one makes the thread return. -/
def lockSlot (d : Nat) : Wbq :=
  if s.receiverSlot.isNone then s.setDrain d { s.drains d with phase := .finished }
  else { s.setDrain d { s.drains d with phase := .waiting } with slotLock := .drain d }

/-- The flushes that wait are acknowledged. -/
def acknowledge (d : Nat) (phase : DrainPhase) : Wbq :=
  { s.setDrain d { s.drains d with flushWaiters := [], phase } with
    acked := s.acked ++ (s.drains d).flushWaiters }

/-- A message is taken out of the channel. -/
def receive (d c : Nat) (msg : WbqMsg) (rest : List WbqMsg) (phase : DrainPhase) : Wbq :=
  { s.setDrain d { (s.drains d).keep msg with phase } with
    channels := Function.update s.channels c rest }

/-- `recv_timeout`: a message, or nothing in time, or no sender. The loop that is left does not
read `shuttingDown` again, so the flag also says that it was left. -/
def receiveFirst (d : Nat) (gone : Bool) : Option Wbq :=
  s.receiverSlot.map fun c =>
    match s.channels c with
    | msg :: rest => s.receive d c msg rest .collecting
    | [] =>
      if gone then
        { s.setDrain d { s.drains d with phase := .final, shuttingDown := true } with
          slotLock := .free }
      else { s.acknowledge d .receiving with slotLock := .free }

/-- `try_recv`, up to the batch cap. -/
def receiveMore (d : Nat) : Option Wbq :=
  s.receiverSlot.map fun c =>
    let stop := { s.setDrain d { s.drains d with phase := .settling } with slotLock := .free }
    if (s.drains d).batch.length < cfg.drainBatchCap then
      match s.channels c with
      | msg :: rest => s.receive d c msg rest .collecting
      | [] => stop
    else stop

/-- What was received no longer counts as waiting. -/
def settle (d : Nat) : Wbq :=
  { s.setDrain d { s.drains d with phase := .executing } with
    opDepth := s.opDepth - (s.drains d).batch.length }

/-- The next ops of the batch are written together. -/
def beginWrite (d n : Nat) : Wbq :=
  s.setDrain d
    { s.drains d with
      batch := (s.drains d).batch.drop (n + 1)
      running := (s.drains d).batch.take (n + 1) }

def finishWrite (d : Nat) : Wbq :=
  { s.setDrain d { s.drains d with running := [] } with
    executed := s.executed ++ (s.drains d).running }

/-- The batch is done. -/
def endTurn (d : Nat) : Wbq :=
  s.acknowledge d (if (s.drains d).shuttingDown then .final else .receiving)

/-- One turn of the loop after the main loop. -/
def receiveLast (d : Nat) : Wbq :=
  match s.receiverSlot with
  | none => s.setDrain d { s.drains d with phase := .finished }
  | some c =>
    match s.channels c with
    | msg :: rest => s.receive d c msg rest .settling
    | [] => s.setDrain d { s.drains d with phase := .finished }

end Wbq

/-! ### Steps -/

/-- The steps of the callers `t` and of the drain threads `d`. -/
inductive Event where
  | callStart (t : Nat)
  | callEnqueue (t : Nat)
  | callShutdown (t : Nat)
  | callFlush (t : Nat)
  | lockStart (t : Nat)
  | cloneSender (t : Nat) (diskCritical : Bool)
  | admission (t : Nat) (giveUp : Bool)
  | sendFlush (t : Nat) (giveUp : Bool)
  | awaitFlush (t : Nat) (timedOut : Bool)
  | lockShutdown (t : Nat)
  | goOn (t : Nat) (giveUp : Bool)
  | lockSlot (d : Nat)
  | receiveFirst (d : Nat) (gone : Bool)
  | receiveMore (d : Nat)
  | settle (d : Nat)
  | beginWrite (d n : Nat)
  | finishWrite (d : Nat)
  | endTurn (d : Nat)
  | receiveLast (d : Nat)

namespace Wbq

variable (cfg : WbqConfig) (s : Wbq)

/-- The next step of the holder of the lifecycle mutex. -/
def holderStep (t : Nat) (stage : Stage) (giveUp : Bool) : Option (Response × Wbq) :=
  match stage with
  | .replacing enqueues =>
    if s.slotLock = .free then some (.goesOn, s.takeSlot t enqueues) else none
  | .salvaging moved salvagedOps old enqueues =>
    some (.goesOn, s.salvage cfg t moved salvagedOps old enqueues)
  | .installing moved salvagedOps _ enqueues =>
    some (.goesOn, s.install t moved salvagedOps enqueues)
  | .spawning channel enqueues => some (.goesOn, s.spawn t channel enqueues)
  | .publishing channel drain enqueues =>
    some (.goesOn, { s.hold t (.handing drain enqueues) with sender := some channel })
  | .handing drain enqueues =>
    some (.goesOn, { s.unlock t (afterStart enqueues) with drainHandle := some drain })
  | .reserved channel => some (s.sendReserved cfg t channel)
  | .unsent retry => some (s.rollBack t retry giveUp)
  | .flushing flush channel => some (.goesOn, s.shutdownFlush cfg t flush channel giveUp)
  | .awaiting flush channel => some (.goesOn, s.shutdownAwait t flush channel giveUp)
  | .stopping channel safeToJoin =>
    some (.goesOn, s.shutdownSend cfg t channel safeToJoin giveUp)
  | .closing safeToJoin => some (.goesOn, { s.hold t (.joining safeToJoin) with sender := none })
  | .joining safeToJoin => (s.joinDrain t safeToJoin).map fun s => (.returned, s)

/-- The next step of a caller that does not hold the lifecycle mutex. -/
def callerStep (t : Nat) : Event → Call → Option (Response × Wbq)
  | .callStart _, .idle => some (.goesOn, s.setCall t (.starting false))
  | .callEnqueue _, .idle => some (.goesOn, s.setCall t (.starting true))
  | .callShutdown _, .idle => some (.goesOn, s.setCall t .shuttingDown)
  | .callFlush _, .idle => some (s.flushStatus t)
  | .lockStart _, .starting enqueues =>
    if s.lifecycle.isNone then some (.goesOn, s.lockStart t enqueues) else none
  | .cloneSender _ diskCritical, .cloning =>
    match s.sender with
    | none => some (.queueUnavailable, s.setCall t .idle)
    | some channel =>
      if diskCritical then some (.skippedDiskCritical, s.setCall t .idle)
      else some (.goesOn, s.setCall t (.sending channel))
  | .admission _ giveUp, .sending channel => some (s.admission t channel giveUp)
  | .sendFlush _ giveUp, .flushing flush channel => some (s.sendFlush cfg t flush channel giveUp)
  | .awaitFlush _ timedOut, .awaiting flush => some (s.awaitFlush t flush timedOut)
  | .lockShutdown _, .shuttingDown =>
    if s.lifecycle.isNone then some (.goesOn, s.lockShutdown t) else none
  | _, _ => none

/-- The next step of a drain thread. -/
def drainStep (d : Nat) : Event → DrainPhase → Option Wbq
  | .lockSlot _, .receiving => if s.slotLock = .free then some (s.lockSlot d) else none
  | .receiveFirst _ gone, .waiting => s.receiveFirst d gone
  | .receiveMore _, .collecting => s.receiveMore cfg d
  | .settle _, .settling => some (s.settle d)
  | .beginWrite _ n, .executing =>
    if (s.drains d).running = [] ∧ (s.drains d).batch ≠ [] then some (s.beginWrite d n) else none
  | .finishWrite _, .executing =>
    if (s.drains d).running ≠ [] then some (s.finishWrite d) else none
  | .endTurn _, .executing =>
    if (s.drains d).running = [] ∧ (s.drains d).batch = [] then some (s.endTurn d) else none
  | .receiveLast _, .final => if s.slotLock = .free then some (s.receiveLast d) else none
  | _, _ => none

end Wbq

/-- Who takes a step. -/
inductive Actor where
  | caller (t : Nat)
  | holder (t : Nat) (giveUp : Bool)
  | drain (d : Nat)

def Event.actor : Event → Actor
  | .callStart t | .callEnqueue t | .callShutdown t | .callFlush t | .lockStart t
  | .cloneSender t _ | .admission t _ | .sendFlush t _ | .awaitFlush t _ | .lockShutdown t =>
    .caller t
  | .goOn t giveUp => .holder t giveUp
  | .lockSlot d | .receiveFirst d _ | .receiveMore d | .settle d | .beginWrite d _
  | .finishWrite d | .endTurn d | .receiveLast d => .drain d

def Wbq.step (cfg : WbqConfig) (s : Wbq) (e : Event) : Option (Response × Wbq) :=
  match e.actor with
  | .caller t => s.callerStep cfg t e (s.calls t)
  | .holder t giveUp =>
    match s.lifecycle with
    | some (holder, stage) => if holder = t then s.holderStep cfg t stage giveUp else none
    | none => none
  | .drain d => (s.drainStep cfg d e (s.drains d).phase).map fun s => (.goesOn, s)

end AgentMail.WriteBehind
