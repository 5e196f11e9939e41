import AgentMail.Base.Text
import AgentMail.Base.Values
import AgentMail.Lib.Trace

/-!
# The ledger of failed writes

Writes are refused from the moment a write-behind failure is noticed until its mail was verified
in the archive (`recovery/message_reconcile/database/durability.rs`). A process-wide ledger behind
a lock says what is left to verify; the refusal itself is a metric. Every event here is one section
of the lock.
-/

namespace AgentMail.Refusal

open Base Lib

/-! ### The ledger -/

/-- `Scope`. -/
structure Scope where
  database : Text
  archive : Text
  fileIdentity : Text
deriving DecidableEq

/-- `Witness`. -/
structure Witness where
  scope : Scope
  project : Text
  id : I64
  digest : BitVec 256
deriving DecidableEq

/-- `Ticket`. -/
structure Ticket where
  sequence : Nat
  witness : Witness
  readyAt : Nat
deriving DecidableEq

/-- `Ledger`. -/
structure Ledger where
  nextSequence : Nat
  timestamp : Nat
  unknownFailure : Bool
  pendingRegistrations : Nat
  entries : List Ticket

def Ledger.default : Ledger := ⟨0, 0, false, 0, []⟩

/-- `MAX_FAILURES`. -/
def maxFailures : Nat := 1024

/-- `RETRY_DELAY`, in seconds. -/
def retryDelay : Nat := 60

/-- `u64::MAX`, and `usize::MAX`. -/
def u64Max : Nat := 2 ^ 64 - 1

/-- `Ledger::record`, with the sequence under which the witness can be discharged. -/
def Ledger.record (L : Ledger) (witness : Option Witness) (now : Nat) : Option Nat × Ledger :=
  match witness with
  | none => (none, { L with unknownFailure := true })
  | some witness =>
    if u64Max < L.nextSequence + 1 then (none, { L with unknownFailure := true })
    else
      let sequence := L.nextSequence + 1
      let known := L.entries.any fun entry => decide (entry.witness = witness)
      if !known && decide (L.entries.length = maxFailures) then
        (none, { L with nextSequence := sequence, unknownFailure := true })
      else
        (some sequence, { L with
          nextSequence := sequence
          entries := L.entries.eraseP (fun entry => decide (entry.witness = witness)) ++
            [⟨sequence, witness, now⟩] })

/-- Whether an entry is what a ticket was taken of. -/
def Ticket.proves (ticket entry : Ticket) : Bool :=
  decide (entry.sequence = ticket.sequence) && decide (entry.witness = ticket.witness)

/-- `Ledger::complete`: whether the entry was taken out, and whether nothing is left. -/
def Ledger.complete (L : Ledger) (ticket : Ticket) : Bool × Bool × Ledger :=
  if !L.entries.any ticket.proves then (false, false, L)
  else if L.pendingRegistrations ≠ 0 then (false, false, L)
  else
    let cleared := { L with entries := L.entries.eraseP ticket.proves }
    (true, cleared.entries.isEmpty && !L.unknownFailure && decide (L.pendingRegistrations = 0),
      cleared)

/-- `Ledger::postpone`. -/
def Ledger.postpone (L : Ledger) (ticket : Ticket) (now : Nat) : Ledger :=
  match L.entries.find? fun entry => decide (entry.sequence = ticket.sequence) with
  | none => L
  | some entry => { L with
      entries := L.entries.eraseP (fun entry => decide (entry.sequence = ticket.sequence)) ++
        [{ entry with readyAt := now + retryDelay }] }

/-- `Ledger::operator_clear`: the sequence goes on, and registrations stay. -/
def Ledger.operatorClear (L : Ledger) : Ledger :=
  { L with entries := [], unknownFailure := false, timestamp := 0 }

/-! ### The refusal -/

/-- A call of `record_failures` that has begun. -/
structure Registration where
  call : Nat
  counted : Bool
deriving DecidableEq

/-- The ledger, the metric, the calls in progress and the tickets that were taken. -/
structure World where
  ledger : Ledger
  metric : Nat
  calls : List Registration
  tickets : List Ticket

def World.init : World := ⟨.default, 0, [], []⟩

/-- `arm_refusal`, at a time in microseconds. -/
def World.armRefusal (w : World) (clock : Nat) : World :=
  let timestamp := max (max clock 1) (min u64Max (w.ledger.timestamp + 1))
  { w with
    ledger := { w.ledger with
      unknownFailure := w.ledger.unknownFailure || decide (w.metric ≠ w.ledger.timestamp)
      timestamp := timestamp }
    metric := timestamp }

/-- The sections of the lock. -/
inductive Event where
  | begin (call clock : Nat)
  | record (call : Nat) (witness : Option Witness) (clock now : Nat)
  | finish (call : Nat)
  /-- A registration that is dropped before it finished. -/
  | abandon (call clock : Nat)
  | ticketFor (witness : Witness)
  | complete (ticket : Ticket)
  | postpone (ticket : Ticket) (now : Nat)
  | operatorClear
deriving DecidableEq

/-- What a section did. -/
inductive Response where
  | done
  /-- The failure is an entry with a sequence, or unknown. -/
  | recorded (sequence : Option Nat)
  | ticket (found : Option Ticket)
  /-- Whether the entry of the ticket was taken out. -/
  | completed (discharged : Bool)
deriving DecidableEq

/-- A registration takes two bytes, so that no more than these fit into the address space. -/
def maxRegistrations : Nat := 2 ^ 63

/-- `Registration::begin`. -/
def World.begin (w : World) (call clock : Nat) : World :=
  let armed := w.armRefusal clock
  if u64Max < armed.ledger.pendingRegistrations + 1 then
    { armed with
      ledger := { armed.ledger with unknownFailure := true }
      calls := ⟨call, false⟩ :: armed.calls }
  else
    { armed with
      ledger := { armed.ledger with
        pendingRegistrations := armed.ledger.pendingRegistrations + 1 }
      calls := ⟨call, true⟩ :: armed.calls }

/-- `Registration::record`: an operator may have cleared in between. -/
def World.record (w : World) (witness : Option Witness) (clock now : Nat) : Option Nat × World :=
  let armed := if w.ledger.timestamp = 0 then w.armRefusal clock else w
  let recorded := armed.ledger.record witness now
  (recorded.1, { armed with ledger := recorded.2 })

/-- The end of a registration. -/
def World.release (w : World) (registration : Registration) : World :=
  { w with
    ledger := if registration.counted then { w.ledger with
        pendingRegistrations := w.ledger.pendingRegistrations - 1 } else w.ledger
    calls := w.calls.erase registration }

/-- `drop` of a registration that has not finished. -/
def World.abandon (w : World) (registration : Registration) (clock : Nat) : World :=
  let armed := w.armRefusal clock
  { armed with ledger := { armed.ledger with unknownFailure := true } }.release registration

/-- `complete`, and whether the entry was taken out. -/
def World.complete (w : World) (ticket : Ticket) : Bool × World :=
  if w.metric ≠ w.ledger.timestamp then
    (false, { w with ledger := { w.ledger with unknownFailure := true } })
  else
    let completed := w.ledger.complete ticket
    if completed.2.1 then
      (completed.1, { w with ledger := { completed.2.2 with timestamp := 0 }, metric := 0 })
    else (completed.1, { w with ledger := completed.2.2 })

/-- The call in progress with a number. -/
def World.call? (w : World) (call : Nat) : Option Registration :=
  w.calls.find? fun registration => decide (registration.call = call)

/-- `ticket_for` finds the entry of a prepared message. -/
def World.ticketFor (w : World) (witness : Witness) : Option Ticket :=
  if w.metric = 0 then none
  else w.ledger.entries.find? fun entry => decide (entry.witness = witness)

/-- A section, where it can happen: only calls in progress record, and only tickets that were taken
before are completed. -/
def step (w : World) : Event → Option (Response × World)
  | .begin call clock =>
    if (w.call? call).isNone ∧ w.calls.length < maxRegistrations then
      some (.done, w.begin call clock)
    else none
  | .record call witness clock now =>
    (w.call? call).map fun _ =>
      let recorded := w.record witness clock now
      (.recorded recorded.1, recorded.2)
  | .finish call => (w.call? call).map fun registration => (.done, w.release registration)
  | .abandon call clock =>
    (w.call? call).map fun registration => (.done, w.abandon registration clock)
  | .ticketFor witness =>
    some (.ticket (w.ticketFor witness),
      { w with tickets := (w.ticketFor witness).toList ++ w.tickets })
  | .complete ticket =>
    if ticket ∈ w.tickets then
      let completed := w.complete ticket
      some (.completed completed.1, completed.2)
    else none
  | .postpone ticket now => some (.done, { w with ledger := w.ledger.postpone ticket now })
  | .operatorClear => some (.done, { w with ledger := w.ledger.operatorClear, metric := 0 })

end AgentMail.Refusal
