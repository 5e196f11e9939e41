import AgentMail.Lib.TicketQueues

/-!
# The S3-FIFO cache

`crates/mcp-agent-mail-db/src/s3fifo.rs:20–478`. New keys wait in the small queue. A key that
leaves it goes to the main queue if it was read meanwhile, else only its name is kept, in the
ghost queue; a ghost that is inserted again goes to the main queue. `remove` and the move to
another queue leave the queue entry behind; its sequence number tells that it is dead.

A `-= 1` of a live counter at zero is an arithmetic error of the program: the operation has no
answer here. Sequence numbers are unbounded.
-/

namespace AgentMail.Cache

open Lib

/-- Which queue a node waits in. -/
inductive Kind where
  | small
  | main
  | ghost
deriving DecidableEq

/-- `Node`. -/
inductive Node (V : Type*) where
  | small (value : V) (freq : Nat) (seq : Nat)
  | main (value : V) (freq : Nat) (seq : Nat)
  | ghost (seq : Nat)

namespace Node

variable {V : Type*}

def kind : Node V → Kind
  | small .. => .small
  | main .. => .main
  | ghost _ => .ghost

def seq : Node V → Nat
  | small _ _ seq => seq
  | main _ _ seq => seq
  | ghost seq => seq

def freq : Node V → Nat
  | small _ freq _ => freq
  | main _ freq _ => freq
  | ghost _ => 0

/-- What a reader sees of a node; ghosts are invisible. -/
def value? : Node V → Option V
  | small value _ _ => some value
  | main value _ _ => some value
  | ghost _ => none

/-- A hit: the value is rewritten by `f` and the frequency goes up, to three at most. -/
def touch (f : V → V) : Node V → Node V
  | small value freq seq => small (f value) (min (freq + 1) 3) seq
  | main value freq seq => main (f value) (min (freq + 1) 3) seq
  | ghost seq => ghost seq

end Node

/-- The three queues with `index`, the live counters and `seq_gen`. -/
abbrev Store (K V : Type*) := TicketQueues Kind K (Node V)

variable {K V : Type*} [DecidableEq K]

namespace Store

/-- The entries that nothing holds go once a queue is longer than four times its capacity. -/
def compactIfLong (capacity : Kind → Nat) (a : Kind) (Q : Store K V) : Store K V :=
  if (Q.queue a).length > max (capacity a * 4) 4 then Q.compact Node.kind Node.seq a else Q

/-! ### Eviction

A turn of a loop takes one entry off its queue, so the length of the queue bounds the turns. -/

/-- The loop of `evict_ghost_if_full`. -/
def evictGhostLoop (capacity : Kind → Nat) : Nat → Store K V → Option (Store K V)
  | 0, Q => some Q
  | turns + 1, Q =>
    if Q.live .ghost < capacity .ghost then some Q
    else
      match Q.queue .ghost with
      | [] => some Q
      | e :: rest => do
        let (_, Q) ← Q.take Node.kind Node.seq .ghost e rest
        evictGhostLoop capacity turns Q

/-- `evict_ghost_if_full`. -/
def evictGhostIfFull (capacity : Kind → Nat) (Q : Store K V) : Option (Store K V) :=
  let Q := Q.compactIfLong capacity .ghost
  evictGhostLoop capacity (Q.queue .ghost).length Q

/-- The loop of `evict_main_if_full` for a cache without a main queue. -/
def drainMainLoop : Nat → Store K V → Option (Store K V)
  | 0, Q => some Q
  | turns + 1, Q =>
    match Q.queue .main with
    | [] => some Q
    | e :: rest => do
      let (_, Q) ← Q.take Node.kind Node.seq .main e rest
      drainMainLoop turns Q

/-- The loop of `evict_main_if_full`: a node that was read goes to the back with one use less,
another one is gone. -/
def evictMainLoop (capacity : Kind → Nat) : Nat → Store K V → Option (Store K V)
  | 0, Q => some Q
  | budget + 1, Q =>
    if Q.live .main < capacity .main then some Q
    else
      match Q.queue .main with
      | [] => some Q
      | e :: rest => do
        let (node, Q) ← Q.take Node.kind Node.seq .main e rest
        match node with
        | some (.main value freq _) =>
          if freq ≥ 1 then
            let Q := Q.draw
            evictMainLoop capacity budget
              (Q.push Node.kind Node.seq e.1 (.main value (freq - 1) Q.issued))
          else evictMainLoop capacity budget Q
        | _ => evictMainLoop capacity budget Q

/-- `evict_main_if_full`. -/
def evictMainIfFull (capacity : Kind → Nat) (Q : Store K V) : Option (Store K V) :=
  let Q := Q.compactIfLong capacity .main
  if capacity .main = 0 then drainMainLoop (Q.queue .main).length Q
  else evictMainLoop capacity ((Q.queue .main).length * 4 + 1) Q

/-- A key that leaves the small queue without a place in the main queue. -/
def demote (capacity : Kind → Nat) (key : K) (seq : Nat) (Q : Store K V) : Option (Store K V) := do
  let Q ← Q.evictGhostIfFull capacity
  return Q.push Node.kind Node.seq key (.ghost seq)

/-- A key that gets a place in the main queue. -/
def promote (capacity : Kind → Nat) (key : K) (value : V) (seq : Nat) (Q : Store K V) :
    Option (Store K V) := do
  let Q ← Q.evictMainIfFull capacity
  return Q.push Node.kind Node.seq key (.main value 0 seq)

/-- Where a key goes that leaves the small queue. -/
def leaveSmall (capacity : Kind → Nat) (key : K) (value : V) (freq seq : Nat) (Q : Store K V) :
    Option (Store K V) :=
  if freq ≥ 1 then
    if capacity .main = 0 then demote capacity key seq Q
    else promote capacity key value seq Q
  else demote capacity key seq Q

/-- The loop of `evict_small_if_full`. -/
def evictSmallLoop (capacity : Kind → Nat) : Nat → Store K V → Option (Store K V)
  | 0, Q => some Q
  | turns + 1, Q =>
    if Q.live .small < capacity .small then some Q
    else
      match Q.queue .small with
      | [] => some Q
      | e :: rest => do
        let (node, Q) ← Q.take Node.kind Node.seq .small e rest
        match node with
        | some (.small value freq _) =>
          let Q := Q.draw
          let Q ← leaveSmall capacity e.1 value freq Q.issued Q
          evictSmallLoop capacity turns Q
        | _ => evictSmallLoop capacity turns Q

/-- `evict_small_if_full`. -/
def evictSmallIfFull (capacity : Kind → Nat) (Q : Store K V) : Option (Store K V) :=
  let Q := Q.compactIfLong capacity .small
  evictSmallLoop capacity (Q.queue .small).length Q

/-- A key that enters the small queue. -/
def admitSmall (capacity : Kind → Nat) (key : K) (value : V) (seq : Nat) (Q : Store K V) :
    Option (Store K V) := do
  let Q ← Q.evictSmallIfFull capacity
  return Q.push Node.kind Node.seq key (.small value 0 seq)

/-- `insert`. -/
def insert (capacity : Kind → Nat) (key : K) (value : V) (Q : Store K V) : Option (Store K V) :=
  let Q := Q.draw
  let seq := Q.issued
  match Q.node key with
  | some (.ghost _) => do
    let Q ← Q.uncount .ghost
    if capacity .main = 0 then admitSmall capacity key value seq Q
    else promote capacity key value seq Q
  | some _ => some (Q.amend key (Node.touch fun _ => value))
  | none => admitSmall capacity key value seq Q

end Store

/-! ### The cache -/

/-- `S3FifoCache`. -/
structure S3FifoCache (K V : Type*) where
  capacity : Kind → Nat
  store : Store K V

namespace S3FifoCache

/-- The shares of the queues in a total capacity. -/
def shares (total : Nat) : Kind → Nat
  | .small => max (total / 10) 1
  | .main => total - max (total / 10) 1
  | .ghost => total

/-- `new`, which asserts that the capacity is positive. -/
def new (total : Nat) : Option (S3FifoCache K V) :=
  if total > 0 then some ⟨shares total, TicketQueues.empty⟩ else none

/-- `peek`. -/
def peek (c : S3FifoCache K V) (key : K) : Option V := (c.store.node key).bind Node.value?

/-- `contains_key`. -/
def containsKey (c : S3FifoCache K V) (key : K) : Bool :=
  (c.store.node key).any fun n => n.kind != .ghost

/-- `get_mut`, with what the caller then does to the value. -/
def getMut (c : S3FifoCache K V) (key : K) (f : V → V) : Option V × S3FifoCache K V :=
  (c.peek key, { c with store := c.store.amend key (Node.touch f) })

/-- `get`. -/
def get (c : S3FifoCache K V) (key : K) : Option V × S3FifoCache K V := c.getMut key id

/-- `insert`. -/
def insert (c : S3FifoCache K V) (key : K) (value : V) : Option (S3FifoCache K V) :=
  (c.store.insert c.capacity key value).map fun Q => { c with store := Q }

/-- `remove`. -/
def remove (c : S3FifoCache K V) (key : K) : Option (Option V × S3FifoCache K V) :=
  match c.store.node key with
  | some n => (c.store.unlink n.kind key).map fun Q => (n.value?, { c with store := Q })
  | none => some (none, c)

/-- `clear`; the sequence goes on. -/
def clear (c : S3FifoCache K V) : S3FifoCache K V :=
  { c with store := { TicketQueues.empty with issued := c.store.issued } }

/-- `len`. -/
def len (c : S3FifoCache K V) : Nat := c.store.live .small + c.store.live .main

/-- `capacity`, of both visible queues. -/
def totalCapacity (c : S3FifoCache K V) : Nat := c.capacity .small + c.capacity .main

end S3FifoCache

end AgentMail.Cache
