import Mathlib.Data.List.Count
import Mathlib.Order.Lattice
import AgentMail.Lib.Shares
import AgentMail.Lib.Table

/-!
# Deferred touches

The queue of deferred `last_active_ts` updates (`crates/mcp-agent-mail-db/src/cache.rs:952–1130`):
sixteen shards under a lock each, an atomic flag that says whether a drain should look, and the
time of the last drain. Calls of `enqueue_touch_scoped`, `drain_touches_scoped` and
`invalidate_scope` take turns in any order, one critical section or atomic access at a time.

A scope is its fingerprint here. `invalidate_scope` empties five row caches before it comes to the
touches; they share nothing with the queue.
-/

namespace AgentMail.Cache

open Lib List Function

/-! ### The shared memory -/

abbrev TouchKey : Type := BitVec 64 × Int

abbrev TouchShard : Type := List (TouchKey × Int)

def numTouchShards : Nat := 16

/-- Microseconds. -/
def touchFlushInterval : Nat := 30000000

/-- `((scope_fp ^ agent_id as u64) as usize) % NUM_TOUCH_SHARDS`. -/
def shardIdx (key : TouchKey) : Nat := (key.1 ^^^ BitVec.ofInt 64 key.2).toNat % numTouchShards

theorem shardIdx_lt (key : TouchKey) : shardIdx key < numTouchShards :=
  Nat.mod_lt _ (by decide)

structure TouchMemory where
  shards : Nat → TouchShard
  hasPending : Bool
  lastTouchFlush : Nat

/-- `entry(key).and_modify(..).or_insert(ts)`: keep the latest timestamp. -/
def raiseTo {κ : Type} [DecidableEq κ] (key : κ) (ts : Int) (m : List (κ × Int)) :
    List (κ × Int) :=
  match Assoc.get? key m with
  | some existing => Assoc.insert key (if ts > existing then ts else existing) m
  | none => Assoc.insert key ts m

/-- The critical section of an enqueue. -/
def TouchMemory.enqueue (mem : TouchMemory) (key : TouchKey) (ts : Int) : TouchMemory :=
  { mem with
    shards := update mem.shards (shardIdx key)
      (raiseTo key ts (mem.shards (shardIdx key))) }

/-- The entries of a shard that a sweep over `scope` leaves. -/
def retainOthers (scope : BitVec 64) (shard : TouchShard) : TouchShard :=
  shard.filter fun e => e.1.1 != scope

/-- The critical section of a sweep. -/
def TouchMemory.sweep (mem : TouchMemory) (scope : BitVec 64) (shard : Nat) : TouchMemory :=
  { mem with shards := update mem.shards shard (retainOthers scope (mem.shards shard)) }

/-- What a drain merges of a shard that it sweeps. -/
def collect (scope : BitVec 64) (merged : List (Int × Int)) (shard : TouchShard) :
    List (Int × Int) :=
  (shard.filter fun e => e.1.1 == scope).foldl (fun m e => raiseTo e.1.2 e.2 m) merged

/-! ### Calls -/

inductive TouchOp where
  | enqueueTouch (scope : BitVec 64) (agentId ts : Int)
  | drainTouches (scope : BitVec 64)
  | invalidateScope (scope : BitVec 64)
  deriving DecidableEq

/-- How far a call has come. -/
inductive TouchPhase where
  | begun
  /-- The touch is in its shard. -/
  | inserted
  /-- The flag is set. -/
  | flagged
  /-- An enqueue has returned whether a flush is due. -/
  | accepted (due : Bool)
  /-- The flag is cleared and the shards before `next` are swept. -/
  | sweeping (next : Nat) (merged : List (Int × Int)) (hasRemaining : Bool)
  /-- A drain has set the flag again if it had to. -/
  | restored (merged : List (Int × Int))
  /-- A drain or an invalidation has returned. -/
  | swept (merged : List (Int × Int))
  deriving DecidableEq

structure TouchCall where
  op : TouchOp
  phase : TouchPhase

def TouchPhase.isFinished : TouchPhase → Bool
  | .accepted _ | .swept _ => true
  | _ => false

/-- `if has_remaining { self.has_pending.store(true) }`. -/
def TouchMemory.restore (mem : TouchMemory) (hasRemaining : Bool) : TouchMemory :=
  if hasRemaining then { mem with hasPending := true } else mem

/-- The next atomic step of a call at time `now`: the memory and the phase after it. -/
def TouchCall.next (mem : TouchMemory) (now : Nat) (c : TouchCall) : TouchMemory × TouchPhase :=
  match c.op, c.phase with
  | .enqueueTouch scope agentId ts, .begun => (mem.enqueue (scope, agentId) ts, .inserted)
  | .enqueueTouch .., .inserted => ({ mem with hasPending := true }, .flagged)
  | .enqueueTouch .., .flagged =>
    (mem, .accepted (touchFlushInterval ≤ now - mem.lastTouchFlush))
  | .drainTouches _, .begun => ({ mem with hasPending := false }, .sweeping 0 [] false)
  | .drainTouches scope, .sweeping next merged hasRemaining =>
    if next < numTouchShards then
      (mem.sweep scope next, .sweeping (next + 1) (collect scope merged (mem.shards next))
        (hasRemaining || !(retainOthers scope (mem.shards next)).isEmpty))
    else (mem.restore hasRemaining, .restored merged)
  | .drainTouches _, .restored merged => ({ mem with lastTouchFlush := now }, .swept merged)
  | .invalidateScope _, .begun => ({ mem with hasPending := false }, .sweeping 0 [] false)
  | .invalidateScope scope, .sweeping next merged hasRemaining =>
    if next < numTouchShards then
      (mem.sweep scope next, .sweeping (next + 1) merged
        (hasRemaining || !(retainOthers scope (mem.shards next)).isEmpty))
    else (mem.restore hasRemaining, .swept merged)
  | _, phase => (mem, phase)

/-! ### What becomes of each touch -/

/-- The touch that call number `call` enqueues. -/
structure Touch where
  call : Nat
  scope : BitVec 64
  agentId : Int
  ts : Int
  deriving DecidableEq

def Touch.key (t : Touch) : TouchKey := (t.scope, t.agentId)

/-- The fate of every touch, kept beside the memory: no call reads it. A sweep takes all touches
of its scope that have come to the shard since the last sweep of that scope. -/
structure TouchLedger where
  pending : List Touch
  /-- With the drain that reports it. -/
  reported : List (Nat × Touch)
  /-- With the invalidation that dropped it. -/
  dropped : List (Nat × Touch)

def TouchLedger.enqueue (L : TouchLedger) (t : Touch) : TouchLedger :=
  { L with pending := L.pending ++ [t] }

/-- Whether a sweep over `scope` takes the touch at `shard`. -/
def Touch.isSwept (scope : BitVec 64) (shard : Nat) (t : Touch) : Bool :=
  t.scope == scope && shardIdx t.key == shard

def TouchLedger.report (L : TouchLedger) (call : Nat) (scope : BitVec 64) (shard : Nat) :
    TouchLedger where
  pending := L.pending.filter fun t => !t.isSwept scope shard
  reported := L.reported ++ (L.pending.filter (Touch.isSwept scope shard)).map fun t => (call, t)
  dropped := L.dropped

def TouchLedger.drop (L : TouchLedger) (call : Nat) (scope : BitVec 64) (shard : Nat) :
    TouchLedger where
  pending := L.pending.filter fun t => !t.isSwept scope shard
  reported := L.reported
  dropped := L.dropped ++ (L.pending.filter (Touch.isSwept scope shard)).map fun t => (call, t)

/-- What the next step of call number `i` does to the touches. -/
def TouchCall.record (i : Nat) (c : TouchCall) (L : TouchLedger) : TouchLedger :=
  match c.op, c.phase with
  | .enqueueTouch scope agentId ts, .begun => L.enqueue ⟨i, scope, agentId, ts⟩
  | .drainTouches scope, .sweeping next _ _ =>
    if next < numTouchShards then L.report i scope next else L
  | .invalidateScope scope, .sweeping next _ _ =>
    if next < numTouchShards then L.drop i scope next else L
  | _, _ => L

/-- In how many places a touch is. -/
def TouchLedger.places (L : TouchLedger) (t : Touch) : Nat :=
  L.pending.count t + (L.reported.map (·.2)).count t + (L.dropped.map (·.2)).count t

/-- The timestamps that drain number `call` took for an agent. -/
def TouchLedger.reportedTs (L : TouchLedger) (call : Nat) (agentId : Int) : List Int :=
  (L.reported.filter fun e => e.1 == call && e.2.agentId == agentId).map (·.2.ts)

/-- The timestamps that wait for an agent. -/
def TouchLedger.pendingTs (L : TouchLedger) (key : TouchKey) : List Int :=
  (L.pending.filter fun t => t.key == key).map (·.ts)

/-! ### Runs -/

structure TouchSystem where
  mem : TouchMemory
  calls : List TouchCall
  ledger : TouchLedger

/-- What the scheduler does next: a call begins, or one of the calls takes a step. -/
inductive TouchEvent where
  | begin (op : TouchOp)
  | advance (call now : Nat)

/-- A fresh cache, created at time `created`. -/
def TouchSystem.start (created : Nat) : TouchSystem := ⟨⟨fun _ => [], false, created⟩, [], [], [], []⟩

def TouchSystem.step (s : TouchSystem) : TouchEvent → TouchSystem
  | .begin op => { s with calls := s.calls ++ [⟨op, .begun⟩] }
  | .advance i now =>
    match s.calls[i]? with
    | none => s
    | some c =>
      let (mem, phase) := c.next s.mem now
      ⟨mem, s.calls.set i { c with phase := phase }, c.record i s.ledger⟩

def TouchSystem.run (s : TouchSystem) (schedule : List TouchEvent) : TouchSystem :=
  schedule.foldl TouchSystem.step s

/-! ### What a step can do -/

/-- The outcomes of the next step of call number `i`. -/
inductive TouchMove (i : Nat) (c : TouchCall) (mem : TouchMemory) (L : TouchLedger) :
    TouchMemory → TouchPhase → TouchLedger → Prop
  | insert (scope : BitVec 64) (agentId ts : Int)
      (hc : c = ⟨.enqueueTouch scope agentId ts, .begun⟩) :
      TouchMove i c mem L (mem.enqueue (scope, agentId) ts) .inserted
        (L.enqueue ⟨i, scope, agentId, ts⟩)
  | flag (hc : c.phase = .inserted) :
      TouchMove i c mem L { mem with hasPending := true } .flagged L
  | accept (due : Bool) (hc : c.phase = .flagged) : TouchMove i c mem L mem (.accepted due) L
  | clear (hop : ∀ scope agentId ts, c.op ≠ .enqueueTouch scope agentId ts)
      (hc : c.phase = .begun) :
      TouchMove i c mem L { mem with hasPending := false } (.sweeping 0 [] false) L
  | report (scope : BitVec 64) (next : Nat) (merged : List (Int × Int)) (hasRemaining : Bool)
      (hc : c = ⟨.drainTouches scope, .sweeping next merged hasRemaining⟩) :
      TouchMove i c mem L (mem.sweep scope next)
        (.sweeping (next + 1) (collect scope merged (mem.shards next))
          (hasRemaining || !(retainOthers scope (mem.shards next)).isEmpty))
        (L.report i scope next)
  | drop (scope : BitVec 64) (next : Nat) (merged : List (Int × Int)) (hasRemaining : Bool)
      (hc : c = ⟨.invalidateScope scope, .sweeping next merged hasRemaining⟩) :
      TouchMove i c mem L (mem.sweep scope next)
        (.sweeping (next + 1) merged
          (hasRemaining || !(retainOthers scope (mem.shards next)).isEmpty))
        (L.drop i scope next)
  | restore (next : Nat) (merged : List (Int × Int)) (hasRemaining : Bool) (phase : TouchPhase)
      (hc : c.phase = .sweeping next merged hasRemaining) (hnext : numTouchShards ≤ next)
      (hphase : phase = .restored merged ∨ phase = .swept merged) :
      TouchMove i c mem L (mem.restore hasRemaining) phase L
  | finish (merged : List (Int × Int)) (now : Nat) (hc : c.phase = .restored merged) :
      TouchMove i c mem L { mem with lastTouchFlush := now } (.swept merged) L

/-- A call makes one of the moves, or has returned. -/
theorem TouchCall.move (i : Nat) (c : TouchCall) (mem : TouchMemory) (now : Nat) (L : TouchLedger) :
    TouchMove i c mem L (c.next mem now).1 (c.next mem now).2 (c.record i L) ∨
      (c.next mem now = (mem, c.phase) ∧ c.record i L = L) := by
  obtain ⟨op, phase⟩ := c
  cases op with
  | enqueueTouch scope agentId ts =>
    cases phase with
    | begun => exact .inl (.insert scope agentId ts rfl)
    | inserted => exact .inl (.flag rfl)
    | flagged => exact .inl (.accept _ rfl)
    | _ => exact .inr ⟨rfl, rfl⟩
  | drainTouches scope =>
    cases phase with
    | begun => exact .inl (.clear nofun rfl)
    | sweeping next merged hasRemaining =>
      simp only [TouchCall.next, TouchCall.record]
      by_cases hnext : next < numTouchShards
      · rw [if_pos hnext, if_pos hnext]
        exact .inl (.report scope next merged hasRemaining rfl)
      · rw [if_neg hnext, if_neg hnext]
        exact .inl (.restore next merged hasRemaining _ rfl (not_lt.mp hnext) (.inl rfl))
    | restored merged => exact .inl (.finish merged now rfl)
    | _ => exact .inr ⟨rfl, rfl⟩
  | invalidateScope scope =>
    cases phase with
    | begun => exact .inl (.clear nofun rfl)
    | sweeping next merged hasRemaining =>
      simp only [TouchCall.next, TouchCall.record]
      by_cases hnext : next < numTouchShards
      · rw [if_pos hnext, if_pos hnext]
        exact .inl (.drop scope next merged hasRemaining rfl)
      · rw [if_neg hnext, if_neg hnext]
        exact .inl (.restore next merged hasRemaining _ rfl (not_lt.mp hnext) (.inr rfl))
    | _ => exact .inr ⟨rfl, rfl⟩

variable {s : TouchSystem}

/-- An invariant of every run holds at the start and is kept by beginnings and by moves. -/
theorem TouchSystem.run_induction {inv : TouchSystem → Prop}
    (hbegin : ∀ {s} op, inv s → inv { s with calls := s.calls ++ [⟨op, .begun⟩] })
    (hmove : ∀ {s i c mem phase L}, inv s → s.calls[i]? = some c →
      TouchMove i c s.mem s.ledger mem phase L → inv ⟨mem, s.calls.set i { c with phase := phase }, L⟩)
    (hs : inv s) (schedule : List TouchEvent) : inv (s.run schedule) := by
  unfold TouchSystem.run
  induction schedule generalizing s with
  | nil => exact hs
  | cons event schedule ih =>
    rw [foldl_cons]
    apply ih
    cases event with
    | begin op => exact hbegin op hs
    | advance i now =>
      simp only [TouchSystem.step]
      cases hc : s.calls[i]? with
      | none => exact hs
      | some c =>
        rcases c.move i s.mem now s.ledger with hm | ⟨hnext, hrecord⟩
        · exact hmove hs hc hm
        · obtain ⟨hlt, rfl⟩ := List.getElem?_eq_some_iff.mp hc
          dsimp only
          rw [hnext, hrecord]
          have hset : s.calls.set i { s.calls[i] with phase := s.calls[i].phase } = s.calls :=
            set_getElem_self hlt
          dsimp only
          rw [hset]
          exact hs

variable {calls : List TouchCall} {c : TouchCall} {i : Nat}

/-! ### The flag -/

/-- The call answers for shard `k` while the flag is down. -/
def TouchCall.Covers (k : Nat) (c : TouchCall) : Prop :=
  c.phase = .inserted ∨ ∃ next merged hasRemaining, c.phase = .sweeping next merged hasRemaining ∧
      (next ≤ k ∨ hasRemaining = true)

/-- Every shard with entries has the flag up or a call that answers for it. -/
def Flagged (s : TouchSystem) : Prop :=
  ∀ k < numTouchShards, s.mem.shards k ≠ [] → s.mem.hasPending = true ∨
      ∃ (j : Nat) (c : TouchCall), s.calls[j]? = some c ∧ c.Covers k

theorem flagged_begin (op : TouchOp) (h : Flagged s) :
    Flagged { s with calls := s.calls ++ [⟨op, .begun⟩] } := by
  intro k hk hne
  rcases h k hk hne with hflag | ⟨j, c, hc, hcovers⟩
  · exact .inl hflag
  · exact .inr ⟨j, c, getElem?_append_of_some hc _, hcovers⟩

variable {mem : TouchMemory} {phase : TouchPhase} {L : TouchLedger}

/-- A move that changes no shard and does not lower the flag, by a call that covered nothing or
ends up covering as much. -/
theorem flagged_of_covers {c' : TouchCall} (h : Flagged s) (hc : s.calls[i]? = some c)
    (hshards : ∀ k, mem.shards k ≠ [] → c'.Covers k ∨ s.mem.shards k ≠ [])
    (hflag : s.mem.hasPending = true → mem.hasPending = true ∨ ∀ k, c'.Covers k)
    (hcovers : ∀ k < numTouchShards, c.Covers k → mem.shards k ≠ [] →
      mem.hasPending = true ∨ c'.Covers k) :
    Flagged ⟨mem, s.calls.set i c', L⟩ := by
  have hi : (s.calls.set i c')[i]? = some c' := by
    rw [List.getElem?_set_self (List.getElem?_eq_some_iff.mp hc).1]
  intro k hk hne
  rcases hshards k hne with hcov | hold
  · exact .inr ⟨i, c', hi, hcov⟩
  · rcases h k hk hold with hup | ⟨j, d, hd, hcov⟩
    · rcases hflag hup with hup | hall
      · exact .inl hup
      · exact .inr ⟨i, c', hi, hall k⟩
    · by_cases hij : i = j
      · have heq : c = d := by
          rw [← hij, hc] at hd
          exact Option.some.inj hd
        rcases hcovers k hk (heq ▸ hcov) hne with hup | hcov'
        · exact .inl hup
        · exact .inr ⟨i, c', hi, hcov'⟩
      · exact .inr ⟨j, d, by rw [List.getElem?_set_ne hij]; exact hd, hcov⟩

theorem flagged_move (h : Flagged s) (hc : s.calls[i]? = some c)
    (hm : TouchMove i c s.mem s.ledger mem phase L) :
    Flagged ⟨mem, s.calls.set i { c with phase := phase }, L⟩ := by
  -- A sweep answers for the shard it has just left through `hasRemaining`.
  have hsweep (op : TouchOp) (scope : BitVec 64) (next : Nat) (merged merged' : List (Int × Int))
      (hasRemaining : Bool) (hphase : c.phase = .sweeping next merged hasRemaining) :
      Flagged ⟨s.mem.sweep scope next, s.calls.set i ⟨op, .sweeping (next + 1) merged'
        (hasRemaining || !(retainOthers scope (s.mem.shards next)).isEmpty)⟩, L⟩ := by
    apply flagged_of_covers h hc
    · intro k hne
      by_cases hk : k = next
      · left
        right
        rw [hk] at hne
        simp only [TouchMemory.sweep, update_self] at hne
        refine ⟨next + 1, merged', _, rfl, .inr ?_⟩
        simp [hne]
      · right
        simp only [TouchMemory.sweep, update_of_ne hk] at hne
        exact hne
    · exact fun hup => .inl hup
    · intro k _ hcov hne
      right
      right
      rcases hcov with hcov | ⟨next', merged₁, hasRemaining', hphase', hcov⟩
      · rw [hphase] at hcov
        cases hcov
      · rw [hphase] at hphase'
        cases hphase'
        refine ⟨next + 1, merged', _, rfl, ?_⟩
        rcases hcov with hle | hrem
        · by_cases hk : k = next
          · right
            rw [hk] at hne
            simp only [TouchMemory.sweep, update_self] at hne
            simp [hne]
          · left
            omega
        · right
          rw [hrem, Bool.true_or]
  -- A call in a phase that covers nothing.
  have hquiet (mem' : TouchMemory) (phase' : TouchPhase) (hnot : ∀ k, ¬ c.Covers k)
      (hshards : mem'.shards = s.mem.shards) (hflag : mem'.hasPending = s.mem.hasPending) :
      Flagged ⟨mem', s.calls.set i { c with phase := phase' }, L⟩ := by
    apply flagged_of_covers h hc
    · intro k hne
      right
      rw [← hshards]
      exact hne
    · intro hup
      left
      rw [hflag]
      exact hup
    · exact fun k _ hcov => absurd hcov (hnot k)
  cases hm with
  | insert scope agentId ts =>
    apply flagged_of_covers h hc
    · exact fun k _ => .inl (.inl rfl)
    · exact fun hup => .inl hup
    · exact fun k _ _ _ => .inr (.inl rfl)
  | flag => exact fun k _ _ => .inl rfl
  | accept due hphase =>
    apply hquiet _ _ _ rfl rfl
    intro k hcov
    simp [TouchCall.Covers, hphase] at hcov
  | clear _ hphase =>
    apply flagged_of_covers h hc
    · exact fun k hne => .inr hne
    · exact fun _ => .inr fun k => .inr ⟨0, [], false, rfl, .inl (Nat.zero_le k)⟩
    · intro k _ hcov
      simp [TouchCall.Covers, hphase] at hcov
  | report scope next merged hasRemaining heq =>
    apply hsweep
    rw [heq]
  | drop scope next merged hasRemaining heq =>
    apply hsweep
    rw [heq]
  | restore next merged hasRemaining phase hphase hnext =>
    cases hasRemaining with
    | true => exact fun k _ _ => .inl rfl
    | false =>
      apply flagged_of_covers h hc
      · exact fun k hne => .inr hne
      · exact fun hup => .inl hup
      · intro k hk hcov
        simp only [TouchCall.Covers, hphase] at hcov
        rcases hcov with hcov | ⟨next', _, _, hphase', hcov⟩
        · cases hcov
        · cases hphase'
          rcases hcov with hle | hrem
          · omega
          · cases hrem
  | finish merged now hphase =>
    apply hquiet _ _ _ rfl rfl
    intro k hcov
    simp [TouchCall.Covers, hphase] at hcov

theorem run_flagged (created : Nat) (schedule : List TouchEvent) :
    Flagged ((TouchSystem.start created).run schedule) :=
  TouchSystem.run_induction flagged_begin flagged_move (fun _ _ hne => absurd rfl hne) schedule

/-! ### Latest timestamps -/

theorem max?_append (l l' : List Int) : (l ++ l').max? = l.max?.merge max l'.max? := by
  induction l with
  | nil => simp
  | cons x l ih =>
    rw [cons_append, List.max?_cons, ih, List.max?_cons]
    cases l.max? with
    | none =>
      cases l'.max? with
      | none => rfl
      | some b => rfl
    | some a =>
      cases l'.max? with
      | none => rfl
      | some b => simp [max_assoc]

section

variable {κ : Type} [DecidableEq κ]

theorem get?_raiseTo (key key' : κ) (ts : Int) (m : List (κ × Int)) :
    Assoc.get? key' (raiseTo key ts m) =
      if key = key' then (Assoc.get? key' m).merge max (some ts) else Assoc.get? key' m := by
  unfold raiseTo
  by_cases hk : key = key'
  · rw [if_pos hk, ← hk]
    cases Assoc.get? key m with
    | none =>
      rw [Assoc.get?_insert, if_pos rfl]
      rfl
    | some existing =>
      rw [Assoc.get?_insert, if_pos rfl]
      simp only [Option.merge_some_some, Option.some.injEq]
      split
      · omega
      · omega
  · rw [if_neg hk]
    cases Assoc.get? key m with
    | none => rw [Assoc.get?_insert, if_neg hk]
    | some existing => rw [Assoc.get?_insert, if_neg hk]

theorem nodup_raiseTo {key : κ} {ts : Int} {m : List (κ × Int)} (h : (m.map (·.1)).Nodup) :
    ((raiseTo key ts m).map (·.1)).Nodup := by
  unfold raiseTo
  split
  · exact Assoc.nodup_keys_insert h
  · exact Assoc.nodup_keys_insert h

theorem mem_raiseTo {key : κ} {ts : Int} {m : List (κ × Int)} {e : κ × Int}
    (he : e ∈ raiseTo key ts m) : e ∈ m ∨ e.1 = key := by
  unfold raiseTo at he
  split at he
  · rcases Assoc.mem_insert.mp he with he | he
    · grind
    · grind
  · rcases Assoc.mem_insert.mp he with he | he
    · grind
    · grind

end

theorem get?_retainOthers (scope : BitVec 64) (shard : TouchShard) (key : TouchKey) :
    Assoc.get? key (retainOthers scope shard) =
      if key.1 = scope then none else Assoc.get? key shard := by
  unfold retainOthers
  by_cases hk : key.1 = scope
  · rw [if_pos hk, Assoc.get?_eq_none]
    intro hmem
    obtain ⟨e, he, hek⟩ := mem_map.mp hmem
    rw [mem_filter, bne_iff_ne] at he
    exact he.2 (by rw [hek, hk])
  · rw [if_neg hk]
    exact Assoc.get?_filter (p := fun k => k.1 != scope) (bne_iff_ne.mpr hk) shard

variable {scope : BitVec 64}

/-- A drain merges what the shard has for each agent of the scope. -/
theorem get?_collect {shard : TouchShard} (h : (shard.map (·.1)).Nodup)
    (merged : List (Int × Int)) (agentId : Int) :
    Assoc.get? agentId (collect scope merged shard) =
      (Assoc.get? agentId merged).merge max (Assoc.get? (scope, agentId) shard) := by
  unfold collect
  induction shard generalizing merged with
  | nil => simp [Assoc.get?]
  | cons e shard ih =>
    rw [map_cons, nodup_cons] at h
    by_cases hscope : e.1.1 = scope
    · rw [filter_cons_of_pos (by simpa using hscope), foldl_cons, ih h.2, get?_raiseTo]
      by_cases hagent : e.1.2 = agentId
      · have hkey : e.1 = (scope, agentId) := Prod.ext hscope hagent
        have hnone : Assoc.get? (scope, agentId) shard = none := by
          rw [Assoc.get?_eq_none, ← hkey]
          exact h.1
        have hhead : Assoc.get? (scope, agentId) (e :: shard) = some e.2 := by
          simp [Assoc.get?, hkey]
        rw [if_pos hagent, hnone, hhead, Option.merge_none_right]
      · have hkey : e.1 ≠ (scope, agentId) := fun heq => hagent (congrArg Prod.snd heq)
        have hhead : Assoc.get? (scope, agentId) (e :: shard) =
            Assoc.get? (scope, agentId) shard := by
          simp [Assoc.get?, hkey]
        rw [if_neg hagent, hhead]
    · have hkey : e.1 ≠ (scope, agentId) := fun heq => hscope (congrArg Prod.fst heq)
      have hhead : Assoc.get? (scope, agentId) (e :: shard) =
          Assoc.get? (scope, agentId) shard := by
        simp [Assoc.get?, hkey]
      rw [filter_cons_of_neg (by simpa using hscope), ih h.2, hhead]

/-! ### The shards hold the pending touches -/

/-- Every shard has unique keys that belong there, and the latest pending timestamp of each. -/
structure ShardsHold (mem : TouchMemory) (L : TouchLedger) : Prop where
  nodup : ∀ k, ((mem.shards k).map (·.1)).Nodup
  home : ∀ k, ∀ e ∈ mem.shards k, shardIdx e.1 = k
  latest : ∀ key, Assoc.get? key (mem.shards (shardIdx key)) = (L.pendingTs key).max?

theorem pendingTs_enqueue (L : TouchLedger) (t : Touch) (key : TouchKey) :
    (L.enqueue t).pendingTs key = L.pendingTs key ++ if t.key = key then [t.ts] else [] := by
  simp only [TouchLedger.pendingTs, TouchLedger.enqueue, filter_append, map_append]
  by_cases hk : t.key = key
  · simp [hk]
  · simp [hk]

/-- The pending touches of a key after a sweep: none if the sweep takes them, else all. -/
theorem pendingTs_sweep {L' : TouchLedger} {k : Nat}
    (hL : L'.pending = L.pending.filter fun t => !t.isSwept scope k) (key : TouchKey) :
    L'.pendingTs key = if key.1 = scope ∧ shardIdx key = k then [] else L.pendingTs key := by
  have hkey (t : Touch) (ht : t.key = key) :
      t.isSwept scope k = decide (key.1 = scope ∧ shardIdx key = k) := by
    rw [Touch.isSwept, ← ht, Bool.decide_and]
    rfl
  unfold TouchLedger.pendingTs
  rw [hL, filter_filter]
  split
  · next hswept =>
    rw [map_eq_nil_iff, filter_eq_nil_iff]
    intro t _ ht
    rw [Bool.and_eq_true, beq_iff_eq] at ht
    rw [hkey t ht.1, decide_eq_true hswept] at ht
    exact Bool.false_ne_true ht.2
  · next hkept =>
    congr 1
    apply filter_congr
    intro t _
    by_cases ht : t.key = key
    · rw [hkey t ht, decide_eq_false hkept]
      simp
    · simp [ht]

theorem ShardsHold.get? (h : ShardsHold mem L) (key : TouchKey) (k : Nat) :
    Assoc.get? key (mem.shards k) = if shardIdx key = k then (L.pendingTs key).max? else none := by
  split
  · next hk =>
    rw [← hk]
    exact h.latest key
  · next hk =>
    rw [Assoc.get?_eq_none]
    intro hmem
    obtain ⟨e, he, hek⟩ := mem_map.mp hmem
    exact hk (by rw [← hek]; exact h.home k e he)

theorem ShardsHold.enqueue (h : ShardsHold mem L) (t : Touch) :
    ShardsHold (mem.enqueue t.key t.ts) (L.enqueue t) where
  nodup := (forall_update_iff _ fun _ (shard : TouchShard) => (shard.map (·.1)).Nodup).mpr
    ⟨nodup_raiseTo (h.nodup _), fun k _ => h.nodup k⟩
  home := by
    refine (forall_update_iff _ fun k (shard : TouchShard) => ∀ e ∈ shard, shardIdx e.1 = k).mpr
      ⟨fun e he => ?_, fun k _ => h.home k⟩
    rcases mem_raiseTo he with he | he
    · exact h.home _ e he
    · rw [he]
  latest := by
    intro key
    rw [pendingTs_enqueue, max?_append, ← h.latest key]
    simp only [TouchMemory.enqueue]
    by_cases hk : t.key = key
    · rw [if_pos hk, hk, update_self, get?_raiseTo, if_pos rfl]
      rfl
    · rw [if_neg hk, List.max?_nil, Option.merge_none_right]
      by_cases hidx : shardIdx key = shardIdx t.key
      · rw [hidx, update_self, get?_raiseTo, if_neg hk]
      · rw [update_of_ne hidx]

theorem ShardsHold.sweep {L' : TouchLedger} (h : ShardsHold mem L) {k : Nat}
    (hL : L'.pending = L.pending.filter fun t => !t.isSwept scope k) :
    ShardsHold (mem.sweep scope k) L' where
  nodup := (forall_update_iff _ fun _ (shard : TouchShard) => (shard.map (·.1)).Nodup).mpr
    ⟨(filter_sublist.map _).nodup (h.nodup k), fun k _ => h.nodup k⟩
  home := (forall_update_iff _ fun k (shard : TouchShard) => ∀ e ∈ shard, shardIdx e.1 = k).mpr
    ⟨fun e he => h.home k e (mem_of_mem_filter he), fun k _ => h.home k⟩
  latest := by
    intro key
    rw [pendingTs_sweep hL]
    simp only [TouchMemory.sweep]
    by_cases hk : shardIdx key = k
    · rw [hk, update_self, get?_retainOthers, ← hk, h.latest key]
      by_cases hscope : key.1 = scope
      · rw [if_pos hscope, if_pos ⟨hscope, rfl⟩]
        rfl
      · rw [if_neg hscope, if_neg (fun hboth => hscope hboth.1)]
    · rw [update_of_ne hk, h.latest key, if_neg (fun hboth => hk hboth.2)]

theorem shardsHold_move (h : ShardsHold s.mem s.ledger)
    (hm : TouchMove i c s.mem s.ledger mem phase L) : ShardsHold mem L := by
  cases hm with
  | insert scope agentId ts => exact h.enqueue ⟨i, scope, agentId, ts⟩
  | flag => exact ⟨h.nodup, h.home, h.latest⟩
  | accept => exact h
  | clear => exact ⟨h.nodup, h.home, h.latest⟩
  | report => exact h.sweep rfl
  | drop => exact h.sweep rfl
  | restore next merged hasRemaining =>
    cases hasRemaining with
    | true => exact ⟨h.nodup, h.home, h.latest⟩
    | false => exact h
  | finish => exact ⟨h.nodup, h.home, h.latest⟩

/-! ### Drains report the latest timestamp of what they take -/

/-- What a call has merged so far. -/
def TouchPhase.merged : TouchPhase → List (Int × Int)
  | .sweeping _ merged _ | .restored merged | .swept merged => merged
  | _ => []

/-- Touches are reported by drains of their scope and dropped by invalidations of it, and every
drain has merged the latest timestamps of the touches it took. -/
structure Reports (s : TouchSystem) : Prop where
  shards : ShardsHold s.mem s.ledger
  reported : ∀ e ∈ s.ledger.reported, ∃ phase, s.calls[e.1]? = some ⟨.drainTouches e.2.scope, phase⟩
  dropped : ∀ e ∈ s.ledger.dropped, ∃ phase, s.calls[e.1]? = some ⟨.invalidateScope e.2.scope, phase⟩
  latest : ∀ (j : Nat) scope phase, s.calls[j]? = some ⟨.drainTouches scope, phase⟩ →
    ∀ agentId, Assoc.get? agentId phase.merged = (s.ledger.reportedTs j agentId).max?

theorem reportedTs_eq_nil {j : Nat} (h : ∀ e ∈ L.reported, e.1 ≠ j) (agentId : Int) :
    L.reportedTs j agentId = [] := by
  unfold TouchLedger.reportedTs
  rw [map_eq_nil_iff, filter_eq_nil_iff]
  intro e he hcond
  rw [Bool.and_eq_true, beq_iff_eq] at hcond
  exact h e he hcond.1

/-- The drain that sweeps takes the pending touches of the agents whose shard it is. -/
theorem reportedTs_report (L : TouchLedger) (call : Nat) (scope : BitVec 64) (k j : Nat)
    (agentId : Int) : (L.report call scope k).reportedTs j agentId = L.reportedTs j agentId ++
      if j = call ∧ shardIdx (scope, agentId) = k then L.pendingTs (scope, agentId) else [] := by
  simp only [TouchLedger.reportedTs, TouchLedger.report, filter_append, map_append]
  congr 1
  rw [filter_map, filter_filter, map_map]
  split
  · next hboth =>
    unfold TouchLedger.pendingTs
    show List.map _ _ = _
    congr 1
    apply filter_congr
    intro t _
    rw [Bool.eq_iff_iff]
    simp only [comp_apply, Bool.and_eq_true, beq_iff_eq, Touch.isSwept, Touch.key, Prod.mk.injEq]
    constructor
    · rintro ⟨⟨_, ha⟩, hs, _⟩
      exact ⟨hs, ha⟩
    · rintro ⟨hs, ha⟩
      refine ⟨⟨hboth.1.symm, ha⟩, hs, ?_⟩
      rw [hs, ha]
      exact hboth.2
  · next hnot =>
    rw [map_eq_nil_iff, filter_eq_nil_iff]
    intro t _ ht
    simp only [comp_apply, Bool.and_eq_true, beq_iff_eq, Touch.isSwept, Touch.key] at ht
    obtain ⟨⟨hj, ha⟩, hs, hk⟩ := ht
    apply hnot
    rw [← hs, ← ha]
    exact ⟨hj.symm, hk⟩

/-- A call keeps its operation, and every other call keeps all. -/
theorem exists_call_set {j : Nat} {op : TouchOp} (hc : calls[i]? = some c)
    (h : ∃ p, calls[j]? = some ⟨op, p⟩) :
    ∃ p, (calls.set i { c with phase := phase })[j]? = some ⟨op, p⟩ := by
  obtain ⟨p, hp⟩ := h
  by_cases hij : i = j
  · rw [← hij, hc] at hp
    rw [← hij, List.getElem?_set_self (List.getElem?_eq_some_iff.mp hc).1]
    exact ⟨phase, by rw [Option.some.inj hp]⟩
  · rw [List.getElem?_set_ne hij]
    exact ⟨p, hp⟩

theorem exists_call_append {j : Nat} {op : TouchOp} (c : TouchCall)
    (h : ∃ p, calls[j]? = some ⟨op, p⟩) : ∃ p, (calls ++ [c])[j]? = some ⟨op, p⟩ := by
  obtain ⟨p, hp⟩ := h
  exact ⟨p, getElem?_append_of_some hp c⟩

theorem reports_begin (op : TouchOp) (h : Reports s) :
    Reports { s with calls := s.calls ++ [⟨op, .begun⟩] } where
  shards := h.shards
  reported e he := exists_call_append _ (h.reported e he)
  dropped e he := exists_call_append _ (h.dropped e he)
  latest := by
    intro j scope phase hj agentId
    rcases getElem?_append_cases hj with hj | ⟨hlen, hnew⟩
    · exact h.latest j scope phase hj agentId
    · -- The new call has reported nothing, as the reports name calls that were there.
      have hnone : ∀ e ∈ s.ledger.reported, e.1 ≠ j := by
        intro e he heq
        obtain ⟨p, hp⟩ := h.reported e he
        exact not_lt.mpr hlen (heq ▸ (List.getElem?_eq_some_iff.mp hp).1)
      cases hnew
      rw [reportedTs_eq_nil hnone]
      rfl

/-- A move that takes no touch for a drain keeps the reports, if the call keeps what it merged. -/
theorem Reports.keep (h : Reports s) (hc : s.calls[i]? = some c)
    (hshards : ShardsHold mem L) (hreported : L.reported = s.ledger.reported)
    (hdropped : ∀ e ∈ L.dropped, e ∈ s.ledger.dropped ∨ e.1 = i ∧ c.op = .invalidateScope e.2.scope)
    (hmerged : ∀ scope, c.op = .drainTouches scope → phase.merged = c.phase.merged) :
    Reports ⟨mem, s.calls.set i { c with phase := phase }, L⟩ where
  shards := hshards
  reported e he := exists_call_set hc (h.reported e (hreported ▸ he))
  dropped := by
    intro e he
    apply exists_call_set hc
    rcases hdropped e he with hold | ⟨hi, hop⟩
    · exact h.dropped e hold
    · exact ⟨c.phase, by rw [hi, hc, ← hop]⟩
  latest := by
    intro j scope p hj agentId
    have hts : L.reportedTs j agentId = s.ledger.reportedTs j agentId := by
      rw [TouchLedger.reportedTs, hreported]
      rfl
    dsimp only
    rw [hts]
    rcases getElem?_set_cases hj with ⟨rfl, heq⟩ | ⟨_, hj⟩
    · rw [TouchCall.mk.injEq] at heq
      have hcall : c = ⟨.drainTouches scope, c.phase⟩ := by rw [heq.1]
      rw [heq.2, hmerged scope heq.1.symm]
      exact h.latest j scope c.phase (hc.trans (congrArg some hcall)) agentId
    · exact h.latest j scope p hj agentId

theorem reports_move (h : Reports s) (hc : s.calls[i]? = some c)
    (hm : TouchMove i c s.mem s.ledger mem phase L) :
    Reports ⟨mem, s.calls.set i { c with phase := phase }, L⟩ := by
  have hshards := shardsHold_move h.shards hm
  cases hm with
  | insert scope agentId ts heq =>
    exact h.keep hc hshards rfl (fun e he => .inl he) (fun _ _ => by rw [heq]; rfl)
  | flag hphase =>
    exact h.keep hc hshards rfl (fun e he => .inl he) (fun _ _ => by rw [hphase]; rfl)
  | accept due hphase =>
    exact h.keep hc hshards rfl (fun e he => .inl he) (fun _ _ => by rw [hphase]; rfl)
  | clear _ hphase =>
    exact h.keep hc hshards rfl (fun e he => .inl he) (fun _ _ => by rw [hphase]; rfl)
  | drop scope next merged hasRemaining heq =>
    refine h.keep hc hshards rfl ?_ (fun _ _ => by rw [heq]; rfl)
    intro e he
    rcases mem_append.mp he with he | he
    · exact .inl he
    · right
      obtain ⟨t, ht, rfl⟩ := mem_map.mp he
      have hswept := (mem_filter.mp ht).2
      rw [Touch.isSwept, Bool.and_eq_true, beq_iff_eq] at hswept
      exact ⟨rfl, by rw [heq, hswept.1]⟩
  | restore next merged hasRemaining phase hphase hnext hrest =>
    refine h.keep hc hshards rfl (fun e he => .inl he) (fun _ _ => ?_)
    rw [hphase]
    rcases hrest with rfl | rfl <;> rfl
  | finish merged now hphase =>
    exact h.keep hc hshards rfl (fun e he => .inl he) (fun _ _ => by rw [hphase]; rfl)
  | report scope next merged hasRemaining heq =>
    refine ⟨hshards, ?_, fun e he => exists_call_set hc (h.dropped e he), ?_⟩
    · intro e he
      apply exists_call_set hc
      rcases mem_append.mp he with he | he
      · exact h.reported e he
      · obtain ⟨t, ht, rfl⟩ := mem_map.mp he
        have hswept := (mem_filter.mp ht).2
        rw [Touch.isSwept, Bool.and_eq_true, beq_iff_eq] at hswept
        exact ⟨c.phase, by rw [hc, heq, hswept.1]⟩
    · intro j scope' p hj agentId
      dsimp only
      rw [reportedTs_report, max?_append]
      rcases getElem?_set_cases hj with ⟨rfl, hcall⟩ | ⟨hne, hj⟩
      · rw [heq] at hc hcall
        cases hcall
        have hold := h.latest j scope _ hc agentId
        rw [← hold]
        show Assoc.get? agentId (collect scope merged (s.mem.shards next)) = _
        rw [get?_collect (h.shards.nodup next), h.shards.get?]
        by_cases hk : shardIdx (scope, agentId) = next
        · rw [if_pos hk, if_pos ⟨rfl, hk⟩]
          rfl
        · rw [if_neg hk, if_neg fun hboth => hk hboth.2]
          rfl
      · rw [if_neg fun hboth => hne hboth.1, List.max?_nil, Option.merge_none_right]
        exact h.latest j scope' p hj agentId

theorem reports_start (created : Nat) : Reports (TouchSystem.start created) where
  shards := ⟨fun _ => nodup_nil, fun _ _ he => absurd he not_mem_nil, fun _ => rfl⟩
  reported _ he := absurd he not_mem_nil
  dropped _ he := absurd he not_mem_nil
  latest j _ _ hj := by cases hj

/-! ### Every touch is in one place -/

/-- Whether the call of a touch has put it into its shard. -/
def isEnqueued (calls : List TouchCall) (t : Touch) : Bool :=
  (calls[t.call]?).any fun c =>
    c.op == .enqueueTouch t.scope t.agentId t.ts && c.phase != .begun

/-- A touch that was enqueued is in one place, once; no other touch is anywhere. -/
def Accounted (s : TouchSystem) : Prop :=
  ∀ t, s.ledger.places t = if isEnqueued s.calls t then 1 else 0

theorem isEnqueued_append (calls : List TouchCall) (op : TouchOp) (t : Touch) :
    isEnqueued (calls ++ [⟨op, .begun⟩]) t = isEnqueued calls t := by
  unfold isEnqueued
  by_cases hlt : t.call < calls.length
  · rw [List.getElem?_append_left hlt]
  · rw [List.getElem?_append_right (not_lt.mp hlt), List.getElem?_eq_none (not_lt.mp hlt),
      List.getElem?_singleton]
    split
    · simp
    · rfl

theorem isEnqueued_set (hc : calls[i]? = some c) (phase : TouchPhase) (t : Touch) :
    isEnqueued (calls.set i { c with phase := phase }) t =
      if i = t.call then c.op == .enqueueTouch t.scope t.agentId t.ts && phase != .begun
      else isEnqueued calls t := by
  unfold isEnqueued
  split
  · next hi =>
    rw [← hi, List.getElem?_set_self (List.getElem?_eq_some_iff.mp hc).1]
    rfl
  · next hi => rw [List.getElem?_set_ne hi]

theorem isEnqueued_of_call {t : Touch} (hc : calls[t.call]? = some c) :
    isEnqueued calls t = (c.op == .enqueueTouch t.scope t.agentId t.ts && c.phase != .begun) := by
  rw [isEnqueued, hc]
  rfl

theorem accounted_begin (op : TouchOp) (h : Accounted s) :
    Accounted { s with calls := s.calls ++ [⟨op, .begun⟩] } := by
  intro t
  dsimp only
  rw [isEnqueued_append]
  exact h t

theorem places_sweep (L : TouchLedger) (call : Nat) (scope : BitVec 64) (k : Nat) (t : Touch) :
    (L.report call scope k).places t = L.places t ∧ (L.drop call scope k).places t = L.places t := by
  have hsplit : L.pending.count t = (L.pending.filter (Touch.isSwept scope k)).count t +
      (L.pending.filter fun t => !t.isSwept scope k).count t := countP_eq_countP_filter_add ..
  simp only [TouchLedger.places, TouchLedger.report, TouchLedger.drop, map_append, map_map, count_append]
  rw [show (Prod.snd ∘ fun t => (call, t)) = (id : Touch → Touch) from rfl, map_id]
  omega

/-- A move of a call that does not leave `begun` as an enqueue moves no touch in or out. -/
theorem Accounted.keep (h : Accounted s) (hc : s.calls[i]? = some c)
    (hplaces : ∀ t, L.places t = s.ledger.places t)
    (hphase : (∀ scope agentId ts, c.op ≠ .enqueueTouch scope agentId ts) ∨
      (c.phase ≠ .begun ∧ phase ≠ .begun)) :
    Accounted ⟨mem, s.calls.set i { c with phase := phase }, L⟩ := by
  intro t
  dsimp only
  rw [hplaces, h t, isEnqueued_set hc]
  by_cases hi : i = t.call
  · rw [if_pos hi, isEnqueued_of_call (hi ▸ hc)]
    rcases hphase with hop | ⟨hold, hnew⟩
    · rw [beq_false_of_ne (hop t.scope t.agentId t.ts), Bool.false_and, Bool.false_and]
    · rw [bne_iff_ne.mpr hold, bne_iff_ne.mpr hnew]
  · rw [if_neg hi]

theorem accounted_move (h : Accounted s) (hc : s.calls[i]? = some c)
    (hm : TouchMove i c s.mem s.ledger mem phase L) :
    Accounted ⟨mem, s.calls.set i { c with phase := phase }, L⟩ := by
  cases hm with
  | insert scope agentId ts heq =>
    intro t
    have hplaces : (s.ledger.enqueue ⟨i, scope, agentId, ts⟩).places t =
        s.ledger.places t + if ⟨i, scope, agentId, ts⟩ = t then 1 else 0 := by
      simp only [TouchLedger.places, TouchLedger.enqueue, count_append, count_singleton, beq_iff_eq]
      omega
    dsimp only
    rw [hplaces, h t, isEnqueued_set hc]
    by_cases hi : i = t.call
    · -- Before this step the call had enqueued nothing.
      rw [if_pos hi, isEnqueued_of_call (hi ▸ hc), heq]
      by_cases ht : ⟨i, scope, agentId, ts⟩ = t
      · rw [if_pos ht, ← ht]
        simp
      · have hop : TouchOp.enqueueTouch scope agentId ts ≠
            .enqueueTouch t.scope t.agentId t.ts := by
          intro hop
          cases hop
          exact ht (by rw [hi])
        rw [if_neg ht, beq_false_of_ne hop, Bool.false_and, Bool.false_and, Nat.add_zero]
    · have ht : ⟨i, scope, agentId, ts⟩ ≠ t := fun ht => hi (congrArg Touch.call ht)
      rw [if_neg hi, if_neg ht, Nat.add_zero]
  | flag hphase =>
    refine h.keep hc (fun _ => rfl) (.inr ⟨?_, nofun⟩)
    rw [hphase]
    nofun
  | accept due hphase =>
    refine h.keep hc (fun _ => rfl) (.inr ⟨?_, nofun⟩)
    rw [hphase]
    nofun
  | clear hop => exact h.keep hc (fun _ => rfl) (.inl hop)
  | report scope next merged hasRemaining heq =>
    refine h.keep hc (fun t => (places_sweep s.ledger i scope next t).1) (.inl ?_)
    rw [heq]
    nofun
  | drop scope next merged hasRemaining heq =>
    refine h.keep hc (fun t => (places_sweep s.ledger i scope next t).2) (.inl ?_)
    rw [heq]
    nofun
  | restore next merged hasRemaining phase hphase hnext hrest =>
    refine h.keep hc (fun _ => rfl) (.inr ⟨?_, ?_⟩)
    · rw [hphase]
      nofun
    · rcases hrest with rfl | rfl <;> nofun
  | finish merged now hphase =>
    refine h.keep hc (fun _ => rfl) (.inr ⟨?_, nofun⟩)
    rw [hphase]
    nofun

/-! ### A drain leaves nothing behind -/

/-- How many shards a sweep has done. -/
def TouchPhase.progress : TouchPhase → Nat
  | .sweeping next _ _ => next
  | .restored _ | .swept _ => numTouchShards
  | _ => 0

/-- The touches of `old` have left their calls, and those that drain `j` has passed are gone. -/
structure Passed (old : List Touch) (j : Nat) (s : TouchSystem) : Prop where
  enqueued : ∀ t ∈ old, ∃ c, s.calls[t.call]? = some c ∧ c.phase ≠ .begun
  gone : ∀ scope phase, s.calls[j]? = some ⟨.drainTouches scope, phase⟩ → ∀ t ∈ old,
    t.scope = scope → shardIdx t.key < phase.progress → t ∉ s.ledger.pending

theorem passed_begin {old : List Touch} {j : Nat} (op : TouchOp) (h : Passed old j s) : Passed old j { s with calls := s.calls ++ [⟨op, .begun⟩] } where
  enqueued := by
    intro t ht
    obtain ⟨c, hc, hphase⟩ := h.enqueued t ht
    exact ⟨c, getElem?_append_of_some hc _, hphase⟩
  gone := by
    intro scope phase hj t ht hscope hlt
    rcases getElem?_append_cases hj with hj | ⟨-, hnew⟩
    · exact h.gone scope phase hj t ht hscope hlt
    · cases hnew
      exact absurd hlt (Nat.not_lt_zero _)

/-- The pending touches after a move were pending, or come from an enqueue that has just begun. -/
theorem TouchMove.pending {mem' : TouchMemory} {L' : TouchLedger}
    (hm : TouchMove i c mem L mem' phase L') :
    (∀ t ∈ L'.pending, t ∈ L.pending ∨ (t.call = i ∧ c.phase = .begun)) ∧ phase ≠ .begun := by
  cases hm with
  | insert scope agentId ts heq =>
    refine ⟨?_, nofun⟩
    intro t ht
    rcases mem_append.mp ht with ht | ht
    · exact .inl ht
    · right
      rw [mem_singleton.mp ht, heq]
      exact ⟨rfl, rfl⟩
  | flag => exact ⟨fun t ht => .inl ht, nofun⟩
  | accept => exact ⟨fun t ht => .inl ht, nofun⟩
  | clear => exact ⟨fun t ht => .inl ht, nofun⟩
  | report => exact ⟨fun t ht => .inl (mem_of_mem_filter ht), nofun⟩
  | drop => exact ⟨fun t ht => .inl (mem_of_mem_filter ht), nofun⟩
  | restore next merged hasRemaining phase _ _ hrest =>
    refine ⟨fun t ht => .inl ht, ?_⟩
    rcases hrest with rfl | rfl <;> nofun
  | finish => exact ⟨fun t ht => .inl ht, nofun⟩

/-- A drain moves past a shard only by sweeping it. -/
theorem TouchMove.progress {mem' : TouchMemory} {L' : TouchLedger}
    (hm : TouchMove i c mem L mem' phase L') (hop : c.op = .drainTouches scope) {t : Touch}
    (ht : t ∈ L'.pending) (hscope : t.scope = scope) (hlt : shardIdx t.key < phase.progress) :
    shardIdx t.key < c.phase.progress := by
  have hshard := shardIdx_lt t.key
  cases hm with
  | insert scope' agentId ts heq =>
    rw [heq] at hop
    cases hop
  | flag => exact absurd hlt (Nat.not_lt_zero _)
  | accept => exact absurd hlt (Nat.not_lt_zero _)
  | clear => exact absurd hlt (Nat.not_lt_zero _)
  | report scope' next merged hasRemaining heq =>
    rw [heq] at hop ⊢
    cases hop
    have hkept := (mem_filter.mp ht).2
    simp only [Touch.isSwept, hscope, BEq.rfl, Bool.true_and, Bool.not_eq_true',
      beq_eq_false_iff_ne] at hkept
    simp only [TouchPhase.progress] at hlt ⊢
    omega
  | drop scope' next merged hasRemaining heq =>
    rw [heq] at hop
    cases hop
  | restore next merged hasRemaining phase hphase hnext =>
    rw [hphase]
    simp only [TouchPhase.progress]
    omega
  | finish merged now hphase =>
    rw [hphase]
    exact hshard

theorem passed_move {old : List Touch} {j : Nat} (h : Passed old j s)
    (hc : s.calls[i]? = some c) (hm : TouchMove i c s.mem s.ledger mem phase L) :
    Passed old j ⟨mem, s.calls.set i { c with phase := phase }, L⟩ := by
  obtain ⟨hpending, hbegun⟩ := hm.pending
  have hset : (s.calls.set i { c with phase := phase })[i]? = some { c with phase := phase } :=
    List.getElem?_set_self (List.getElem?_eq_some_iff.mp hc).1
  -- An old touch cannot be enqueued again.
  have hold : ∀ t ∈ old, t ∈ L.pending → t ∈ s.ledger.pending := by
    intro t ht hmem
    rcases hpending t hmem with hmem | ⟨hi, hphase⟩
    · exact hmem
    · obtain ⟨d, hd, hne⟩ := h.enqueued t ht
      rw [hi, hc] at hd
      exact absurd hphase (Option.some.inj hd ▸ hne)
  constructor
  · intro t ht
    obtain ⟨d, hd, hne⟩ := h.enqueued t ht
    dsimp only
    by_cases hi : i = t.call
    · rw [← hi]
      exact ⟨_, hset, hbegun⟩
    · rw [List.getElem?_set_ne hi]
      exact ⟨d, hd, hne⟩
  · intro scope p hj t ht hscope hlt hmem
    rcases getElem?_set_cases hj with ⟨rfl, hcall⟩ | ⟨_, hj⟩
    · rw [TouchCall.mk.injEq] at hcall
      rw [hcall.2] at hlt
      have hcall' : c = ⟨.drainTouches scope, c.phase⟩ := by rw [hcall.1]
      have hbefore := hm.progress hcall.1.symm hmem hscope hlt
      exact h.gone scope c.phase (hc.trans (congrArg some hcall')) t ht hscope hbefore
        (hold t ht hmem)
    · exact h.gone scope p hj t ht hscope hlt (hold t ht hmem)

/-! ### Every interleaving -/

/-- Nothing is lost or reported twice.

* An enqueue that has inserted its touch finds it in exactly one place: pending, taken by one
  drain of its scope, or dropped by one invalidation of its scope.
* A drain that has returned reports for each agent the latest timestamp of the touches it took,
  all those that had come since the previous removal, and for the others nothing.
* While no call is in progress, a shard with entries means that the flag is up. -/
structure TouchesKept (s : TouchSystem) : Prop where
  once : ∀ (i : Nat) scope agentId ts phase,
    s.calls[i]? = some ⟨.enqueueTouch scope agentId ts, phase⟩ → phase ≠ .begun →
      s.ledger.places ⟨i, scope, agentId, ts⟩ = 1
  reported : ∀ e ∈ s.ledger.reported, ∃ phase, s.calls[e.1]? = some ⟨.drainTouches e.2.scope, phase⟩
  dropped : ∀ e ∈ s.ledger.dropped, ∃ phase, s.calls[e.1]? = some ⟨.invalidateScope e.2.scope, phase⟩
  latest : ∀ (j : Nat) scope merged, s.calls[j]? = some ⟨.drainTouches scope, .swept merged⟩ →
      ∀ agentId, Assoc.get? agentId merged = (s.ledger.reportedTs j agentId).max?
  pending : ∀ key, Assoc.get? key (s.mem.shards (shardIdx key)) = (s.ledger.pendingTs key).max?
  flag : (∀ c ∈ s.calls, c.phase.isFinished = true) →
    (∃ k < numTouchShards, s.mem.shards k ≠ []) → s.mem.hasPending = true

theorem Flagged.hasPending (h : Flagged s) (hfinished : ∀ c ∈ s.calls, c.phase.isFinished = true)
    (hshard : ∃ k < numTouchShards, s.mem.shards k ≠ []) : s.mem.hasPending = true := by
  obtain ⟨k, hk, hne⟩ := hshard
  rcases h k hk hne with hflag | ⟨j, c, hc, hcovers⟩
  · exact hflag
  · have hdone := hfinished c (mem_of_getElem? hc)
    rcases hcovers with hphase | ⟨next, merged, hasRemaining, hphase, _⟩
    · rw [hphase] at hdone
      cases hdone
    · rw [hphase] at hdone
      cases hdone

/-- In every interleaving touches are kept, and a drain leaves no touch of its scope pending that
was pending when it began. -/
theorem run_touchesKept (created : Nat) (earlier later : List TouchEvent) :
    TouchesKept ((TouchSystem.start created).run (earlier ++ later)) ∧
      ∀ (j : Nat) scope merged, ((TouchSystem.start created).run earlier).calls.length ≤ j →
        ((TouchSystem.start created).run (earlier ++ later)).calls[j]? =
          some ⟨.drainTouches scope, .swept merged⟩ →
        ∀ t ∈ ((TouchSystem.start created).run earlier).ledger.pending, t.scope = scope →
          t ∉ ((TouchSystem.start created).run (earlier ++ later)).ledger.pending := by
  have haccounted (schedule : List TouchEvent) :
      Accounted ((TouchSystem.start created).run schedule) :=
    TouchSystem.run_induction accounted_begin accounted_move (fun _ => rfl) schedule
  have hreports : Reports ((TouchSystem.start created).run (earlier ++ later)) :=
    TouchSystem.run_induction reports_begin reports_move (reports_start created) _
  refine ⟨⟨?_, hreports.reported, hreports.dropped, ?_, hreports.shards.latest,
    (run_flagged created _).hasPending⟩, ?_⟩
  · intro i scope agentId ts phase hi hphase
    have henqueued : isEnqueued ((TouchSystem.start created).run (earlier ++ later)).calls
        ⟨i, scope, agentId, ts⟩ = true := by
      rw [isEnqueued_of_call hi, BEq.rfl, bne_iff_ne.mpr hphase]
      rfl
    rw [haccounted, henqueued]
    rfl
  · intro j scope merged hj
    exact hreports.latest j scope _ hj
  · intro j scope merged hlen hj t ht hscope
    have hstart : Passed ((TouchSystem.start created).run earlier).ledger.pending j
        ((TouchSystem.start created).run earlier) := by
      constructor
      · intro t ht
        have hplaces := haccounted earlier t
        have hpos : 0 < ((TouchSystem.start created).run earlier).ledger.pending.count t :=
          count_pos_iff.mpr ht
        have henqueued : isEnqueued ((TouchSystem.start created).run earlier).calls t = true := by
          by_contra hnot
          rw [if_neg hnot, TouchLedger.places] at hplaces
          omega
        rw [isEnqueued, Option.any_eq_true] at henqueued
        obtain ⟨c, hc, hcond⟩ := henqueued
        rw [Bool.and_eq_true, bne_iff_ne] at hcond
        exact ⟨c, hc, hcond.2⟩
      · intro scope phase hphase
        rw [List.getElem?_eq_none hlen] at hphase
        cases hphase
    have hend := TouchSystem.run_induction passed_begin passed_move hstart later
    have hrun : ((TouchSystem.start created).run earlier).run later =
        (TouchSystem.start created).run (earlier ++ later) := by
      rw [TouchSystem.run, TouchSystem.run, TouchSystem.run, foldl_append]
    rw [hrun] at hend
    exact hend.gone scope _ hj t ht hscope (shardIdx_lt t.key)

-- A touch comes to a shard that the drain has just left; the flag is up when both have returned.
example :
    let s := (TouchSystem.start 0).run ([.begin (.drainTouches 7), .begin (.enqueueTouch 7 3 100)] ++
      replicate 17 (.advance 0 0) ++
      [.advance 1 0, .advance 1 0, .advance 0 0, .advance 0 0, .advance 1 0])
    s.mem.hasPending = true ∧ s.calls.map (·.phase) = [.swept [], .accepted false] ∧
      s.ledger.pending = [⟨1, 7, 3, 100⟩] := by decide

end AgentMail.Cache
