import Mathlib.Tactic.Linarith
import AgentMail.Base.Values
import AgentMail.Lib.Shares

/-!
# Timestamps that never repeat

`crates/mcp-agent-mail-core/src/timestamps.rs:73–101`. All calls of `now_micros` share one atomic
cell, the largest timestamp handed out. A call first raises the cell to its clock reading; if the
cell was there already, the call adds one to it instead.

The calls in progress take turns in any order, one atomic step at a time. Every call is on a thread
of its own here: a thread that calls twice begins its second call after the first returned, which
is one of the orders.
-/

namespace AgentMail.Clock

open Base Lib List

/-- `i64` arithmetic without overflow checks. -/
def wrapI64 (x : Int) : Int := (x + 2 ^ 63) % 2 ^ 64 - 2 ^ 63

theorem wrapI64_of_le {x : Int} (hmin : i64Min ≤ x) (hmax : x ≤ i64Max) : wrapI64 x = x := by
  unfold wrapI64 i64Min i64Max at *
  omega

/-- `DateTime::<Utc>::MIN_UTC` and `MAX_UTC` in microseconds. -/
def minUtc : Int := -8334601228800000000

def maxUtc : Int := 8210266876799999999

/-- A reading of the wall clock, which is a `DateTime<Utc>`. -/
structure Reading where
  micros : Int
  representable : minUtc ≤ micros ∧ micros ≤ maxUtc

def backwardJumpThresholdUs : Int := 1000000

def forwardJumpThresholdUs : Int := 300000000

/-- How far a call of `now_micros` has come. -/
inductive Phase where
  | called
  | read (current : Int)
  /-- `fetch_max` has returned `prev`. -/
  | marked (current prev : Int)
  /-- Backward jumps are counted. -/
  | checked (current prev : Int)
  /-- Forward jumps are counted. -/
  | tallied (current prev : Int)
  /-- The value to return is known. -/
  | settled (value : Int)
  | returned (value : Int) (finished : Nat)
deriving DecidableEq

/-- A call with the time it began; the time counts the steps of all calls. -/
structure Call where
  started : Nat
  phase : Phase
deriving DecidableEq

/-- `LAST_SYSTEM_TIME_US`, the two skew counters and all calls so far. -/
structure State where
  cell : Int
  backward : Int
  forward : Int
  time : Nat
  calls : List Call

def State.start : State := ⟨0, 0, 0, 0, []⟩

/-- The shared memory and the phase of a call after its next step. -/
def Phase.next (s : State) (reading : Reading) : Phase → State × Phase
  | .called => (s, .read reading.micros)
  | .read current => ({ s with cell := max s.cell current }, .marked current s.cell)
  | .marked current prev =>
    if prev ≠ 0 ∧ wrapI64 (current - prev) < -backwardJumpThresholdUs then
      ({ s with backward := wrapI64 (s.backward + 1) }, .checked current prev)
    else (s, .checked current prev)
  | .checked current prev =>
    if prev ≠ 0 ∧ wrapI64 (current - prev) > forwardJumpThresholdUs then
      ({ s with forward := wrapI64 (s.forward + 1) }, .tallied current prev)
    else (s, .tallied current prev)
  | .tallied current prev =>
    if current > prev then (s, .settled current)
    else ({ s with cell := wrapI64 (s.cell + 1) }, .settled (wrapI64 (s.cell + 1)))
  | .settled value => (s, .returned value s.time)
  | .returned value finished => (s, .returned value finished)

/-- What the scheduler does next: a call begins, or one of the calls takes a step. The reading
counts if the step asks the clock. -/
inductive Event where
  | begin
  | advance (call : Nat) (reading : Reading)

def Event.isBegin : Event → Bool
  | .begin => true
  | .advance .. => false

def State.step (s : State) : Event → State
  | .begin => { s with time := s.time + 1, calls := s.calls ++ [⟨s.time, .called⟩] }
  | .advance i reading =>
    match s.calls[i]? with
    | none => { s with time := s.time + 1 }
    | some call =>
      let (s', phase) := call.phase.next s reading
      { s' with time := s.time + 1, calls := s.calls.set i { call with phase := phase } }

def run (schedule : List Event) : State := schedule.foldl State.step State.start

/-! ### What callers rely on -/

/-- The returned values differ, and a call that begins after another one finished returns more. -/
structure State.Monotone (s : State) : Prop where
  distinct : ∀ (i j : Nat) (a b t u : Nat) (x y : Int), s.calls[i]? = some ⟨a, .returned x t⟩ →
    s.calls[j]? = some ⟨b, .returned y u⟩ → i ≠ j → x ≠ y
  ordered : ∀ (i j : Nat) (a b t u : Nat) (x y : Int), s.calls[i]? = some ⟨a, .returned x t⟩ →
    s.calls[j]? = some ⟨b, .returned y u⟩ → t < b → x < y

/-! ### The claims on the cell -/

/-- The value that a call is sure to return. -/
def Phase.owned : Phase → Option Int
  | .called => none
  | .read _ => none
  | .marked current prev => if current > prev then some current else none
  | .checked current prev => if current > prev then some current else none
  | .tallied current prev => if current > prev then some current else none
  | .settled value => some value
  | .returned value _ => some value

/-- The time at which a call returned. -/
def Phase.finished : Phase → Option Nat
  | .returned _ finished => some finished
  | _ => none

/-- The number of calls that have their value. -/
def State.owners (s : State) : Nat := s.calls.countP fun c => c.phase.owned.isSome

/-- Values are owned by one call each and are at most the cell. A call that has its value has more
than every call had that returned before it began. -/
structure State.Ordered (s : State) : Prop where
  below : ∀ (i : Nat) (c : Call) (x : Int), s.calls[i]? = some c → c.phase.owned = some x → x ≤ s.cell
  unique : ∀ (i j : Nat) (a b : Call) (x : Int), s.calls[i]? = some a → s.calls[j]? = some b →
    a.phase.owned = some x → b.phase.owned = some x → i = j
  later : ∀ (i j : Nat) (a b : Call) (t : Nat) (x y : Int), s.calls[i]? = some a →
    s.calls[j]? = some b → a.phase.finished = some t → t < b.started → a.phase.owned = some x →
    b.phase.owned = some y → x < y
  past : ∀ (i : Nat) (c : Call), s.calls[i]? = some c → c.started < s.time
  /-- Every owner raised the cell by one or put a reading there. -/
  bounded : 0 ≤ s.cell ∧ (s.owners = 0 → s.cell ≤ 0) ∧ (0 < s.owners → s.cell < maxUtc + s.owners)
  readings : ∀ (i : Nat) (c : Call) (x : Int), s.calls[i]? = some c → c.phase = .read x → x ≤ maxUtc

/-! ### One step of a call -/

/-- The phase of a call after a step: it has the value it had, or it has got the value of the
raised cell. -/
structure Phase.Moves (s s' : State) (p p' : Phase) : Prop where
  owned : (s'.cell = s.cell ∧ p'.owned = p.owned) ∨
    (p.owned = none ∧ p'.owned = some s'.cell ∧ s.cell < s'.cell ∧
      (s'.cell ≤ maxUtc ∨ s'.cell = s.cell + 1))
  finished : p'.finished = p.finished ∨ (p'.finished = some s.time ∧ s'.cell = s.cell)
  readings : ∀ x, p' = .read x → x ≤ maxUtc

/-- What a step does, as long as adding one to the cell does not overflow. -/
theorem Phase.next_moves {s : State} {p : Phase} (reading : Reading)
    (hread : ∀ x, p = .read x → x ≤ maxUtc) (hcell : 0 ≤ s.cell)
    (hroom : p.owned = none → s.cell < i64Max) :
    Phase.Moves s (p.next s reading).1 p (p.next s reading).2 := by
  cases p with
  | called =>
    refine ⟨Or.inl ⟨rfl, rfl⟩, Or.inl rfl, ?_⟩
    intro x hx
    rw [← Phase.read.inj hx]
    exact reading.representable.2
  | read current =>
    refine ⟨?_, Or.inl rfl, nofun⟩
    by_cases hnew : current > s.cell
    · have hmax : max s.cell current = current := max_eq_right (le_of_lt hnew)
      refine Or.inr ⟨rfl, ?_, ?_, Or.inl ?_⟩
      · change (if current > s.cell then some current else none) = some (max s.cell current)
        rw [if_pos hnew, hmax]
      · change s.cell < max s.cell current
        omega
      · change max s.cell current ≤ maxUtc
        rw [hmax]
        exact hread current rfl
    · refine Or.inl ⟨?_, ?_⟩
      · change max s.cell current = s.cell
        omega
      · change (if current > s.cell then some current else none) = none
        rw [if_neg hnew]
  | marked current prev =>
    unfold Phase.next
    dsimp only
    split <;> exact ⟨Or.inl ⟨rfl, rfl⟩, Or.inl rfl, nofun⟩
  | checked current prev =>
    unfold Phase.next
    dsimp only
    split <;> exact ⟨Or.inl ⟨rfl, rfl⟩, Or.inl rfl, nofun⟩
  | tallied current prev =>
    unfold Phase.next
    dsimp only
    by_cases hnew : current > prev
    · rw [if_pos hnew]
      refine ⟨Or.inl ⟨rfl, ?_⟩, Or.inl rfl, nofun⟩
      rw [Phase.owned, Phase.owned, if_pos hnew]
    · have hnone : (Phase.tallied current prev).owned = none := if_neg hnew
      have hwrap : wrapI64 (s.cell + 1) = s.cell + 1 := by
        have hlt := hroom hnone
        apply wrapI64_of_le
        · unfold i64Min
          omega
        · omega
      rw [if_neg hnew, hwrap]
      refine ⟨Or.inr ⟨hnone, rfl, ?_, Or.inr rfl⟩, Or.inl rfl, nofun⟩
      dsimp only
      omega
  | settled value => exact ⟨Or.inl ⟨rfl, rfl⟩, Or.inr ⟨rfl, rfl⟩, nofun⟩
  | returned value finished => exact ⟨Or.inl ⟨rfl, rfl⟩, Or.inl rfl, nofun⟩

/-! ### One step of the system -/

namespace State

variable {s s' : State} {i : Nat} {call : Call} {p : Phase}

/-- The state after a call moved. -/
def moved (s s' : State) (i : Nat) (call : Call) (p : Phase) : State :=
  { s' with time := s.time + 1, calls := s.calls.set i ⟨call.started, p⟩ }

theorem owners_moved (s' : State) (p : Phase) (hcall : s.calls[i]? = some call) :
    (s.moved s' i call p).owners + (if call.phase.owned.isSome then 1 else 0) =
      s.owners + if p.owned.isSome then 1 else 0 :=
  countP_set_add (fun c : Call => c.phase.owned.isSome) hcall ⟨call.started, p⟩

/-- A call without a value is one more call than there are owners. -/
theorem owners_lt (hcall : s.calls[i]? = some call) (hnone : call.phase.owned = none) :
    s.owners < s.calls.length := by
  refine Nat.lt_of_le_of_ne countP_le_length ?_
  intro heq
  have hall := countP_eq_length.mp heq call (mem_of_getElem? hcall)
  rw [hnone] at hall
  cases hall

/-- A call that keeps what it has leaves the cell alone; a call that gets a value gets the largest
so far. -/
theorem Ordered.moved (h : s.Ordered) (hcall : s.calls[i]? = some call)
    (hmoves : Phase.Moves s s' call.phase p) : (s.moved s' i call p).Ordered := by
  have hle : s.cell ≤ s'.cell := by
    rcases hmoves.owned with ⟨heq, _⟩ | ⟨_, _, hlt, _⟩
    · omega
    · omega
  -- The value of the moved call: an old one, or the new value of the cell.
  have hown : ∀ x, p.owned = some x → call.phase.owned = some x ∨ (s.cell < x ∧ x = s'.cell) := by
    intro x hx
    rcases hmoves.owned with ⟨_, heq⟩ | ⟨_, hnew, hlt, _⟩
    · exact Or.inl (heq ▸ hx)
    · rw [hx, Option.some.injEq] at hnew
      exact Or.inr ⟨by omega, hnew⟩
  refine ⟨?_, ?_, ?_, ?_, ?_, ?_⟩
  · intro j c x hc hx
    change x ≤ s'.cell
    rcases getElem?_set_cases hc with ⟨_, rfl⟩ | ⟨_, hc⟩
    · rcases hown x hx with hold | ⟨_, rfl⟩
      · exact le_trans (h.below i call x hcall hold) hle
      · exact le_refl _
    · exact le_trans (h.below j c x hc hx) hle
  · intro j k a b x ha hb hax hbx
    rcases getElem?_set_cases ha with ⟨hj, rfl⟩ | ⟨_, ha⟩
    · rcases getElem?_set_cases hb with ⟨hk, _⟩ | ⟨_, hb⟩
      · rw [hj, hk]
      · rcases hown x hax with hold | ⟨hlt, _⟩
        · rw [hj]
          exact h.unique i k call b x hcall hb hold hbx
        · have := h.below k b x hb hbx
          omega
    · rcases getElem?_set_cases hb with ⟨hk, rfl⟩ | ⟨_, hb⟩
      · rcases hown x hbx with hold | ⟨hlt, _⟩
        · rw [hk]
          exact h.unique j i a call x ha hcall hax hold
        · have := h.below j a x ha hax
          omega
      · exact h.unique j k a b x ha hb hax hbx
  · intro j k a b t x y ha hb ht htb hx hy
    -- The caller of `b` began in the past, so a call that returns now is no hurdle for it.
    have hbegan : b.started < s.time := by
      rcases getElem?_set_cases hb with ⟨_, rfl⟩ | ⟨_, hb⟩
      · exact h.past i call hcall
      · exact h.past k b hb
    obtain ⟨a', ha', ht', hx'⟩ : ∃ a', s.calls[j]? = some a' ∧ a'.phase.finished = some t ∧
        a'.phase.owned = some x := by
      rcases getElem?_set_cases ha with ⟨hj, rfl⟩ | ⟨_, ha⟩
      · refine ⟨call, hj ▸ hcall, ?_⟩
        rcases hmoves.finished with heq | ⟨hnow, _⟩
        · have hfinished : call.phase.finished = some t := heq ▸ ht
          refine ⟨hfinished, ?_⟩
          rcases hmoves.owned with ⟨_, howned⟩ | ⟨hnone, _⟩
          · exact howned ▸ hx
          · cases hphase : call.phase <;> rw [hphase] at hfinished hnone <;> cases hfinished
            cases hnone
        · rw [ht, Option.some.injEq] at hnow
          omega
      · exact ⟨a, ha, ht, hx⟩
    have hbelow := h.below j a' x ha' hx'
    rcases getElem?_set_cases hb with ⟨hk, rfl⟩ | ⟨_, hb⟩
    · rcases hown y hy with hold | ⟨hlt, _⟩
      · exact h.later j i a' call t x y ha' hcall ht' htb hx' hold
      · omega
    · exact h.later j k a' b t x y ha' hb ht' htb hx' hy
  · intro j c hc
    change c.started < s.time + 1
    rcases getElem?_set_cases hc with ⟨_, rfl⟩ | ⟨_, hc⟩
    · have := h.past i call hcall
      dsimp only
      omega
    · have := h.past j c hc
      omega
  · have howners := owners_moved s' p hcall
    obtain ⟨hzero, hnone, hsome⟩ := h.bounded
    have hmax : maxUtc = 8210266876799999999 := rfl
    change 0 ≤ s'.cell ∧ (_ → s'.cell ≤ 0) ∧ (_ → s'.cell < _)
    rcases hmoves.owned with ⟨hcell, howned⟩ | ⟨hold, hnew, hlt, hhow⟩
    · rw [howned, Nat.add_right_cancel_iff] at howners
      rw [howners, hcell]
      exact h.bounded
    · rw [hold, hnew, Option.isSome_none, Option.isSome_some, if_neg Bool.false_ne_true,
        if_pos rfl] at howners
      refine ⟨by omega, by omega, fun _ => ?_⟩
      rcases hhow with hreading | hnext
      · omega
      · rcases Nat.eq_zero_or_pos s.owners with hempty | hpos
        · have := hnone hempty
          omega
        · have := hsome hpos
          omega
  · intro j c x hc hx
    rcases getElem?_set_cases hc with ⟨_, rfl⟩ | ⟨_, hc⟩
    · exact hmoves.readings x hx
    · exact h.readings j c x hc hx

theorem Ordered.begin (h : s.Ordered) : (s.step .begin).Ordered := by
  have howners : (s.step .begin).owners = s.owners := by
    unfold owners step
    rw [countP_append]
    rfl
  refine ⟨?_, ?_, ?_, ?_, ?_, ?_⟩
  · intro j c x hc hx
    rcases getElem?_append_cases hc with hc | ⟨-, rfl⟩
    · exact h.below j c x hc hx
    · cases hx
  · intro j k a b x ha hb hax hbx
    rcases getElem?_append_cases ha with ha | ⟨-, rfl⟩
    · rcases getElem?_append_cases hb with hb | ⟨-, rfl⟩
      · exact h.unique j k a b x ha hb hax hbx
      · cases hbx
    · cases hax
  · intro j k a b t x y ha hb ht htb hx hy
    rcases getElem?_append_cases ha with ha | ⟨-, rfl⟩
    · rcases getElem?_append_cases hb with hb | ⟨-, rfl⟩
      · exact h.later j k a b t x y ha hb ht htb hx hy
      · cases hy
    · cases hx
  · intro j c hc
    change c.started < s.time + 1
    rcases getElem?_append_cases hc with hc | ⟨-, rfl⟩
    · have := h.past j c hc
      omega
    · exact Nat.lt_succ_self _
  · rw [howners]
    exact h.bounded
  · intro j c x hc hx
    rcases getElem?_append_cases hc with hc | ⟨-, rfl⟩
    · exact h.readings j c x hc hx
    · cases hx

theorem step_advance_of_none (hcall : s.calls[i]? = none) (reading : Reading) :
    s.step (.advance i reading) = { s with time := s.time + 1 } := by
  rw [step, hcall]

theorem step_advance_of_some (hcall : s.calls[i]? = some call) (reading : Reading) :
    s.step (.advance i reading) =
      s.moved (call.phase.next s reading).1 i call (call.phase.next s reading).2 := by
  rw [step, hcall]
  rfl

/-- The step of a call, as long as there are not too many calls. -/
theorem Ordered.advance (h : s.Ordered) (hcalls : (s.calls.length : Int) ≤ 2 ^ 63 - maxUtc)
    (i : Nat) (reading : Reading) : (s.step (.advance i reading)).Ordered := by
  cases hcall : s.calls[i]? with
  | none =>
    rw [step_advance_of_none hcall]
    refine ⟨h.below, h.unique, h.later, fun j c hc => ?_, h.bounded, h.readings⟩
    exact Nat.lt_succ_of_lt (h.past j c hc)
  | some call =>
    rw [step_advance_of_some hcall]
    refine h.moved hcall (Phase.next_moves reading (fun x hx => h.readings i call x hcall hx)
      h.bounded.1 ?_)
    intro hnone
    have hlt := owners_lt hcall hnone
    obtain ⟨_, hzero, hsome⟩ := h.bounded
    unfold i64Max
    rcases Nat.eq_zero_or_pos s.owners with hempty | hpos
    · have := hzero hempty
      omega
    · have := hsome hpos
      omega

theorem length_calls_step (e : Event) :
    (s.step e).calls.length = s.calls.length + if e.isBegin then 1 else 0 := by
  cases e with
  | begin => exact length_append
  | advance i reading =>
    unfold step
    dsimp only
    split
    · rfl
    · exact length_set

theorem Ordered.foldl (h : s.Ordered) (schedule : List Event)
    (hcalls : (s.calls.length : Int) + schedule.countP Event.isBegin ≤ 2 ^ 63 - maxUtc) :
    (schedule.foldl step s).Ordered := by
  induction schedule generalizing s with
  | nil => exact h
  | cons e schedule ih =>
    rw [countP_cons] at hcalls
    apply ih
    · cases e with
      | begin => exact h.begin
      | advance i reading => exact h.advance (by omega) i reading
    · rw [length_calls_step]
      split at hcalls
      · next hbegin =>
        rw [if_pos hbegin]
        omega
      · next hbegin =>
        rw [if_neg hbegin]
        omega

theorem ordered_start : start.Ordered where
  below _ _ _ h := by cases h
  unique _ _ _ _ _ h := by cases h
  later _ _ _ _ _ _ _ h := by cases h
  past _ _ h := by cases h
  bounded := ⟨le_refl _, fun _ => le_refl _, nofun⟩
  readings _ _ _ h := by cases h

theorem Ordered.monotone (h : s.Ordered) : s.Monotone where
  distinct i j a b t u x y hi hj hne hxy := by
    subst hxy
    exact hne (h.unique i j _ _ x hi hj rfl rfl)
  ordered i j a b t u x y hi hj htb := h.later i j _ _ t x y hi hj rfl htb rfl rfl

end State

/-- Up to a number of calls that no clock reading can bring to overflow, every schedule returns
distinct values, and later calls return larger ones. -/
theorem run_monotone (schedule : List Event)
    (hcalls : (schedule.countP Event.isBegin : Int) ≤ 2 ^ 63 - maxUtc) :
    (run schedule).Monotone := by
  have hbound : ((State.start.calls.length : Nat) : Int) + schedule.countP Event.isBegin ≤
      2 ^ 63 - maxUtc := by
    change (0 : Int) + _ ≤ _
    omega
  exact (State.ordered_start.foldl schedule hbound).monotone

/-! ### Overflow

The bound is sharp. One call that reads the last representable time and then a call for every
number above it bring the cell to `i64::MAX`; the next call goes round to `i64::MIN`. -/

/-- The last time that the clock can show, and a clock that stands at the epoch. -/
def lastReading : Reading := ⟨maxUtc, by decide⟩

def epochReading : Reading := ⟨0, by decide⟩

/-- A call that runs without interruption, as number `i`. -/
def soloCall (i : Nat) (reading : Reading) : List Event :=
  .begin :: replicate 6 (.advance i reading)

/-- A late reading, then calls that read the epoch. -/
def standingClock : Nat → List Event
  | 0 => soloCall 0 lastReading
  | n + 1 => standingClock n ++ soloCall (n + 1) epochReading

/-- The last call of a state is in a phase, with the cell and the time at that point. -/
structure State.LastCall (s : State) (front : List Call) (started : Nat) (p : Phase) (cell : Int)
    (time : Nat) : Prop where
  cell_eq : s.cell = cell
  time_eq : s.time = time
  calls_eq : s.calls = front ++ [⟨started, p⟩]

theorem State.LastCall.advance {s : State} {front : List Call} {started time : Nat} {p : Phase}
    {cell : Int} (h : s.LastCall front started p cell time) (reading : Reading) :
    (s.step (.advance front.length reading)).LastCall front started (p.next s reading).2
      (p.next s reading).1.cell (time + 1) := by
  have hcall : s.calls[front.length]? = some ⟨started, p⟩ := by
    rw [h.calls_eq, List.getElem?_append_right (Nat.le_refl _), Nat.sub_self]
    rfl
  rw [State.step_advance_of_some hcall]
  refine ⟨rfl, ?_, ?_⟩
  · rw [← h.time_eq]
    rfl
  · change s.calls.set front.length _ = _
    rw [h.calls_eq, set_append_right _ _ (Nat.le_refl _), Nat.sub_self]
    rfl

/-- A call that reads a time the cell has reached already adds one to the cell. -/
theorem foldl_soloCall {s : State} {reading : Reading} (hlate : reading.micros ≤ s.cell) :
    ((soloCall s.calls.length reading).foldl State.step s).LastCall s.calls s.time
      (.returned (wrapI64 (s.cell + 1)) (s.time + 6)) (wrapI64 (s.cell + 1)) (s.time + 7) := by
  let turn (s' : State) : State := s'.step (.advance s.calls.length reading)
  change (turn (turn (turn (turn (turn (turn (s.step .begin))))))).LastCall _ _ _ _ _
  have hcalled : (s.step .begin).LastCall s.calls s.time .called s.cell (s.time + 1) :=
    ⟨rfl, rfl, rfl⟩
  have hread : (turn (s.step .begin)).LastCall s.calls s.time
      (.read reading.micros) s.cell (s.time + 2) := hcalled.advance reading
  generalize turn (s.step .begin) = s₂ at hread ⊢
  have hmarked : (turn s₂).LastCall s.calls s.time
      (.marked reading.micros s.cell) s.cell (s.time + 3) := by
    have hnext := hread.advance reading
    simp only [Phase.next, hread.cell_eq, max_eq_left hlate] at hnext
    exact hnext
  generalize turn s₂ = s₃ at hmarked ⊢
  have hchecked : (turn s₃).LastCall s.calls s.time
      (.checked reading.micros s.cell) s.cell (s.time + 4) := by
    have hnext := hmarked.advance reading
    unfold Phase.next at hnext
    dsimp only at hnext
    split at hnext <;> exact hmarked.cell_eq ▸ hnext
  generalize turn s₃ = s₄ at hchecked ⊢
  have htallied : (turn s₄).LastCall s.calls s.time
      (.tallied reading.micros s.cell) s.cell (s.time + 5) := by
    have hnext := hchecked.advance reading
    unfold Phase.next at hnext
    dsimp only at hnext
    split at hnext <;> exact hchecked.cell_eq ▸ hnext
  generalize turn s₄ = s₅ at htallied ⊢
  have hsettled : (turn s₅).LastCall s.calls s.time
      (.settled (wrapI64 (s.cell + 1))) (wrapI64 (s.cell + 1)) (s.time + 6) := by
    have hnext := htallied.advance reading
    simp only [Phase.next, if_neg (not_lt.mpr hlate), gt_iff_lt, htallied.cell_eq] at hnext
    exact hnext
  generalize turn s₅ = s₆ at hsettled ⊢
  have hnext := hsettled.advance reading
  simp only [Phase.next, hsettled.cell_eq, hsettled.time_eq] at hnext
  exact hnext

theorem run_standingClock_succ (n : Nat) : run (standingClock (n + 1)) =
    (soloCall (n + 1) epochReading).foldl State.step (run (standingClock n)) :=
  foldl_append ..

/-- The state after a late reading and `n` calls on a clock that stands. -/
structure State.Standing (s : State) (n : Nat) : Prop where
  cell_eq : s.cell = maxUtc + n
  length_eq : s.calls.length = n + 1
  time_ge : 7 ≤ s.time
  first : s.calls[0]? = some ⟨0, .returned maxUtc 6⟩

theorem standing_standingClock (n : Nat) (h : maxUtc + n ≤ i64Max) :
    (run (standingClock n)).Standing n := by
  induction n with
  | zero => exact ⟨by decide, by decide, by decide, by decide⟩
  | succ n ih =>
    have ih := ih (by omega)
    have hmax : maxUtc = 8210266876799999999 := rfl
    have hlate : epochReading.micros ≤ (run (standingClock n)).cell := by
      rw [ih.cell_eq]
      change (0 : Int) ≤ _
      omega
    have hsolo := foldl_soloCall hlate
    rw [ih.length_eq] at hsolo
    rw [run_standingClock_succ]
    refine ⟨?_, ?_, ?_, ?_⟩
    · rw [hsolo.cell_eq, ih.cell_eq, wrapI64_of_le]
      · omega
      · unfold i64Min
        omega
      · omega
    · rw [hsolo.calls_eq, length_append, ih.length_eq]
      rfl
    · have := ih.time_ge
      rw [hsolo.time_eq]
      omega
    · rw [hsolo.calls_eq, List.getElem?_append_left (by rw [ih.length_eq]; omega)]
      exact ih.first

/-- The next call returns the smallest `i64`. -/
theorem not_monotone_standingClock (n : Nat) (h : maxUtc + n = i64Max) :
    ¬ (run (standingClock (n + 1))).Monotone := by
  intro hmono
  have hstanding := standing_standingClock n (le_of_eq h)
  have hcell : (run (standingClock n)).cell = i64Max := by rw [hstanding.cell_eq, h]
  have hlate : epochReading.micros ≤ (run (standingClock n)).cell := by
    rw [hcell]
    decide
  have hsolo := foldl_soloCall hlate
  rw [hstanding.length_eq] at hsolo
  have hfirst : (run (standingClock (n + 1))).calls[0]? = some ⟨0, .returned maxUtc 6⟩ := by
    rw [run_standingClock_succ, hsolo.calls_eq, List.getElem?_append_left (by rw [hstanding.length_eq]; omega)]
    exact hstanding.first
  have hlast : (run (standingClock (n + 1))).calls[n + 1]? =
      some ⟨(run (standingClock n)).time, .returned (wrapI64 (i64Max + 1))
        ((run (standingClock n)).time + 6)⟩ := by
    rw [run_standingClock_succ, hsolo.calls_eq,
      List.getElem?_append_right (by rw [hstanding.length_eq]), hstanding.length_eq, Nat.sub_self, hcell]
    rfl
  have htime := hstanding.time_ge
  have hless := hmono.ordered 0 (n + 1) 0 _ 6 _ maxUtc _ hfirst hlast (by omega)
  exact absurd hless (by decide)

/-- The calls it takes after the first one. -/
def overflowingCalls : Nat := (i64Max - maxUtc).toNat + 1

theorem standingClock_overflows : ¬ (run (standingClock overflowingCalls)).Monotone := by
  have hmax : maxUtc + ((i64Max - maxUtc).toNat : Int) = i64Max := by
    rw [Int.toNat_of_nonneg (by decide)]
    omega
  exact not_monotone_standingClock (i64Max - maxUtc).toNat hmax

/-- Two calls that take turns, on a clock that goes back. -/
def overlappingCalls : List Event :=
  [.begin, .begin] ++ (replicate 6 [.advance 0 lastReading, .advance 1 epochReading]).flatten

theorem overlappingCalls_monotone :
    (run overlappingCalls).calls = [⟨0, .returned maxUtc 12⟩, ⟨1, .returned (maxUtc + 1) 13⟩] ∧
    (run overlappingCalls).Monotone :=
  ⟨by decide, run_monotone overlappingCalls (by decide)⟩

end AgentMail.Clock
