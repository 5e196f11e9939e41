import AgentMail.WriteBehind.QueueSafety

/-!
# Runs of the write-behind queue

What every run keeps in which the queue is not restarted beside a drain thread that a shutdown has
left behind, and a run in which it is.
-/

namespace AgentMail.WriteBehind

open Lib List

/-! ### The laws -/

abbrev Run := List (Entry Wbq Event Response)

def Response.enqueued? : Response → Option Nat
  | .enqueued op => some op
  | _ => none

/-- The ops that were accepted, in order. -/
def enqueued (past : Run) : List Nat := past.filterMap (·.response.enqueued?)

/-- What holds in a state after `past`. -/
structure StateLaws (past : Run) (s : Wbq) : Prop where
  /-- An op is executed, with the drain thread or in the line, and nothing overtakes it. -/
  kept : enqueued past = s.executed ++ s.last.running ++ s.last.batch ++ works s.live
  once : (enqueued past).Nodup
  alone : ∀ d, d + 1 ≠ s.spawned → (s.drains d).running = [] ∧ (s.drains d).batch = []
  depth : s.lifecycle = none →
    (∀ d, (s.drains d).phase ≠ .collecting ∧ (s.drains d).phase ≠ .settling) →
    s.opDepth = (works (s.receiverSlot.elim [] s.channels)).length

/-- The laws of a run. -/
structure QueueLaws (run : Run) : Prop where
  states : ∀ front x back, run = front ++ x :: back →
    StateLaws front x.before ∧ StateLaws (front ++ [x]) x.after
  /-- What was accepted before a flush was called is executed when the flush returns `Drained`. -/
  barrier : ∀ front x mid y back t, run = front ++ x :: (mid ++ y :: back) →
    x.event = .callFlush t → x.response = .goesOn →
    y.response = .flushed x.before.called .drained → enqueued front ⊆ y.before.executed

def Event.starts : Event → Bool
  | .lockStart _ => true
  | _ => false

/-- No new drain thread is needed, or every old one has finished. -/
def Wbq.startsAlone (s : Wbq) : Bool :=
  !s.needsDrain || (range s.spawned).all fun d => (s.drains d).phase == .finished

/-- Every restart of the run finds the old drain threads finished. -/
def Undetached (run : Run) : Prop := ∀ x ∈ run, x.event.starts → x.before.startsAlone

/-! ### What a step answers -/

/-- A step accepts the op that it answers with, keeps what flushes are owed and confirms only
flushes that were acknowledged. -/
structure Notes (s : Wbq) (r : Response) (s' : Wbq) : Prop where
  accepted : s'.accepted = s.accepted ++ r.enqueued?.toList
  owed : ∀ f < s.called, s'.owed f = s.owed f
  called : s.called ≤ s'.called
  drained : ∀ f, r = .flushed f .drained → f ∈ s.acked

section

variable {cfg : WbqConfig} {s s' : Wbq} {r : Response} {e : Event} {t d : Nat}

theorem Notes.of_same (haccepted : s'.accepted = s.accepted := by rfl) (howed : s'.owed = s.owed := by rfl)
    (hcalled : s'.called = s.called := by rfl) (hr : r.enqueued? = none := by rfl)
    (hdrained : ∀ f, r ≠ .flushed f .drained := by intro _ h; cases h) : Notes s r s' where
  accepted := by rw [haccepted, hr]; exact (append_nil _).symm
  owed f _ := congrFun howed f
  called := Nat.le_of_eq hcalled.symm
  drained f hf := absurd hf (hdrained f)

theorem Notes.of_callFlush (haccepted : s'.accepted = s.accepted)
    (howed : s'.owed = s.callFlush.owed) (hcalled : s'.called = s.called + 1) : Notes s .goesOn s' where
  accepted := haccepted.trans (append_nil _).symm
  owed f hf := (congrFun howed f).trans (Function.update_of_ne (Nat.ne_of_lt hf) ..)
  called := hcalled ▸ Nat.le_succ _
  drained _ hf := by cases hf

theorem notes_holderStep {stage : Stage} {giveUp : Bool}
    (h : s.holderStep cfg t stage giveUp = some (r, s')) : Notes s r s' := by
  cases stage with
  | replacing enqueues =>
    rw [Wbq.holderStep, Option.ite_none_right_eq_some] at h
    cases h.2
    exact .of_same
  | salvaging moved salvagedOps old enqueues =>
    cases h
    rw [Wbq.salvage]
    split
    · exact .of_same
    · split
      · exact .of_same
      · split
        · exact .of_same
        · exact .of_same
  | reserved channel =>
    replace h := Option.some.inj h
    rw [Wbq.sendReserved] at h
    split at h
    · cases h
      exact ⟨rfl, fun _ _ => rfl, Nat.le_refl _, by intro _ h; cases h⟩
    · cases h
      exact .of_same
    · cases h
      exact .of_same
  | unsent retry =>
    cases retry with
    | none =>
      cases h
      exact .of_same
    | some channel =>
      cases giveUp
      · cases h
        exact .of_same
      · cases h
        exact .of_same
  | flushing flush channel =>
    cases h
    rw [Wbq.shutdownFlush]
    split
    · exact .of_same
    · cases giveUp
      · exact .of_same
      · exact .of_same
    · exact .of_same
  | stopping channel safeToJoin =>
    cases h
    rw [Wbq.shutdownSend]
    split
    · exact .of_same
    · cases giveUp
      · exact .of_same
      · exact .of_same
    · exact .of_same
  | joining safeToJoin =>
    rw [Wbq.holderStep, Option.map_eq_some_iff] at h
    obtain ⟨s₁, hjoin, heq⟩ := h
    cases heq
    rw [Wbq.joinDrain, Option.ite_none_left_eq_some] at hjoin
    cases hjoin.2
    exact .of_same
  | _ =>
    cases h
    exact .of_same

theorem notes_callerStep {call : Call} (h : s.callerStep cfg t e call = some (r, s')) :
    Notes s r s' := by
  unfold Wbq.callerStep at h
  split at h
  · cases h
    exact .of_same
  · cases h
    exact .of_same
  · cases h
    exact .of_same
  · replace h := Option.some.inj h
    rw [Wbq.flushStatus] at h
    split at h
    · cases h
      exact .of_callFlush rfl rfl rfl
    · cases h
      exact .of_same
  · rw [Option.ite_none_right_eq_some] at h
    cases h.2
    rw [Wbq.lockStart]
    split
    · exact .of_same
    · exact .of_same
  · split at h
    · cases h
      exact .of_same
    · split at h
      · cases h
        exact .of_same
      · cases h
        exact .of_same
  · replace h := Option.some.inj h
    rw [Wbq.admission] at h
    split at h
    · cases h
      exact .of_same
    · split at h
      · cases h
        exact .of_same
      · cases h
        exact .of_same
  · replace h := Option.some.inj h
    rw [Wbq.sendFlush] at h
    split at h
    · cases h
      exact .of_same
    · split at h
      · cases h
        exact .of_same
      · cases h
        exact .of_same
    · cases h
      exact .of_same
  · cases h
    refine ⟨(append_nil _).symm, fun _ _ => rfl, Nat.le_refl _, fun f hf => ?_⟩
    rw [Response.flushed.injEq] at hf
    obtain ⟨rfl, hdrained⟩ := hf
    by_contra hnot
    rw [if_neg (by simpa using hnot)] at hdrained
    split at hdrained <;> cases hdrained
  · rw [Option.ite_none_right_eq_some] at h
    cases h.2
    rw [Wbq.lockShutdown]
    split
    · exact .of_callFlush rfl rfl rfl
    · exact .of_same
  · cases h

theorem notes_drainStep {phase : DrainPhase} (h : s.drainStep cfg d e phase = some s') :
    Notes s .goesOn s' := by
  unfold Wbq.drainStep at h
  split at h
  · rw [Option.ite_none_right_eq_some] at h
    cases h.2
    rw [Wbq.lockSlot]
    split
    · exact .of_same
    · exact .of_same
  · rw [Wbq.receiveFirst, Option.map_eq_some_iff] at h
    obtain ⟨c, -, h⟩ := h
    rw [← h]
    split
    · exact .of_same
    · split
      · exact .of_same
      · exact .of_same
  · rw [Wbq.receiveMore, Option.map_eq_some_iff] at h
    obtain ⟨c, -, h⟩ := h
    rw [← h]
    split
    · split
      · exact .of_same
      · exact .of_same
    · exact .of_same
  · cases h
    exact .of_same
  · rw [Option.ite_none_right_eq_some] at h
    cases h.2
    exact .of_same
  · rw [Option.ite_none_right_eq_some] at h
    cases h.2
    exact .of_same
  · rw [Option.ite_none_right_eq_some] at h
    cases h.2
    exact .of_same
  · rw [Option.ite_none_right_eq_some] at h
    cases h.2
    rw [Wbq.receiveLast]
    split
    · exact .of_same
    · split
      · exact .of_same
      · exact .of_same
  · cases h

theorem step_notes (h : s.step cfg e = some (r, s')) : Notes s r s' := by
  rw [Wbq.step] at h
  split at h
  · exact notes_callerStep h
  · split at h
    · rw [Option.ite_none_right_eq_some] at h
      exact notes_holderStep h.2
    · cases h
  · rw [Option.map_eq_some_iff] at h
    obtain ⟨s₁, hstep, heq⟩ := h
    cases heq
    exact notes_drainStep hstep

/-- A flush that is called is owed what has been accepted. -/
theorem callFlush_owes (h : s.step cfg (.callFlush t) = some (.goesOn, s')) :
    s.called < s'.called ∧ s'.owed s.called = s.accepted := by
  replace h : s.callerStep cfg t (.callFlush t) (s.calls t) = some (.goesOn, s') := h
  unfold Wbq.callerStep at h
  split at h
  all_goals try contradiction
  replace h := Option.some.inj h
  rw [Wbq.flushStatus] at h
  split at h
  · cases h
    exact ⟨Nat.lt_succ_self _, Function.update_self ..⟩
  · cases h

end

/-! ### Runs without a thread left behind -/

section

variable {cfg : WbqConfig} {s s' : Wbq} {e : Event} {r : Response}

theorem Safe.allFinished (h : Safe cfg s) (hstarts : s.startsAlone) (hneeds : s.needsDrain) :
    s.allFinished := by
  have hall : ∀ d < s.spawned, (s.drains d).phase = .finished := by
    simpa [Wbq.startsAlone, hneeds] using hstarts
  intro d
  by_contra halive
  exact halive (hall d (by have := h.alone d halive; omega))

theorem safe_step (h : Safe cfg s) (hstep : s.step cfg e = some (r, s'))
    (hstarts : e.starts → s.startsAlone) : Safe cfg s' := by
  refine h.step (fun t ht hneeds => ?_) hstep
  subst ht
  exact h.allFinished (hstarts rfl) hneeds

theorem stateLaws {past : Run} (h : Safe cfg s) (hpast : enqueued past = s.accepted) :
    StateLaws past s where
  kept := by
    rw [hpast, append_assoc s.executed]
    exact h.barrier.kept
  once := hpast ▸ h.barrier.distinct
  alone d hd := by
    have hfinished : (s.drains d).phase = .finished := by
      by_contra halive
      exact hd (h.alone d halive)
    exact ⟨(h.tidy d).running (by simp [hfinished]),
      (h.tidy d).batch (by simp [hfinished]) (by simp [hfinished]) (by simp [hfinished])⟩
  depth hfree hsettled := by
    obtain ⟨hcollecting, hsettling⟩ := hsettled (s.spawned - 1)
    have hunsettled : s.last.unsettled = 0 := by
      rw [DrainThread.unsettled]
      exact if_neg (not_or.mpr ⟨hcollecting, hsettling⟩)
    have hdepth := h.depth
    rw [hunsettled, Safe.live_of_free hfree, Safe.reserved_of_free hfree] at hdepth
    exact hdepth

variable {es : List Event} {front back : Run} {x : Entry Wbq Event Response}

theorem step_anything (s : Wbq) (e : Event) (r : Response) (s' : Wbq) (_ : True)
    (_ : s.step cfg e = some (r, s')) : True := trivial

theorem enqueued_front (h : trace (Wbq.step cfg) .start es = front ++ x :: back) :
    enqueued front = x.before.accepted := by
  have hgrows (past : Run) (s : Wbq) (e : Event) (r : Response) (s' : Wbq) (_ : True)
      (hpast : enqueued past = s.accepted) (he : s.step cfg e = some (r, s')) :
      enqueued (past ++ [⟨s, e, r, s'⟩]) = s'.accepted := by
    rw [(step_notes he).accepted, ← hpast, enqueued, filterMap_append]
    cases hr : r.enqueued? <;> simp [enqueued, hr]
  have hnone : enqueued [] = Wbq.start.accepted := rfl
  exact history step_anything hgrows trivial hnone h

/-- Every entry of such a run starts and ends in a safe state. -/
theorem run_safe (hrun : Undetached (trace (Wbq.step cfg) .start es))
    (h : trace (Wbq.step cfg) .start es = front ++ x :: back) :
    Safe cfg x.before ∧ x.before.step cfg x.event = some (x.response, x.after) ∧
      Safe cfg x.after := by
  have hsafe (s : Wbq) (e : Event) (r : Response) (s' : Wbq) (hs : Safe cfg s)
      (he : s.step cfg e = some (r, s')) (hstarts : e.starts → s.startsAlone) : Safe cfg s' :=
    safe_step hs he hstarts
  have hx : x ∈ front ++ x :: back := mem_append_right front mem_cons_self
  exact forall_mem_trace_of hsafe (Wbq.safe_start cfg) es hrun x (h ▸ hx)

theorem run_barrier {mid : Run} {y : Entry Wbq Event Response} {t : Nat}
    (hrun : Undetached (trace (Wbq.step cfg) .start es))
    (h : trace (Wbq.step cfg) .start es = front ++ x :: (mid ++ y :: back))
    (hcall : x.event = .callFlush t) (hcalled : x.response = .goesOn)
    (hdrained : y.response = .flushed x.before.called .drained) :
    enqueued front ⊆ y.before.executed := by
  obtain ⟨-, hx, -⟩ := run_safe hrun h
  have hsplit : trace (Wbq.step cfg) .start es = (front ++ x :: mid) ++ y :: back := by
    rw [h, append_assoc, cons_append]
  obtain ⟨hsafe, hy, -⟩ := run_safe hrun hsplit
  rw [hcall, hcalled] at hx
  obtain ⟨es', hes'⟩ := trace_eq_append h
  have hlasting (s : Wbq) (e : Event) (r : Response) (s' : Wbq) (_ : True)
      (hs : x.before.called < s.called ∧ s.owed x.before.called = x.before.accepted)
      (he : s.step cfg e = some (r, s')) (_ : True) :
      x.before.called < s'.called ∧ s'.owed x.before.called = x.before.accepted :=
    ⟨Nat.lt_of_lt_of_le hs.1 (step_notes he).called, ((step_notes he).owed _ hs.1).trans hs.2⟩
  have howed := lasts step_anything hlasting trivial (callFlush_owes hx) hes' fun _ _ => trivial
  have hacked := hsafe.barrier.acked _ ((step_notes hy).drained _ hdrained)
  rw [enqueued_front h, ← howed.2]
  exact hacked.2

end

/-- Whatever the capacity and the batch cap, and however the steps of callers and of all drain
threads interleave, if no restart is taken beside a drain thread that is still alive. -/
theorem queueLaws (cfg : WbqConfig) (es : List Event)
    (hrun : Undetached (trace (Wbq.step cfg) .start es)) :
    QueueLaws (trace (Wbq.step cfg) .start es) where
  states front x back h := by
    obtain ⟨hbefore, hstep, hafter⟩ := run_safe hrun h
    have hpast := enqueued_front h
    refine ⟨stateLaws hbefore hpast, stateLaws hafter ?_⟩
    rw [(step_notes hstep).accepted, ← hpast, enqueued, filterMap_append]
    cases hr : x.response.enqueued? <;> simp [enqueued, hr]
  barrier _ _ _ _ _ _ h hcall hcalled hdrained := run_barrier hrun h hcall hcalled hdrained

/-! ### A drain thread that is left behind -/

/-- An op is accepted into a new queue and its write begins. -/
def beginsToWrite : List Event :=
  [.callEnqueue 0, .lockStart 0, .goOn 0 false, .goOn 0 false, .goOn 0 false, .goOn 0 false,
    .goOn 0 false, .cloneSender 0 false, .admission 0 false, .goOn 0 false, .lockSlot 0,
    .receiveFirst 0 false, .receiveMore 0, .settle 0, .beginWrite 0 0]

/-- A flush is called, and the drain thread `d` answers what it receives meanwhile. -/
def flushesBy (d : Nat) : List Event :=
  [.callFlush 3, .sendFlush 3 false, .lockSlot d, .receiveFirst d false, .receiveMore d,
    .receiveMore d, .settle d, .endTurn d, .awaitFlush 3 false]

theorem queueLaws_sample :
    QueueLaws (trace (Wbq.step ⟨256, 64⟩) .start
      (beginsToWrite ++ [.finishWrite 0, .endTurn 0] ++ flushesBy 0)) :=
  queueLaws ⟨256, 64⟩ _ (by unfold Undetached; decide)

/-- While an op is being written, a shutdown times out and a restart follows: the new drain thread
answers a flush. -/
def restartsBesideWriter : List Event :=
  beginsToWrite ++
    [.callShutdown 1, .lockShutdown 1, .goOn 1 false, .goOn 1 true, .goOn 1 false, .goOn 1 false,
      .goOn 1 false, .callStart 2, .lockStart 2, .goOn 2 false, .goOn 2 false, .goOn 2 false,
      .goOn 2 false, .goOn 2 false, .goOn 2 false, .goOn 2 false, .goOn 2 false] ++ flushesBy 1

/-- The flush returns `Drained`, and the op has not been executed. -/
theorem drained_beside_writer :
    ¬ ∀ (cfg : WbqConfig) (es : List Event), QueueLaws (trace (Wbq.step cfg) .start es) := by
  intro h
  let run := trace (Wbq.step ⟨256, 64⟩) .start restartsBesideWriter
  have hbarrier : enqueued (run.take 32) ⊆ (run.get ⟨40, by decide⟩).before.executed :=
    (h ⟨256, 64⟩ restartsBesideWriter).barrier (run.take 32) (run.get ⟨32, by decide⟩)
      ((run.drop 33).take 7) (run.get ⟨40, by decide⟩) [] 3 rfl rfl rfl rfl
  have hop : 0 ∈ enqueued (run.take 32) := by decide
  have hexecuted : (run.get ⟨40, by decide⟩).before.executed = [] := by decide
  rw [hexecuted] at hbarrier
  exact not_mem_nil (hbarrier hop)

end AgentMail.WriteBehind
