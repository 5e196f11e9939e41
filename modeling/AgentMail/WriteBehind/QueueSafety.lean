import AgentMail.WriteBehind.Queue

/-!
# Order, barrier and accounting of the write-behind queue

As long as no restart is taken while a drain thread is alive, the queue with all its threads is the
queue with flush barriers: one drain thread is its worker, and a restart only moves the line.
-/

namespace AgentMail.WriteBehind

open Lib List Function Barrier

/-! ### What the queue stands for -/

/-- What a restart has moved to the new channel. -/
def Stage.moved : Stage → List WbqMsg
  | .salvaging moved _ _ _ => moved
  | .installing moved _ _ _ => moved
  | _ => []

/-- The channel that is still read; a restart takes it out of the slot. -/
def Stage.source (slot : Option Nat) : Stage → Option Nat
  | .salvaging _ _ old _ => some old
  | .installing _ _ _ _ => none
  | _ => slot

/-- An admission counts its op before it sends it. -/
def Stage.reserves : Stage → Nat
  | .reserved _ => 1
  | .unsent _ => 1
  | _ => 0

def DrainThread.hand (d : DrainThread) : List Nat := d.running ++ d.batch

/-- What was received and still counts as waiting. -/
def DrainThread.unsettled (d : DrainThread) : Nat :=
  if d.phase = .collecting ∨ d.phase = .settling then d.batch.length else 0

/-- Where a drain thread may have something in its hands. -/
structure DrainThread.Tidy (d : DrainThread) : Prop where
  batch : d.phase ≠ .collecting → d.phase ≠ .settling → d.phase ≠ .executing → d.batch = []
  running : d.phase ≠ .executing → d.running = []

namespace Wbq

variable (s : Wbq)

/-- The messages that are still received: those in the channel of the slot, or those that the
restart under way moves. -/
def live : List WbqMsg :=
  match s.lifecycle with
  | some (_, stage) => stage.moved ++ (stage.source s.receiverSlot).elim [] s.channels
  | none => s.receiverSlot.elim [] s.channels

def reserved : Nat := s.lifecycle.elim 0 fun holder => holder.2.reserves

/-- The drain thread that was spawned last. -/
def last : DrainThread := s.drains (s.spawned - 1)

def allFinished : Prop := ∀ d, (s.drains d).phase = .finished

def barrier : Barrier Nat where
  accepted := s.accepted
  content := s.live
  hand := s.last.hand
  executed := s.executed
  waiters := s.last.flushWaiters
  acked := s.acked
  owed := s.owed
  called := s.called

end Wbq

/-- What the stage of the holder says of the state. -/
def Stage.Sound (cfg : WbqConfig) (s : Wbq) : Stage → Prop
  | .replacing _ => s.allFinished
  | .salvaging moved salvagedOps old _ =>
    s.allFinished ∧ s.receiverSlot = none ∧ salvagedOps = (works moved).length ∧
      moved.length ≤ cfg.channelCapacity ∧
      ∀ front op back, s.channels old = front ++ .op op :: back →
        moved.length + front.length < cfg.channelCapacity
  | .installing moved salvagedOps _ _ =>
    s.allFinished ∧ s.receiverSlot = none ∧ salvagedOps = (works moved).length ∧
      moved.length ≤ cfg.channelCapacity
  | .spawning _ _ => s.allFinished
  | .flushing f _ => f < s.called
  | .awaiting f _ => f < s.called
  | _ => True

def Call.flush? : Call → Option Nat
  | .flushing f _ => some f
  | _ => none

/-- The invariant of a run in which no restart meets a drain thread. -/
structure Safe (cfg : WbqConfig) (s : Wbq) : Prop where
  alone : ∀ d, (s.drains d).phase ≠ .finished → d + 1 = s.spawned
  tidy : ∀ d, (s.drains d).Tidy
  sound : ∀ t stage, s.lifecycle = some (t, stage) → stage.Sound cfg s
  depth : s.opDepth = (works s.live).length + s.last.unsettled + s.reserved
  room : ∀ c, (s.channels c).length ≤ cfg.channelCapacity
  pending : ∀ t f, (s.calls t).flush? = some f → f < s.called
  numbered : s.accepted = range s.accepted.length
  barrier : s.barrier.Inv

namespace Wbq

variable {cfg : WbqConfig} {s : Wbq}

theorem safe_start (cfg : WbqConfig) : Safe cfg .start where
  alone _ h := absurd rfl h
  tidy _ := ⟨fun _ _ _ => rfl, fun _ => rfl⟩
  sound _ _ h := by cases h
  depth := rfl
  room _ := Nat.zero_le _
  pending _ _ h := by cases h
  numbered := rfl
  barrier := inv_empty

end Wbq

namespace Safe

variable {cfg : WbqConfig} {s : Wbq} {t d c : Nat}

/-! ### Calls and the lifecycle mutex -/

theorem setCall (h : Safe cfg s) (t : Nat) (call : Call) (hcall : ∀ f, call.flush? = some f → f < s.called) :
    Safe cfg (s.setCall t call) := by
  refine ⟨h.alone, h.tidy, h.sound, h.depth, h.room, fun u f hf => ?_, h.numbered, h.barrier⟩
  replace hf : (update s.calls t call u).flush? = some f := hf
  rw [update_apply] at hf
  split at hf
  · exact hcall f hf
  · exact h.pending u f hf

variable {s' : Wbq} {slotLock : SlotLock} {opDepth : Nat}

/-- The messages change their place, and the line stays what it is. -/
theorem rearrange (h : Safe cfg s) {channels : Nat → List WbqMsg} {created : Nat}
    {receiverSlot : Option Nat} {lifecycle : Option (Nat × Stage)}
    (hs' : s' = { s with channels, created, receiverSlot, slotLock, lifecycle, opDepth })
    (hlive : s'.live = s.live)
    (hsound : ∀ t stage, s'.lifecycle = some (t, stage) → stage.Sound cfg s')
    (hdepth : s'.opDepth + s.reserved = s.opDepth + s'.reserved)
    (hroom : ∀ c, (s'.channels c).length ≤ cfg.channelCapacity) : Safe cfg s' := by
  have hcount := h.depth
  have hbarrier : Barrier.Inv { s.barrier with content := s'.live } := hlive ▸ h.barrier
  have hdepth' : s'.opDepth = (works s'.live).length + s.last.unsettled + s'.reserved := by
    rw [hlive]
    omega
  subst hs'
  exact ⟨h.alone, h.tidy, hsound, hdepth', hroom, h.pending, h.numbered, hbarrier⟩

/-- Who holds the mutex goes on or drops it. -/
theorem relock (h : Safe cfg s) {lifecycle : Option (Nat × Stage)}
    (hlive : Wbq.live { s with lifecycle } = s.live)
    (hsound : ∀ t stage, lifecycle = some (t, stage) → stage.Sound cfg s)
    (hdepth : opDepth + s.reserved = s.opDepth + Wbq.reserved { s with lifecycle }) :
    Safe cfg { s with lifecycle, opDepth } :=
  h.rearrange rfl hlive hsound hdepth h.room

variable {stage : Stage}

theorem live_of_lifecycle (h : s.lifecycle = some (t, stage)) :
    s.live = stage.moved ++ (stage.source s.receiverSlot).elim [] s.channels := by
  rw [Wbq.live, h]

theorem live_of_free (h : s.lifecycle = none) : s.live = s.receiverSlot.elim [] s.channels := by
  rw [Wbq.live, h]

theorem reserved_of_lifecycle (h : s.lifecycle = some (t, stage)) :
    s.reserved = stage.reserves := by
  rw [Wbq.reserved, h]
  rfl

theorem reserved_of_free (h : s.lifecycle = none) : s.reserved = 0 := by
  rw [Wbq.reserved, h]
  rfl

/-! ### Sending -/

theorem trySend_ok (h : s.trySend cfg c = .ok) :
    s.receiverAlive c = true ∧ (s.channels c).length < cfg.channelCapacity := by
  rw [Wbq.trySend] at h
  split at h
  · cases h
  · next halive =>
    split at h
    · next hroom => exact ⟨by simpa using halive, hroom⟩
    · cases h

theorem elim_push {slot : Option Nat} (h : slot = some c) (msg : WbqMsg) :
    slot.elim [] (s.push c msg).channels = slot.elim [] s.channels ++ [msg] := by
  rw [h]
  exact update_self c _ s.channels

/-- What is sent to a channel that has a receiver gets in line, unless the receiver is about to be
dropped. -/
theorem live_push (h : Safe cfg s) (halive : s.receiverAlive c = true) (msg : WbqMsg) :
    (s.push c msg).live = s.live ++ [msg] ∨ (s.push c msg).live = s.live := by
  cases hlifecycle : s.lifecycle with
  | none =>
    have hslot : s.receiverSlot = some c := by simpa [Wbq.receiverAlive, hlifecycle] using halive
    left
    rw [live_of_free hlifecycle, live_of_free (s := s.push c msg) hlifecycle]
    exact elim_push hslot msg
  | some holder =>
    obtain ⟨u, stage⟩ := holder
    have hsound := h.sound u stage hlifecycle
    rw [live_of_lifecycle hlifecycle, live_of_lifecycle (s := s.push c msg) hlifecycle,
      append_assoc]
    cases stage with
    | salvaging moved salvagedOps old enqueues =>
      have hold : old = c := by
        simpa [Wbq.receiverAlive, hlifecycle, hsound.2.1] using halive
      exact .inl (congrArg _ (elim_push (congrArg some hold) msg))
    | installing => exact .inr rfl
    | _ =>
      have hslot : s.receiverSlot = some c := by simpa [Wbq.receiverAlive, hlifecycle] using halive
      exact .inl (congrArg _ (elim_push hslot msg))

theorem room_push (h : Safe cfg s) (hroom : (s.channels c).length < cfg.channelCapacity)
    (msg : WbqMsg) (c' : Nat) : ((s.push c msg).channels c').length ≤ cfg.channelCapacity := by
  show (update s.channels c (s.channels c ++ [msg]) c').length ≤ cfg.channelCapacity
  rw [update_apply]
  split
  · rw [length_append]
    exact hroom
  · exact h.room c'

/-- A message that is no op takes no room from the ops before it. -/
theorem sound_push (h : stage.Sound cfg s) {msg : WbqMsg} (hmsg : msg.work? = none) :
    stage.Sound cfg (s.push c msg) := by
  cases stage with
  | salvaging moved salvagedOps old enqueues =>
    obtain ⟨hfinished, hslot, hsalvaged, hmoved, hroom⟩ := h
    refine ⟨hfinished, hslot, hsalvaged, hmoved, fun front op back hsplit => ?_⟩
    replace hsplit : update s.channels c (s.channels c ++ [msg]) old =
      front ++ .op op :: back := hsplit
    rw [update_apply] at hsplit
    split at hsplit
    · next hold =>
      rcases append_split hsplit with ⟨back', hbefore⟩ | ⟨-, hlast⟩
      · exact hroom front op back' (hold ▸ hbefore)
      · rw [hlast] at hmsg
        cases hmsg
    · exact hroom front op back hsplit
  | _ => exact h

theorem push (h : Safe cfg s) (hsend : s.trySend cfg c = .ok) (msg : WbqMsg)
    (hmsg : msg.work? = none) (hflush : ∀ f, msg = .flush f → f < s.called) :
    Safe cfg (s.push c msg) := by
  obtain ⟨halive, hroom⟩ := trySend_ok hsend
  have hworks : works [msg] = [] := filterMap_cons_none hmsg
  have hlive : works (s.push c msg).live = works s.live ∧ (s.push c msg).barrier.Inv := by
    rcases h.live_push halive msg with hlive | hlive
    · have happend := h.barrier.append msg s.accepted
        (by rw [hworks]; exact (append_nil _).symm) h.barrier.distinct hflush
      refine ⟨by rw [hlive, works_append, hworks, append_nil], ?_⟩
      rw [Wbq.barrier, hlive]
      exact happend
    · refine ⟨by rw [hlive], ?_⟩
      rw [Wbq.barrier, hlive]
      exact h.barrier
  refine ⟨h.alone, h.tidy, fun t stage hstage => sound_push (h.sound t stage hstage) hmsg, ?_,
    h.room_push hroom msg, h.pending, h.numbered, hlive.2⟩
  show s.opDepth = (works (s.push c msg).live).length + s.last.unsettled + s.reserved
  rw [hlive.1]
  exact h.depth

/-- An op is sent by the thread that reserved it, while nobody restarts. -/
theorem pushOp (h : Safe cfg s) (hlifecycle : s.lifecycle = some (t, .reserved c))
    (hsend : s.trySend cfg c = .ok) {call : Call} (hcall : call.flush? = none) :
    Safe cfg { (s.push c (.op s.accepted.length)).unlock t call with
      accepted := s.accepted ++ [s.accepted.length] } := by
  obtain ⟨halive, hroom⟩ := trySend_ok hsend
  have hslot : s.receiverSlot = some c := by simpa [Wbq.receiverAlive, hlifecycle] using halive
  have hlive : s.live = s.receiverSlot.elim [] s.channels := live_of_lifecycle hlifecycle
  have hpush := elim_push (s := s) hslot (.op s.accepted.length)
  have hcount := h.depth
  have hreserved : s.reserved = 1 := reserved_of_lifecycle hlifecycle
  have hnumbered : s.accepted ++ [s.accepted.length] = range (s.accepted.length + 1) := by
    rw [range_succ, ← h.numbered]
  have happend := h.barrier.append (.work s.accepted.length)
    (s.accepted ++ [s.accepted.length]) rfl (hnumbered ▸ nodup_range)
    (fun _ hflush => by cases hflush)
  rw [show s.barrier.content = s.receiverSlot.elim [] s.channels from hlive, ← hpush] at happend
  refine ⟨h.alone, h.tidy, nofun, ?_, h.room_push hroom _, fun u f hf => ?_, ?_, happend⟩
  · show s.opDepth = (works (s.receiverSlot.elim [] (s.push c (.op s.accepted.length)).channels)).length +
      s.last.unsettled + 0
    have hone : (works [WbqMsg.op s.accepted.length]).length = 1 := rfl
    rw [hpush, works_append, ← hlive, length_append, hone]
    omega
  · exact (h.setCall t call (by simp [hcall])).pending u f hf
  · show s.accepted ++ [s.accepted.length] = range (s.accepted ++ [s.accepted.length]).length
    rw [hnumbered, length_range]

/-! ### Restarting -/

variable {enqueues : Bool}

theorem takeSlot (h : Safe cfg s) (hlifecycle : s.lifecycle = some (t, .replacing enqueues)) :
    Safe cfg (s.takeSlot t enqueues) := by
  have hfinished : s.allFinished := h.sound t _ hlifecycle
  have hlive : s.live = s.receiverSlot.elim [] s.channels := live_of_lifecycle hlifecycle
  have hreserved : s.reserved = 0 := reserved_of_lifecycle hlifecycle
  rw [Wbq.takeSlot]
  cases hslot : s.receiverSlot with
  | none =>
    rw [hslot] at hlive
    refine h.rearrange rfl hlive.symm (fun u stage hstage => ?_) (by rw [hreserved]; rfl) h.room
    cases hstage
    exact ⟨hfinished, rfl, rfl, Nat.zero_le _⟩
  | some old =>
    rw [hslot] at hlive
    refine h.rearrange rfl hlive.symm (fun u stage hstage => ?_) (by rw [hreserved]; rfl) h.room
    cases hstage
    refine ⟨hfinished, rfl, rfl, Nat.zero_le _, fun front op back hsplit => ?_⟩
    have hroom := h.room old
    rw [show s.channels old = _ from hsplit, length_append, length_cons] at hroom
    rw [length_nil]
    omega

/-- Taking a message from the old channel makes room behind it. -/
theorem room_rest (h : ∀ c, (s.channels c).length ≤ cfg.channelCapacity) {msg : WbqMsg}
    {rest : List WbqMsg} (hmsg : s.channels c = msg :: rest) (c' : Nat) :
    (update s.channels c rest c').length ≤ cfg.channelCapacity := by
  rw [update_apply]
  split
  · have hroom := h c
    rw [hmsg, length_cons] at hroom
    omega
  · exact h c'

theorem leaveBehind (h : Safe cfg s) {moved rest : List WbqMsg} {salvagedOps old : Nat}
    (hlifecycle : s.lifecycle = some (t, .salvaging moved salvagedOps old enqueues))
    {msg : WbqMsg} (hmsg : s.channels old = msg :: rest) (hwork : msg.work? = none) :
    Safe cfg { s with channels := update s.channels old rest } := by
  obtain ⟨hfinished, hslot, hsalvaged, hmoved, hroom⟩ := h.sound t _ hlifecycle
  have hself : update s.channels old rest old = rest := update_self ..
  have hbefore : s.live = moved ++ msg :: rest := by rw [live_of_lifecycle hlifecycle, ← hmsg]; rfl
  have hafter : Wbq.live { s with channels := update s.channels old rest } = moved ++ rest := by
    rw [Wbq.live, hlifecycle]
    exact congrArg _ hself
  have hworks : works (moved ++ rest) = works s.live := by
    rw [hbefore, works_append, works_append]
    exact congrArg _ (filterMap_cons_none hwork).symm
  have hbarrier := h.barrier.lose hbefore hwork
  rw [← hafter] at hbarrier
  refine ⟨h.alone, h.tidy, fun u stage hstage => ?_, ?_, room_rest h.room hmsg, h.pending,
    h.numbered, hbarrier⟩
  · cases hlifecycle.symm.trans hstage
    refine ⟨hfinished, hslot, hsalvaged, hmoved, fun front op back hsplit => ?_⟩
    have hbehind := hroom (msg :: front) op back (by
      rw [hmsg, cons_append, ← hself]
      exact congrArg _ hsplit)
    rw [length_cons] at hbehind
    omega
  · show s.opDepth = (works (Wbq.live _)).length + s.last.unsettled + s.reserved
    rw [hafter, hworks]
    exact h.depth

theorem works_snoc_length (moved : List WbqMsg) (msg : WbqMsg) :
    (if msg.work?.isSome then (works moved).length + 1 else (works moved).length) =
      (works (moved ++ [msg])).length := by
  rw [works_append, length_append]
  cases msg <;> rfl

/-- One message is taken from the old channel; an op finds room in the new one. -/
theorem salvage (h : Safe cfg s) {moved : List WbqMsg} {salvagedOps old : Nat}
    (hlifecycle : s.lifecycle = some (t, .salvaging moved salvagedOps old enqueues)) :
    Safe cfg (s.salvage cfg t moved salvagedOps old enqueues) := by
  obtain ⟨hfinished, hslot, hsalvaged, hmoved, hroom⟩ := h.sound t _ hlifecycle
  have hlive : s.live = moved ++ s.channels old := live_of_lifecycle hlifecycle
  have hreserved : s.reserved = 0 := reserved_of_lifecycle hlifecycle
  rw [Wbq.salvage]
  split
  · next hempty =>
    rw [hempty] at hlive
    refine h.rearrange rfl hlive.symm (fun u stage hstage => ?_) (by rw [hreserved]; rfl) h.room
    cases hstage
    exact ⟨hfinished, hslot, hsalvaged, hmoved⟩
  · next msg rest hmsg =>
    split
    · exact h.leaveBehind hlifecycle hmsg rfl
    · next hother =>
      split
      · next hfits =>
        have hself : update s.channels old rest old = rest := update_self ..
        have hlive' : (moved ++ [msg]) ++ update s.channels old rest old = s.live := by
          rw [hself, hlive, hmsg, append_assoc]
          rfl
        refine h.rearrange rfl hlive' (fun u stage hstage => ?_) (by rw [hreserved]; rfl)
          (room_rest h.room hmsg)
        cases hstage
        refine ⟨hfinished, hslot, hsalvaged ▸ works_snoc_length moved msg, ?_,
          fun front op back hsplit => ?_⟩
        · rw [length_append]
          exact hfits
        · have hbehind := hroom (msg :: front) op back (by
            rw [hmsg, cons_append, ← hself]
            exact congrArg _ hsplit)
          rw [length_cons] at hbehind
          rw [length_append, length_singleton]
          omega
      · next hfull =>
        cases msg with
        | work op => exact absurd (hroom [] op rest hmsg) hfull
        | flush f => exact h.leaveBehind hlifecycle hmsg rfl
        | other => exact h.leaveBehind hlifecycle hmsg rfl

theorem last_unsettled (h : s.allFinished) : s.last.unsettled = 0 := by
  have hfinished := h (s.spawned - 1)
  simp [Wbq.last, DrainThread.unsettled, hfinished]

/-- The depth is counted anew, and it was right. -/
theorem install (h : Safe cfg s) {moved : List WbqMsg} {salvagedOps : Nat} {old : Option Nat}
    (hlifecycle : s.lifecycle = some (t, .installing moved salvagedOps old enqueues)) :
    Safe cfg (s.install t moved salvagedOps enqueues) := by
  obtain ⟨hfinished, hslot, hsalvaged, hmoved⟩ := h.sound t _ hlifecycle
  have hlive : s.live = moved := by
    rw [live_of_lifecycle hlifecycle]
    exact append_nil moved
  have hreserved : s.reserved = 0 := reserved_of_lifecycle hlifecycle
  have hdepth := h.depth
  rw [last_unsettled hfinished, hlive, hreserved, ← hsalvaged] at hdepth
  have hself : update s.channels s.created moved s.created = moved :=
    update_self ..
  refine h.rearrange rfl (hself.trans hlive.symm) (fun u stage hstage => ?_) ?_ fun c => ?_
  · cases hstage
    exact hfinished
  · rw [hreserved]
    exact hdepth.symm
  · show (update s.channels s.created moved c).length ≤ cfg.channelCapacity
    rw [update_apply]
    split
    · exact hmoved
    · exact h.room c

theorem tidy_idle : DrainThread.idle.Tidy := ⟨fun _ _ _ => rfl, fun _ => rfl⟩

/-- A finished thread has nothing in its hands. -/
theorem hand_of_finished {d : DrainThread} (h : d.Tidy) (hphase : d.phase = .finished) :
    d.hand = [] := by
  rw [DrainThread.hand, h.batch (by simp [hphase]) (by simp [hphase]) (by simp [hphase]),
    h.running (by simp [hphase])]
  rfl

/-- The flushes that a finished thread has not answered are forgotten. -/
theorem spawn (h : Safe cfg s) {channel : Nat}
    (hlifecycle : s.lifecycle = some (t, .spawning channel enqueues)) :
    Safe cfg (s.spawn t channel enqueues) := by
  have hfinished : s.allFinished := h.sound t _ hlifecycle
  have hlive : s.live = s.receiverSlot.elim [] s.channels := live_of_lifecycle hlifecycle
  have hreserved : s.reserved = 0 := reserved_of_lifecycle hlifecycle
  have hself : (s.spawn t channel enqueues).drains s.spawned = .idle := update_self ..
  have hother {d : Nat} (hd : d ≠ s.spawned) :
      (s.spawn t channel enqueues).drains d = s.drains d := update_of_ne hd ..
  have hhand : s.last.hand = [] := hand_of_finished (h.tidy _) (hfinished _)
  have hdepth := h.depth
  rw [last_unsettled hfinished, hlive, hreserved] at hdepth
  have hbarrier := step_inv h.barrier .forget
  refine ⟨fun d hd => ?_, fun d => ?_, fun u stage hstage => ?_, ?_, h.room, h.pending, h.numbered, ?_⟩
  · by_cases hnew : d = s.spawned
    · rw [hnew]
      rfl
    · rw [hother hnew] at hd
      exact absurd (hfinished d) hd
  · by_cases hnew : d = s.spawned
    · rw [hnew]
      exact hself ▸ tidy_idle
    · rw [hother hnew]
      exact h.tidy d
  · cases hstage
    trivial
  · rw [show (s.spawn t channel enqueues).last = .idle from hself]
    exact hdepth
  · rw [Wbq.barrier, show (s.spawn t channel enqueues).last = .idle from hself]
    rw [Wbq.barrier, hlive, hhand] at hbarrier
    exact hbarrier

/-! ### Flushing -/

theorem callFlush (h : Safe cfg s) : Safe cfg s.callFlush := by
  refine ⟨h.alone, h.tidy, fun u stage hstage => ?_, h.depth, h.room,
    fun u f hf => Nat.lt_succ_of_lt (h.pending u f hf), h.numbered, step_inv h.barrier .call⟩
  have hsound := h.sound u stage hstage
  cases stage with
  | flushing f channel => exact Nat.lt_succ_of_lt hsound
  | awaiting f channel => exact Nat.lt_succ_of_lt hsound
  | _ => exact hsound

/-! ### The steps of callers -/

section

variable (h : Safe cfg s)
include h

/-- The holder of the mutex goes on while nobody moves the line. -/
theorem hold (stage : Stage) (hlive : s.live = s.receiverSlot.elim [] s.channels)
    (hstage : stage.moved = [] ∧ stage.source s.receiverSlot = s.receiverSlot)
    (hsound : stage.Sound cfg s) (hdepth : opDepth + s.reserved = s.opDepth + stage.reserves) :
    Safe cfg { s.hold t stage with opDepth } := by
  refine h.relock ?_ (fun u stage' hstage' => ?_) hdepth
  · show stage.moved ++ (stage.source s.receiverSlot).elim [] s.channels = s.live
    rw [hstage.1, hstage.2, hlive]
    rfl
  · cases hstage'
    exact hsound

theorem unlock (hlive : s.live = s.receiverSlot.elim [] s.channels) {call : Call}
    (hcall : call.flush? = none) (hdepth : opDepth + s.reserved = s.opDepth) :
    Safe cfg { s.unlock t call with opDepth } :=
  (h.setCall t call (by simp [hcall])).relock hlive.symm nofun hdepth

/-- Who sends and which thread is joined later are of no concern. -/
theorem handles (sender drainHandle : Option Nat) :
    Safe cfg { s with sender, drainHandle } :=
  ⟨h.alone, h.tidy, h.sound, h.depth, h.room, h.pending, h.numbered, h.barrier⟩

theorem sendReserved (hlifecycle : s.lifecycle = some (t, .reserved c)) :
    Safe cfg (s.sendReserved cfg t c).2 := by
  have hlive := live_of_lifecycle hlifecycle
  have hdepth : s.opDepth + s.reserved = s.opDepth + 1 := by
    rw [reserved_of_lifecycle hlifecycle]
    rfl
  rw [Wbq.sendReserved]
  split
  · next hsend => exact h.pushOp hlifecycle hsend rfl
  · exact h.hold (.unsent (some c)) hlive ⟨rfl, rfl⟩ trivial hdepth
  · exact h.hold (.unsent none) hlive ⟨rfl, rfl⟩ trivial hdepth

/-- The reservation that is undone is counted. -/
theorem rollBack {retry : Option Nat}
    (hlifecycle : s.lifecycle = some (t, .unsent retry)) {giveUp : Bool} :
    Safe cfg (s.rollBack t retry giveUp).2 := by
  have hlive := live_of_lifecycle hlifecycle
  have hreserved : s.reserved = 1 := reserved_of_lifecycle hlifecycle
  have hcount := h.depth
  have hdepth : s.opDepth - 1 + s.reserved = s.opDepth := by omega
  cases retry with
  | none => exact h.unlock hlive rfl hdepth
  | some channel =>
    cases giveUp
    · exact h.unlock hlive rfl hdepth
    · exact h.unlock hlive rfl hdepth

/-- What follows a step of the holder of the lifecycle mutex. -/
theorem holderStep (hlifecycle : s.lifecycle = some (t, stage)) {giveUp : Bool}
    {r : Response} (hstep : s.holderStep cfg t stage giveUp = some (r, s')) : Safe cfg s' := by
  have hsound := h.sound t stage hlifecycle
  have hlive := live_of_lifecycle hlifecycle
  have hreserved := reserved_of_lifecycle hlifecycle
  cases stage with
  | replacing enqueues =>
    rw [Wbq.holderStep, Option.ite_none_right_eq_some] at hstep
    cases hstep.2
    exact h.takeSlot hlifecycle
  | salvaging moved salvagedOps old enqueues =>
    cases hstep
    exact h.salvage hlifecycle
  | installing moved salvagedOps old enqueues =>
    cases hstep
    exact h.install hlifecycle
  | spawning channel enqueues =>
    cases hstep
    exact h.spawn hlifecycle
  | publishing channel drain enqueues =>
    cases hstep
    exact (h.hold (.handing drain enqueues) hlive ⟨rfl, rfl⟩ trivial (congrArg _ hreserved)).handles _ _
  | handing drain enqueues =>
    cases hstep
    exact (h.unlock hlive (by cases enqueues <;> rfl) (by rw [hreserved]; rfl)).handles _ _
  | reserved channel =>
    cases congrArg Prod.snd (Option.some.inj hstep)
    exact h.sendReserved hlifecycle
  | unsent retry =>
    cases congrArg Prod.snd (Option.some.inj hstep)
    exact h.rollBack hlifecycle
  | flushing flush channel =>
    cases hstep
    rw [Wbq.shutdownFlush]
    split
    · next hsend =>
      have hpush := h.push hsend (.flush flush) rfl fun f hf => by
        cases hf
        exact hsound
      exact hpush.hold (.awaiting flush channel)
        (live_of_lifecycle (s := s.push channel (.flush flush)) hlifecycle) ⟨rfl, rfl⟩ hsound
        (congrArg _ hreserved)
    · cases giveUp
      · exact h
      · exact h.hold (.stopping channel false) hlive ⟨rfl, rfl⟩ trivial (congrArg _ hreserved)
    · exact h.hold (.stopping channel true) hlive ⟨rfl, rfl⟩ trivial (congrArg _ hreserved)
  | awaiting flush channel =>
    cases hstep
    exact h.hold (.stopping channel _) hlive ⟨rfl, rfl⟩ trivial (congrArg _ hreserved)
  | stopping channel safeToJoin =>
    cases hstep
    rw [Wbq.shutdownSend]
    split
    · next hsend =>
      have hpush := h.push hsend .shutdown rfl fun f hf => by cases hf
      exact hpush.hold (.closing safeToJoin)
        (live_of_lifecycle (s := s.push channel .shutdown) hlifecycle) ⟨rfl, rfl⟩ trivial
        (congrArg _ hreserved)
    · cases giveUp
      · exact h
      · exact h.hold (.closing false) hlive ⟨rfl, rfl⟩ trivial (congrArg _ hreserved)
    · exact h.hold (.closing safeToJoin) hlive ⟨rfl, rfl⟩ trivial (congrArg _ hreserved)
  | closing safeToJoin =>
    cases hstep
    exact (h.hold (.joining safeToJoin) hlive ⟨rfl, rfl⟩ trivial (congrArg _ hreserved)).handles _ _
  | joining safeToJoin =>
    rw [Wbq.holderStep, Option.map_eq_some_iff] at hstep
    obtain ⟨s₁, hjoin, heq⟩ := hstep
    cases heq
    rw [Wbq.joinDrain, Option.ite_none_left_eq_some] at hjoin
    cases hjoin.2
    exact (h.unlock hlive rfl (by rw [hreserved]; rfl)).handles _ _

theorem admission {giveUp : Bool} : Safe cfg (s.admission t c giveUp).2 := by
  rw [Wbq.admission]
  split
  · next hfree =>
    replace hfree : s.lifecycle = none := by simpa using hfree
    refine (h.setCall t .inside nofun).hold (.reserved c) (live_of_free hfree)
      ⟨rfl, rfl⟩ trivial ?_
    rw [show (s.setCall t .inside).reserved = 0 from reserved_of_free hfree]
    rfl
  · split
    · exact h.setCall _ _ nofun
    · exact h

/-- A restart is taken only while no drain thread is alive. -/
theorem lockStart (hfree : s.lifecycle = none)
    (hfinished : s.needsDrain → s.allFinished) : Safe cfg (s.lockStart t enqueues) := by
  rw [Wbq.lockStart]
  split
  · next hneeds =>
    have hinside : Safe cfg (s.setCall t .inside) := h.setCall _ _ nofun
    exact (hinside.hold (.replacing enqueues) (live_of_free hfree) ⟨rfl, rfl⟩ (hfinished hneeds)
      (congrArg _ (reserved_of_free hfree))).handles _ _
  · exact h.setCall _ _ (by cases enqueues <;> nofun)

theorem lockShutdown (hfree : s.lifecycle = none) :
    Safe cfg (s.lockShutdown t) := by
  rw [Wbq.lockShutdown]
  split
  · next channel hsender =>
    have hinside : Safe cfg (s.callFlush.setCall t .inside) := h.callFlush.setCall _ _ nofun
    exact hinside.hold (.flushing s.called channel) (live_of_free hfree) ⟨rfl, rfl⟩
      (Nat.lt_succ_self _) (congrArg _ (reserved_of_free hfree))
  · have hinside : Safe cfg (s.setCall t .inside) := h.setCall _ _ nofun
    exact hinside.hold (.closing true) (live_of_free hfree) ⟨rfl, rfl⟩ trivial
      (congrArg _ (reserved_of_free hfree))

theorem sendFlush {f : Nat} (hf : f < s.called) {giveUp : Bool} :
    Safe cfg (s.sendFlush cfg t f c giveUp).2 := by
  rw [Wbq.sendFlush]
  split
  · next hsend =>
    have hpush := h.push hsend (.flush f) rfl fun g hg => by
      cases hg
      exact hf
    exact hpush.setCall _ _ nofun
  · cases giveUp
    · exact h
    · exact h.setCall _ _ nofun
  · exact h.setCall _ _ nofun

theorem flushStatus : Safe cfg (s.flushStatus t).2 := by
  rw [Wbq.flushStatus]
  split
  · next channel hsender =>
    refine h.callFlush.setCall _ _ fun f hf => ?_
    cases hf
    exact Nat.lt_succ_self _
  · exact h

theorem callerStep {e : Event} {r : Response}
    (hrestart : ∀ u, e = .lockStart u → s.needsDrain → s.allFinished)
    (hstep : s.callerStep cfg t e (s.calls t) = some (r, s')) : Safe cfg s' := by
  have hpending := h.pending t
  unfold Wbq.callerStep at hstep
  split at hstep
  · cases hstep
    exact h.setCall _ _ nofun
  · cases hstep
    exact h.setCall _ _ nofun
  · cases hstep
    exact h.setCall _ _ nofun
  · cases congrArg Prod.snd (Option.some.inj hstep)
    exact h.flushStatus
  · rw [Option.ite_none_right_eq_some] at hstep
    cases hstep.2
    exact h.lockStart (by simpa using hstep.1) (hrestart _ rfl)
  · split at hstep
    · cases hstep
      exact h.setCall _ _ nofun
    · split at hstep
      · cases hstep
        exact h.setCall _ _ nofun
      · cases hstep
        exact h.setCall _ _ nofun
  · cases congrArg Prod.snd (Option.some.inj hstep)
    exact h.admission
  · next hcall =>
    cases congrArg Prod.snd (Option.some.inj hstep)
    exact h.sendFlush (hpending _ (by rw [hcall]; rfl))
  · cases hstep
    exact h.setCall _ _ nofun
  · rw [Option.ite_none_right_eq_some] at hstep
    cases hstep.2
    exact h.lockShutdown (by simpa using hstep.1)
  · cases hstep

end

/-! ### The steps of drain threads -/

section

variable (h : Safe cfg s)
include h

theorem last_of_alive (hd : (s.drains d).phase ≠ .finished) :
    s.last = s.drains d := by
  rw [Wbq.last, ← h.alone d hd, Nat.add_sub_cancel]

/-- While a drain thread is alive nobody restarts. -/
theorem stage_of_alive (hd : (s.drains d).phase ≠ .finished) {u : Nat}
    (hstage : s.lifecycle = some (u, stage)) :
    stage.moved = [] ∧ (∀ slot, stage.source slot = slot) ∧
      ∀ s' : Wbq, s'.called = s.called → stage.Sound cfg s' := by
  have hsound := h.sound u stage hstage
  cases stage with
  | replacing => exact absurd (hsound d) hd
  | salvaging => exact absurd (hsound.1 d) hd
  | installing => exact absurd (hsound.1 d) hd
  | spawning => exact absurd (hsound d) hd
  | flushing => exact ⟨rfl, fun _ => rfl, fun s' hs' => Nat.lt_of_lt_of_eq hsound hs'.symm⟩
  | awaiting => exact ⟨rfl, fun _ => rfl, fun s' hs' => Nat.lt_of_lt_of_eq hsound hs'.symm⟩
  | _ => exact ⟨rfl, fun _ => rfl, fun _ _ => trivial⟩

theorem live_of_alive (hd : (s.drains d).phase ≠ .finished)
    (hlifecycle : s'.lifecycle = s.lifecycle) : s'.live = s'.receiverSlot.elim [] s'.channels := by
  cases hstage : s.lifecycle with
  | none => exact live_of_free (hlifecycle.trans hstage)
  | some holder =>
    obtain ⟨hmoved, hsource, -⟩ := h.stage_of_alive hd hstage
    rw [live_of_lifecycle (hlifecycle.trans hstage), hmoved, hsource]
    rfl

/-- A step of a drain thread is a step of the worker of the line. -/
theorem work (hd : (s.drains d).phase ≠ .finished) (thread : DrainThread)
    (htidy : thread.Tidy) {channels : Nat → List WbqMsg} {acked executed : List Nat}
    (hbarrier : Barrier.Inv { s.barrier with
      content := s.receiverSlot.elim [] channels
      hand := thread.hand
      executed := executed
      waiters := thread.flushWaiters
      acked := acked })
    (hdepth : opDepth + (works s.live).length + (s.drains d).unsettled =
      s.opDepth + (works (s.receiverSlot.elim [] channels)).length + thread.unsettled)
    (hroom : ∀ c, (channels c).length ≤ cfg.channelCapacity) :
    Safe cfg { s.setDrain d thread with channels, slotLock, opDepth, acked, executed } := by
  have hlive : Wbq.live { s.setDrain d thread with channels, slotLock, opDepth, acked, executed } =
      s.receiverSlot.elim [] channels := h.live_of_alive hd rfl
  have hself : (s.setDrain d thread).drains d = thread := update_self ..
  have hother {d' : Nat} (hd' : d' ≠ d) : (s.setDrain d thread).drains d' = s.drains d' :=
    update_of_ne hd' ..
  have hlast : (s.setDrain d thread).last = thread := by
    show (s.setDrain d thread).drains (s.spawned - 1) = thread
    rw [← h.alone d hd, Nat.add_sub_cancel, hself]
  have hcount := h.depth
  rw [h.last_of_alive hd] at hcount
  refine ⟨fun d' hd' => ?_, fun d' => ?_, fun u stage hstage => ?_, ?_, hroom, h.pending, h.numbered, ?_⟩
  · by_cases hsame : d' = d
    · rw [hsame]
      exact h.alone d hd
    · exact h.alone d' (hother hsame ▸ hd')
  · show ((s.setDrain d thread).drains d').Tidy
    by_cases hsame : d' = d
    · rw [hsame, hself]
      exact htidy
    · rw [hother hsame]
      exact h.tidy d'
  · exact (h.stage_of_alive hd hstage).2.2 _ rfl
  · rw [hlive]
    show opDepth = (works (s.receiverSlot.elim [] channels)).length +
      (s.setDrain d thread).last.unsettled + s.reserved
    rw [hlast]
    omega
  · rw [Wbq.barrier, hlive]
    show Barrier.Inv { s.barrier with
      content := s.receiverSlot.elim [] channels
      hand := (s.setDrain d thread).last.hand
      executed := executed
      waiters := (s.setDrain d thread).last.flushWaiters
      acked := acked }
    rw [hlast]
    exact hbarrier

theorem barrier_of_alive (hd : (s.drains d).phase ≠ .finished) :
    s.barrier = { s.barrier with
      content := s.receiverSlot.elim [] s.channels
      hand := (s.drains d).hand
      waiters := (s.drains d).flushWaiters } := by
  rw [← h.live_of_alive hd rfl, ← h.last_of_alive hd]
  rfl

theorem setPhase (hd : (s.drains d).phase ≠ .finished) (thread : DrainThread)
    (htidy : thread.Tidy) (hhand : thread.hand = (s.drains d).hand)
    (hwaiters : thread.flushWaiters = (s.drains d).flushWaiters)
    (hunsettled : thread.unsettled = (s.drains d).unsettled) :
    Safe cfg { s.setDrain d thread with slotLock } := by
  have hbarrier := h.barrier
  rw [h.barrier_of_alive hd, ← hhand, ← hwaiters] at hbarrier
  refine h.work hd thread htidy hbarrier ?_ h.room
  rw [hunsettled, h.live_of_alive hd rfl]
  rfl

/-- A thread with empty hands answers the flushes that it has met. -/
theorem acknowledge (hd : (s.drains d).phase ≠ .finished)
    (hbatch : (s.drains d).batch = []) (hrunning : (s.drains d).running = []) {phase : DrainPhase} :
    Safe cfg { s.acknowledge d phase with slotLock } := by
  have hhand : (s.drains d).hand = [] := by rw [DrainThread.hand, hbatch, hrunning]; rfl
  have hbarrier := h.barrier
  rw [h.barrier_of_alive hd] at hbarrier
  have hunsettled (phase : DrainPhase) :
      DrainThread.unsettled { s.drains d with flushWaiters := [], phase } = 0 := by
    simp [DrainThread.unsettled, hbatch]
  have hanswer := step_inv hbarrier (.answer hhand)
  have htidy : DrainThread.Tidy { s.drains d with flushWaiters := [], phase } :=
    ⟨fun _ _ _ => hbatch, fun _ => hrunning⟩
  refine h.work hd _ htidy hanswer ?_ h.room
  rw [hunsettled, h.live_of_alive hd rfl, DrainThread.unsettled, hbatch, length_nil, ite_self]
  rfl

/-- A message is taken from the front of the line. -/
theorem receive (hd : (s.drains d).phase ≠ .finished)
    (hslot : s.receiverSlot = some c) {msg : WbqMsg} {rest : List WbqMsg}
    (hmsg : s.channels c = msg :: rest) (hrunning : (s.drains d).running = [])
    (hunsettled : (s.drains d).unsettled = (s.drains d).batch.length) {phase : DrainPhase}
    (hphase : phase = .collecting ∨ phase = .settling) : Safe cfg (s.receive d c msg rest phase) := by
  have hself : update s.channels c rest c = rest := update_self ..
  have hbarrier := h.barrier
  rw [h.barrier_of_alive hd] at hbarrier
  have hcontent : s.receiverSlot.elim [] s.channels = msg :: rest := by
    rw [hslot]
    exact hmsg
  have hcontent' : s.receiverSlot.elim [] (update s.channels c rest) = rest := by
    rw [hslot]
    exact hself
  have hkeeps (thread : DrainThread) (hphase' : thread.phase = phase) :
      thread.unsettled = thread.batch.length := by
    rw [DrainThread.unsettled, if_pos (hphase' ▸ hphase)]
  have hnot : phase ≠ .executing := by rintro rfl; rcases hphase with h | h <;> cases h
  have htidy (thread : DrainThread) (hphase' : thread.phase = phase) (hrunning : thread.running = []) :
      thread.Tidy := by
    refine ⟨fun h₁ h₂ _ => ?_, fun _ => hrunning⟩
    rw [hphase'] at h₁ h₂
    exact absurd hphase (not_or.mpr ⟨h₁, h₂⟩)
  refine h.work hd _ (htidy _ rfl ?_) ?_ ?_ (room_rest h.room hmsg)
  · cases msg <;> exact hrunning
  · rw [hcontent']
    cases msg with
    | work op =>
      have htake := step_inv hbarrier (.take hcontent)
      rw [show (s.drains d).hand ++ [op] = (s.drains d).running ++ ((s.drains d).batch ++ [op]) from
        append_assoc ..] at htake
      exact htake
    | flush f => exact step_inv hbarrier (.meet hcontent)
    | other => exact step_inv hbarrier (.lose (show _ = [] ++ _ from hcontent) rfl)
  · rw [hcontent', h.live_of_alive hd rfl, hcontent, hunsettled, hkeeps _ rfl]
    cases msg with
    | work op =>
      have hone (l : List WbqMsg) : (works (.work op :: l)).length = (works l).length + 1 := rfl
      have hmore : ((s.drains d).keep (.work op)).batch.length = (s.drains d).batch.length + 1 :=
        length_append
      rw [hone]
      show s.opDepth + _ + _ = s.opDepth + _ + ((s.drains d).keep (.work op)).batch.length
      rw [hmore]
      omega
    | flush f => rfl
    | other => rfl

theorem lockSlot (hphase : (s.drains d).phase = .receiving) :
    Safe cfg (s.lockSlot d) := by
  have hd : (s.drains d).phase ≠ .finished := by simp [hphase]
  obtain ⟨hbatch, hrunning⟩ := h.tidy d
  replace hbatch := hbatch (by simp [hphase]) (by simp [hphase]) (by simp [hphase])
  replace hrunning := hrunning (by simp [hphase])
  have hunsettled (phase : DrainPhase) :
      DrainThread.unsettled { s.drains d with phase } = (s.drains d).unsettled := by
    simp [DrainThread.unsettled, hbatch]
  rw [Wbq.lockSlot]
  split
  · exact h.setPhase hd { s.drains d with phase := .finished }
      ⟨fun _ _ _ => hbatch, fun _ => hrunning⟩ rfl rfl (hunsettled _)
  · exact h.setPhase hd { s.drains d with phase := .waiting }
      ⟨fun _ _ _ => hbatch, fun _ => hrunning⟩ rfl rfl (hunsettled _)

theorem receiveFirst (hphase : (s.drains d).phase = .waiting) {gone : Bool}
    (hstep : s.receiveFirst d gone = some s') : Safe cfg s' := by
  have hd : (s.drains d).phase ≠ .finished := by simp [hphase]
  obtain ⟨hbatch, hrunning⟩ := h.tidy d
  replace hbatch := hbatch (by simp [hphase]) (by simp [hphase]) (by simp [hphase])
  replace hrunning := hrunning (by simp [hphase])
  rw [Wbq.receiveFirst, Option.map_eq_some_iff] at hstep
  obtain ⟨c, hslot, hstep⟩ := hstep
  rw [← hstep]
  split
  · next msg rest hmsg =>
    exact h.receive hd hslot hmsg hrunning (by simp [DrainThread.unsettled, hbatch]) (.inl rfl)
  · cases gone
    · exact h.acknowledge hd hbatch hrunning
    · exact h.setPhase hd { s.drains d with phase := .final, shuttingDown := true }
        ⟨fun _ _ _ => hbatch, fun _ => hrunning⟩ rfl rfl (by simp [DrainThread.unsettled, hbatch])

theorem receiveMore (hphase : (s.drains d).phase = .collecting)
    (hstep : s.receiveMore cfg d = some s') : Safe cfg s' := by
  have hd : (s.drains d).phase ≠ .finished := by simp [hphase]
  have hrunning := (h.tidy d).running (by simp [hphase])
  have hstop : Safe cfg
      { s.setDrain d { s.drains d with phase := .settling } with slotLock := .free } :=
    h.setPhase hd { s.drains d with phase := .settling }
      ⟨fun _ hnot => absurd rfl hnot, fun _ => hrunning⟩ rfl rfl
      (by simp [DrainThread.unsettled, hphase])
  rw [Wbq.receiveMore, Option.map_eq_some_iff] at hstep
  obtain ⟨c, hslot, hstep⟩ := hstep
  rw [← hstep]
  split
  · split
    · next msg rest hmsg =>
      exact h.receive hd hslot hmsg hrunning (by simp [DrainThread.unsettled, hphase]) (.inl rfl)
    · exact hstop
  · exact hstop

/-- The depth counts what was received until it is settled. -/
theorem settle (hphase : (s.drains d).phase = .settling) :
    Safe cfg (s.settle d) := by
  have hd : (s.drains d).phase ≠ .finished := by simp [hphase]
  have hrunning := (h.tidy d).running (by simp [hphase])
  have hunsettled : (s.drains d).unsettled = (s.drains d).batch.length := by
    simp [DrainThread.unsettled, hphase]
  have hbarrier := h.barrier
  have hcount := h.depth
  rw [h.barrier_of_alive hd] at hbarrier
  rw [h.last_of_alive hd, h.live_of_alive hd rfl, hunsettled] at hcount
  refine h.work hd { s.drains d with phase := .executing }
    ⟨fun _ _ hnot => absurd rfl hnot, fun hnot => absurd rfl hnot⟩ hbarrier ?_ h.room
  rw [h.live_of_alive hd rfl, hunsettled]
  show s.opDepth - (s.drains d).batch.length +
    (works (s.receiverSlot.elim [] s.channels)).length + (s.drains d).batch.length =
    s.opDepth + (works (s.receiverSlot.elim [] s.channels)).length + 0
  omega

end

theorem tidy_executing {d : DrainThread} (h : d.phase = .executing) : d.Tidy :=
  ⟨fun _ _ hnot => absurd h hnot, fun hnot => absurd h hnot⟩

theorem beginWrite (h : Safe cfg s) (hphase : (s.drains d).phase = .executing)
    (hrunning : (s.drains d).running = []) {n : Nat} : Safe cfg (s.beginWrite d n) := by
  have hd : (s.drains d).phase ≠ .finished := by simp [hphase]
  let thread : DrainThread :=
    { s.drains d with
      batch := (s.drains d).batch.drop (n + 1)
      running := (s.drains d).batch.take (n + 1) }
  refine h.setPhase hd thread (tidy_executing hphase) ?_ rfl
    (by simp [thread, DrainThread.unsettled, hphase])
  show (s.drains d).batch.take (n + 1) ++ (s.drains d).batch.drop (n + 1) = (s.drains d).hand
  rw [take_append_drop, DrainThread.hand, hrunning, nil_append]

theorem finishWrite (h : Safe cfg s) (hphase : (s.drains d).phase = .executing) :
    Safe cfg (s.finishWrite d) := by
  have hd : (s.drains d).phase ≠ .finished := by simp [hphase]
  have hbarrier := h.barrier
  rw [h.barrier_of_alive hd] at hbarrier
  have hexecute := step_inv hbarrier (.execute rfl)
  refine h.work hd { s.drains d with running := [] } (tidy_executing hphase) hexecute ?_ h.room
  rw [h.live_of_alive hd rfl]
  simp [DrainThread.unsettled, hphase]
  rfl

theorem receiveLast (h : Safe cfg s) (hphase : (s.drains d).phase = .final) :
    Safe cfg (s.receiveLast d) := by
  have hd : (s.drains d).phase ≠ .finished := by simp [hphase]
  obtain ⟨hbatch, hrunning⟩ := h.tidy d
  replace hbatch := hbatch (by simp [hphase]) (by simp [hphase]) (by simp [hphase])
  replace hrunning := hrunning (by simp [hphase])
  have hfinish : Safe cfg (s.setDrain d { s.drains d with phase := .finished }) :=
    h.setPhase hd { s.drains d with phase := .finished }
      ⟨fun _ _ _ => hbatch, fun _ => hrunning⟩ rfl rfl (by simp [DrainThread.unsettled, hbatch])
  rw [Wbq.receiveLast]
  split
  · exact hfinish
  · next c hslot =>
    split
    · next msg rest hmsg =>
      exact h.receive hd hslot hmsg hrunning (by simp [DrainThread.unsettled, hbatch]) (.inr rfl)
    · exact hfinish

theorem drainStep (h : Safe cfg s) {e : Event}
    (hstep : s.drainStep cfg d e (s.drains d).phase = some s') : Safe cfg s' := by
  unfold Wbq.drainStep at hstep
  split at hstep
  · next hphase =>
    rw [Option.ite_none_right_eq_some] at hstep
    cases hstep.2
    exact h.lockSlot hphase
  · next hphase => exact h.receiveFirst hphase hstep
  · next hphase => exact h.receiveMore hphase hstep
  · next hphase =>
    cases hstep
    exact h.settle hphase
  · next hphase =>
    rw [Option.ite_none_right_eq_some] at hstep
    cases hstep.2
    exact h.beginWrite hphase hstep.1.1
  · next hphase =>
    rw [Option.ite_none_right_eq_some] at hstep
    cases hstep.2
    exact h.finishWrite hphase
  · next hphase =>
    rw [Option.ite_none_right_eq_some] at hstep
    cases hstep.2
    exact h.acknowledge (by simp [hphase]) hstep.1.2 hstep.1.1
  · next hphase =>
    rw [Option.ite_none_right_eq_some] at hstep
    cases hstep.2
    exact h.receiveLast hphase
  · cases hstep

/-- Every step keeps the invariant, if no restart is taken while a drain thread is alive. -/
theorem step (h : Safe cfg s) {e : Event} {r : Response}
    (hrestart : ∀ t, e = .lockStart t → s.needsDrain → s.allFinished)
    (hstep : s.step cfg e = some (r, s')) : Safe cfg s' := by
  rw [Wbq.step] at hstep
  split at hstep
  · exact h.callerStep hrestart hstep
  · split at hstep
    · next hlifecycle =>
      rw [Option.ite_none_right_eq_some] at hstep
      obtain ⟨rfl, hstep⟩ := hstep
      exact h.holderStep hlifecycle hstep
    · cases hstep
  · rw [Option.map_eq_some_iff] at hstep
    obtain ⟨s₁, hstep, heq⟩ := hstep
    cases heq
    exact h.drainStep hstep

end Safe

end AgentMail.WriteBehind
