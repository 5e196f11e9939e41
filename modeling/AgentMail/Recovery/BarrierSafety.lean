import AgentMail.Recovery.WriteBarrier
import Mathlib.Data.List.Perm.Basic

/-!
# No promotion under a live write

The invariant says who owns the barrier: the one thread that has a depth or is draining, as long as
the barrier is active. Every step keeps the owner, makes the stepping thread the owner of a free
barrier, or frees the barrier of its owner.
-/

namespace AgentMail.Recovery

open Lib List

/-! ### The laws -/

/-- A thread that owns the barrier, also while it still drains. -/
def Thread.Owns (th : Thread) : Prop := 0 < th.depth ∨ ∃ timeout, th.phase = .draining timeout

/-- What holds in every state. -/
structure Excludes (p : Process) : Prop where
  /-- Every live write guard counts as one writer. -/
  counted : p.barrier.writers = p.writeGuards.length
  distinct : p.writeGuards.Nodup
  unique : ∀ t u, (p.threads t).Owns → (p.threads u).Owns → t = u
  active : p.barrier.promotionActive = true ↔ ∃ t, (p.threads t).Owns
  /-- A thread that is told that it holds the promotion barrier finds no write alive. -/
  idle : ∀ t, p.holdsPromotionBarrier t = true → p.writeGuards = []

/-- The laws of a run. -/
structure BarrierLaws (es : List (Entry Process Event Response)) : Prop where
  excludes : ∀ x ∈ es, Excludes x.before ∧ Excludes x.after
  /-- A promotion that is permitted starts with no write alive. -/
  permits : ∀ x ∈ es, x.response.permits = true → x.after.writeGuards = []
  /-- After a drain that timed out nothing is permitted on the thread as long as it has a depth. -/
  refused : ∀ front x mid y back t n, es = front ++ x :: (mid ++ y :: back) →
    x.event.promoter? = some t → x.response = .promotion true (.timedOut n) →
    (∀ z ∈ mid, 0 < (z.after.threads t).depth) → y.event.promoter? = some t →
    y.response.permits = false
  /-- A call that owns nothing leaves everything but the caller's list of guards as it was. -/
  unowned : ∀ x ∈ es, ∀ t outcome, x.event.promoter? = some t →
    x.response = .promotion false outcome →
    x.after.barrier = x.before.barrier ∧ x.after.writeGuards = x.before.writeGuards ∧
      ∀ u, (x.after.threads u).depth = (x.before.threads u).depth
  /-- So does the drop of its guard. -/
  inert : ∀ x ∈ es, ∀ t i, x.event = .dropPromotionGuard t i →
    (x.before.threads t).guards[i]? = some false →
    x.after.barrier = x.before.barrier ∧ x.after.writeGuards = x.before.writeGuards ∧
      ∀ u, (x.after.threads u).depth = (x.before.threads u).depth ∧
        (x.after.threads u).phase = (x.before.threads u).phase

/-! ### The invariant -/

/-- What holds of a thread by itself: its depth counts its guards, and it has none while it
waits. -/
structure Thread.Fits (th : Thread) : Prop where
  depth : th.depth = th.guards.count true
  waits : th.phase ≠ .running → th.depth = 0

structure Inv (p : Process) : Prop where
  counted : p.barrier.writers = p.writeGuards.length
  distinct : p.writeGuards.Nodup
  fresh : ∀ g ∈ p.writeGuards, g < p.issued
  fits : ∀ t, (p.threads t).Fits
  unique : ∀ t u, (p.threads t).Owns → (p.threads u).Owns → t = u
  active : p.barrier.promotionActive = true ↔ ∃ t, (p.threads t).Owns

theorem inv_start : Inv .start where
  counted := rfl
  distinct := .nil
  fresh _ h := by cases h
  fits _ := ⟨rfl, fun h => absurd rfl h⟩
  unique t _ h := by
    rcases h with h | ⟨timeout, h⟩
    · cases h
    · cases h
  active := by
    constructor
    · intro h
      cases h
    · rintro ⟨t, h | ⟨timeout, h⟩⟩
      · cases h
      · cases h

theorem canPromote_iff {s : BarrierState} :
    s.canPromote = true ↔ s.promotionActive = true ∧ s.promotionReady = true ∧ s.writers = 0 := by
  rw [BarrierState.canPromote, Bool.and_eq_true, Bool.and_eq_true, beq_iff_eq, and_assoc]

theorem Process.holdsBarrier_iff {p : Process} {t : Nat} :
    p.holdsBarrier t = true ↔ 0 < (p.threads t).depth := decide_eq_true_iff

namespace Inv

variable {p : Process} {t : Nat}

theorem no_writes (h : Inv p) (hwriters : p.barrier.writers = 0) : p.writeGuards = [] := by
  rw [← length_eq_zero_iff, ← h.counted]
  exact hwriters

theorem excludes (h : Inv p) : Excludes p where
  counted := h.counted
  distinct := h.distinct
  unique := h.unique
  active := h.active
  idle t ht := by
    rw [Process.holdsPromotionBarrier, Bool.and_eq_true, canPromote_iff] at ht
    exact h.no_writes ht.2.2.2

theorem not_owns (h : Inv p) (hfree : p.barrier.promotionActive = false) (u : Nat) :
    ¬ (p.threads u).Owns := by
  intro hu
  have hactive := h.active.mpr ⟨u, hu⟩
  rw [hfree] at hactive
  cases hactive

section

variable {barrier : BarrierState} {th : Thread}

theorem threads_unlock (u : Nat) :
    (p.unlock t barrier th).threads u = if u = t then th else p.threads u := by
  show Function.update p.threads t th u = _
  rw [Function.update_apply]

/-- The part of the invariant that speaks about one thread at a time. -/
theorem fits_unlock (h : Inv p) (hth : th.Fits) (u : Nat) :
    ((p.unlock t barrier th).threads u).Fits := by
  rw [threads_unlock]
  split
  · exact hth
  · exact h.fits u

theorem keep (h : Inv p) (hwriters : barrier.writers = p.barrier.writers) (hth : th.Fits)
    (howns : th.Owns ↔ (p.threads t).Owns)
    (hactive : barrier.promotionActive = p.barrier.promotionActive) :
    Inv (p.unlock t barrier th) := by
  have hsame (u : Nat) : ((p.unlock t barrier th).threads u).Owns ↔ (p.threads u).Owns := by
    rw [threads_unlock]
    split
    · next hu => rw [howns, hu]
    · exact Iff.rfl
  refine ⟨hwriters.trans h.counted, h.distinct, h.fresh, h.fits_unlock hth, ?_, ?_⟩
  · intro u v hu hv
    exact h.unique u v ((hsame u).mp hu) ((hsame v).mp hv)
  · show barrier.promotionActive = true ↔ _
    rw [hactive, h.active]
    exact exists_congr fun u => (hsame u).symm

theorem take (h : Inv p) (hfree : p.barrier.promotionActive = false)
    (hwriters : barrier.writers = p.barrier.writers) (hth : th.Fits) (howns : th.Owns)
    (hactive : barrier.promotionActive = true) : Inv (p.unlock t barrier th) := by
  have honly (u : Nat) (hu : ((p.unlock t barrier th).threads u).Owns) : u = t := by
    rw [threads_unlock] at hu
    split at hu
    · next heq => exact heq
    · exact absurd hu (h.not_owns hfree u)
  refine ⟨hwriters.trans h.counted, h.distinct, h.fresh, h.fits_unlock hth, ?_, ?_⟩
  · intro u v hu hv
    rw [honly u hu, honly v hv]
  · refine ⟨fun _ => ⟨t, ?_⟩, fun _ => hactive⟩
    rw [threads_unlock, if_pos rfl]
    exact howns

theorem release (h : Inv p) (hwas : (p.threads t).Owns)
    (hwriters : barrier.writers = p.barrier.writers) (hth : th.Fits) (hnot : ¬ th.Owns)
    (hactive : barrier.promotionActive = false) : Inv (p.unlock t barrier th) := by
  have hnone (u : Nat) : ¬ ((p.unlock t barrier th).threads u).Owns := by
    rw [threads_unlock]
    split
    · exact hnot
    · next hne => exact fun hu => hne (h.unique u t hu hwas)
  refine ⟨hwriters.trans h.counted, h.distinct, h.fresh, h.fits_unlock hth, ?_, ?_⟩
  · intro u _ hu
    exact absurd hu (hnone u)
  · show barrier.promotionActive = true ↔ _
    rw [hactive]
    simp [hnone]

end

end Inv

/-! ### Threads -/

section

variable {th : Thread}

theorem fits_newHeld (h : th.Fits) : th.newHeld.Fits where
  depth := by
    rw [Thread.newHeld, count_append, ← h.depth]
    rfl
  waits hphase := absurd rfl hphase

theorem fits_newUnheld (h : th.Fits) : th.newUnheld.Fits where
  depth := by
    rw [Thread.newUnheld, count_append, ← h.depth]
    rfl
  waits hphase := absurd rfl hphase

theorem fits_wait (h : th.Fits) (hdepth : th.depth = 0) (phase : Phase) : (th.wait phase).Fits :=
  ⟨h.depth, fun _ => hdepth⟩

/-- The flags that a thread loses with a guard. -/
theorem count_eraseIdx {guards : List Bool} {i : Nat} {participating : Bool}
    (h : guards[i]? = some participating) :
    guards.count true = (guards.eraseIdx i).count true + participating.toNat := by
  obtain ⟨hi, rfl⟩ := List.getElem?_eq_some_iff.mp h
  have hperm := getElem_cons_eraseIdx_perm hi
  rw [← hperm.count_eq true, count_cons]
  cases guards[i] <;> rfl

theorem owns_newHeld : th.newHeld.Owns := .inl (Nat.succ_pos _)

/-- Of a thread that does not drain only the depth says whether it owns. -/
theorem owns_iff (h : ∀ timeout, th.phase ≠ .draining timeout) : th.Owns ↔ 0 < th.depth := by
  constructor
  · rintro (hdepth | ⟨timeout, hphase⟩)
    · exact hdepth
    · exact absurd hphase (h timeout)
  · exact .inl

theorem owns_newUnheld_iff (h : ∀ timeout, th.phase ≠ .draining timeout) :
    th.newUnheld.Owns ↔ th.Owns := by
  rw [owns_iff h, owns_iff fun timeout => by simp [Thread.newUnheld]]
  rfl

end

/-! ### What a step can do -/

/-- A thread may take the barrier when nobody has it, and when it is draining already. -/
def Process.MayHold (p : Process) (t : Nat) : Prop :=
  p.barrier.promotionActive = false ∨ ∃ timeout, (p.threads t).phase = .draining timeout

inductive Effect (p : Process) : Event → Response → Process → Prop where
  | stays {e : Event} {r : Response} (hr : r = .refused ∨ r = .waiting) : Effect p e r p
  | parks {e : Event} {t : Nat} {phase : Phase}
      (hwas : ∀ timeout, (p.threads t).phase ≠ .draining timeout)
      (hdepth : (p.threads t).depth = 0 ∨ (p.threads t).phase ≠ .running)
      (hphase : ∀ timeout, phase ≠ .draining timeout) :
      Effect p e .waiting (p.unlock t p.barrier ((p.threads t).wait phase))
  | writes {e : Event} {t : Nat} (hwas : ∀ timeout, (p.threads t).phase ≠ .draining timeout) :
      Effect p e (.writing p.issued) (p.admitWriter t).2
  | finishes {e : Event} {guard : Nat} (hguard : guard ∈ p.writeGuards) :
      Effect p e .dropped (p.dropWriteGuard guard).2
  | nests {e : Event} {t : Nat} {r : Response} (hpromoter : e.promoter? = some t)
      (hdepth : 0 < (p.threads t).depth) (hready : p.barrier.canPromote = true)
      (hr : r = .granted ∨ r = .promotion true .idle) :
      Effect p e r (p.unlock t p.barrier (p.threads t).newHeld)
  | refuses {e : Event} {t : Nat} (hpromoter : e.promoter? = some t)
      (hwas : ∀ timeout, (p.threads t).phase ≠ .draining timeout) :
      Effect p e (.promotion false (.timedOut p.barrier.writers)) (p.timeOutUnheld t).2
  | holds {e : Event} {t : Nat} {r : Response} {ready : Bool} (hpromoter : e.promoter? = some t)
      (hmay : p.MayHold t) (hready : ready = true → p.barrier.writers = 0)
      (hr : r.permits = ready) (howned : ∀ outcome, r ≠ .promotion false outcome) :
      Effect p e r
        (p.unlock t { p.barrier with promotionActive := true, promotionReady := ready }
          (p.threads t).newHeld)
  | drains {e : Event} {t timeout : Nat} (hpromoter : e.promoter? = some t)
      (hmay : p.MayHold t) :
      Effect p e .waiting
        (p.unlock t { p.barrier with promotionActive := true, promotionReady := false }
          ((p.threads t).wait (.draining timeout)))
  | drops {t i : Nat} {participating : Bool}
      (hguard : (p.threads t).guards[i]? = some participating)
      (hrunning : (p.threads t).phase = .running) :
      Effect p (.dropPromotionGuard t i) .dropped (p.dropPromotionGuard t i participating).2

variable {r : Response}

section

variable {p : Process} {e : Event} {t timeout elapsed waited : Nat}

theorem Thread.not_draining {th : Thread} (h : th.phase = .running ∨ th.phase = .beginning ∨
    ∃ timeout, th.phase = .queued timeout) (timeout : Nat) : th.phase ≠ .draining timeout := by
  intro hphase
  rcases h with h | h | ⟨_, h⟩ <;> (rw [h] at hphase; cases hphase)

theorem Process.depth_eq_zero (h : ¬ p.holdsBarrier t = true) : (p.threads t).depth = 0 := by
  rw [Process.holdsBarrier_iff] at h
  omega

theorem drainProgress_permits {writers : Nat} {outcome : DrainOutcome}
    (h : drainProgress writers waited timeout = some outcome) :
    (!outcome.isTimedOut) = true → writers = 0 := by
  rw [drainProgress] at h
  split at h
  · cases h
    intro hfalse
    cases hfalse
  · split at h
    · next hzero => exact fun _ => hzero
    · cases h

section

variable (hwas : ∀ timeout, (p.threads t).phase ≠ .draining timeout)
include hwas

theorem effect_begin :
    Effect p e (p.beginWriteActivity t).1 (p.beginWriteActivity t).2 := by
  rw [Process.beginWriteActivity]
  split
  · exact .writes hwas
  · next hfree =>
    split
    · exact .parks hwas (.inl (Process.depth_eq_zero hfree)) (by simp)
    · exact .writes hwas

theorem effect_wakeWriter :
    Effect p e (p.wakeWriter t).1 (p.wakeWriter t).2 := by
  rw [Process.wakeWriter]
  split
  · exact .stays (.inr rfl)
  · exact .writes hwas

theorem effect_tryBegin
    (contended : Bool) :
    Effect p e (p.tryBeginWriteActivity t contended).1 (p.tryBeginWriteActivity t contended).2 := by
  rw [Process.tryBeginWriteActivity]
  split
  · exact .stays (.inl rfl)
  · split
    · exact .stays (.inl rfl)
    · exact .writes hwas

end

section

variable (hpromoter : e.promoter? = some t)
include hpromoter

theorem effect_finishDrain (hmay : p.MayHold t)
    {outcome : DrainOutcome} (hwriters : (!outcome.isTimedOut) = true → p.barrier.writers = 0) :
    Effect p e (p.finishDrain t outcome).1 (p.finishDrain t outcome).2 :=
  .holds hpromoter hmay hwriters rfl (by simp [Process.finishDrain])

theorem effect_drain (hmay : p.MayHold t) :
    Effect p e (p.drain t timeout waited).1 (p.drain t timeout waited).2 := by
  rw [Process.drain]
  split
  · next hprogress => exact effect_finishDrain hpromoter hmay (drainProgress_permits hprogress)
  · exact .drains hpromoter hmay

theorem effect_takeBarrier
    (hfree : ¬ p.barrier.promotionActive = true) :
    Effect p e (p.takeBarrier t timeout waited).1 (p.takeBarrier t timeout waited).2 := by
  have hmay : p.MayHold t := .inl (Bool.eq_false_iff.mpr hfree)
  rw [Process.takeBarrier]
  split
  · next hzero => exact effect_finishDrain hpromoter hmay fun _ => hzero
  · exact effect_drain hpromoter hmay

theorem effect_queue
    (hwas : ∀ timeout, (p.threads t).phase ≠ .draining timeout)
    (hdepth : (p.threads t).depth = 0 ∨ (p.threads t).phase ≠ .running) :
    Effect p e (p.queue t timeout elapsed).1 (p.queue t timeout elapsed).2 := by
  rw [Process.queue]
  split
  · exact .refuses hpromoter hwas
  · exact .parks hwas hdepth (by simp)

theorem effect_tryAcquire :
    Effect p e (p.tryAcquirePromotionBarrierIfIdle t).1
      (p.tryAcquirePromotionBarrierIfIdle t).2 := by
  rw [Process.tryAcquirePromotionBarrierIfIdle]
  split
  · next hheld =>
    split
    · next hready =>
      exact .nests hpromoter (Process.holdsBarrier_iff.mp hheld) hready (.inl rfl)
    · exact .stays (.inl rfl)
  · split
    · exact .stays (.inl rfl)
    · next hidle =>
      rw [Bool.or_eq_true, decide_eq_true_iff, not_or, Nat.not_lt, Nat.le_zero] at hidle
      exact .holds hpromoter (.inl (Bool.eq_false_iff.mpr hidle.1)) (fun _ => hidle.2) rfl (by simp)

theorem effect_acquire
    (hwas : ∀ timeout, (p.threads t).phase ≠ .draining timeout) :
    Effect p e (p.acquirePromotionBarrierDraining t timeout elapsed waited).1
      (p.acquirePromotionBarrierDraining t timeout elapsed waited).2 := by
  rw [Process.acquirePromotionBarrierDraining]
  split
  · next hheld =>
    split
    · next hready =>
      exact .nests hpromoter (Process.holdsBarrier_iff.mp hheld) hready (.inr rfl)
    · exact .refuses hpromoter hwas
  · next hfree =>
    split
    · exact effect_queue hpromoter hwas (.inl (Process.depth_eq_zero hfree))
    · next hinactive => exact effect_takeBarrier hpromoter hinactive

theorem effect_wakeQueued
    (hphase : (p.threads t).phase = .queued timeout) :
    Effect p e (p.wakeQueued t timeout elapsed waited).1
      (p.wakeQueued t timeout elapsed waited).2 := by
  have hwas := Thread.not_draining (.inr (.inr ⟨timeout, hphase⟩))
  rw [Process.wakeQueued]
  split
  · exact effect_queue hpromoter hwas (.inr (by simp [hphase]))
  · next hinactive =>
    split
    · exact .refuses hpromoter hwas
    · exact effect_takeBarrier hpromoter hinactive

end

theorem effect_of_if {c : Prop} [Decidable c] {a : Response × Process} {p' : Process}
    (h : (if c then some a else none) = some (r, p')) (ha : c → Effect p e a.1 a.2) :
    Effect p e r p' := by
  rw [Option.ite_none_right_eq_some, Option.some.injEq] at h
  obtain ⟨hc, rfl⟩ := h
  exact ha hc

theorem effect_drop {i : Nat} {participating : Bool}
    (hguard : (p.threads t).guards[i]? = some participating)
    (hrunning : (p.threads t).phase = .running) :
    Effect p (.dropPromotionGuard t i) (p.dropPromotionGuard t i participating).1
      (p.dropPromotionGuard t i participating).2 := by
  have hdropped : (p.dropPromotionGuard t i participating).1 = .dropped := by
    cases participating <;> rfl
  rw [hdropped]
  exact .drops hguard hrunning

theorem effect_of_eq {a : Response × Process} {p' : Process} (h : a = (r, p'))
    (ha : Effect p e a.1 a.2) : Effect p e r p' := by
  subst h
  exact ha

/-- Everything that a step of the process can do. -/
theorem step_effect {p' : Process} (h : p.step e = some (r, p')) : Effect p e r p' := by
  cases e with
  | beginWriteActivity t =>
    exact effect_of_if h fun hphase => effect_begin (Thread.not_draining (.inl hphase))
  | wakeWriter t =>
    exact effect_of_if h fun hphase => effect_wakeWriter (Thread.not_draining (.inr (.inl hphase)))
  | tryBeginWriteActivity t contended =>
    exact effect_of_if h fun hphase => effect_tryBegin (Thread.not_draining (.inl hphase)) contended
  | dropWriteGuard guard => exact effect_of_if h fun hguard => .finishes hguard
  | tryAcquire t => exact effect_of_if h fun _ => effect_tryAcquire rfl
  | acquire t timeout elapsed waited =>
    exact effect_of_if h fun hphase => effect_acquire rfl (Thread.not_draining (.inl hphase))
  | wakeQueued t elapsed waited =>
    rw [Process.step] at h
    split at h
    · next timeout hphase =>
      exact effect_of_eq (Option.some.inj h) (effect_wakeQueued rfl hphase)
    · cases h
  | wakeDraining t waited =>
    rw [Process.step] at h
    split at h
    · next timeout hphase =>
      exact effect_of_eq (Option.some.inj h) (effect_drain rfl (.inr ⟨timeout, hphase⟩))
    · cases h
  | dropPromotionGuard t i =>
    rw [Process.step] at h
    split at h
    · next hrunning =>
      obtain ⟨participating, hguard, hdropped⟩ := Option.map_eq_some_iff.mp h
      exact effect_of_eq hdropped (effect_drop hguard hrunning)
    · cases h

end

/-! ### Every step keeps the invariant -/

namespace Inv

variable {p : Process} {t : Nat}

section

variable (h : Inv p)
include h

/-- A thread that may hold the barrier has no depth yet. -/
theorem depth_of_mayHold (hmay : p.MayHold t) : (p.threads t).depth = 0 := by
  rcases hmay with hfree | ⟨timeout, hphase⟩
  · by_contra hdepth
    exact h.not_owns hfree t (.inl (by omega))
  · exact (h.fits t).waits (by simp [hphase])

/-- Whether the barrier was free or the thread was draining, it owns the barrier now. -/
theorem hold {barrier : BarrierState} {th : Thread} (hmay : p.MayHold t)
    (hwriters : barrier.writers = p.barrier.writers) (hth : th.Fits) (howns : th.Owns)
    (hactive : barrier.promotionActive = true) : Inv (p.unlock t barrier th) := by
  rcases hmay with hfree | hdraining
  · exact h.take hfree hwriters hth howns hactive
  · have hwas : (p.threads t).Owns := .inr hdraining
    exact h.keep hwriters hth (iff_of_true howns hwas) (by rw [hactive, h.active.mpr ⟨t, hwas⟩])

theorem addWriter :
    Inv { p with
      barrier := { p.barrier with writers := p.barrier.writers + 1 }
      writeGuards := p.writeGuards ++ [p.issued]
      issued := p.issued + 1 } where
  counted := by
    show p.barrier.writers + 1 = _
    rw [length_append, h.counted]
    rfl
  distinct := by
    rw [(perm_append_singleton _ _).nodup_iff, nodup_cons]
    exact ⟨fun hmem => Nat.lt_irrefl _ (h.fresh _ hmem), h.distinct⟩
  fresh g hg := by
    rw [mem_append, mem_singleton] at hg
    show g < p.issued + 1
    rcases hg with hg | rfl
    · exact Nat.lt_succ_of_lt (h.fresh g hg)
    · exact Nat.lt_succ_self _
  fits := h.fits
  unique := h.unique
  active := h.active

theorem admitWriter (hwas : ∀ timeout, (p.threads t).phase ≠ .draining timeout) :
    Inv (p.admitWriter t).2 := by
  have howns : ((p.threads t).wait .running).Owns ↔ (p.threads t).Owns := by
    rw [owns_iff hwas, owns_iff (by simp [Thread.wait])]
    rfl
  have hth : ((p.threads t).wait .running).Fits :=
    ⟨(h.fits t).depth, fun hphase => absurd rfl hphase⟩
  have hkeep : Inv (p.unlock t p.barrier _) := h.keep rfl hth howns rfl
  exact hkeep.addWriter

theorem dropWriteGuard {guard : Nat} (hguard : guard ∈ p.writeGuards) :
    Inv (p.dropWriteGuard guard).2 where
  counted := by
    show p.barrier.writers - 1 = (p.writeGuards.erase guard).length
    rw [length_erase_of_mem hguard, h.counted]
  distinct := h.distinct.erase guard
  fresh g hg := h.fresh g (mem_of_mem_erase hg)
  fits := h.fits
  unique := h.unique
  active := h.active

theorem park {phase : Phase} (hwas : ∀ timeout, (p.threads t).phase ≠ .draining timeout)
    (hdepth : (p.threads t).depth = 0 ∨ (p.threads t).phase ≠ .running)
    (hphase : ∀ timeout, phase ≠ .draining timeout) :
    Inv (p.unlock t p.barrier ((p.threads t).wait phase)) := by
  have hzero : (p.threads t).depth = 0 := hdepth.elim id (h.fits t).waits
  have howns : ((p.threads t).wait phase).Owns ↔ (p.threads t).Owns := by
    rw [owns_iff hwas, owns_iff hphase]
    rfl
  exact h.keep rfl (fits_wait (h.fits t) hzero phase) howns rfl

theorem dropInert {i : Nat} (hguard : (p.threads t).guards[i]? = some false) :
    Inv (p.dropPromotionGuard t i false).2 := by
  have hth : Thread.Fits { p.threads t with guards := (p.threads t).guards.eraseIdx i } :=
    ⟨(h.fits t).depth.trans (count_eraseIdx hguard), (h.fits t).waits⟩
  have hkeep : Inv (p.unlock t p.barrier _) := h.keep rfl hth Iff.rfl rfl
  exact hkeep

theorem dropHeld {i : Nat} (hguard : (p.threads t).guards[i]? = some true)
    (hrunning : (p.threads t).phase = .running) : Inv (p.dropPromotionGuard t i true).2 := by
  have hcount : _ = _ + 1 := count_eraseIdx hguard
  have hdepth := (h.fits t).depth
  have hwas : (p.threads t).Owns := .inl (by omega)
  have hth : Thread.Fits
      { p.threads t with
        guards := (p.threads t).guards.eraseIdx i, depth := (p.threads t).depth - 1 } := by
    refine ⟨?_, fun hphase => absurd hrunning hphase⟩
    show (p.threads t).depth - 1 = ((p.threads t).guards.eraseIdx i).count true
    omega
  have howns := @owns_iff
    { p.threads t with
      guards := (p.threads t).guards.eraseIdx i, depth := (p.threads t).depth - 1 }
    (Thread.not_draining (.inl hrunning))
  show Inv (p.unlock t (if (p.threads t).depth - 1 = 0 then _ else _) _)
  by_cases hlast : (p.threads t).depth - 1 = 0
  · rw [if_pos hlast]
    refine h.release hwas rfl hth (fun hstill => ?_) rfl
    have hstill : 0 < (p.threads t).depth - 1 := howns.mp hstill
    omega
  · rw [if_neg hlast]
    exact h.keep rfl hth (iff_of_true (howns.mpr (Nat.pos_of_ne_zero hlast)) hwas) rfl

end

end Inv

theorem effect_inv {p p' : Process} {e : Event} (h : Inv p) (he : Effect p e r p') : Inv p' := by
  cases he with
  | stays => exact h
  | parks hwas hdepth hphase => exact h.park hwas hdepth hphase
  | writes hwas => exact h.admitWriter hwas
  | finishes hguard => exact h.dropWriteGuard hguard
  | nests hpromoter hdepth =>
    exact h.keep rfl (fits_newHeld (h.fits _)) (iff_of_true owns_newHeld (.inl hdepth)) rfl
  | refuses hpromoter hwas =>
    exact h.keep rfl (fits_newUnheld (h.fits _)) (owns_newUnheld_iff hwas) rfl
  | holds hpromoter hmay => exact h.hold hmay rfl (fits_newHeld (h.fits _)) owns_newHeld rfl
  | drains hpromoter hmay =>
    exact h.hold hmay rfl (fits_wait (h.fits _) (h.depth_of_mayHold hmay) _) (.inr ⟨_, rfl⟩) rfl
  | @drops t i participating hguard hrunning =>
    cases participating with
    | false => exact h.dropInert hguard
    | true => exact h.dropHeld hguard hrunning

theorem step_inv (p : Process) (e : Event) (r : Response) (p' : Process) (h : Inv p)
    (he : p.step e = some (r, p')) : Inv p' := effect_inv h (step_effect he)

/-! ### Permission -/

theorem effect_permits {p p' : Process} {e : Event} (h : Inv p) (he : Effect p e r p')
    (hr : r.permits = true) : p'.writeGuards = [] := by
  cases he with
  | stays hstays => rcases hstays with rfl | rfl <;> cases hr
  | parks => cases hr
  | writes => cases hr
  | finishes => cases hr
  | nests hpromoter hdepth hready => exact h.no_writes (canPromote_iff.mp hready).2.2
  | refuses => cases hr
  | holds hpromoter hmay hready hpermits => exact h.no_writes (hready (hpermits.symm.trans hr))
  | drains => cases hr
  | drops => cases hr

/-- A thread that holds the barrier after a drain that timed out. -/
structure Refused (t : Nat) (p : Process) : Prop where
  active : p.barrier.promotionActive = true
  ready : p.barrier.promotionReady = false
  depth : 0 < (p.threads t).depth

namespace Refused

variable {p p' : Process} {t : Nat} {e : Event} {r : Response}

theorem not_mayHold (h : Refused t p) (hinv : Inv p) (u : Nat) : ¬ p.MayHold u := by
  rintro (hfree | hdraining)
  · rw [h.active] at hfree
    cases hfree
  · have heq := hinv.unique u t (.inr hdraining) (.inl h.depth)
    have hzero := hinv.depth_of_mayHold (.inr hdraining)
    rw [heq] at hzero
    exact absurd h.depth (by omega)

theorem not_canPromote (h : Refused t p) : ¬ p.barrier.canPromote = true := by
  rw [canPromote_iff, h.ready]
  simp

theorem effect (h : Refused t p) (hinv : Inv p) (he : Effect p e r p')
    (hdepth : 0 < (p'.threads t).depth) : Refused t p' := by
  cases he with
  | stays => exact h
  | parks => exact ⟨h.active, h.ready, hdepth⟩
  | writes => exact ⟨h.active, h.ready, hdepth⟩
  | finishes => exact ⟨h.active, h.ready, hdepth⟩
  | nests hpromoter howned hready => exact absurd hready h.not_canPromote
  | refuses => exact ⟨h.active, h.ready, hdepth⟩
  | holds hpromoter hmay => exact absurd hmay (h.not_mayHold hinv _)
  | drains hpromoter hmay => exact absurd hmay (h.not_mayHold hinv _)
  | @drops u i participating hguard =>
    cases participating with
    | false => exact ⟨h.active, h.ready, hdepth⟩
    | true =>
      have hcount : _ = _ + 1 := count_eraseIdx hguard
      have howned := (hinv.fits u).depth
      obtain rfl : u = t := hinv.unique u t (.inl (by omega)) (.inl h.depth)
      have hleft : 0 < (p.threads u).depth - 1 := by
        have hafter : (p.dropPromotionGuard u i true).2.threads u = _ := Inv.threads_unlock u
        rw [hafter, if_pos rfl] at hdepth
        exact hdepth
      have hbarrier : (p.dropPromotionGuard u i true).2.barrier = p.barrier :=
        if_neg (Nat.ne_of_gt hleft)
      exact ⟨by rw [hbarrier, h.active], by rw [hbarrier, h.ready], hdepth⟩

theorem not_permits (h : Refused t p) (hinv : Inv p) (he : Effect p e r p')
    (hpromoter : e.promoter? = some t) : r.permits = false := by
  cases he with
  | stays hstays => rcases hstays with rfl | rfl <;> rfl
  | parks => rfl
  | writes => rfl
  | finishes => rfl
  | nests _ _ hready => exact absurd hready h.not_canPromote
  | refuses => rfl
  | holds _ hmay => exact absurd hmay (h.not_mayHold hinv _)
  | drains => rfl
  | drops => cases hpromoter

/-- What a drain that timed out on the thread leaves. -/
theorem of_timedOut {n : Nat} (he : Effect p e (.promotion true (.timedOut n)) p')
    (hpromoter : e.promoter? = some t) : Refused t p' := by
  cases he with
  | stays hstays => rcases hstays with h | h <;> cases h
  | nests _ _ _ hr => rcases hr with h | h <;> cases h
  | holds hholder _ _ hpermits =>
    obtain rfl := Option.some.inj (hpromoter.symm.trans hholder)
    refine ⟨rfl, hpermits.symm, ?_⟩
    rw [Inv.threads_unlock, if_pos rfl]
    exact Nat.succ_pos _

end Refused

/-! ### Guards that own nothing -/

theorem effect_unowned {p p' : Process} {e : Event} {t : Nat} {outcome : DrainOutcome}
    (he : Effect p e (.promotion false outcome) p') (hpromoter : e.promoter? = some t) :
    p'.barrier = p.barrier ∧ p'.writeGuards = p.writeGuards ∧
      ∀ u, (p'.threads u).depth = (p.threads u).depth := by
  cases he with
  | stays hstays => rcases hstays with h | h <;> cases h
  | nests _ _ _ hr => rcases hr with h | h <;> cases h
  | refuses =>
    refine ⟨rfl, rfl, fun u => ?_⟩
    rw [Process.timeOutUnheld, Inv.threads_unlock]
    split
    · next hu => rw [hu, Thread.newUnheld]
    · rfl
  | holds _ _ _ _ howned => exact absurd rfl (howned outcome)

theorem drop_inert (p : Process) (t i : Nat) :
    (p.dropPromotionGuard t i false).2.barrier = p.barrier ∧
      (p.dropPromotionGuard t i false).2.writeGuards = p.writeGuards ∧
      ∀ u, ((p.dropPromotionGuard t i false).2.threads u).depth = (p.threads u).depth ∧
        ((p.dropPromotionGuard t i false).2.threads u).phase = (p.threads u).phase := by
  refine ⟨rfl, rfl, fun u => ?_⟩
  show ((p.unlock t p.barrier _).threads u).depth = _ ∧
    ((p.unlock t p.barrier _).threads u).phase = _
  rw [Inv.threads_unlock]
  split
  · next hu => exact hu ▸ ⟨rfl, rfl⟩
  · exact ⟨rfl, rfl⟩

/-- However the steps of the threads interleave, no promotion is permitted while a write is
alive. -/
theorem barrierLaws (es : List Event) : BarrierLaws (trace Process.step .start es) where
  excludes x hx := by
    obtain ⟨hbefore, -, hafter⟩ := forall_mem_trace step_inv inv_start es x hx
    exact ⟨hbefore.excludes, hafter.excludes⟩
  permits x hx := by
    obtain ⟨hbefore, hstep, -⟩ := forall_mem_trace step_inv inv_start es x hx
    exact effect_permits hbefore (step_effect hstep)
  refused front x mid y back t n hes hpromoter htimedOut hmid hnested := by
    have hmem (z) (hz : z ∈ x :: (mid ++ y :: back)) :=
      forall_mem_trace step_inv inv_start es z (hes ▸ mem_append_right front hz)
    obtain ⟨-, hx, hafter⟩ := hmem x mem_cons_self
    obtain ⟨hbefore, hy, -⟩ :=
      hmem y (mem_cons_of_mem _ (mem_append_right _ mem_cons_self))
    rw [htimedOut] at hx
    have hrefused : Refused t x.after := .of_timedOut (step_effect hx) hpromoter
    obtain ⟨es', hes'⟩ := trace_eq_append hes
    have hstill : Refused t y.before :=
      @lasts _ _ _ _ _ _ _ Inv (Refused t) (fun z => 0 < (z.after.threads t).depth) step_inv
        (fun s e r s' hinv hnow hstep => hnow.effect hinv (step_effect hstep))
        hafter hrefused _ _ hes' hmid
    exact hstill.not_permits hbefore (step_effect hy) hnested
  unowned x hx t outcome hpromoter hr := by
    obtain ⟨-, hstep, -⟩ := forall_mem_trace step_inv inv_start es x hx
    rw [hr] at hstep
    exact effect_unowned (step_effect hstep) hpromoter
  inert x hx t i hevent hguard := by
    obtain ⟨-, hstep, -⟩ := forall_mem_trace step_inv inv_start es x hx
    rw [hevent, Process.step, hguard, Option.ite_none_right_eq_some] at hstep
    have hafter : (x.before.dropPromotionGuard t i false).2 = x.after :=
      congrArg Prod.snd (Option.some.inj hstep.2)
    rw [← hafter]
    exact drop_inert x.before t i

end AgentMail.Recovery
