import AgentMail.Retry.Circuit
import Mathlib.Data.List.Nodup

/-!
# Circuit epochs

Every opening, closing and reset starts a new generation. What a step can do to the circuit is said
once; the laws of a run follow from it.
-/

namespace AgentMail.Retry

open Lib List

/-! ### The laws -/

/-- The reading of the clock that a step takes. -/
def Event.nowUs : Event → Nat
  | .beginAttempt elapsed | .finish _ _ elapsed | .recordFailure elapsed =>
    microsFromDuration elapsed
  | .reset => 0

/-- What the circuit takes note of, and whether it comes from a probe. -/
def noted (x : Entry Circuit Event Response) : Option (Bool × AttemptResult) :=
  match x.event with
  | .finish attempt result _ =>
    if x.before.accepts attempt && (attempt.probe.isSome || result != .abandoned) then
      some (attempt.probe.isSome, result)
    else none
  | .recordFailure _ => some (false, .failure)
  | _ => none

/-- A failure that leaves the circuit open. -/
def Opens (x : Entry Circuit Event Response) : Prop :=
  (∃ probe, noted x = some (probe, .failure)) ∧ x.after.data.openUntilUs.isSome

/-- The circuit leaves half-open for closed. -/
def Closes (x : Entry Circuit Event Response) : Prop :=
  x.event ≠ .reset ∧ x.before.data.openUntilUs.isSome ∧ x.after.data.openUntilUs = none

def Resets (x : Entry Circuit Event Response) : Prop := x.event = .reset

/-- The probes of the current generation that have not finished. -/
def Circuit.probesInFlight (s : Circuit) : List CircuitAttempt :=
  s.inFlight.filter fun a => a.probe.isSome && a.generation == s.data.generation

/-- The laws of a run. -/
structure CircuitLaws (es : List (Entry Circuit Event Response)) : Prop where
  oneProbe : ∀ x ∈ es, x.before.probesInFlight.length ≤ 1 ∧ x.after.probesInFlight.length ≤ 1
  /-- Two probe starts are an interval apart unless the circuit closes or is reset in between. -/
  paced : ∀ front x mid y back a a', es = front ++ x :: (mid ++ y :: back) →
    x.response = .admitted a → a.probe.isSome → y.response = .admitted a' → a'.probe.isSome →
    (∀ z ∈ mid, ¬ Closes z ∧ ¬ Resets z) →
    x.event.nowUs + microsFromDuration halfOpenProbeInterval ≤ y.event.nowUs
  /-- A token that is older than an opening, a closing or a reset changes nothing. -/
  stale : ∀ front x mid y mid' z back a result elapsed,
    es = front ++ x :: (mid ++ y :: (mid' ++ z :: back)) → x.response = .admitted a →
    (Opens y ∨ Closes y ∨ Resets y) → z.event = .finish a result elapsed →
    z.after.data = z.before.data
  /-- A circuit closes after three probe successes in a row since it last opened, with no failure
  and no abandoned probe among them. -/
  closes : ∀ front z back, es = front ++ z :: back → Closes z →
    ∃ front' o mid, front = front' ++ o :: mid ∧ Opens o ∧ (∀ w ∈ mid, ¬ Opens w) ∧
      replicate halfOpenSuccessThreshold (true, .success) <:+ (mid ++ [z]).filterMap noted
  /-- Until it closes or is reset, an open circuit puts its deadline off only, and admits nothing
  before it. -/
  deadline : ∀ front o mid y back, es = front ++ o :: (mid ++ y :: back) → Opens o →
    (∀ z ∈ mid ++ [y], ¬ Closes z ∧ ¬ Resets z) →
    ∃ til til', y.before.data.openUntilUs = some til ∧ y.after.data.openUntilUs = some til' ∧
      til ≤ til' ∧ ∀ a, y.response = .admitted a → til ≤ y.event.nowUs

/-! ### What a result does -/

/-- What the circuit learns from a result; `fresh` is the next generation. -/
inductive Learns (b : CircuitBreaker) (d : CircuitData) (fresh : Nat) :
    AttemptResult → CircuitData → Prop where
  | heals (h : d.openUntilUs = none) : Learns b d fresh .success { d with failures := 0 }
  | late (h : d.openUntilUs.isSome) : Learns b d fresh .success d
  | counts (h : d.openUntilUs.isSome) :
      Learns b d fresh .success { d with halfOpenSuccesses := d.halfOpenSuccesses + 1 }
  | closes (h : d.openUntilUs.isSome)
      (hthree : halfOpenSuccessThreshold ≤ d.halfOpenSuccesses + 1) :
      Learns b d fresh .success (.default fresh)
  | fails (hfew : d.failures + 1 < b.threshold) :
      Learns b d fresh .failure { d with failures := d.failures + 1, halfOpenSuccesses := 0 }
  | opens {failures til : Nat} (hmany : b.threshold ≤ failures)
      (hlater : ∀ old, d.openUntilUs = some old → old ≤ til) :
      Learns b d fresh .failure
        { d with
          failures
          halfOpenSuccesses := 0
          openUntilUs := some til
          generation := fresh
          activeProbe := none }
  | abandons : Learns b d fresh .abandoned { d with halfOpenSuccesses := 0 }

variable {result : AttemptResult} {attempt : CircuitAttempt}

section

variable {b : CircuitBreaker} {d d' : CircuitData} {nowUs fresh : Nat}

theorem state_eq_closed_iff : d.state nowUs = .closed ↔ d.openUntilUs = none := by
  rw [CircuitData.state]
  cases d.openUntilUs with
  | none => simp
  | some til =>
    by_cases hearly : nowUs < til
    · simp [hearly]
    · simp [hearly]

theorem openUntilUs_isSome (h : d.state nowUs ≠ .closed) : d.openUntilUs.isSome := by
  rw [Ne, state_eq_closed_iff] at h
  exact Option.isSome_iff_ne_none.mpr h

theorem learns_recordSuccess : Learns b d fresh .success (d.recordSuccess nowUs fresh) := by
  rw [CircuitData.recordSuccess]
  cases hstate : d.state nowUs with
  | closed => exact .heals (state_eq_closed_iff.mp hstate)
  | «open» =>
    have hopen : d.state nowUs ≠ .closed := by simp [hstate]
    exact .late (openUntilUs_isSome hopen)
  | halfOpen =>
    have hopen : d.state nowUs ≠ .closed := by simp [hstate]
    have hsome := openUntilUs_isSome hopen
    by_cases hthree : halfOpenSuccessThreshold ≤ min (d.halfOpenSuccesses + 1) u32Max
    · simp only [if_pos hthree]
      exact .closes hsome (Nat.le_trans hthree (Nat.min_le_left _ _))
    · simp only [if_neg hthree]
      have hfew : min (d.halfOpenSuccesses + 1) u32Max = d.halfOpenSuccesses + 1 := by
        simp only [halfOpenSuccessThreshold, u32Max] at hthree ⊢
        omega
      rw [hfew]
      exact .counts hsome

theorem learns_recordFailure :
    Learns b d fresh .failure (d.recordFailure nowUs b.threshold b.resetDuration fresh) := by
  rw [CircuitData.recordFailure]
  by_cases hmany : b.threshold ≤ min (d.failures + 1) u32Max
  · simp only [if_pos hmany]
    refine .opens hmany fun old hold => ?_
    rw [hold]
    exact Nat.le_max_left _ _
  · simp only [if_neg hmany]
    have hfits := b.fits
    have hfew : min (d.failures + 1) u32Max = d.failures + 1 := by omega
    rw [hfew] at hmany ⊢
    exact .fails (Nat.lt_of_not_le hmany)

theorem learns_record (hheard : attempt.probe.isSome || result != .abandoned) :
    Learns b d fresh result (b.record d attempt result nowUs fresh) := by
  cases result with
  | success => exact learns_recordSuccess
  | failure => exact learns_recordFailure
  | abandoned =>
    have hprobe : attempt.probe.isSome := by simpa using hheard
    rw [CircuitBreaker.record, if_pos hprobe]
    exact .abandons

/-- A result keeps the generation or starts the next one. -/
theorem Learns.generation (h : Learns b d fresh result d') :
    d'.generation = d.generation ∧ d'.activeProbe = d.activeProbe ∧
      d'.openUntilUs = d.openUntilUs ∨ d'.generation = fresh := by
  cases h with
  | closes => exact .inr rfl
  | opens => exact .inr rfl
  | _ => exact .inl ⟨rfl, rfl, rfl⟩

end

/-! ### What a step does -/

/-- The data that a result of the token is recorded in: a probe has left its slot. -/
def CircuitData.freed (d : CircuitData) (attempt : CircuitAttempt) : CircuitData :=
  if attempt.probe.isSome then { d with activeProbe := none } else d

inductive Effect (b : CircuitBreaker) (s : Circuit) : Event → Response → Circuit → Prop where
  | refuses {elapsed : Nat} (refusal : CircuitRefusal) :
      Effect b s (.beginAttempt elapsed) (.refused refusal) s
  | admits {elapsed : Nat} (hclosed : s.data.openUntilUs = none) :
      Effect b s (.beginAttempt elapsed) (.admitted ⟨s.issued, s.data.generation, none, .closed⟩)
        ⟨{ s.data with activeProbe := none },
          ⟨s.issued, s.data.generation, none, .closed⟩ :: s.inFlight, s.issued + 1⟩
  | probes {elapsed til : Nat} (hopen : s.data.openUntilUs = some til)
      (hlate : til ≤ microsFromDuration elapsed) (hslot : s.data.activeProbe = none)
      (hpaced : ∀ last, s.data.lastProbeUs = some last →
        last + microsFromDuration halfOpenProbeInterval ≤ microsFromDuration elapsed) :
      Effect b s (.beginAttempt elapsed)
        (.admitted ⟨s.issued, s.data.generation, some s.issued, .halfOpen⟩)
        ⟨{ s.data with
            lastProbeUs := some (microsFromDuration elapsed)
            activeProbe := some s.issued },
          ⟨s.issued, s.data.generation, some s.issued, .halfOpen⟩ :: s.inFlight, s.issued + 1⟩
  | ignores {attempt : CircuitAttempt} {result : AttemptResult} {elapsed : Nat}
      (hmem : attempt ∈ s.inFlight)
      (hdeaf : (s.accepts attempt && (attempt.probe.isSome || result != .abandoned)) = false) :
      Effect b s (.finish attempt result elapsed) .done
        { s with inFlight := s.inFlight.erase attempt }
  | learns {attempt : CircuitAttempt} {result : AttemptResult} {elapsed : Nat}
      {data : CircuitData} (hmem : attempt ∈ s.inFlight)
      (hheard : (s.accepts attempt && (attempt.probe.isSome || result != .abandoned)) = true)
      (hlearns : Learns b (s.data.freed attempt) s.issued result data) :
      Effect b s (.finish attempt result elapsed) .done
        ⟨data, s.inFlight.erase attempt, s.issued + 1⟩
  | fails {elapsed : Nat} {data : CircuitData}
      (hlearns : Learns b s.data s.issued .failure data) :
      Effect b s (.recordFailure elapsed) .done ⟨data, s.inFlight, s.issued + 1⟩
  | resets : Effect b s .reset .done s.reset

section

variable {b : CircuitBreaker} {s : Circuit}

theorem deadline_of_halfOpen {d : CircuitData} {nowUs : Nat} (h : d.state nowUs = .halfOpen) :
    ∃ til, d.openUntilUs = some til ∧ til ≤ nowUs := by
  rw [CircuitData.state] at h
  cases hopen : d.openUntilUs with
  | none => simp [hopen] at h
  | some til =>
    by_cases hearly : nowUs < til
    · simp [hopen, hearly] at h
    · exact ⟨til, rfl, Nat.le_of_not_lt hearly⟩

theorem effect_beginAttempt (elapsed : Nat) :
    Effect b s (.beginAttempt elapsed) (s.beginAttempt (microsFromDuration elapsed)).1
      (s.beginAttempt (microsFromDuration elapsed)).2 := by
  rw [Circuit.beginAttempt, admitState]
  cases hstate : s.data.state (microsFromDuration elapsed) with
  | closed => exact .admits (state_eq_closed_iff.mp hstate)
  | «open» => exact .refuses _
  | halfOpen =>
    obtain ⟨til, hopen, hlate⟩ := deadline_of_halfOpen hstate
    by_cases htaken : s.data.activeProbe.isSome
    · simp only [if_pos htaken]
      exact .refuses _
    · simp only [if_neg htaken]
      have hslot : s.data.activeProbe = none := by simpa using htaken
      cases hlast : s.data.lastProbeUs with
      | none => exact .probes hopen hlate hslot (by simp [hlast])
      | some last =>
        by_cases hsoon : microsFromDuration elapsed - last < microsFromDuration halfOpenProbeInterval
        · simp only [if_pos hsoon]
          exact .refuses _
        · simp only [if_neg hsoon]
          refine .probes hopen hlate hslot fun last' hlast' => ?_
          obtain rfl := Option.some.inj (hlast.symm.trans hlast')
          have hinterval : 0 < microsFromDuration halfOpenProbeInterval := by decide
          omega

theorem effect_finish (hmem : attempt ∈ s.inFlight) (result : AttemptResult) (elapsed : Nat) :
    Effect b s (.finish attempt result elapsed) .done
      (b.finish s attempt result (microsFromDuration elapsed)) := by
  by_cases hneutral : result = .abandoned ∧ attempt.probe = none
  · have hdone : b.finish s attempt result (microsFromDuration elapsed) =
        { s with inFlight := s.inFlight.erase attempt } := if_pos hneutral
    rw [hdone]
    exact .ignores hmem (by simp [hneutral])
  · have hdone : b.finish s attempt result (microsFromDuration elapsed) =
        b.finishAttempt { s with inFlight := s.inFlight.erase attempt } attempt result
          (microsFromDuration elapsed) := if_neg hneutral
    have hheard : (attempt.probe.isSome || result != .abandoned) = true := by
      cases hprobe : attempt.probe with
      | none => simpa [hprobe] using hneutral
      | some probe => rfl
    rw [hdone, CircuitBreaker.finishAttempt]
    have hsame : Circuit.accepts { s with inFlight := s.inFlight.erase attempt } attempt =
        s.accepts attempt := rfl
    rw [hsame]
    by_cases haccepts : s.accepts attempt
    · rw [if_pos haccepts]
      exact .learns hmem (by rw [haccepts, hheard]; rfl) (learns_record hheard)
    · rw [if_neg haccepts]
      exact .ignores hmem (by simp [haccepts])

/-- Everything that a step of the circuit can do. -/
theorem step_effect {e : Event} {r : Response} {s' : Circuit} (h : b.step s e = some (r, s')) :
    Effect b s e r s' := by
  cases e with
  | beginAttempt elapsed =>
    have hdone := effect_beginAttempt (b := b) (s := s) elapsed
    rw [show s.beginAttempt (microsFromDuration elapsed) = (r, s') from Option.some.inj h] at hdone
    exact hdone
  | finish attempt result elapsed =>
    rw [CircuitBreaker.step, Option.ite_none_right_eq_some] at h
    obtain ⟨hmem, hdone⟩ := h
    cases hdone
    exact effect_finish hmem result elapsed
  | recordFailure elapsed =>
    cases h
    exact .fails learns_recordFailure
  | reset =>
    cases h
    exact .resets

end

/-! ### The invariant -/

structure Inv (b : CircuitBreaker) (s : Circuit) : Prop where
  issued : s.data.generation < s.issued
  ids : ∀ a ∈ s.inFlight, a.id < s.issued
  distinct : (s.inFlight.map (·.id)).Nodup
  older : ∀ a ∈ s.inFlight, a.generation ≤ s.data.generation
  /-- A probe of the current generation has the slot. -/
  slot : ∀ a ∈ s.inFlight, a.generation = s.data.generation → a.probe.isSome →
    a.probe = some a.id ∧ s.data.activeProbe = some a.id
  /-- While the circuit is open, the tokens of its generation are probes. -/
  probes : ∀ a ∈ s.inFlight, a.generation = s.data.generation →
    a.probe.isSome = s.data.openUntilUs.isSome
  tripped : s.data.openUntilUs.isSome → b.threshold ≤ s.data.failures

theorem inv_start (b : CircuitBreaker) : Inv b .start where
  issued := Nat.zero_lt_one
  ids _ h := by cases h
  distinct := .nil
  older _ h := by cases h
  slot _ h := by cases h
  probes _ h := by cases h
  tripped h := by cases h

namespace Inv

variable {b : CircuitBreaker} {s : Circuit}

section

variable (h : Inv b s)
include h

theorem eq_of_id {a a' : CircuitAttempt} (ha : a ∈ s.inFlight)
    (ha' : a' ∈ s.inFlight) (hid : a.id = a'.id) : a = a' :=
  inj_on_of_nodup_map h.distinct ha ha' hid

theorem probesInFlight_le : s.probesInFlight.length ≤ 1 := by
  have hdistinct : (s.probesInFlight.map (·.id)).Nodup :=
    h.distinct.sublist (filter_sublist.map _)
  have hall : ∀ id ∈ s.probesInFlight.map (·.id), some id = s.data.activeProbe := by
    rw [forall_mem_map]
    intro a ha
    rw [Circuit.probesInFlight, mem_filter, Bool.and_eq_true, beq_iff_eq] at ha
    exact (h.slot a ha.1 ha.2.2 ha.2.1).2.symm
  rw [← length_map (·.id)]
  cases hids : s.probesInFlight.map (·.id) with
  | nil => simp
  | cons id rest =>
    cases rest with
    | nil => simp
    | cons id' rest =>
      rw [hids] at hall hdistinct
      have heq := (hall id (by simp)).trans (hall id' (by simp)).symm
      simp [Option.some.inj heq] at hdistinct

theorem erase (attempt : CircuitAttempt) :
    Inv b { s with inFlight := s.inFlight.erase attempt } where
  issued := h.issued
  ids a ha := h.ids a (mem_of_mem_erase ha)
  distinct := h.distinct.sublist (erase_sublist.map _)
  older a ha := h.older a (mem_of_mem_erase ha)
  slot a ha := h.slot a (mem_of_mem_erase ha)
  probes a ha := h.probes a (mem_of_mem_erase ha)
  tripped := h.tripped

/-- A probe that leaves its slot was the only one. -/
theorem free (hmem : attempt ∈ s.inFlight) (haccepts : s.accepts attempt) :
    Inv b ⟨s.data.freed attempt, s.inFlight.erase attempt, s.issued⟩ := by
  rw [Circuit.accepts, Bool.and_eq_true, beq_iff_eq] at haccepts
  by_cases hprobe : attempt.probe.isSome
  · have hown := h.slot attempt hmem haccepts.1 hprobe
    have herased := h.erase attempt
    rw [CircuitData.freed, if_pos hprobe]
    refine ⟨herased.issued, herased.ids, herased.distinct, herased.older, ?_, herased.probes,
      herased.tripped⟩
    intro a ha hgeneration ha'
    have hsame := h.slot a (mem_of_mem_erase ha) hgeneration ha'
    have hid : a.id = attempt.id := Option.some.inj (hsame.2.symm.trans hown.2)
    have heq := h.eq_of_id (mem_of_mem_erase ha) hmem hid
    rw [heq] at ha
    exact absurd ha (List.Nodup.not_mem_erase (List.Nodup.of_map _ h.distinct))
  · rw [CircuitData.freed, if_neg hprobe]
    exact h.erase attempt

/-- A new generation leaves every token behind. -/
theorem renew {data : CircuitData} (hfresh : data.generation = s.issued)
    (htripped : data.openUntilUs.isSome → b.threshold ≤ data.failures) :
    Inv b ⟨data, s.inFlight, s.issued + 1⟩ := by
  have hbefore (a) (ha : a ∈ s.inFlight) : a.generation < data.generation := by
    rw [hfresh]
    exact Nat.lt_of_le_of_lt (h.older a ha) h.issued
  refine ⟨?_, fun a ha => Nat.lt_succ_of_lt (h.ids a ha), h.distinct,
    fun a ha => Nat.le_of_lt (hbefore a ha), ?_, ?_, htripped⟩
  · show data.generation < s.issued + 1
    rw [hfresh]
    exact Nat.lt_succ_self _
  · exact fun a ha hgeneration => absurd hgeneration (Nat.ne_of_lt (hbefore a ha))
  · exact fun a ha hgeneration => absurd hgeneration (Nat.ne_of_lt (hbefore a ha))

theorem learn {data : CircuitData} (hlearns : Learns b s.data s.issued result data) :
    Inv b ⟨data, s.inFlight, s.issued + 1⟩ := by
  have htripped : data.openUntilUs.isSome → b.threshold ≤ data.failures := by
    cases hlearns with
    | heals hclosed => simp [hclosed]
    | closes => simp [CircuitData.default]
    | fails => exact fun hopen => Nat.le_succ_of_le (h.tripped hopen)
    | opens hmany => exact fun _ => hmany
    | _ => exact h.tripped
  rcases hlearns.generation with ⟨hgeneration, hslot, hopen⟩ | hfresh
  · refine ⟨?_, fun a ha => Nat.lt_succ_of_lt (h.ids a ha), h.distinct, ?_, ?_, ?_, htripped⟩
    · show data.generation < s.issued + 1
      rw [hgeneration]
      exact Nat.lt_succ_of_lt h.issued
    · rw [hgeneration]
      exact h.older
    · rw [hgeneration, hslot]
      exact h.slot
    · rw [hgeneration, hopen]
      exact h.probes
  · exact h.renew hfresh htripped

theorem inFlight {data : CircuitData} {probe : Option Nat} {state : CircuitState}
    (hgeneration : data.generation = s.data.generation)
    (hopen : data.openUntilUs = s.data.openUntilUs) (hfailures : data.failures = s.data.failures)
    (hprobe : probe = if s.data.openUntilUs.isSome then some s.issued else none)
    (hslot : data.activeProbe = probe) (hfree : s.data.activeProbe = none ∨ probe = none) :
    Inv b ⟨data, ⟨s.issued, s.data.generation, probe, state⟩ :: s.inFlight, s.issued + 1⟩ where
  issued := by
    show data.generation < s.issued + 1
    rw [hgeneration]
    exact Nat.lt_succ_of_lt h.issued
  ids a ha := by
    rcases mem_cons.mp ha with rfl | ha
    · exact Nat.lt_succ_self _
    · exact Nat.lt_succ_of_lt (h.ids a ha)
  distinct := by
    rw [map_cons, nodup_cons]
    refine ⟨fun hmem => ?_, h.distinct⟩
    obtain ⟨a, ha, hid⟩ := mem_map.mp hmem
    exact absurd hid (Nat.ne_of_lt (h.ids a ha))
  older a ha := by
    show a.generation ≤ data.generation
    rw [hgeneration]
    rcases mem_cons.mp ha with rfl | ha
    · exact Nat.le_refl _
    · exact h.older a ha
  slot a ha hcurrent hisprobe := by
    replace hcurrent : a.generation = s.data.generation := hcurrent.trans hgeneration
    rcases mem_cons.mp ha with rfl | ha
    · by_cases hsome : s.data.openUntilUs.isSome
      · rw [if_pos hsome] at hprobe
        exact ⟨hprobe, hslot.trans hprobe⟩
      · rw [if_neg hsome] at hprobe
        simp [hprobe] at hisprobe
    · -- the slot is free, so no probe of this generation is in flight
      exfalso
      have hown := (h.slot a ha hcurrent hisprobe).2
      rcases hfree with hfree | hfree
      · rw [hfree] at hown
        cases hown
      · have hsome := h.probes a ha hcurrent
        rw [hisprobe] at hsome
        rw [hfree, if_pos hsome.symm] at hprobe
        cases hprobe
  probes a ha hcurrent := by
    show _ = data.openUntilUs.isSome
    rw [hopen]
    rcases mem_cons.mp ha with rfl | ha
    · by_cases hsome : s.data.openUntilUs.isSome
      · simp [hprobe, hsome]
      · simp [hprobe, hsome]
    · exact h.probes a ha (hcurrent.trans hgeneration)
  tripped := by
    show data.openUntilUs.isSome → b.threshold ≤ data.failures
    rw [hopen, hfailures]
    exact h.tripped

end

end Inv

variable {b : CircuitBreaker}

theorem effect_inv {s s' : Circuit} {e : Event} {r : Response} (h : Inv b s)
    (he : Effect b s e r s') : Inv b s' := by
  cases he with
  | refuses => exact h
  | admits hclosed => exact h.inFlight rfl rfl rfl (by simp [hclosed]) rfl (.inr rfl)
  | probes hopen _ hslot => exact h.inFlight rfl rfl rfl (by simp [hopen]) rfl (.inl hslot)
  | ignores => exact h.erase _
  | learns hmem hheard hlearns =>
    rw [Bool.and_eq_true] at hheard
    exact (h.free hmem hheard.1).learn hlearns
  | fails hlearns => exact h.learn hlearns
  | resets => exact h.renew rfl (by simp [CircuitData.default])

theorem step_inv (s : Circuit) (e : Event) (r : Response) (s' : Circuit) (h : Inv b s)
    (he : b.step s e = some (r, s')) : Inv b s' := effect_inv h (step_effect he)

/-! ### Deadlines and probe starts -/

section

variable {b : CircuitBreaker} {s s' : Circuit} {d d' : CircuitData} {e : Event} {r : Response}
  {fresh : Nat} {result : AttemptResult}

theorem freed_openUntilUs (attempt : CircuitAttempt) :
    (d.freed attempt).openUntilUs = d.openUntilUs := by
  rw [CircuitData.freed]
  split <;> rfl

theorem freed_failures (attempt : CircuitAttempt) : (d.freed attempt).failures = d.failures := by
  rw [CircuitData.freed]
  split <;> rfl

theorem freed_halfOpenSuccesses (attempt : CircuitAttempt) :
    (d.freed attempt).halfOpenSuccesses = d.halfOpenSuccesses := by
  rw [CircuitData.freed]
  split <;> rfl

theorem freed_lastProbeUs (attempt : CircuitAttempt) :
    (d.freed attempt).lastProbeUs = d.lastProbeUs := by
  rw [CircuitData.freed]
  split <;> rfl

theorem freed_generation (attempt : CircuitAttempt) :
    (d.freed attempt).generation = d.generation := by
  rw [CircuitData.freed]
  split <;> rfl

/-- A result that does not close the circuit keeps the last probe start and puts a deadline off
only. -/
theorem Learns.keeps (h : Learns b d fresh result d') :
    (d'.lastProbeUs = d.lastProbeUs ∧
      ∀ til, d.openUntilUs = some til → ∃ til', d'.openUntilUs = some til' ∧ til ≤ til') ∨
    result = .success ∧ d.openUntilUs.isSome ∧ d'.openUntilUs = none := by
  cases h with
  | closes h => exact .inr ⟨rfl, h, rfl⟩
  | opens _ hlater => exact .inl ⟨rfl, fun til htil => ⟨_, rfl, hlater til htil⟩⟩
  | _ => exact .inl ⟨rfl, fun til htil => ⟨til, htil, Nat.le_refl til⟩⟩

/-- What a step does to the deadline and to the last probe start. -/
theorem effect_keeps (h : Effect b s e r s')
    (hstill : ¬ Closes ⟨s, e, r, s'⟩ ∧ ¬ Resets ⟨s, e, r, s'⟩) :
    (s'.data.lastProbeUs = s.data.lastProbeUs ∨ s'.data.lastProbeUs = some e.nowUs ∧
      ∀ last, s.data.lastProbeUs = some last →
        last + microsFromDuration halfOpenProbeInterval ≤ e.nowUs) ∧
    ∀ til, s.data.openUntilUs = some til → ∃ til', s'.data.openUntilUs = some til' ∧ til ≤ til' := by
  cases h with
  | refuses => exact ⟨.inl rfl, fun til htil => ⟨til, htil, Nat.le_refl til⟩⟩
  | admits => exact ⟨.inl rfl, fun til htil => ⟨til, htil, Nat.le_refl til⟩⟩
  | probes _ _ _ hpaced =>
    exact ⟨.inr ⟨rfl, hpaced⟩, fun til htil => ⟨til, htil, Nat.le_refl til⟩⟩
  | ignores => exact ⟨.inl rfl, fun til htil => ⟨til, htil, Nat.le_refl til⟩⟩
  | @learns attempt result elapsed data _ _ hlearns =>
    have hkeeps := hlearns.keeps
    rw [freed_lastProbeUs, freed_openUntilUs] at hkeeps
    rcases hkeeps with hkeeps | hcloses
    · exact ⟨.inl hkeeps.1, hkeeps.2⟩
    · exact absurd ⟨nofun, hcloses.2⟩ hstill.1
  | fails hlearns =>
    rcases hlearns.keeps with hkeeps | hcloses
    · exact ⟨.inl hkeeps.1, hkeeps.2⟩
    · cases hcloses.1
  | resets => exact absurd rfl hstill.2

/-- A probe that is admitted is the last one that started. -/
theorem effect_admitted {a : CircuitAttempt} (h : Effect b s e (.admitted a) s') :
    a.generation = s.data.generation ∧ s'.data.generation = s.data.generation ∧
      (a.probe.isSome → s'.data.lastProbeUs = some e.nowUs ∧
        ∀ last, s.data.lastProbeUs = some last →
          last + microsFromDuration halfOpenProbeInterval ≤ e.nowUs) ∧
      ∀ til, s.data.openUntilUs = some til → til ≤ e.nowUs := by
  cases h with
  | admits hclosed => exact ⟨rfl, rfl, by simp, by simp [hclosed]⟩
  | probes hopen hlate _ hpaced =>
    refine ⟨rfl, rfl, fun _ => ⟨rfl, hpaced⟩, fun til htil => ?_⟩
    obtain rfl := Option.some.inj (hopen.symm.trans htil)
    exact hlate

end

/-! ### Generations -/

section

variable {b : CircuitBreaker} {s s' : Circuit} {e : Event} {r : Response}

theorem effect_generation (hinv : Inv b s) (h : Effect b s e r s') :
    s.data.generation ≤ s'.data.generation := by
  have hissued := Nat.le_of_lt hinv.issued
  cases h with
  | @learns attempt result elapsed data _ _ hlearns =>
    rcases hlearns.generation with hsame | hfresh
    · rw [freed_generation] at hsame
      exact Nat.le_of_eq hsame.1.symm
    · exact Nat.le_trans hissued (Nat.le_of_eq hfresh.symm)
  | fails hlearns =>
    rcases hlearns.generation with hsame | hfresh
    · exact Nat.le_of_eq hsame.1.symm
    · exact Nat.le_trans hissued (Nat.le_of_eq hfresh.symm)
  | resets => exact hissued
  | _ => exact Nat.le_refl _

theorem noted_finish {elapsed : Nat} :
    noted ⟨s, .finish attempt result elapsed, r, s'⟩ =
      if s.accepts attempt && (attempt.probe.isSome || result != .abandoned) then
        some (attempt.probe.isSome, result)
      else none := rfl

/-- Every opening starts a generation, and so do every closing and every reset. -/
theorem effect_renews (hinv : Inv b s) (h : Effect b s e r s')
    (hrenews : Opens ⟨s, e, r, s'⟩ ∨ Closes ⟨s, e, r, s'⟩ ∨ Resets ⟨s, e, r, s'⟩) :
    s'.data.generation = s.issued := by
  have hlearned {d data : CircuitData} {result : AttemptResult}
      (hlearns : Learns b d s.issued result data) (hopen : d.openUntilUs = s.data.openUntilUs)
      (hfailures : d.failures = s.data.failures)
      (hdone : result = .failure ∧ data.openUntilUs.isSome ∨
        s.data.openUntilUs.isSome ∧ data.openUntilUs = none) : data.generation = s.issued := by
    have htripped := hinv.tripped
    rw [← hopen, ← hfailures] at htripped
    rw [← hopen] at hdone
    cases hlearns with
    | closes => rfl
    | opens => rfl
    | fails hfew =>
      rcases hdone with ⟨-, hsome⟩ | ⟨hsome, hnone⟩
      · have hmany := htripped hsome
        omega
      · simp [show d.openUntilUs = none from hnone] at hsome
    | _ =>
      rcases hdone with ⟨hfailure, -⟩ | ⟨hsome, hnone⟩
      · cases hfailure
      · simp [show d.openUntilUs = none from hnone] at hsome
  rcases hrenews with ⟨⟨probe, hnoted⟩, hopen⟩ | ⟨hevent, hbefore, hafter⟩ | hreset
  · cases h with
    | ignores hmem hdeaf =>
      rw [noted_finish, hdeaf] at hnoted
      cases hnoted
    | learns hmem hheard hlearns =>
      rw [noted_finish, if_pos hheard, Option.some.injEq, Prod.mk.injEq] at hnoted
      exact hlearned hlearns (freed_openUntilUs _) (freed_failures _) (.inl ⟨hnoted.2, hopen⟩)
    | fails hlearns => exact hlearned hlearns rfl rfl (.inl ⟨rfl, hopen⟩)
    | resets => rfl
    | _ => cases hnoted
  · cases h with
    | learns hmem hheard hlearns =>
      exact hlearned hlearns (freed_openUntilUs _) (freed_failures _) (.inr ⟨hbefore, hafter⟩)
    | fails hlearns => exact hlearned hlearns rfl rfl (.inr ⟨hbefore, hafter⟩)
    | resets => rfl
    | _ => simp [show s.data.openUntilUs = none from hafter] at hbefore
  · cases h with
    | resets => rfl
    | _ => cases hreset

/-- A token of an older generation is not heard. -/
theorem effect_stale {elapsed : Nat} (hold : attempt.generation < s.data.generation)
    (h : Effect b s (.finish attempt result elapsed) r s') : s'.data = s.data := by
  cases h with
  | ignores => rfl
  | learns hmem hheard =>
    rw [Bool.and_eq_true, Circuit.accepts, Bool.and_eq_true, beq_iff_eq] at hheard
    exact absurd hheard.1.1 (Nat.ne_of_lt hold)

end

/-! ### Success in a row -/

/-- Since the circuit last opened, the last `k` things it took note of are successes of probes. -/
def Streak (past : List (Entry Circuit Event Response)) (k : Nat) : Prop :=
  ∃ front o mid, past = front ++ o :: mid ∧ Opens o ∧ (∀ w ∈ mid, ¬ Opens w) ∧
    replicate k (true, .success) <:+ mid.filterMap noted

namespace Streak

variable {past : List (Entry Circuit Event Response)} {x : Entry Circuit Event Response} {k : Nat}

theorem opens (h : Opens x) : Streak (past ++ [x]) 0 :=
  ⟨past, x, [], rfl, h, by simp, suffix_refl []⟩

/-- What is not an opening extends the part that follows the last one. -/
theorem extend (h : Streak past k) (hx : ¬ Opens x) {k' : Nat}
    (hsuffix : ∀ notes, replicate k (true, AttemptResult.success) <:+ notes →
      replicate k' (true, .success) <:+ notes ++ [x].filterMap noted) :
    Streak (past ++ [x]) k' := by
  obtain ⟨front, o, mid, rfl, hopens, hmid, hstreak⟩ := h
  refine ⟨front, o, mid ++ [x], by simp, hopens, ?_, ?_⟩
  · rw [forall_mem_append, forall_mem_singleton]
    exact ⟨hmid, hx⟩
  · rw [filterMap_append]
    exact hsuffix _ hstreak

theorem silent (h : Streak past k) (hx : noted x = none) : Streak (past ++ [x]) k := by
  refine h.extend (fun hopens => ?_) fun notes hnotes => ?_
  · obtain ⟨⟨probe, hnoted⟩, -⟩ := hopens
    rw [hx] at hnoted
    cases hnoted
  · rw [filterMap_cons_none hx, filterMap_nil, append_nil]
    exact hnotes

theorem success (h : Streak past k) (hx : noted x = some (true, .success)) :
    Streak (past ++ [x]) (k + 1) := by
  refine h.extend (fun hopens => ?_) fun notes hnotes => ?_
  · obtain ⟨⟨probe, hnoted⟩, -⟩ := hopens
    rw [hx] at hnoted
    cases hnoted
  · obtain ⟨before, rfl⟩ := hnotes
    rw [filterMap_cons_some hx, filterMap_nil, append_assoc, ← replicate_succ']
    exact suffix_append _ _

theorem lost (h : Streak past k) (hx : ¬ Opens x) : Streak (past ++ [x]) 0 :=
  h.extend hx fun _ _ => nil_suffix

end Streak

/-- While the circuit is open, its count of successes is no more than there are in a row. -/
def Counted (past : List (Entry Circuit Event Response)) (s : Circuit) : Prop :=
  s.data.openUntilUs.isSome → ∃ k, s.data.halfOpenSuccesses ≤ k ∧ Streak past k

theorem counted_learn {past : List (Entry Circuit Event Response)}
    {x : Entry Circuit Event Response} {d : CircuitData} {fresh : Nat} {probe : Bool}
    (h : Counted past x.before) (hlearns : Learns b d fresh result x.after.data)
    (hopen : d.openUntilUs = x.before.data.openUntilUs)
    (hcount : d.halfOpenSuccesses = x.before.data.halfOpenSuccesses)
    (hnoted : noted x = some (probe, result))
    (hprobe : result = .success → x.before.data.openUntilUs.isSome → probe = true) :
    Counted (past ++ [x]) x.after := by
  intro hafter
  rw [Counted, ← hopen, ← hcount] at h
  rw [← hopen] at hprobe
  have hfailed (hfailure : result = .failure) : Streak (past ++ [x]) 0 := by
    rw [hfailure] at hnoted
    exact .opens ⟨⟨probe, hnoted⟩, hafter⟩
  generalize x.after.data = data at hlearns hafter ⊢
  cases hlearns with
  | heals hclosed => simp [hclosed] at hafter
  | late hsome =>
    obtain ⟨k, hk, hstreak⟩ := h hsome
    rw [hprobe rfl hsome] at hnoted
    exact ⟨k + 1, Nat.le_succ_of_le hk, hstreak.success hnoted⟩
  | counts hsome =>
    obtain ⟨k, hk, hstreak⟩ := h hsome
    rw [hprobe rfl hsome] at hnoted
    exact ⟨k + 1, Nat.succ_le_succ hk, hstreak.success hnoted⟩
  | closes => cases hafter
  | fails => exact ⟨0, Nat.le_refl 0, hfailed rfl⟩
  | opens => exact ⟨0, Nat.le_refl 0, hfailed rfl⟩
  | abandons =>
    obtain ⟨k, hk, hstreak⟩ := h hafter
    refine ⟨0, Nat.le_refl 0, hstreak.lost fun hopens => ?_⟩
    obtain ⟨⟨probe, hfailure⟩, -⟩ := hopens
    rw [hnoted] at hfailure
    cases hfailure

/-- While the circuit is open, the tokens that it hears are probes. -/
theorem Inv.probe_of_heard {s : Circuit} (h : Inv b s) {heard : Bool}
    (hmem : attempt ∈ s.inFlight) (hheard : (s.accepts attempt && heard) = true)
    (hopen : s.data.openUntilUs.isSome) : attempt.probe.isSome = true := by
  rw [Bool.and_eq_true, Circuit.accepts, Bool.and_eq_true, beq_iff_eq] at hheard
  rw [h.probes attempt hmem hheard.1.1]
  exact hopen

theorem counted_step (past : List (Entry Circuit Event Response)) (s : Circuit) (e : Event)
    (r : Response) (s' : Circuit) (hinv : Inv b s) (h : Counted past s)
    (he : b.step s e = some (r, s')) : Counted (past ++ [⟨s, e, r, s'⟩]) s' := by
  intro hopen
  have hsilent (hsame : s'.data.openUntilUs = s.data.openUntilUs)
      (hcount : s'.data.halfOpenSuccesses = s.data.halfOpenSuccesses)
      (hnoted : noted ⟨s, e, r, s'⟩ = none) :
      ∃ k, s'.data.halfOpenSuccesses ≤ k ∧ Streak (past ++ [⟨s, e, r, s'⟩]) k := by
    rw [hsame] at hopen
    obtain ⟨k, hk, hstreak⟩ := h hopen
    exact ⟨k, hcount ▸ hk, hstreak.silent hnoted⟩
  cases step_effect he with
  | refuses => exact hsilent rfl rfl rfl
  | admits => exact hsilent rfl rfl rfl
  | probes => exact hsilent rfl rfl rfl
  | ignores hmem hdeaf => exact hsilent rfl rfl (by rw [noted_finish, hdeaf]; rfl)
  | learns hmem hheard hlearns =>
    exact counted_learn (x := ⟨s, _, _, _⟩) h hlearns (freed_openUntilUs _)
      (freed_halfOpenSuccesses _) (noted_finish.trans (if_pos hheard))
      (fun _ => hinv.probe_of_heard hmem hheard) hopen
  | fails hlearns => exact counted_learn (x := ⟨s, _, _, _⟩) h hlearns rfl rfl rfl nofun hopen
  | resets => cases hopen

theorem effect_closes {s s' : Circuit} {e : Event} {r : Response} (hinv : Inv b s)
    (h : Effect b s e r s') (hcloses : Closes ⟨s, e, r, s'⟩) :
    s.data.openUntilUs.isSome ∧ noted ⟨s, e, r, s'⟩ = some (true, .success) ∧
      halfOpenSuccessThreshold ≤ s.data.halfOpenSuccesses + 1 := by
  obtain ⟨hevent, hbefore, hafter⟩ := hcloses
  refine ⟨hbefore, ?_⟩
  cases h with
  | @learns attempt result elapsed data hmem hheard hlearns =>
    rw [noted_finish, if_pos hheard, hinv.probe_of_heard hmem hheard hbefore]
    have hopen := freed_openUntilUs (d := s.data) attempt
    cases hlearns with
    | closes _ hthree =>
      rw [freed_halfOpenSuccesses] at hthree
      exact ⟨rfl, hthree⟩
    | opens => cases hafter
    | _ =>
      rw [← hopen, show (s.data.freed attempt).openUntilUs = none from hafter] at hbefore
      cases hbefore
  | fails hlearns =>
    cases hlearns with
    | fails => simp [show s.data.openUntilUs = none from hafter] at hbefore
    | opens => cases hafter
  | resets => exact absurd rfl hevent
  | _ => simp [show s.data.openUntilUs = none from hafter] at hbefore

/-! ### The laws of a run -/

section

variable {b : CircuitBreaker} {es : List Event} {front mid back : List (Entry Circuit Event Response)}
  {x y : Entry Circuit Event Response}

theorem run_entry (h : trace b.step .start es = front ++ x :: back) :
    Inv b x.before ∧ Effect b x.before x.event x.response x.after ∧ Inv b x.after := by
  have hmem : x ∈ trace b.step .start es := by simp [h]
  obtain ⟨hbefore, hstep, hafter⟩ := forall_mem_trace step_inv (inv_start b) es x hmem
  exact ⟨hbefore, step_effect hstep, hafter⟩

theorem run_later (h : trace b.step .start es = front ++ x :: (mid ++ y :: back)) :
    trace b.step .start es = (front ++ x :: mid) ++ y :: back := by
  rw [h, append_assoc, cons_append]

theorem run_paced {a a' : CircuitAttempt}
    (h : trace b.step .start es = front ++ x :: (mid ++ y :: back))
    (hx : x.response = .admitted a) (ha : a.probe.isSome) (hy : y.response = .admitted a')
    (ha' : a'.probe.isSome) (hmid : ∀ z ∈ mid, ¬ Closes z ∧ ¬ Resets z) :
    x.event.nowUs + microsFromDuration halfOpenProbeInterval ≤ y.event.nowUs := by
  obtain ⟨-, hfirst, hinv⟩ := run_entry h
  obtain ⟨-, hsecond, -⟩ := run_entry (run_later h)
  rw [hx] at hfirst
  rw [hy] at hsecond
  obtain ⟨es', hes'⟩ := trace_eq_append h
  have hstarted : ∃ last, x.after.data.lastProbeUs = some last ∧ x.event.nowUs ≤ last :=
    ⟨_, ((effect_admitted hfirst).2.2.1 ha).1, Nat.le_refl _⟩
  have hlasting (s : Circuit) (e : Event) (r : Response) (s' : Circuit) (_ : Inv b s)
      (hlast : ∃ last, s.data.lastProbeUs = some last ∧ x.event.nowUs ≤ last)
      (he : b.step s e = some (r, s')) (hstill : ¬ Closes ⟨s, e, r, s'⟩ ∧ ¬ Resets ⟨s, e, r, s'⟩) :
      ∃ last, s'.data.lastProbeUs = some last ∧ x.event.nowUs ≤ last := by
    obtain ⟨last, hlast, hle⟩ := hlast
    rcases (effect_keeps (step_effect he) hstill).1 with hsame | ⟨hnew, hpaced⟩
    · exact ⟨last, hsame.trans hlast, hle⟩
    · exact ⟨_, hnew, Nat.le_trans hle (Nat.le_trans (Nat.le_add_right _ _) (hpaced last hlast))⟩
  obtain ⟨last, hlast, hle⟩ := lasts step_inv hlasting hinv hstarted hes' hmid
  have hpaced := ((effect_admitted hsecond).2.2.1 ha').2 last hlast
  omega

/-- A token's generation never comes back. -/
theorem run_stale {mid' : List (Entry Circuit Event Response)} {z : Entry Circuit Event Response}
    {a : CircuitAttempt} {elapsed : Nat}
    (h : trace b.step .start es = front ++ x :: (mid ++ y :: (mid' ++ z :: back)))
    (hx : x.response = .admitted a) (hy : Opens y ∨ Closes y ∨ Resets y)
    (hz : z.event = .finish a result elapsed) : z.after.data = z.before.data := by
  have hmono (n : Nat) (s : Circuit) (e : Event) (r : Response) (s' : Circuit) (hinv : Inv b s)
      (hle : n ≤ s.data.generation) (he : b.step s e = some (r, s')) (_ : True) :
      n ≤ s'.data.generation :=
    Nat.le_trans hle (effect_generation hinv (step_effect he))
  obtain ⟨-, hfirst, hinv⟩ := run_entry h
  obtain ⟨hinvy, hsecond, hinvy'⟩ := run_entry (run_later h)
  obtain ⟨-, hthird, -⟩ := run_entry (run_later (run_later h))
  rw [hx] at hfirst
  rw [hz] at hthird
  obtain ⟨hgeneration, hsame, -⟩ := effect_admitted hfirst
  obtain ⟨es', hes'⟩ := trace_eq_append h
  obtain ⟨es'', hes''⟩ := trace_eq_append (run_later h)
  have holder : a.generation ≤ y.before.data.generation :=
    lasts step_inv (hmono a.generation) hinv (Nat.le_of_eq (hgeneration.trans hsame.symm)) hes'
      fun _ _ => trivial
  have hnewer : a.generation + 1 ≤ y.after.data.generation := by
    rw [effect_renews hinvy hsecond hy]
    exact Nat.lt_of_le_of_lt holder hinvy.issued
  have hstill : a.generation + 1 ≤ z.before.data.generation :=
    lasts step_inv (hmono (a.generation + 1)) hinvy' hnewer hes'' fun _ _ => trivial
  exact effect_stale hstill hthird

theorem run_closes (h : trace b.step .start es = front ++ x :: back) (hx : Closes x) :
    ∃ front' o mid, front = front' ++ o :: mid ∧ Opens o ∧ (∀ w ∈ mid, ¬ Opens w) ∧
      replicate halfOpenSuccessThreshold (true, .success) <:+
        (mid ++ [x]).filterMap noted := by
  have hstart : Counted [] .start := nofun
  have hcounted : Counted front x.before :=
    history step_inv counted_step (inv_start b) hstart h
  obtain ⟨hinv, heffect, -⟩ := run_entry h
  obtain ⟨hopen, hnoted, hthree⟩ := effect_closes hinv heffect hx
  obtain ⟨k, hk, hstreak⟩ := hcounted hopen
  obtain ⟨front', o, mid, rfl, hopens, hmid, before, hbefore⟩ := hstreak
  refine ⟨front', o, mid, rfl, hopens, hmid, ?_⟩
  rw [filterMap_append, ← hbefore, filterMap_cons_some hnoted, filterMap_nil,
    append_assoc, ← replicate_succ']
  have hsplit : k + 1 = (k + 1 - halfOpenSuccessThreshold) + halfOpenSuccessThreshold := by omega
  rw [hsplit, replicate_add, ← append_assoc]
  exact suffix_append _ _

theorem run_deadline (h : trace b.step .start es = front ++ x :: (mid ++ y :: back)) (hx : Opens x)
    (hstill : ∀ z ∈ mid ++ [y], ¬ Closes z ∧ ¬ Resets z) :
    ∃ til til', y.before.data.openUntilUs = some til ∧ y.after.data.openUntilUs = some til' ∧
      til ≤ til' ∧ ∀ a, y.response = .admitted a → til ≤ y.event.nowUs := by
  rw [forall_mem_append, forall_mem_singleton] at hstill
  obtain ⟨-, -, hinv⟩ := run_entry h
  obtain ⟨-, heffect, -⟩ := run_entry (run_later h)
  obtain ⟨es', hes'⟩ := trace_eq_append h
  have hlasting (s : Circuit) (e : Event) (r : Response) (s' : Circuit) (_ : Inv b s)
      (hopen : ∃ til, s.data.openUntilUs = some til) (he : b.step s e = some (r, s'))
      (hstill : ¬ Closes ⟨s, e, r, s'⟩ ∧ ¬ Resets ⟨s, e, r, s'⟩) :
      ∃ til, s'.data.openUntilUs = some til := by
    obtain ⟨til, htil⟩ := hopen
    obtain ⟨til', htil', -⟩ := (effect_keeps (step_effect he) hstill).2 til htil
    exact ⟨til', htil'⟩
  obtain ⟨til, htil⟩ :=
    lasts step_inv hlasting hinv (Option.isSome_iff_exists.mp hx.2) hes' hstill.1
  obtain ⟨til', htil', hle⟩ := (effect_keeps heffect hstill.2).2 til htil
  refine ⟨til, til', htil, htil', hle, fun a ha => ?_⟩
  rw [ha] at heffect
  exact (effect_admitted heffect).2.2.2 til htil

end

/-- Whatever the threshold and the reset duration, and however late results arrive and readings of
the clock are used. -/
theorem circuitLaws (b : CircuitBreaker) (es : List Event) :
    CircuitLaws (trace b.step .start es) where
  oneProbe x hx := by
    obtain ⟨hbefore, -, hafter⟩ := forall_mem_trace step_inv (inv_start b) es x hx
    exact ⟨hbefore.probesInFlight_le, hafter.probesInFlight_le⟩
  paced _ _ _ _ _ _ _ h hx ha hy ha' hmid := run_paced h hx ha hy ha' hmid
  stale _ _ _ _ _ _ _ _ _ _ h hx hy hz := run_stale h hx hy hz
  closes _ _ _ h hz := run_closes h hz
  deadline _ _ _ _ _ h ho hstill := run_deadline h ho hstill

/-! ### A probe that is abandoned -/

/-- The circuit opens, the first probe is dropped and the next three succeed. -/
def abandonedThenThree : List Event :=
  [.recordFailure 0, .beginAttempt 0, .finish ⟨2, 1, some 2, .halfOpen⟩ .abandoned 0,
    .beginAttempt (5 * 10 ^ 9), .finish ⟨4, 1, some 4, .halfOpen⟩ .success (5 * 10 ^ 9),
    .beginAttempt (10 * 10 ^ 9), .finish ⟨6, 1, some 6, .halfOpen⟩ .success (10 * 10 ^ 9),
    .beginAttempt (15 * 10 ^ 9), .finish ⟨8, 1, some 8, .halfOpen⟩ .success (15 * 10 ^ 9)]

/-- An abandoned probe starts the count again; it does not keep the circuit from closing before it
has opened again. -/
theorem closes_after_abandoned :
    ¬ ∀ (b : CircuitBreaker) (es : List Event) front o mid z back,
      trace b.step .start es = front ++ o :: (mid ++ z :: back) → Opens o → Closes z →
      (∀ w ∈ mid, ¬ Opens w) → ∀ w ∈ mid, noted w ≠ some (true, .abandoned) := by
  intro h
  let run := trace (CircuitBreaker.withSubsystem 1 0).step .start abandonedThenThree
  have hquiet : ∀ w ∈ (run.drop 1).take 7, (noted w).map Prod.snd ≠ some .failure := by decide
  have hopened (w) (hw : w ∈ (run.drop 1).take 7) : ¬ Opens w := by
    rintro ⟨⟨probe, hnoted⟩, -⟩
    exact hquiet w hw (by rw [hnoted]; rfl)
  exact h (.withSubsystem 1 0) abandonedThenThree [] (run.get ⟨0, by decide⟩)
    ((run.drop 1).take 7) (run.get ⟨8, by decide⟩) [] rfl ⟨⟨false, rfl⟩, rfl⟩ ⟨nofun, rfl, rfl⟩
    hopened (run.get ⟨2, by decide⟩) (.tail _ (.head _)) rfl

end AgentMail.Retry
