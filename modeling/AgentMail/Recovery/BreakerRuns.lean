import AgentMail.Lib.Trace
import AgentMail.Recovery.RecoveryBreaker

/-!
# Runs of recovery attempts under the breaker

Every attempt asks the stored state, and an admitted one arms it before it does anything. Then its
process dies and may have changed the database, or it fails and leaves the database as it was. The
breaker bounds the attempts over whole runs, across the deaths.
-/

namespace AgentMail.Recovery

open Base Lib List

/-- How an admitted attempt ends. A failure is recorded on the armed state or on the one before. -/
inductive Ending where
  | dies (changed : Fingerprint)
  | fails (fromArmed : Bool) (reason : Text) (failedUnix : I64)

structure Attempt where
  nowUnix : I64
  ending : Ending

structure BreakerWorld where
  stored : Option RecoveryBreakerState
  database : Fingerprint
  clock : I64

structure AttemptResult where
  verdict : BreakerVerdict
  written : List RecoveryBreakerState

def BreakerVerdict.admits : BreakerVerdict → Bool
  | allow => true
  | allowHalfOpen => true
  | refuse .. => false

/-- One attempt, unless the clock would go back. -/
def BreakerWorld.step (config : RecoveryBreakerConfig) (w : BreakerWorld) (a : Attempt) :
    Option (AttemptResult × BreakerWorld) :=
  if w.clock ≤ a.nowUnix then
    let verdict := evaluate w.stored w.database.text config a.nowUnix
    if verdict.admits then
      let armed := recordAttempt w.stored w.database.text config a.nowUnix
      match a.ending with
      | .dies changed => some (⟨verdict, [armed]⟩, ⟨some armed, changed, a.nowUnix⟩)
      | .fails fromArmed reason failedUnix =>
        if a.nowUnix ≤ failedUnix then
          let prev := if fromArmed then some armed else w.stored
          let failed := recordFailure prev w.database.text reason config failedUnix
          some (⟨verdict, [armed, failed]⟩, ⟨some failed, w.database, failedUnix⟩)
        else none
    else some (⟨verdict, []⟩, { w with clock := a.nowUnix })
  else none

abbrev BreakerEntry : Type := Entry BreakerWorld Attempt AttemptResult

/-- No history, or a cleared one. -/
def BreakerWorld.Fresh (w : BreakerWorld) : Prop :=
  0 ≤ w.clock.1 ∧ (w.stored = none ∨ ∃ f : Fingerprint, w.stored = some (clearedState f.text))

/-- From the first verdict that is not a plain admission on, admitted attempts are that many seconds
apart. -/
def Spaced (secs : Int) (run : List BreakerEntry) : Prop :=
  ∀ front x mid y back, run = front ++ x :: (mid ++ y :: back) →
    x.response.verdict.admits = true → y.response.verdict.admits = true →
    (∃ z ∈ front ++ [x], z.response.verdict ≠ .allow) → secs ≤ y.event.nowUnix.1 - x.event.nowUnix.1

structure BreakerLaws (config : RecoveryBreakerConfig) (run : List BreakerEntry) : Prop where
  bounded : ∀ front back, run = front ++ back → (∀ x ∈ front, x.response.verdict = .allow) →
    front.length ≤ config.maxConsecutiveFailures
  spaced : Spaced config.cooldownSecs run
  valid : ∀ x ∈ run, ∀ state ∈ x.response.written, semanticallyValid state = true

/-! ### One attempt -/

/-- The failures that count against the database as it is. -/
def BreakerWorld.lineage (w : BreakerWorld) : Nat :=
  match w.stored with
  | none => 0
  | some state => if state.appliesTo w.database.text then state.consecutiveFailures else 0

structure BreakerInv (config : RecoveryBreakerConfig) (w : BreakerWorld) : Prop where
  tripped : ∀ state, w.stored = some state →
    (state.tripped = true ↔ config.maxConsecutiveFailures ≤ state.consecutiveFailures)
  failed : ∀ state, w.stored = some state → 0 ≤ state.lastFailureUnix.1
  clock : 0 ≤ w.clock.1

section

variable {config : RecoveryBreakerConfig} {w w' : BreakerWorld} {a : Attempt} {r : AttemptResult}

theorem BreakerWorld.lineage_of_applies {state : RecoveryBreakerState} (hstored : w.stored = some state)
    (happlies : state.appliesTo w.database.text = true) :
    w.lineage = state.consecutiveFailures := by
  rw [BreakerWorld.lineage, hstored]
  exact if_pos happlies

theorem count_recordFailure (w : BreakerWorld) (reason : Text) (config : RecoveryBreakerConfig)
    (now : I64) :
    (recordFailure w.stored w.database.text reason config now).consecutiveFailures =
      min (w.lineage + 1) u32Max := by
  have hone : 1 = min (0 + 1) u32Max := by decide
  unfold recordFailure BreakerWorld.lineage
  dsimp only
  cases w.stored with
  | none => exact hone
  | some state =>
    dsimp only
    cases state.appliesTo w.database.text with
    | false => exact hone
    | true => rfl

theorem appliesTo_recordFailure (prev : Option RecoveryBreakerState) (fingerprint reason : Text)
    (config : RecoveryBreakerConfig) (now : I64) :
    (recordFailure prev fingerprint reason config now).appliesTo fingerprint = true := by
  simp [RecoveryBreakerState.appliesTo, recordFailure]

/-- Without a refusal or a probe there is room below the bound. -/
theorem evaluate_eq_allow_iff (h : BreakerInv config w) (hpos : 1 ≤ config.maxConsecutiveFailures)
    (now : I64) : evaluate w.stored w.database.text config now = .allow ↔
      w.lineage < config.maxConsecutiveFailures := by
  have htripped := h.tripped
  have hpos' : 0 < config.maxConsecutiveFailures := hpos
  unfold evaluate BreakerWorld.lineage
  cases hstored : w.stored with
  | none => simpa using hpos'
  | some state =>
    dsimp only
    cases happlies : state.appliesTo w.database.text with
    | false => simpa using hpos'
    | true =>
      by_cases hroom : state.consecutiveFailures < config.maxConsecutiveFailures
      · have hclosed : state.tripped = false := by
          rw [← Bool.not_eq_true, htripped state hstored]
          omega
        simp [hclosed, hroom]
      · have hopen : state.tripped = true := (htripped state hstored).mpr (by omega)
        simp only [Bool.not_true, Bool.false_eq_true, if_false, hopen, Bool.false_and, if_true,
          iff_false_right hroom]
        split
        · nofun
        · nofun

/-- What an admitted attempt leaves: a state that governs the database and counts the attempt. -/
structure Counted (config : RecoveryBreakerConfig) (w : BreakerWorld) (a : Attempt)
    (w' : BreakerWorld) : Prop where
  counts : min (w.lineage + 1) u32Max ≤ w'.lineage
  stored : ∃ state, w'.stored = some state ∧ a.nowUnix.1 ≤ state.lastFailureUnix.1 ∧
    (state.tripped = true ↔ config.maxConsecutiveFailures ≤ state.consecutiveFailures)
  clock : a.nowUnix.1 ≤ w'.clock.1

/-- An attempt is refused and changes nothing but the clock, or it is admitted and counts. -/
theorem step_cases (hstep : w.step config a = some (r, w')) :
    w.clock.1 ≤ a.nowUnix.1 ∧ r.verdict = evaluate w.stored w.database.text config a.nowUnix ∧
      ((r.verdict.admits = false ∧ r.written = [] ∧ w' = { w with clock := a.nowUnix }) ∨
        r.verdict.admits = true ∧ Counted config w a w' ∧
          (0 ≤ a.nowUnix.1 → ∀ state ∈ r.written, semanticallyValid state = true)) := by
  unfold BreakerWorld.step at hstep
  split at hstep
  swap
  · cases hstep
  next hclock =>
  dsimp only at hstep
  split at hstep
  · next hadmits =>
    have harmed : (recordAttempt w.stored w.database.text config a.nowUnix).consecutiveFailures =
        min (w.lineage + 1) u32Max :=
      count_recordFailure w "automatic recovery attempt did not complete".toList config a.nowUnix
    split at hstep
    · next changed hending =>
      cases hstep
      refine ⟨hclock, rfl, .inr ⟨hadmits, ⟨?_, ?_, Int.le_refl _⟩, ?_⟩⟩
      · rw [← harmed]
        exact (BreakerWorld.lineage_of_applies rfl rfl).ge
      · exact ⟨_, rfl, Int.le_refl _, by simp [recordAttempt, recordFailure]⟩
      · intro hnow state hstate
        rw [mem_singleton.mp hstate]
        exact semanticallyValid_recordAttempt w.database hnow
    · next fromArmed reason failedUnix hending =>
      split at hstep
      swap
      · cases hstep
      next hlater =>
      cases hstep
      refine ⟨hclock, rfl, .inr ⟨hadmits, ⟨?_, ?_, hlater⟩, ?_⟩⟩
      · let prev := if fromArmed then some (recordAttempt w.stored w.database.text config a.nowUnix)
          else w.stored
        have hgoverns := appliesTo_recordFailure prev w.database.text reason config failedUnix
        refine Nat.le_trans ?_ (BreakerWorld.lineage_of_applies (w := ⟨_, w.database, failedUnix⟩) rfl
          hgoverns).ge
        cases fromArmed with
        | false => exact (count_recordFailure w reason config failedUnix).ge
        | true =>
          -- An attempt that fails is counted a second time on the armed state.
          show _ ≤ min ((recordAttempt w.stored w.database.text config
            a.nowUnix).consecutiveFailures + 1) u32Max
          omega
      · exact ⟨_, rfl, hlater, by simp [recordFailure]⟩
      · intro hnow state hstate
        rw [mem_pair] at hstate
        rcases hstate with rfl | rfl
        · exact semanticallyValid_recordAttempt w.database hnow
        · exact semanticallyValid_recordFailure w.database reason (Int.le_trans hnow hlater)
  · next hrefused =>
    cases hstep
    exact ⟨hclock, rfl, .inl ⟨Bool.eq_false_iff.mpr hrefused, rfl, rfl⟩⟩

theorem BreakerInv.step (h : BreakerInv config w) (hstep : w.step config a = some (r, w')) :
    BreakerInv config w' := by
  obtain ⟨hclock, -, hcases⟩ := step_cases hstep
  have hnow : 0 ≤ a.nowUnix.1 := Int.le_trans h.clock hclock
  rcases hcases with ⟨-, -, rfl⟩ | ⟨-, hcounted, -⟩
  · exact ⟨h.tripped, h.failed, hnow⟩
  · obtain ⟨state, hstored, hfailed, htripped⟩ := hcounted.stored
    refine ⟨?_, ?_, Int.le_trans hnow hcounted.clock⟩
    · intro state' hstate'
      rw [hstored] at hstate'
      cases hstate'
      exact htripped
    · intro state' hstate'
      rw [hstored] at hstate'
      cases hstate'
      exact Int.le_trans hnow hfailed

theorem BreakerWorld.Fresh.inv (h : w.Fresh) (hpos : 1 ≤ config.maxConsecutiveFailures) :
    BreakerInv config w := by
  have hcleared (state : RecoveryBreakerState) (hstate : w.stored = some state) :
      ∃ f : Fingerprint, state = clearedState f.text := by
    rcases h.2 with hnone | ⟨f, hcleared⟩
    · rw [hnone] at hstate
      cases hstate
    · exact ⟨f, Option.some.inj (hstate.symm.trans hcleared)⟩
  refine ⟨?_, ?_, h.1⟩
  · intro state hstate
    obtain ⟨f, rfl⟩ := hcleared state hstate
    exact iff_of_false Bool.false_ne_true (Nat.not_le.mpr hpos)
  · intro state hstate
    obtain ⟨f, rfl⟩ := hcleared state hstate
    exact Int.le_refl 0

theorem lineage_step (hstep : w.step config a = some (r, w')) :
    min w.lineage u32Max ≤ w'.lineage := by
  obtain ⟨-, -, hcases⟩ := step_cases hstep
  rcases hcases with ⟨-, -, rfl⟩ | ⟨-, hcounted, -⟩
  · exact Nat.min_le_left ..
  · have := hcounted.counts
    omega

end

/-! ### Runs -/

section

variable {config : RecoveryBreakerConfig} {w : BreakerWorld} {es : List Attempt}

/-- What has happened, and the state. -/
structure Related (config : RecoveryBreakerConfig) (past : List BreakerEntry) (w : BreakerWorld) :
    Prop where
  counts : min (past.countP (·.response.verdict.admits)) u32Max ≤ w.lineage
  full : (∃ z ∈ past, z.response.verdict ≠ .allow) → config.maxConsecutiveFailures ≤ w.lineage

theorem Related.step {past : List BreakerEntry} {w' : BreakerWorld} {a : Attempt}
    {r : AttemptResult} (hpos : 1 ≤ config.maxConsecutiveFailures) (hinv : BreakerInv config w)
    (h : Related config past w) (hstep : w.step config a = some (r, w')) :
    Related config (past ++ [⟨w, a, r, w'⟩]) w' := by
  obtain ⟨-, hverdict, hcases⟩ := step_cases hstep
  have hlonger := lineage_step hstep
  have hmax := config.max_le
  refine ⟨?_, ?_⟩
  · have hcounts := h.counts
    rw [countP_append, countP_singleton]
    rcases hcases with ⟨hadmits, -, rfl⟩ | ⟨hadmits, hcounted, -⟩
    · rw [hadmits, if_neg Bool.false_ne_true]
      exact hcounts
    · have hcounted' := hcounted.counts
      rw [hadmits, if_pos rfl]
      omega
  · rintro ⟨z, hz, hne⟩
    have hfull : config.maxConsecutiveFailures ≤ w.lineage := by
      rcases mem_append.mp hz with hz | hz
      · exact h.full ⟨z, hz, hne⟩
      · rw [mem_singleton.mp hz] at hne
        dsimp only at hne
        rw [hverdict, Ne, evaluate_eq_allow_iff hinv hpos] at hne
        exact Nat.not_lt.mp hne
    omega

theorem run_related (hpos : 1 ≤ config.maxConsecutiveFailures) (hfresh : w.Fresh)
    {front back : List BreakerEntry} {x : BreakerEntry}
    (hrun : trace (BreakerWorld.step config) w es = front ++ x :: back) :
    Related config front x.before := by
  have hkeeps (s : BreakerWorld) (e : Attempt) (r : AttemptResult) (s' : BreakerWorld)
      (hs : BreakerInv config s) (he : s.step config e = some (r, s')) : BreakerInv config s' :=
    hs.step he
  have hstart : Related config [] w := by
    refine ⟨Nat.zero_le _, ?_⟩
    rintro ⟨z, hz, -⟩
    exact absurd hz not_mem_nil
  exact history hkeeps (fun past s e r s' => Related.step hpos) (hfresh.inv hpos) hstart hrun

theorem run_inv (es : List Attempt) (hpos : 1 ≤ config.maxConsecutiveFailures) (hfresh : w.Fresh) :
    ∀ x ∈ trace (BreakerWorld.step config) w es, BreakerInv config x.before ∧
      x.before.step config x.event = some (x.response, x.after) ∧ BreakerInv config x.after := by
  have hkeeps (s : BreakerWorld) (e : Attempt) (r : AttemptResult) (s' : BreakerWorld)
      (hs : BreakerInv config s) (he : s.step config e = some (r, s')) : BreakerInv config s' :=
    hs.step he
  exact forall_mem_trace hkeeps (hfresh.inv hpos) es

theorem run_bounded (hpos : 1 ≤ config.maxConsecutiveFailures) (hfresh : w.Fresh)
    {front back : List BreakerEntry} (hrun : trace (BreakerWorld.step config) w es = front ++ back)
    (hallow : ∀ x ∈ front, x.response.verdict = .allow) :
    front.length ≤ config.maxConsecutiveFailures := by
  by_contra hlong
  -- The attempt after as many as the bound allows.
  obtain ⟨x, late, hlate⟩ := exists_cons_of_ne_nil (l := front.drop config.maxConsecutiveFailures)
    (by simp; omega)
  have hsplit : front = front.take config.maxConsecutiveFailures ++ x :: late := by
    rw [← hlate, take_append_drop]
  have hx : x ∈ front := by
    rw [hsplit]
    simp
  rw [hsplit, append_assoc, cons_append] at hrun
  have hcounts := (run_related hpos hfresh hrun).counts
  have hall : (front.take config.maxConsecutiveFailures).countP (·.response.verdict.admits) =
      (front.take config.maxConsecutiveFailures).length := by
    rw [countP_eq_length]
    intro y hy
    rw [hallow y (mem_of_mem_take hy)]
    rfl
  have hmax := config.max_le
  rw [hall, length_take] at hcounts
  have hxs := run_inv es hpos hfresh x (by rw [hrun]; simp)
  obtain ⟨-, hverdict, -⟩ := step_cases hxs.2.1
  rw [hallow x hx, eq_comm, evaluate_eq_allow_iff hxs.1 hpos] at hverdict
  omega

/-- The bound is reached, and the last failure is not before `t`. -/
structure Waiting (config : RecoveryBreakerConfig) (t : Int) (w : BreakerWorld) : Prop where
  full : config.maxConsecutiveFailures ≤ w.lineage
  failed : ∃ state, w.stored = some state ∧ t ≤ state.lastFailureUnix.1
  clock : t ≤ w.clock.1

theorem Waiting.step {t : Int} {w' : BreakerWorld} {a : Attempt} {r : AttemptResult}
    (h : Waiting config t w) (hstep : w.step config a = some (r, w')) : Waiting config t w' := by
  obtain ⟨hclock, -, hcases⟩ := step_cases hstep
  have hnow : t ≤ a.nowUnix.1 := Int.le_trans h.clock hclock
  have hlonger := lineage_step hstep
  have hfull := h.full
  have hmax := config.max_le
  rcases hcases with ⟨-, -, rfl⟩ | ⟨-, hcounted, -⟩
  · exact ⟨hfull, h.failed, hnow⟩
  · obtain ⟨state, hstored, hfailed, -⟩ := hcounted.stored
    exact ⟨by omega, ⟨state, hstored, Int.le_trans hnow hfailed⟩, Int.le_trans hnow hcounted.clock⟩

/-- An attempt is admitted only after the cooldown. -/
theorem Waiting.cooldown_le {t : Int} {now : I64} (h : Waiting config t w)
    (hinv : BreakerInv config w) (hpos : 1 ≤ config.maxConsecutiveFailures)
    (hclock : w.clock.1 ≤ now.1)
    (hadmits : (evaluate w.stored w.database.text config now).admits = true) :
    config.cooldown ≤ now.1 - t := by
  have hnot : evaluate w.stored w.database.text config now ≠ .allow := by
    rw [Ne, evaluate_eq_allow_iff hinv hpos]
    exact Nat.not_lt.mpr h.full
  obtain ⟨state, hstored, hfailed⟩ := h.failed
  have hlater : t ≤ now.1 := Int.le_trans h.clock hclock
  rw [hstored] at hadmits hnot
  unfold evaluate at hadmits hnot
  dsimp only at hadmits hnot
  split at hadmits
  · next happlies => exact absurd (if_pos happlies) hnot
  next happlies =>
  rw [if_neg happlies] at hnot
  split at hadmits
  · next hroom => exact absurd (if_pos hroom) hnot
  split at hadmits
  swap
  · cases hadmits
  next helapsed =>
  rw [saturatingSub, clampI64] at helapsed
  have hmin : i64Min ≤ 0 := by decide
  omega

/-- From the bound on, an admitted attempt waits, and the next one waits again. -/
theorem run_cooldown (hpos : 1 ≤ config.maxConsecutiveFailures) (hfresh : w.Fresh)
    {front mid back : List BreakerEntry} {x y : BreakerEntry}
    (hrun : trace (BreakerWorld.step config) w es = front ++ x :: (mid ++ y :: back))
    (hx : x.response.verdict.admits = true) (hy : y.response.verdict.admits = true)
    (hbefore : ∃ z ∈ front ++ [x], z.response.verdict ≠ .allow) :
    config.cooldown ≤ x.event.nowUnix.1 ∧
      config.cooldown ≤ y.event.nowUnix.1 - x.event.nowUnix.1 := by
  have hinv := run_inv es hpos hfresh
  have hxs := hinv x (by rw [hrun]; simp)
  have hys := hinv y (by rw [hrun]; simp)
  obtain ⟨hxclock, hxverdict, hxcases⟩ := step_cases hxs.2.1
  obtain ⟨hyclock, hyverdict, -⟩ := step_cases hys.2.1
  have hfull : config.maxConsecutiveFailures ≤ x.before.lineage := by
    obtain ⟨z, hz, hne⟩ := hbefore
    rcases mem_append.mp hz with hz | hz
    · exact (run_related hpos hfresh hrun).full ⟨z, hz, hne⟩
    · rw [mem_singleton.mp hz, hxverdict, Ne, evaluate_eq_allow_iff hxs.1 hpos] at hne
      exact Nat.not_lt.mp hne
  have hbegins : Waiting config 0 x.before := by
    refine ⟨hfull, ?_, hxs.1.clock⟩
    cases hstored : x.before.stored with
    | none =>
      have hnone : x.before.lineage = 0 := by rw [BreakerWorld.lineage, hstored]
      omega
    | some state => exact ⟨state, rfl, hxs.1.failed state hstored⟩
  have hwaiting : Waiting config x.event.nowUnix.1 x.after := by
    have hlonger := lineage_step hxs.2.1
    have hmax := config.max_le
    rcases hxcases with ⟨hrefused, -⟩ | ⟨-, hcounted, -⟩
    · rw [hx] at hrefused
      cases hrefused
    · obtain ⟨state, hstored, hfailed, -⟩ := hcounted.stored
      exact ⟨by omega, ⟨state, hstored, hfailed⟩, hcounted.clock⟩
  obtain ⟨es', hrest⟩ := trace_eq_append hrun
  have hkeeps (s : BreakerWorld) (e : Attempt) (r : AttemptResult) (s' : BreakerWorld)
      (hs : Waiting config x.event.nowUnix.1 s) (he : s.step config e = some (r, s')) :
      Waiting config x.event.nowUnix.1 s' := hs.step he
  have hwaits := (forall_mem_trace hkeeps hwaiting es' y (by rw [hrest]; simp)).1
  rw [hxverdict] at hx
  rw [hyverdict] at hy
  have hfirst := hbegins.cooldown_le hxs.1 hpos hxclock hx
  exact ⟨by omega, hwaits.cooldown_le hys.1 hpos hyclock hy⟩

/-- A cooldown of more seconds than an `i64` counts lets no second attempt in. -/
theorem run_spaced (hpos : 1 ≤ config.maxConsecutiveFailures) (hfresh : w.Fresh) :
    Spaced config.cooldownSecs (trace (BreakerWorld.step config) w es) := by
  intro front x mid y back hrun hx hy hbefore
  obtain ⟨hfirst, hsecond⟩ := run_cooldown hpos hfresh hrun hx hy hbefore
  have hmax : 0 < i64Max := by decide
  have hlast := y.event.nowUnix.2
  rw [RecoveryBreakerConfig.cooldown] at hfirst hsecond
  split at hsecond
  · exact hsecond
  · omega

/-- The breaker bounds crash loops, whatever the attempts do before they die. -/
theorem breakerLaws (config : RecoveryBreakerConfig) (hfailures : 1 ≤ config.maxConsecutiveFailures)
    (w : BreakerWorld) (hfresh : w.Fresh) (es : List Attempt) :
    BreakerLaws config (trace (BreakerWorld.step config) w es) := by
  refine ⟨fun front back hrun hallow => run_bounded hfailures hfresh hrun hallow,
    run_spaced hfailures hfresh, ?_⟩
  · intro x hx state hstate
    obtain ⟨hinv, hstep, -⟩ := run_inv es hfailures hfresh x hx
    obtain ⟨hclock, -, hcases⟩ := step_cases hstep
    rcases hcases with ⟨-, hnone, -⟩ | ⟨-, -, hvalid⟩
    · rw [hnone] at hstate
      cases hstate
    · exact hvalid (Int.le_trans hinv.clock hclock) state hstate

end

/-! ### A crash loop -/

def oneFailure : RecoveryBreakerConfig := ⟨1, 60, by decide, by decide⟩

def freshWorld : BreakerWorld := ⟨none, .missing, ⟨0, isI64_zero⟩⟩

theorem isI64_five : i64Min ≤ 5 ∧ 5 ≤ i64Max := by decide

theorem isI64_ninety : i64Min ≤ 90 ∧ 90 ≤ i64Max := by decide

/-- The process dies in its only attempt, is refused, and dies again in a probe. -/
def crashLoop : List Attempt :=
  [⟨⟨0, isI64_zero⟩, .dies .unreadable⟩, ⟨⟨5, isI64_five⟩, .dies .missing⟩,
    ⟨⟨90, isI64_ninety⟩, .dies .missing⟩]

theorem breakerLaws_crashLoop :
    BreakerLaws oneFailure (trace (BreakerWorld.step oneFailure) freshWorld crashLoop) :=
  breakerLaws oneFailure (by decide) freshWorld ⟨Int.le_refl 0, .inl rfl⟩ crashLoop

example : (trace (BreakerWorld.step oneFailure) freshWorld crashLoop).map
    (·.response.verdict.admits) = [true, false, true] := by decide

end AgentMail.Recovery
