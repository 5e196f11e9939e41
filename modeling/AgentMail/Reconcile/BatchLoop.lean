import AgentMail.Reconcile.RetryLane

/-!
# What the loop of a pass keeps

One candidate is passed over, or attempted, or ends the loop. From what this does to the retry lane
and to the positions follows what the whole loop does to them.
-/

namespace AgentMail.Reconcile

open Base ReconcileCursor List

variable {base cursor cursor' : ReconcileCursor} {now : Nat} {identity : Text}
  {candidate : Candidate} {l : Loop} {tail history : List Int} {attempts : List (Int × Outcome)}
  {selected passed : List (Int × Bool)} {id : Int} {lane : Bool} {outcome : Outcome}

/-! ### One candidate -/

theorem Loop.complete_eq (l : Loop) (now : Nat) (candidate : Candidate)
    (result : Except ReconcileFailure ReconcileResult) :
    ∃ report, l.complete now candidate result = { l with
      cursor := { l.cursor with nextLaneIsRetry := candidate.2.isSome }.record candidate.1 now
        (outcomeOf result)
      report := report
      attempts := l.attempts ++ [(candidate.1, outcomeOf result)] } := by
  cases result with
  | ok result =>
    by_cases h : (decide (0 < result.filesCreated) || result.gitCommitNeeded) = true
    · simp only [complete, outcomeOf, h, if_true, record]
      exact ⟨_, rfl⟩
    · simp only [complete, outcomeOf, h, record]
      exact ⟨_, rfl⟩
  | error failure =>
    by_cases h : failure.transient = true
    · simp only [complete, outcomeOf, h, if_true, record]
      exact ⟨_, rfl⟩
    · simp only [complete, outcomeOf, h, record]
      exact ⟨_, rfl⟩

/-- What the body of the loop can do with a candidate. -/
inductive Turned (now : Nat) (candidate : Candidate) (l : Loop) : Loop × Option Halt → Prop where
  | halt (report : ReconcileReport) (reason : Halt) :
    Turned now candidate l ({ l with report := report }, some reason)
  | halfway (report : ReconcileReport) (reason : Halt) (fresh : candidate.1 ∉ l.seen) :
    Turned now candidate l
      ({ l with report := report, seen := candidate.1 :: l.seen }, some reason)
  | skip (waits : l.skips now candidate = true) :
    Turned now candidate l (l.advance candidate, none)
  | attempt (report : ReconcileReport) (outcome : Outcome) (fresh : candidate.1 ∉ l.seen)
    (calm : l.cursor.conflicted candidate.1 now = false)
    (room : candidate.1 ∈ l.cursor.retryIds ∨ l.cursor.retries.length < maxRetryIds) :
    Turned now candidate l
      (Loop.advance { l with
        cursor := { l.cursor with nextLaneIsRetry := candidate.2.isSome }.record candidate.1 now
          outcome
        report := report
        seen := candidate.1 :: l.seen
        attempts := l.attempts ++ [(candidate.1, outcome)] } candidate, none)

theorem turned (l : Loop) (identity : Text) (now : Nat) (turn : Turn) (candidate : Candidate) :
    Turned now candidate l (l.turn identity now turn candidate) := by
  unfold Loop.turn
  split
  · exact .halt _ _
  split
  · exact .halt _ _
  split
  · exact .halt _ _
  split
  · exact .skip ‹_›
  rename_i hskips
  split
  · exact .halt _ _
  rename_i hroom
  split
  · exact .halt _ _
  split
  · exact .halt _ _
  have hfresh : candidate.1 ∉ l.seen := by
    intro hmem
    simp [Loop.skips, hmem] at hskips
  have hcalm : l.cursor.conflicted candidate.1 now = false := by
    rw [← Bool.not_eq_true]
    intro hconflicted
    simp [Loop.skips, hconflicted] at hskips
  have hroom : candidate.1 ∈ l.cursor.retryIds ∨ l.cursor.retries.length < maxRetryIds := by
    by_cases hmem : candidate.1 ∈ l.cursor.retryIds
    · exact .inl hmem
    · right
      simp only [Bool.and_eq_true, decide_eq_true_eq, Bool.not_eq_true', not_and,
        Bool.not_eq_false, retains_iff] at hroom
      by_contra hfull
      exact hmem (hroom (by omega))
  dsimp only
  cases turn.attempt l.report.payloadBytes with
  | nextBatch => exact .halfway _ _ hfresh
  | interrupted payloadBytes => exact .halfway _ _ hfresh
  | done payloadBytes result =>
    dsimp only
    split
    · exact .halfway _ _ hfresh
    · obtain ⟨report, hcomplete⟩ := Loop.complete_eq { l with
        seen := candidate.1 :: l.seen
        report := { l.report with
          payloadBytes := l.report.payloadBytes + payloadBytes } } now candidate result
      rw [hcomplete]
      exact .attempt report (outcomeOf result) hfresh hcalm hroom

/-- Where the next candidate comes from. -/
inductive Taken (l : Loop) : Candidate → Loop → Prop where
  | retry (id : Int) (rest : List Int) (taken : l.retries = id :: rest) :
    Taken l (id, none) { l with retries := rest }
  | scan (id : Int) (lane : Bool) (rest : List (Int × Bool))
    (taken : l.selected = (id, lane) :: rest) :
    Taken l (id, some lane) { l with selected := rest }

theorem taken_nextRetry {rest : Loop} (h : l.nextRetry = some (candidate, rest)) :
    Taken l candidate rest := by
  rw [Loop.nextRetry] at h
  cases hretries : l.retries with
  | nil =>
    rw [hretries] at h
    cases h
  | cons id ids =>
    rw [hretries] at h
    cases h
    exact .retry id ids hretries

theorem taken_nextSelected {rest : Loop} (h : l.nextSelected = some (candidate, rest)) :
    Taken l candidate rest := by
  rw [Loop.nextSelected] at h
  cases hselected : l.selected with
  | nil =>
    rw [hselected] at h
    cases h
  | cons place places =>
    rw [hselected] at h
    cases h
    exact .scan place.1 place.2 places hselected

theorem taken_next {rest : Loop} (h : l.next = some (candidate, rest)) :
    Taken l candidate rest := by
  rw [Loop.next] at h
  split at h <;> rw [Option.or_eq_some_iff] at h
  · rcases h with h | ⟨-, h⟩
    · exact taken_nextRetry h
    · exact taken_nextSelected h
  · rcases h with h | ⟨-, h⟩
    · exact taken_nextSelected h
    · exact taken_nextRetry h

/-! ### The retry lane over the loop -/

theorem mem_attempted (h : (id, outcome) ∈ attempts) : id ∈ attempts.map (·.1) :=
  mem_map.mpr ⟨(id, outcome), h, rfl⟩

/-- What became of the retry lane: an id is on it when its attempt was transient, or when it was on
it before and was not attempted. Whatever a scan lane has passed was attempted or waits. -/
structure Debt (base : ReconcileCursor) (now : Nat) (cursor : ReconcileCursor)
    (attempts : List (Int × Outcome)) (passed : List (Int × Bool)) : Prop where
  sound : cursor.Sound
  kept : ∀ id, id ∈ cursor.retryIds ↔
    (id, .transient) ∈ attempts ∨ id ∈ base.retryIds ∧ id ∉ attempts.map (·.1)
  conflicts : ∀ known ∈ cursor.conflictBackoff,
    known ∈ base.conflictBackoff ∨ known.1 ∈ attempts.map (·.1)
  passed : ∀ place ∈ passed, place.1 ∈ attempts.map (·.1) ∨ place.1 ∈ base.retryIds ∨
    base.conflicted place.1 now = true

/-- Only the retry lane and the conflicts of the cursor matter. -/
theorem Debt.of_eq (h : Debt base now cursor attempts passed)
    (hretries : cursor'.retries = cursor.retries)
    (hconflicts : cursor'.conflictBackoff = cursor.conflictBackoff) :
    Debt base now cursor' attempts passed := by
  have hids : cursor'.retryIds = cursor.retryIds := by rw [retryIds, retryIds, hretries]
  exact ⟨⟨hids ▸ h.sound.distinct, hids ▸ h.sound.bounded⟩, fun id => hids ▸ h.kept id,
    hconflicts ▸ h.conflicts, h.passed⟩

theorem Debt.start (h : base.Sound) : Debt base now base [] [] where
  sound := h
  kept := by simp
  conflicts := fun known hknown => .inl hknown
  passed := by simp

theorem retries_advance : (cursor.advance id lane).retries = cursor.retries := by
  cases lane <;> rfl

theorem conflictBackoff_advance :
    (cursor.advance id lane).conflictBackoff = cursor.conflictBackoff := by
  cases lane <;> rfl

/-- A place is passed when its id was attempted or waits. -/
theorem Debt.advance (h : Debt base now cursor attempts passed)
    (hplace : id ∈ attempts.map (·.1) ∨ id ∈ base.retryIds ∨ base.conflicted id now = true) :
    Debt base now (cursor.advance id lane) attempts (passed ++ [(id, lane)]) := by
  have hpassed : Debt base now cursor attempts (passed ++ [(id, lane)]) := by
    refine ⟨h.sound, h.kept, h.conflicts, ?_⟩
    rw [forall_mem_append, forall_mem_singleton]
    exact ⟨h.passed, hplace⟩
  exact hpassed.of_eq retries_advance conflictBackoff_advance

theorem Debt.attempt (h : Debt base now cursor attempts passed) (hfresh : id ∉ attempts.map (·.1))
    (hroom : id ∈ cursor.retryIds ∨ cursor.retries.length < maxRetryIds) :
    Debt base now (cursor.record id now outcome) (attempts ++ [(id, outcome)]) passed where
  sound := h.sound.record hroom
  kept := by
    intro known
    have hnot : (known, .transient) ∈ attempts → known ∈ attempts.map (·.1) := mem_attempted
    rw [mem_retryIds_record h.sound, h.kept known]
    by_cases heq : known = id
    · rw [heq] at hnot ⊢
      have hne : (id, Outcome.transient) ∉ attempts := fun hmem => hfresh (hnot hmem)
      simp [hne, eq_comm]
    · simp [heq]
  conflicts := by
    intro known hknown
    rw [map_append, mem_append]
    rcases mem_conflictBackoff_record hknown with hold | hnew
    · exact (h.conflicts known hold).imp_right .inl
    · exact .inr (.inr (mem_singleton.mpr hnew))
  passed := by
    intro place hplace
    rw [map_append, mem_append]
    exact (h.passed place hplace).imp_left .inl

/-- A candidate that waits was attempted, or was on the retry lane or in conflict before. -/
theorem Debt.waits (h : Debt base now l.cursor l.attempts l.passed)
    (hseen : l.seen = (l.attempts.map (·.1)).reverse) (hskips : l.skips now candidate = true) :
    candidate.1 ∈ l.attempts.map (·.1) ∨ candidate.1 ∈ base.retryIds ∨
      base.conflicted candidate.1 now = true := by
  have hretained (hmem : candidate.1 ∈ l.cursor.retryIds) :
      candidate.1 ∈ l.attempts.map (·.1) ∨ candidate.1 ∈ base.retryIds ∨
        base.conflicted candidate.1 now = true := by
    rcases (h.kept candidate.1).mp hmem with hattempt | ⟨hbase, -⟩
    · exact .inl (mem_attempted hattempt)
    · exact .inr (.inl hbase)
  simp only [Loop.skips, Bool.or_eq_true, Bool.and_eq_true] at hskips
  rcases hskips with ((hread | hcooling) | hconflict) | hduplicate
  · left
    rw [hseen, contains_iff_mem, mem_reverse] at hread
    exact hread
  · apply hretained
    obtain ⟨retry, hretry, hid⟩ := any_eq_true.mp hcooling
    rw [Bool.and_eq_true, decide_eq_true_eq] at hid
    rw [← hid.1]
    exact mem_map_of_mem hretry
  · obtain ⟨until', hmem, huntil⟩ := conflicted_iff.mp hconflict
    rcases h.conflicts _ hmem with hbase | hattempt
    · exact .inr (.inr (conflicted_iff.mpr ⟨until', hbase, huntil⟩))
    · exact .inl hattempt
  · exact hretained (retains_iff.mp hduplicate.2)

/-! ### The positions over the loop -/

/-- The position of a scan lane is before an id. -/
def ReconcileCursor.Precedes (cursor : ReconcileCursor) (id : Int) (lane : Bool) : Prop :=
  if lane then ∀ after, cursor.tailAfter = some after → after < id
  else ∀ ceiling, cursor.backfillCeiling = some ceiling → id ≤ ceiling

/-- The pages that a pass selected. -/
structure Pages (tail history : List Int) : Prop where
  ascending : tail.Pairwise (· < ·)
  positive : ∀ id ∈ tail, 0 < id
  descending : history.Pairwise (· > ·)
  steps : ∀ id ∈ history, saturatingSub id 1 = id - 1

/-- The selected places are those passed and those ahead of the positions. -/
structure Lanes (base : ReconcileCursor) (tail history : List Int) (cursor : ReconcileCursor)
    (selected passed : List (Int × Bool)) : Prop where
  places : ∀ lane, laneOf lane passed ++ laneOf lane selected = if lane then tail else history
  ahead : ∀ place ∈ selected, cursor.Precedes place.1 place.2
  ceiling : cursor.backfillCeiling = base.backfillCeiling ∨
    ∃ id, (id, false) ∈ passed ∧ cursor.backfillCeiling = some (saturatingSub id 1)

/-- Only the positions of the cursor matter. -/
theorem Lanes.of_eq (h : Lanes base tail history cursor selected passed)
    (htail : cursor'.tailAfter = cursor.tailAfter)
    (hceiling : cursor'.backfillCeiling = cursor.backfillCeiling) :
    Lanes base tail history cursor' selected passed := by
  obtain ⟨hplaces, hahead, hbase⟩ := h
  refine ⟨hplaces, ?_, by rwa [hceiling]⟩
  intro place hplace
  have hprecedes := hahead place hplace
  rwa [Precedes, htail, hceiling]

/-- The lane of the first place goes past it; the rest stays ahead. -/
theorem Lanes.advance (hpages : Pages tail history)
    (h : Lanes base tail history cursor ((id, lane) :: selected) passed) :
    Lanes base tail history (cursor.advance id lane) selected (passed ++ [(id, lane)]) where
  places := by
    intro other
    have hplaces := h.places other
    rw [laneOf_cons] at hplaces
    rw [laneOf_append, laneOf_cons, append_assoc, ← hplaces]
    split <;> rfl
  ahead := by
    intro place hplace
    have hahead := h.ahead place (mem_cons_of_mem _ hplace)
    have hplaces := h.places lane
    rw [laneOf_cons, if_pos rfl] at hplaces
    rw [Precedes] at hahead ⊢
    cases lane with
    | true =>
      cases hlane : place.2 with
      | false =>
        rw [hlane] at hahead
        exact hahead
      | true =>
        have hmem : place.1 ∈ laneOf true selected := by
          rw [mem_laneOf, ← hlane]
          exact hplace
        have hascending := hpages.ascending
        rw [if_pos rfl] at hplaces
        rw [← hplaces] at hascending
        have hlt : id < place.1 :=
          rel_of_pairwise_cons (pairwise_append.mp hascending).2.1 hmem
        have hpositive : 0 < id := hpages.positive id (by rw [← hplaces]; simp)
        have hbefore := h.ahead (id, true) mem_cons_self
        intro after hafter
        have hmax : after = max (cursor.tailAfter.getD 0) id := (Option.some.inj hafter).symm
        cases htail : cursor.tailAfter with
        | none =>
          rw [htail, Option.getD_none] at hmax
          omega
        | some position =>
          have := hbefore position htail
          rw [htail, Option.getD_some] at hmax
          omega
    | false =>
      cases hlane : place.2 with
      | true =>
        rw [hlane] at hahead
        exact hahead
      | false =>
        have hmem : place.1 ∈ laneOf false selected := by
          rw [mem_laneOf, ← hlane]
          exact hplace
        have hdescending := hpages.descending
        rw [if_neg Bool.false_ne_true] at hplaces
        rw [← hplaces] at hdescending
        have hlt : id > place.1 :=
          rel_of_pairwise_cons (pairwise_append.mp hdescending).2.1 hmem
        have hstep := hpages.steps id (by rw [← hplaces]; simp)
        intro ceiling hceiling
        have hcut : ceiling = saturatingSub id 1 := (Option.some.inj hceiling).symm
        omega
  ceiling := by
    cases lane with
    | true =>
      refine h.ceiling.imp_right fun hexists => ?_
      obtain ⟨known, hknown, hceiling⟩ := hexists
      exact ⟨known, mem_append_left _ hknown, hceiling⟩
    | false => exact .inr ⟨id, mem_append_right _ (mem_singleton_self _), rfl⟩

/-- What the history lane was shown was passed or is ahead of it. -/
theorem Lanes.behind (h : Lanes base tail history cursor selected passed) :
    ∀ id ∈ history, (id, false) ∈ passed ∨ cursor.Precedes id false := by
  intro id hid
  have hplaces := h.places false
  rw [if_neg Bool.false_ne_true] at hplaces
  rw [← hplaces, mem_append, mem_laneOf, mem_laneOf] at hid
  exact hid.imp_right fun hselected => h.ahead _ hselected

/-- The history lane stands where it stood, or behind an id that it was shown and has passed. -/
theorem Lanes.stepped (h : Lanes base tail history cursor selected passed) :
    cursor.backfillCeiling = base.backfillCeiling ∨ ∃ id, (id, false) ∈ passed ∧ id ∈ history ∧
        cursor.backfillCeiling = some (saturatingSub id 1) := by
  have hplaces := h.places false
  refine h.ceiling.imp_right fun hexists => ?_
  obtain ⟨id, hid, hceiling⟩ := hexists
  refine ⟨id, hid, ?_, hceiling⟩
  rw [if_neg Bool.false_ne_true] at hplaces
  rw [← hplaces]
  exact mem_append_left _ (mem_laneOf.mpr hid)

/-! ### The loop -/

/-- The loop between two candidates. -/
structure Loop.Sound (base : ReconcileCursor) (now : Nat) (tail history : List Int) (l : Loop) :
    Prop where
  debt : Debt base now l.cursor l.attempts l.passed
  lanes : Lanes base tail history l.cursor l.selected l.passed
  seen : l.seen = (l.attempts.map (·.1)).reverse
  fresh : l.seen.Nodup
  identity : l.cursor.sourceIdentity = base.sourceIdentity

/-- The loop at its end. -/
structure Ended (base : ReconcileCursor) (now : Nat) (history : List Int)
    (ending : Loop × Option (Candidate × Halt)) : Prop where
  debt : Debt base now ending.1.cursor ending.1.attempts ending.1.passed
  read : ending.1.seen.Nodup
  once : (ending.1.attempts.map (·.1)).Nodup
  attempted : ∀ attempt ∈ ending.1.attempts, attempt.1 ∈ ending.1.seen
  ceiling : ending.1.cursor.backfillCeiling = base.backfillCeiling ∨
    ∃ id, (id, false) ∈ ending.1.passed ∧ id ∈ history ∧
      ending.1.cursor.backfillCeiling = some (saturatingSub id 1)
  history : ∀ id ∈ history, (id, false) ∈ ending.1.passed ∨ ending.1.cursor.Precedes id false
  stopped : ∀ id lane halt, ending.2 = some ((id, some lane), halt) →
    ending.1.cursor.Precedes id lane
  identity : ending.1.cursor.sourceIdentity = base.sourceIdentity

/-- The place of a scan lane that a candidate stands for. -/
def placeOf (candidate : Candidate) : List (Int × Bool) :=
  (candidate.2.map fun lane => (candidate.1, lane)).toList

/-- The loop with a candidate that it has taken and not dealt with. -/
structure Loop.Handed (base : ReconcileCursor) (now : Nat) (tail history : List Int)
    (candidate : Candidate) (l : Loop) : Prop where
  debt : Debt base now l.cursor l.attempts l.passed
  lanes : Lanes base tail history l.cursor (placeOf candidate ++ l.selected) l.passed
  seen : l.seen = (l.attempts.map (·.1)).reverse
  fresh : l.seen.Nodup
  identity : l.cursor.sourceIdentity = base.sourceIdentity

theorem Loop.Sound.taken {rest : Loop} (h : l.Sound base now tail history)
    (htaken : Taken l candidate rest) : rest.Handed base now tail history candidate := by
  obtain ⟨hdebt, hlanes, hseen, hfresh, hidentity⟩ := h
  cases htaken with
  | retry id rest htaken => exact ⟨hdebt, hlanes, hseen, hfresh, hidentity⟩
  | scan id lane rest htaken =>
    rw [htaken] at hlanes
    exact ⟨hdebt, hlanes, hseen, hfresh, hidentity⟩

/-- The loop goes on past a candidate that was attempted or waits. -/
theorem Loop.Handed.advance (hpages : Pages tail history)
    (h : l.Handed base now tail history candidate)
    (hplace : candidate.1 ∈ l.attempts.map (·.1) ∨ candidate.1 ∈ base.retryIds ∨
      base.conflicted candidate.1 now = true) :
    (l.advance candidate).Sound base now tail history := by
  obtain ⟨hdebt, hlanes, hseen, hfresh, hidentity⟩ := h
  obtain ⟨id, scan⟩ := candidate
  cases scan with
  | none => exact ⟨hdebt, hlanes, hseen, hfresh, hidentity⟩
  | some lane =>
    refine ⟨hdebt.advance hplace, hlanes.advance hpages, hseen, hfresh, ?_⟩
    rw [← hidentity]
    cases lane <;> rfl

theorem Loop.Handed.ended (h : l.Handed base now tail history candidate) (ending : Loop)
    (hcursor : ending.cursor = l.cursor) (hattempts : ending.attempts = l.attempts)
    (hpassed : ending.passed = l.passed)
    (hseen : ending.seen = l.seen ∨ candidate.1 ∉ l.seen ∧ ending.seen = candidate.1 :: l.seen)
    (halt : Halt) : Ended base now history (ending, some (candidate, halt)) where
  debt := by
    rw [hcursor, hattempts, hpassed]
    exact h.debt
  read := by
    rcases hseen with heq | ⟨hfresh, heq⟩
    · exact heq ▸ h.fresh
    · exact heq ▸ nodup_cons.mpr ⟨hfresh, h.fresh⟩
  once := by
    rw [hattempts, ← nodup_reverse, ← h.seen]
    exact h.fresh
  attempted := by
    intro attempt hattempt
    rw [hattempts] at hattempt
    have hmem : attempt.1 ∈ l.seen := by
      rw [h.seen, mem_reverse]
      exact mem_attempted hattempt
    rcases hseen with heq | ⟨-, heq⟩
    · exact heq ▸ hmem
    · exact heq ▸ mem_cons_of_mem _ hmem
  ceiling := by
    rw [hcursor, hpassed]
    exact h.lanes.stepped
  history := by
    rw [hcursor, hpassed]
    exact h.lanes.behind
  stopped := by
    intro id lane halt hstopped
    have hcandidate : candidate = (id, some lane) :=
      congrArg Prod.fst (Option.some.inj hstopped)
    rw [hcursor]
    apply h.lanes.ahead (id, lane)
    simp [placeOf, hcandidate]
  identity := by
    rw [hcursor]
    exact h.identity

theorem Loop.Handed.turned {after : Loop × Option Halt} (hpages : Pages tail history)
    (h : l.Handed base now tail history candidate) (hturned : Turned now candidate l after) :
    (after.2 = none → after.1.Sound base now tail history) ∧
      ∀ halt, after.2 = some halt → Ended base now history (after.1, some (candidate, halt)) := by
  cases hturned with
  | halt report reason =>
    exact ⟨nofun, fun halt _ => h.ended { l with report := report } rfl rfl rfl (.inl rfl) halt⟩
  | halfway report reason fresh =>
    exact ⟨nofun, fun halt _ => h.ended { l with report := report, seen := candidate.1 :: l.seen }
      rfl rfl rfl (.inr ⟨fresh, rfl⟩) halt⟩
  | skip waits => exact ⟨fun _ => h.advance hpages (h.debt.waits h.seen waits), nofun⟩
  | attempt report outcome fresh calm room =>
    refine ⟨fun _ => Loop.Handed.advance hpages ?_ (.inl ?_), nofun⟩
    · have hnot : candidate.1 ∉ l.attempts.map (·.1) := by
        rw [← mem_reverse, ← h.seen]
        exact fresh
      have hturn : Debt base now { l.cursor with nextLaneIsRetry := candidate.2.isSome } l.attempts
          l.passed := h.debt.of_eq rfl rfl
      refine ⟨hturn.attempt hnot room, h.lanes.of_eq tailAfter_record backfillCeiling_record, ?_,
        nodup_cons.mpr ⟨fresh, h.fresh⟩, ?_⟩
      · simp [h.seen]
      · exact sourceIdentity_record.trans h.identity
    · simp

theorem Loop.Sound.ended (h : l.Sound base now tail history) :
    Ended base now history (l, none) where
  debt := h.debt
  read := h.fresh
  once := by
    rw [← nodup_reverse, ← h.seen]
    exact h.fresh
  attempted := by
    intro attempt hattempt
    rw [h.seen, mem_reverse]
    exact mem_attempted hattempt
  ceiling := h.lanes.stepped
  history := h.lanes.behind
  stopped := nofun
  identity := h.identity

theorem ended_run (hpages : Pages tail history) (identity : Text) (turns : Nat → Turn) (n : Nat)
    (h : l.Sound base now tail history) : Ended base now history (l.run identity now turns n) := by
  induction n generalizing l with
  | zero => exact h.ended
  | succ n ih =>
    rw [Loop.run]
    cases hnext : l.next with
    | none => exact h.ended
    | some taken =>
      obtain ⟨candidate, rest⟩ := taken
      have hturned := (h.taken (taken_next hnext)).turned hpages
        (turned rest identity now (turns n) candidate)
      dsimp only
      generalize rest.turn identity now (turns n) candidate = after at hturned
      obtain ⟨after, stopped⟩ := after
      cases stopped with
      | none => exact ih (hturned.1 rfl)
      | some halt => exact hturned.2 halt rfl

/-! ### The loop runs out of candidates -/

end AgentMail.Reconcile
