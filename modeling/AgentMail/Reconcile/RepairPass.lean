import AgentMail.Reconcile.BatchLoop

/-!
# One pass of archive repair

Whatever a pass on the source meets, an id is on the retry lane until an attempt settles it, nothing
is read twice, and what a scan lane has passed was attempted or waits.
-/

namespace AgentMail.Reconcile

open Base Lib ReconcileCursor

variable {source : Text} {cursor cursor' : ReconcileCursor} {pass : Pass} {id : Int}

/-! ### Passes -/

/-- The pass comes to the selection. -/
def Pass.reaches (pass : Pass) : Bool :=
  !pass.stopped && !pass.breakerTripped && pass.admitted && pass.poolBound

/-- The pass selects. -/
def Pass.selects (pass : Pass) : Bool :=
  pass.reaches && pass.source.opened && pass.source.listed

/-- The cursor with which the pages are read. -/
def Pass.current (pass : Pass) (cursor : ReconcileCursor) : ReconcileCursor :=
  (cursor.bind pass.source.identity).rewind pass.source.messages

/-- The pass resets the scan, since the newest rows were lost. -/
def Pass.rewinds (pass : Pass) (cursor : ReconcileCursor) : Bool :=
  pass.reaches && pass.source.opened &&
    (cursor.bind pass.source.identity).outruns pass.source.messages

/-- The page of history of the pass. -/
def Pass.history (pass : Pass) (cursor : ReconcileCursor) : List Int :=
  historyPage pass.source.messages (pass.current cursor) (pass.cutoff cursor)

/-- The cursor after the selection. -/
def Pass.wrapped (pass : Pass) (cursor : ReconcileCursor) : ReconcileCursor :=
  if (pass.history cursor).isEmpty then (pass.current cursor).wrap else pass.current cursor

/-- The message is there and old enough for the pass. -/
def Pass.Eligible (pass : Pass) (cursor : ReconcileCursor) (id : Int) : Prop :=
  pass.source.messages.Eligible (pass.cutoff cursor) id

/-- What a pass that does not select leaves: at most another source and a reset of the scan. -/
theorem inner_of_not_selects (h : pass.selects = false) (cursor : ReconcileCursor) :
    ∃ result cursor', reconcileMessageBatchInner pass cursor = (.early result, cursor') ∧
      (cursor' = cursor ∨ cursor' = cursor.bind pass.source.identity ∨
        pass.reaches = true ∧ pass.source.opened = true ∧ cursor' = pass.current cursor) := by
  unfold reconcileMessageBatchInner
  by_cases hstopped : pass.stopped = true
  · rw [if_pos hstopped]
    exact ⟨_, _, rfl, .inl rfl⟩
  by_cases htripped : pass.breakerTripped = true
  · rw [if_neg hstopped, if_pos htripped]
    exact ⟨_, _, rfl, .inl rfl⟩
  by_cases hadmitted : (!pass.admitted) = true
  · rw [if_neg hstopped, if_neg htripped, if_pos hadmitted]
    exact ⟨_, _, rfl, .inl rfl⟩
  by_cases hbound : (!pass.poolBound) = true
  · rw [if_neg hstopped, if_neg htripped, if_neg hadmitted, if_pos hbound]
    exact ⟨_, _, rfl, .inl rfl⟩
  have hreaches : pass.reaches = true := by
    rw [Bool.not_eq_true] at hstopped htripped hadmitted hbound
    rw [Bool.not_eq_false'] at hadmitted hbound
    simp [Pass.reaches, hstopped, htripped, hadmitted, hbound]
  rw [if_neg hstopped, if_neg htripped, if_neg hadmitted, if_neg hbound]
  by_cases hopened : pass.source.opened = true
  · have hlisted : pass.source.listed = false := by
      simpa [Pass.selects, hreaches, hopened] using h
    simp only [selectIds, hopened, hlisted, Bool.not_true, Bool.not_false, if_true]
    exact ⟨_, _, rfl, .inr (.inr ⟨hreaches, trivial, rfl⟩)⟩
  · rw [Bool.not_eq_true] at hopened
    simp only [selectIds, hopened, Bool.not_false, if_true]
    exact ⟨_, _, rfl, .inr (.inl rfl)⟩

/-- The loop of a pass that selects. -/
def Pass.loop (pass : Pass) (cursor : ReconcileCursor) : Loop :=
  .start (seedRetries pass.seeding (pass.wrapped cursor)).1
    (interleaveIds (tailPage pass.source.messages (pass.current cursor) (pass.cutoff cursor))
      (pass.history cursor) (pass.wrapped cursor).nextLaneIsHistory) pass.now

/-- The end of the loop of a pass that selects. -/
def Pass.ending (pass : Pass) (cursor : ReconcileCursor) : Loop × Option (Candidate × Halt) :=
  (pass.loop cursor).run (seedRetries pass.seeding (pass.wrapped cursor)).1.sourceIdentity pass.now
    pass.turns (pass.loop cursor).remaining

theorem inner_of_selects (h : pass.selects = true) (cursor : ReconcileCursor) :
    ∃ result, reconcileMessageBatchInner pass cursor =
      (⟨result, (seedRetries pass.seeding (pass.wrapped cursor)).2, (pass.ending cursor).1.seen,
        (pass.ending cursor).1.attempts, (pass.ending cursor).1.passed, (pass.ending cursor).2⟩,
        (pass.ending cursor).1.cursor) := by
  simp only [Pass.selects, Pass.reaches, Bool.and_eq_true, Bool.not_eq_true'] at h
  obtain ⟨⟨⟨⟨⟨hstopped, htripped⟩, hadmitted⟩, hbound⟩, hopened⟩, hlisted⟩ := h
  simp only [reconcileMessageBatchInner, hstopped, htripped, hadmitted, hbound, selectIds, hopened,
    hlisted, Bool.not_true, Bool.false_eq_true, if_false]
  exact ⟨_, rfl⟩

/-! ### What a pass does -/

/-- The cursor of a worker on one source: it has been bound to the source or is new. -/
structure Held (source : Text) (cursor : ReconcileCursor) : Prop where
  sound : cursor.Sound
  bound : cursor.sourceIdentity = source ∨ cursor.retries = [] ∧ cursor.conflictBackoff = [] ∧
    cursor.tailAfter = none ∧ cursor.backfillCeiling = none

theorem held_settledBefore (source : Text) (settledBeforeUs : Int) :
    Held source (.settledBefore settledBeforeUs) where
  sound := ⟨List.nodup_nil, Nat.zero_le _⟩
  bound := .inr ⟨rfl, rfl, rfl, rfl⟩

/-- Binding to the one source changes nothing that counts. -/
theorem Held.bind (h : Held source cursor) :
    (cursor.bind source).sourceIdentity = source ∧ (cursor.bind source).retries = cursor.retries ∧
      (cursor.bind source).conflictBackoff = cursor.conflictBackoff ∧
      (cursor.bind source).tailAfter = cursor.tailAfter ∧
      (cursor.bind source).backfillCeiling = cursor.backfillCeiling := by
  rw [ReconcileCursor.bind]
  by_cases hsame : source ≠ cursor.sourceIdentity
  · obtain ⟨hretries, hconflicts, htail, hceiling⟩ := h.bound.resolve_left (Ne.symm hsame)
    rw [if_pos hsame, hretries, hconflicts, htail, hceiling]
    exact ⟨rfl, rfl, rfl, rfl, rfl⟩
  · rw [if_neg hsame]
    exact ⟨(not_ne_iff.mp hsame).symm, rfl, rfl, rfl, rfl⟩

theorem rewind_fields (messages : Messages) (cursor : ReconcileCursor) :
    (cursor.rewind messages).sourceIdentity = cursor.sourceIdentity ∧
      (cursor.rewind messages).retries = cursor.retries ∧
      (cursor.rewind messages).conflictBackoff = cursor.conflictBackoff := by
  rw [rewind]
  split <;> exact ⟨rfl, rfl, rfl⟩

theorem rewind_of_not_outruns {messages : Messages} (h : cursor.outruns messages = false) :
    cursor.rewind messages = cursor := by
  rw [rewind, h]
  rfl

/-- What the selection leaves of the cursor. -/
structure SameDebt (source : Text) (cursor cursor' : ReconcileCursor) : Prop where
  identity : cursor'.sourceIdentity = source
  retries : cursor'.retries = cursor.retries
  conflicts : cursor'.conflictBackoff = cursor.conflictBackoff

theorem SameDebt.retryIds (h : SameDebt source cursor cursor') :
    cursor'.retryIds = cursor.retryIds := by
  rw [ReconcileCursor.retryIds, ReconcileCursor.retryIds, h.retries]

theorem SameDebt.held (h : SameDebt source cursor cursor') (hcursor : Held source cursor) :
    Held source cursor' := by
  obtain ⟨hdistinct, hbounded⟩ := hcursor.sound
  refine ⟨⟨?_, ?_⟩, .inl h.identity⟩
  · rwa [h.retryIds]
  · rwa [h.retryIds]

theorem Held.current (h : Held source cursor) (hsource : pass.source.identity = source) :
    SameDebt source cursor (pass.current cursor) := by
  obtain ⟨hidentity, hretries, hconflicts, -, -⟩ := h.bind
  obtain ⟨hidentity', hretries', hconflicts'⟩ := rewind_fields pass.source.messages
    (cursor.bind source)
  rw [Pass.current, hsource]
  exact ⟨hidentity'.trans hidentity, hretries'.trans hretries, hconflicts'.trans hconflicts⟩

theorem Held.wrapped (h : Held source cursor) (hsource : pass.source.identity = source) :
    SameDebt source cursor (pass.wrapped cursor) := by
  obtain ⟨hidentity, hretries, hconflicts⟩ := h.current hsource
  rw [Pass.wrapped]
  split <;> exact ⟨hidentity, hretries, hconflicts⟩

theorem pages (pass : Pass) (cursor : ReconcileCursor) :
    Pages (tailPage pass.source.messages (pass.current cursor) (pass.cutoff cursor))
      (pass.history cursor) where
  ascending := tailPage_ascending _ _ _
  positive := by
    intro id hid
    obtain ⟨⟨row, -, rfl⟩, -⟩ := mem_tailPage hid
    exact row.positive
  descending := historyPage_descending _ _ _
  steps := fun id hid => saturatingSub_of_mem (mem_historyRange_of_mem hid)

/-- The cursor with which the loop starts. -/
def Pass.base (pass : Pass) (cursor : ReconcileCursor) : ReconcileCursor :=
  (seedRetries pass.seeding (pass.wrapped cursor)).1

theorem tailAfter_wrapped (pass : Pass) (cursor : ReconcileCursor) :
    (pass.wrapped cursor).tailAfter = (pass.current cursor).tailAfter := by
  rw [Pass.wrapped]
  split <;> rfl

/-- The positions with which the loop starts are before everything that was selected. -/
theorem lanes_loop (pass : Pass) (cursor : ReconcileCursor)
    (hscan : SameScan (pass.wrapped cursor) (pass.base cursor)) :
    Lanes (pass.base cursor)
      (tailPage pass.source.messages (pass.current cursor) (pass.cutoff cursor))
      (pass.history cursor) (pass.base cursor) (pass.loop cursor).selected [] where
  places := by
    intro lane
    exact laneOf_interleaveIds _ _ _ lane
  ahead := by
    intro place hplace
    obtain ⟨id, lane⟩ := place
    have hmem := mem_laneOf.mpr hplace
    rw [Pass.loop, Loop.start, laneOf_interleaveIds] at hmem
    rw [Precedes]
    cases lane with
    | true =>
      intro after hafter
      apply (mem_tailPage hmem).2
      rw [← hafter, hscan.tailAfter, tailAfter_wrapped]
    | false =>
      intro ceiling hceiling
      have hshown : id ∈ pass.history cursor := hmem
      have hnonempty : (pass.history cursor).isEmpty = false := by
        rw [List.isEmpty_eq_false_iff]
        exact List.ne_nil_of_mem hshown
      apply le_ceiling_of_mem hshown
      rw [hscan.backfillCeiling, Pass.wrapped, hnonempty] at hceiling
      exact hceiling
  ceiling := .inl rfl

theorem ended_ending (h : Held source cursor) (hsource : pass.source.identity = source) :
    Ended (pass.base cursor) pass.now (pass.history cursor) (pass.ending cursor) ∧
      SameScan (pass.wrapped cursor) (pass.base cursor) ∧
      ∀ id, id ∈ (pass.base cursor).retryIds ↔ id ∈ cursor.retryIds ∨
        id ∈ (seedRetries pass.seeding (pass.wrapped cursor)).2 := by
  have hwrapped := h.wrapped hsource
  obtain ⟨hscan, hsound, hids⟩ := seeded_seedRetries (hwrapped.held h).sound pass.seeding
  refine ⟨ended_run (pages pass cursor) _ _ _ ?_, hscan, hwrapped.retryIds ▸ hids⟩
  exact ⟨.start hsound, lanes_loop pass cursor hscan, rfl, List.nodup_nil, rfl⟩

/-! ### One pass of a run -/

/-- The passes of a run, each with the cursor before and after it. -/
abbrev PassEntry : Type := Entry ReconcileCursor Pass Response

/-- An attempt of the pass settled the id. -/
def Settles (x : PassEntry) (id : Int) : Prop :=
  ∃ outcome, (id, outcome) ∈ x.response.attempts ∧ outcome ≠ .transient

/-- The id was on the retry lane before the pass, or was put on it. -/
def Owes (x : PassEntry) (id : Int) : Prop :=
  id ∈ x.before.retryIds ∨ id ∈ x.response.seeded ∨ (id, .transient) ∈ x.response.attempts

/-- The pass attempted the id. -/
def Attempts (x : PassEntry) (id : Int) : Prop :=
  ∃ outcome, (id, outcome) ∈ x.response.attempts

/-- The id is kept on the retry lane, or its last conflict is cooling down. -/
def Waits (x : PassEntry) (id : Int) : Prop :=
  id ∈ x.after.retryIds ∨ x.before.conflicted id x.event.now = true

/-- What a pass keeps. -/
structure PassKept (x : PassEntry) : Prop where
  kept : ∀ id, Owes x id → ¬ Settles x id → id ∈ x.after.retryIds
  distinct : x.after.retryIds.Nodup
  bounded : x.after.retryIds.length ≤ maxRetryIds
  once : x.response.read.Nodup ∧ (x.response.attempts.map (·.1)).Nodup
  read : ∀ id, Attempts x id → id ∈ x.response.read
  stopped : ∀ id lane halt, x.response.stoppedAt = some ((id, some lane), halt) →
    x.after.Precedes id lane
  passed : ∀ id lane, (id, lane) ∈ x.response.passed → Attempts x id ∨ Waits x id

theorem passKept_early {x : PassEntry} {result : Except PassError ReconcileReport}
    (hresponse : x.response = .early result) (hsound : x.before.Sound)
    (hids : x.after.retryIds = x.before.retryIds) : PassKept x where
  kept := by
    intro id howes _
    rw [Owes, hresponse] at howes
    rw [hids]
    rcases howes with hbefore | hseeded | htransient
    · exact hbefore
    · cases hseeded
    · cases htransient
  distinct := hids ▸ hsound.distinct
  bounded := hids ▸ hsound.bounded
  once := by
    rw [hresponse]
    exact ⟨List.nodup_nil, List.nodup_nil⟩
  read := by
    rintro id ⟨outcome, hattempt⟩
    rw [hresponse] at hattempt
    cases hattempt
  stopped := by
    intro id lane halt hstopped
    rw [hresponse] at hstopped
    cases hstopped
  passed := by
    intro id lane hpassed
    rw [hresponse] at hpassed
    cases hpassed

theorem passKept_ended {x : PassEntry} {history : List Int} {base : ReconcileCursor}
    {ending : Loop × Option (Candidate × Halt)}
    (hended : Ended base x.event.now history ending) (hcursor : x.after = ending.1.cursor)
    (hread : x.response.read = ending.1.seen) (hattempts : x.response.attempts = ending.1.attempts)
    (hpassed : x.response.passed = ending.1.passed) (hstopped : x.response.stoppedAt = ending.2)
    (hconflicts : base.conflictBackoff = x.before.conflictBackoff)
    (hids : ∀ id, id ∈ base.retryIds ↔ id ∈ x.before.retryIds ∨ id ∈ x.response.seeded) :
    PassKept x := by
  have hkept (id : Int) (hbase : id ∈ base.retryIds) (hsettles : ¬ Settles x id) :
      id ∈ x.after.retryIds := by
    rw [hcursor, hended.debt.kept]
    by_cases hattempted : id ∈ ending.1.attempts.map (·.1)
    · left
      obtain ⟨⟨known, outcome⟩, hmem, rfl⟩ := List.mem_map.mp hattempted
      by_cases htransient : outcome = .transient
      · rwa [htransient] at hmem
      · exact absurd ⟨outcome, hattempts ▸ hmem, htransient⟩ hsettles
    · exact .inr ⟨hbase, hattempted⟩
  refine ⟨?_, ?_, ?_, ?_, ?_, ?_, ?_⟩
  · intro id howes hsettles
    rcases howes with hbefore | hseeded | htransient
    · exact hkept id ((hids id).mpr (.inl hbefore)) hsettles
    · exact hkept id ((hids id).mpr (.inr hseeded)) hsettles
    · rw [hcursor, hended.debt.kept]
      exact .inl (hattempts ▸ htransient)
  · rw [hcursor]
    exact hended.debt.sound.distinct
  · rw [hcursor]
    exact hended.debt.sound.bounded
  · rw [hread, hattempts]
    exact ⟨hended.read, hended.once⟩
  · rintro id ⟨outcome, hattempt⟩
    rw [hattempts] at hattempt
    rw [hread]
    exact hended.attempted _ hattempt
  · rw [hstopped, hcursor]
    exact hended.stopped
  · intro id lane hplace
    by_cases hattempted : Attempts x id
    · exact .inl hattempted
    · right
      rw [hpassed] at hplace
      rcases hended.debt.passed (id, lane) hplace with htried | hbase | hconflict
      · obtain ⟨⟨known, outcome⟩, hmem, rfl⟩ := List.mem_map.mp htried
        exact absurd ⟨outcome, hattempts ▸ hmem⟩ hattempted
      · left
        exact hkept id hbase fun hsettles => hattempted ⟨_, hsettles.choose_spec.1⟩
      · right
        obtain ⟨until', hmem, huntil⟩ := conflicted_iff.mp hconflict
        rw [hconflicts] at hmem
        exact conflicted_iff.mpr ⟨until', hmem, huntil⟩

/-- A step of a run. -/
def batchStep (cursor : ReconcileCursor) (pass : Pass) : Option (Response × ReconcileCursor) :=
  some (reconcileMessageBatchInner pass cursor)

/-- What a pass keeps of a cursor on the source. -/
theorem passKept_step {response : Response} (h : Held source cursor)
    (hsource : pass.source.identity = source)
    (hstep : reconcileMessageBatchInner pass cursor = (response, cursor')) :
    PassKept ⟨cursor, pass, response, cursor'⟩ ∧ Held source cursor' := by
  cases hselects : pass.selects with
  | false =>
    obtain ⟨result, cursor'', hearly, hcursor⟩ := inner_of_not_selects hselects cursor
    rw [hearly] at hstep
    cases hstep
    have hheld : Held source cursor' ∧ cursor'.retryIds = cursor.retryIds := by
      rcases hcursor with rfl | rfl | ⟨-, -, rfl⟩
      · exact ⟨h, rfl⟩
      · obtain ⟨hidentity, hretries, hconflicts, -, -⟩ := h.bind
        rw [hsource]
        have hsame : SameDebt source cursor (cursor.bind source) :=
          ⟨hidentity, hretries, hconflicts⟩
        exact ⟨hsame.held h, hsame.retryIds⟩
      · have hsame := h.current hsource
        exact ⟨hsame.held h, hsame.retryIds⟩
    exact ⟨passKept_early rfl h.sound hheld.2, hheld.1⟩
  | true =>
    obtain ⟨result, hinner⟩ := inner_of_selects hselects cursor
    rw [hinner] at hstep
    cases hstep
    obtain ⟨hended, hscan, hids⟩ := ended_ending h hsource
    have hwrapped := h.wrapped hsource
    refine ⟨passKept_ended hended rfl rfl rfl rfl rfl ?_ hids, hended.debt.sound, .inl ?_⟩
    · exact hscan.conflictBackoff.trans hwrapped.conflicts
    · exact hended.identity.trans (hscan.sourceIdentity.trans hwrapped.identity)

end AgentMail.Reconcile
