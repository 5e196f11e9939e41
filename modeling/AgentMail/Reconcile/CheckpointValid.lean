import AgentMail.Reconcile.UnsavedDebt

/-!
# Cursors that can be saved

A cursor that repairs messages with positive ids has a snapshot that passes validation at every
instant from now on: ids are positive and in one queue only, and the queues are not too long.
-/

namespace AgentMail.Reconcile

open Base Lib ReconcileCursor List

variable {cursor cursor' : ReconcileCursor} {snapshot : Snapshot} {binding : Binding}
  {now later : Nat} {wallUs : Int} {id : Int} {outcome : Outcome}

/-! ### Valid cursors -/

/-- The retry debt and the conflicts are in order from an instant on. -/
structure ReconcileCursor.DebtValid (cursor : ReconcileCursor) (now : Nat) : Prop where
  sound : cursor.Sound
  positive : ∀ id ∈ cursor.retryIds, 0 < id
  conflictsPositive : ∀ id ∈ cursor.conflictBackoff.map (·.1), 0 < id
  conflictsOnce : (cursor.conflictBackoff.map (·.1)).Nodup
  conflictsBounded : cursor.conflictBackoff.length ≤ maxRetryIds
  apart : ∀ known ∈ cursor.conflictBackoff, now < known.2 → known.1 ∉ cursor.retryIds

/-- The positions are no negative ids. -/
structure ReconcileCursor.ScanValid (cursor : ReconcileCursor) : Prop where
  tail : ∀ id, cursor.tailAfter = some id → 0 ≤ id
  ceiling : ∀ id, cursor.backfillCeiling = some id → 0 ≤ id

/-- The cursor can be saved from an instant on. -/
structure ReconcileCursor.Valid (cursor : ReconcileCursor) (now : Nat) : Prop where
  debt : cursor.DebtValid now
  scan : cursor.ScanValid

namespace ReconcileCursor

theorem DebtValid.mono (h : cursor.DebtValid now) (hlater : now ≤ later) :
    cursor.DebtValid later where
  sound := h.sound
  positive := h.positive
  conflictsPositive := h.conflictsPositive
  conflictsOnce := h.conflictsOnce
  conflictsBounded := h.conflictsBounded
  apart := fun known hknown hunexpired => h.apart known hknown (by omega)

theorem Valid.mono (h : cursor.Valid now) (hlater : now ≤ later) : cursor.Valid later :=
  ⟨h.debt.mono hlater, h.scan⟩

/-- Only the two queues matter for the debt. -/
theorem DebtValid.of_eq (h : cursor.DebtValid now) (hretries : cursor'.retries = cursor.retries)
    (hconflicts : cursor'.conflictBackoff = cursor.conflictBackoff) : cursor'.DebtValid now := by
  have hids : cursor'.retryIds = cursor.retryIds := by rw [retryIds, retryIds, hretries]
  obtain ⟨⟨hdistinct, hbounded⟩, hpositive, hconflictsPositive, honce, hlength, hapart⟩ := h
  exact ⟨⟨hids ▸ hdistinct, hids ▸ hbounded⟩, hids ▸ hpositive, hconflicts ▸ hconflictsPositive,
    hconflicts ▸ honce, hconflicts ▸ hlength, hids ▸ hconflicts ▸ hapart⟩

theorem valid_settledBefore (settledBeforeUs : Int) (now : Nat) :
    (settledBefore settledBeforeUs).Valid now where
  debt :=
    ⟨⟨nodup_nil, Nat.zero_le _⟩, forall_mem_nil _, forall_mem_nil _,
      nodup_nil, Nat.zero_le _, forall_mem_nil _⟩
  scan := ⟨nofun, nofun⟩

/-! ### Operations -/

theorem DebtValid.forgetRetry (h : cursor.DebtValid now) (id : Int) :
    (cursor.forgetRetry id).DebtValid now where
  sound := h.sound.forgetRetry id
  positive := fun _ hid => h.positive _ (mem_retryIds_forgetRetry.mp hid).2
  conflictsPositive := h.conflictsPositive
  conflictsOnce := h.conflictsOnce
  conflictsBounded := h.conflictsBounded
  apart := fun known hknown hunexpired hmem =>
    h.apart known hknown hunexpired (mem_retryIds_forgetRetry.mp hmem).2

theorem DebtValid.deferTransient (h : cursor.DebtValid now) (hid : 0 < id)
    (hcalm : cursor.conflicted id now = false)
    (hroom : id ∈ cursor.retryIds ∨ cursor.retries.length < maxRetryIds) :
    (cursor.deferTransient id now).DebtValid now where
  sound := h.sound.deferTransient now hroom
  positive := by
    intro known hknown
    rcases (mem_retryIds_deferTransient h.sound.distinct id now).mp hknown with rfl | hold
    · exact hid
    · exact h.positive known hold
  conflictsPositive := h.conflictsPositive
  conflictsOnce := h.conflictsOnce
  conflictsBounded := h.conflictsBounded
  apart := by
    intro known hknown hunexpired hmem
    rcases (mem_retryIds_deferTransient h.sound.distinct id now).mp hmem with heq | hold
    · have hconflicted : cursor.conflicted id now = true :=
        conflicted_iff.mpr ⟨known.2, heq ▸ hknown, hunexpired⟩
      rw [hcalm] at hconflicted
      cases hconflicted
    · exact h.apart known hknown hunexpired hold

/-- The conflicts that are kept beside a new one. -/
def keptConflicts (cursor : ReconcileCursor) (id : Int) (now : Nat) : List (Int × Nat) :=
  cursor.conflictBackoff.filter fun known => decide (known.1 ≠ id) && decide (now < known.2)

theorem conflictBackoff_deferConflict (cursor : ReconcileCursor) (id : Int) (now : Nat) :
    (cursor.deferConflict id now).conflictBackoff =
      (if (cursor.keptConflicts id now).length = maxRetryIds then
        (cursor.keptConflicts id now).drop 1 else cursor.keptConflicts id now) ++
        [(id, now + maxRetryBackoff)] := rfl

theorem DebtValid.deferConflict (h : cursor.DebtValid now) (hid : 0 < id) :
    (cursor.deferConflict id now).DebtValid now := by
  have hsub : ((cursor.deferConflict id now).conflictBackoff).Sublist
      (cursor.keptConflicts id now ++ [(id, now + maxRetryBackoff)]) := by
    rw [conflictBackoff_deferConflict, append_sublist_append_right]
    split
    · exact drop_sublist _ _
    · exact .refl _
  have hkept : (cursor.keptConflicts id now).Sublist cursor.conflictBackoff := filter_sublist
  have hmem (known : Int × Nat) (hknown : known ∈ (cursor.deferConflict id now).conflictBackoff) :
      known ∈ cursor.conflictBackoff ∨ known.1 = id := by
    rcases mem_append.mp (hsub.subset hknown) with hold | hnew
    · exact .inl (hkept.subset hold)
    · rw [mem_singleton] at hnew
      exact .inr (congrArg Prod.fst hnew)
  obtain ⟨hsound, hpositive, hconflictsPositive, honce, hlength, hapart⟩ := h.forgetRetry id
  refine ⟨⟨hsound.distinct, hsound.bounded⟩, hpositive, ?_, ?_, ?_, ?_⟩
  · intro known hknown
    obtain ⟨entry, hentry, rfl⟩ := mem_map.mp hknown
    rcases hmem entry hentry with hold | heq
    · exact hconflictsPositive _ (mem_map_of_mem hold)
    · rwa [heq]
  · refine (nodup_map_concat (honce.sublist (hkept.map _)) ?_).sublist (hsub.map _)
    intro hold
    obtain ⟨entry, hentry, heq⟩ := mem_map.mp hold
    have hne := (mem_filter.mp hentry).2
    rw [Bool.and_eq_true, decide_eq_true_eq] at hne
    exact hne.1 heq
  · have hshort : (cursor.keptConflicts id now).length ≤ maxRetryIds :=
      Nat.le_trans hkept.length_le hlength
    rw [conflictBackoff_deferConflict, length_append, length_singleton]
    have hpos : 0 < maxRetryIds := by decide
    split
    · rw [length_drop]
      omega
    · omega
  · intro known hknown hunexpired
    rcases hmem known hknown with hold | heq
    · exact hapart known hold hunexpired
    · rw [heq]
      exact fun hforgotten => (mem_retryIds_forgetRetry.mp hforgotten).1 rfl

theorem DebtValid.record (h : cursor.DebtValid now) (hid : 0 < id)
    (hcalm : cursor.conflicted id now = false)
    (hroom : id ∈ cursor.retryIds ∨ cursor.retries.length < maxRetryIds) :
    (cursor.record id now outcome).DebtValid now := by
  cases outcome with
  | repaired => exact h.forgetRetry id
  | unchanged => exact h.forgetRetry id
  | transient => exact h.deferTransient hid hcalm hroom
  | conflict => exact h.deferConflict hid

theorem ScanValid.of_eq (h : cursor.ScanValid) (htail : cursor'.tailAfter = cursor.tailAfter)
    (hceiling : cursor'.backfillCeiling = cursor.backfillCeiling) : cursor'.ScanValid := by
  obtain ⟨htail', hceiling'⟩ := h
  exact ⟨htail ▸ htail', hceiling ▸ hceiling'⟩

theorem ScanValid.advance (h : cursor.ScanValid) (hid : 0 < id) (lane : Bool) :
    (cursor.advance id lane).ScanValid := by
  obtain ⟨htail, hceiling⟩ := h
  cases lane with
  | true =>
    refine ⟨fun after hafter => ?_, hceiling⟩
    have hmax : max (cursor.tailAfter.getD 0) id = after := Option.some.inj hafter
    omega
  | false =>
    refine ⟨htail, fun ceiling hsome => ?_⟩
    have hcut : saturatingSub id 1 = ceiling := Option.some.inj hsome
    have hmin : i64Min = -2 ^ 63 := rfl
    have hmax : i64Max = 2 ^ 63 - 1 := rfl
    rw [saturatingSub, clampI64] at hcut
    omega

theorem Valid.bind (h : cursor.Valid now) (identity : Text) : (cursor.bind identity).Valid now := by
  rw [ReconcileCursor.bind]
  split
  · obtain ⟨hdebt, hscan⟩ := valid_settledBefore 0 now
    exact ⟨hdebt.of_eq rfl rfl, hscan.of_eq rfl rfl⟩
  · exact h

theorem Valid.rewind (h : cursor.Valid now) (messages : Messages) :
    (cursor.rewind messages).Valid now := by
  rw [ReconcileCursor.rewind]
  split
  · exact ⟨h.debt.of_eq rfl rfl, by simp, by simp⟩
  · exact h

theorem Valid.wrap (h : cursor.Valid now) : cursor.wrap.Valid now :=
  ⟨h.debt.of_eq rfl rfl, h.scan.tail, nofun⟩

end ReconcileCursor

/-! ### Seeding -/

theorem debtValid_seedTickets (h : cursor.DebtValid now) (tickets : List FailedWrite) :
    (seedTickets now cursor tickets).1.DebtValid now := by
  induction tickets generalizing cursor with
  | nil => exact h
  | cons ticket tickets ih =>
    rw [seedTickets]
    split
    · exact h
    · rename_i hfull
      split
      · exact ih h
      · rename_i hskip
        rw [Bool.or_eq_true, not_or, Bool.not_eq_true, Bool.not_eq_true] at hskip
        have hroom : cursor.retries.length < maxRetryIds := by omega
        have hdeferred := h.deferTransient ticket.positive hskip.2 (.inr hroom)
        have hnext : ({ cursor.deferTransient ticket.id now with
            nextLaneIsRetry := true } : ReconcileCursor).DebtValid now := hdeferred.of_eq rfl rfl
        exact ih hnext

theorem valid_seedRetries (h : cursor.Valid now) (seeding : Seeding) (hnow : now ≤ seeding.now) :
    (seedRetries seeding cursor).1.Valid seeding.now := by
  have hlater := h.mono hnow
  have hscan := (seeded_seedRetries h.debt.sound seeding).scan
  refine ⟨?_, hlater.scan.of_eq hscan.tailAfter hscan.backfillCeiling⟩
  rw [seedRetries]
  split
  · exact hlater.debt
  · split
    · exact hlater.debt
    · exact debtValid_seedTickets hlater.debt _

/-! ### The loop -/

/-- The loop keeps the cursor valid, and all its candidates are positive ids. -/
structure Loop.Valid (now : Nat) (l : Loop) : Prop where
  cursor : l.cursor.Valid now
  retries : ∀ id ∈ l.retries, 0 < id
  selected : ∀ place ∈ l.selected, 0 < place.1

theorem Loop.Valid.taken {l rest : Loop} {candidate : Candidate} (h : l.Valid now)
    (htaken : Taken l candidate rest) : rest.Valid now ∧ 0 < candidate.1 := by
  obtain ⟨hcursor, hretries, hselected⟩ := h
  cases htaken with
  | retry id rest htaken =>
    rw [htaken, forall_mem_cons] at hretries
    exact ⟨⟨hcursor, hretries.2, hselected⟩, hretries.1⟩
  | scan id lane rest htaken =>
    rw [htaken, forall_mem_cons] at hselected
    exact ⟨⟨hcursor, hretries, hselected.2⟩, hselected.1⟩

theorem Loop.Valid.advance {l : Loop} {candidate : Candidate} (h : l.Valid now)
    (hid : 0 < candidate.1) : (l.advance candidate).Valid now := by
  obtain ⟨hcursor, hretries, hselected⟩ := h
  obtain ⟨id, scan⟩ := candidate
  cases scan with
  | none => exact ⟨hcursor, hretries, hselected⟩
  | some lane =>
    exact ⟨⟨hcursor.debt.of_eq retries_advance conflictBackoff_advance,
      hcursor.scan.advance hid lane⟩, hretries, hselected⟩

theorem Loop.Valid.turned {l : Loop} {candidate : Candidate} {after : Loop × Option Halt}
    (h : l.Valid now) (hid : 0 < candidate.1) (hturned : Turned now candidate l after) :
    after.1.Valid now := by
  cases hturned with
  | halt report reason => exact ⟨h.cursor, h.retries, h.selected⟩
  | halfway report reason fresh => exact ⟨h.cursor, h.retries, h.selected⟩
  | skip waits => exact h.advance hid
  | attempt report outcome fresh calm room =>
    have hturn : ({ l.cursor with nextLaneIsRetry := candidate.2.isSome } :
        ReconcileCursor).DebtValid now := h.cursor.debt.of_eq rfl rfl
    apply Loop.Valid.advance _ hid
    exact ⟨⟨hturn.record hid calm room, h.cursor.scan.of_eq tailAfter_record backfillCeiling_record⟩,
      h.retries, h.selected⟩

theorem valid_run {l : Loop} (h : l.Valid now) (identity : Text) (turns : Nat → Turn) (n : Nat) :
    (l.run identity now turns n).1.Valid now := by
  induction n generalizing l with
  | zero => exact h
  | succ n ih =>
    rw [Loop.run]
    cases hnext : l.next with
    | none => exact h
    | some taken =>
      obtain ⟨candidate, rest⟩ := taken
      obtain ⟨hrest, hid⟩ := h.taken (taken_next hnext)
      have hafter := hrest.turned hid (turned rest identity now (turns n) candidate)
      dsimp only
      generalize rest.turn identity now (turns n) candidate = after at hafter
      obtain ⟨after, stopped⟩ := after
      cases stopped with
      | none => exact ih hafter
      | some halt => exact hafter

theorem valid_current {pass : Pass} (h : cursor.Valid now) : (pass.current cursor).Valid now :=
  (h.bind _).rewind _

theorem valid_wrapped {pass : Pass} (h : cursor.Valid now) : (pass.wrapped cursor).Valid now := by
  rw [Pass.wrapped]
  split
  · exact (valid_current h).wrap
  · exact valid_current h

theorem valid_inner {pass : Pass} (h : cursor.Valid now) (hseeding : now ≤ pass.seeding.now)
    (hpass : pass.seeding.now ≤ pass.now) :
    (reconcileMessageBatchInner pass cursor).2.Valid pass.now := by
  cases hselects : pass.selects with
  | false =>
    have hlater : now ≤ pass.now := Nat.le_trans hseeding hpass
    obtain ⟨result, cursor', hearly, hcursor⟩ := inner_of_not_selects hselects cursor
    rw [hearly]
    rcases hcursor with rfl | rfl | ⟨-, -, rfl⟩
    · exact h.mono hlater
    · exact (h.bind _).mono hlater
    · exact (valid_current h).mono hlater
  | true =>
    obtain ⟨result, hinner⟩ := inner_of_selects hselects cursor
    rw [hinner]
    have hbase : (pass.base cursor).Valid pass.now :=
      (valid_seedRetries (valid_wrapped h) pass.seeding hseeding).mono hpass
    have hpages := pages pass cursor
    have hloop : (pass.loop cursor).Valid pass.now := by
      refine ⟨hbase, fun id hid => ?_, fun place hplace => ?_⟩
      · obtain ⟨retry, hretry, rfl⟩ := mem_map.mp hid
        have hmem : retry ∈ (pass.base cursor).retries :=
          (mem_filter.mp (mem_of_mem_take hretry)).1
        exact hbase.debt.positive _ (mem_map_of_mem hmem)
      · obtain ⟨id, lane⟩ := place
        have hmem := mem_laneOf.mpr hplace
        rw [Pass.loop, Loop.start, laneOf_interleaveIds] at hmem
        cases lane with
        | true => exact hpages.positive id hmem
        | false =>
          obtain ⟨row, -, rfl, -⟩ := mem_historyRange.mp (mem_historyRange_of_mem hmem)
          exact row.positive
    exact (valid_run hloop _ _ _).cursor

/-! ### Snapshots -/

theorem idsValid_iff {seen : List Int} {deferred : List (Int × Nat)} :
    Snapshot.idsValid seen deferred = true ↔
      (∀ entry ∈ deferred, 0 < entry.1 ∧ entry.2 ≤ maxWaitUs ∧ entry.1 ∉ seen) ∧
        (deferred.map (·.1)).Nodup := by
  induction deferred generalizing seen with
  | nil => simp [Snapshot.idsValid]
  | cons entry deferred ih =>
    obtain ⟨id, wait⟩ := entry
    rw [Snapshot.idsValid, forall_mem_cons, map_cons, nodup_cons]
    by_cases hbad : (decide (id ≤ 0) || decide (maxWaitUs < wait) || seen.contains id) = true
    · rw [if_pos hbad]
      simp only [Bool.or_eq_true, decide_eq_true_eq, contains_iff_mem] at hbad
      constructor
      · nofun
      · rintro ⟨⟨⟨hpositive, hwait, hnew⟩, -⟩, -⟩
        rcases hbad with (hid | hlong) | hseen
        · omega
        · omega
        · exact absurd hseen hnew
    · rw [if_neg hbad, ih]
      simp only [Bool.or_eq_true, decide_eq_true_eq, contains_iff_mem, not_or] at hbad
      obtain ⟨⟨hid, hwait⟩, hnew⟩ := hbad
      constructor
      · rintro ⟨hall, hdistinct⟩
        refine ⟨⟨⟨by omega, by omega, hnew⟩, fun entry hentry => ?_⟩, ?_, hdistinct⟩
        · obtain ⟨hpositive, hshort, hunseen⟩ := hall entry hentry
          exact ⟨hpositive, hshort, fun hmem => hunseen (mem_cons_of_mem _ hmem)⟩
        · intro hmem
          obtain ⟨entry, hentry, rfl⟩ := mem_map.mp hmem
          exact (hall entry hentry).2.2 mem_cons_self
      · rintro ⟨⟨-, hall⟩, hmem, hdistinct⟩
        refine ⟨fun entry hentry => ?_, hdistinct⟩
        obtain ⟨hpositive, hshort, hunseen⟩ := hall entry hentry
        refine ⟨hpositive, hshort, fun hcons => ?_⟩
        rcases mem_cons.mp hcons with heq | hold
        · exact hmem (mem_map.mpr ⟨entry, hentry, heq⟩)
        · exact hunseen hold

/-- What a checkpoint that passes validation has. -/
structure Snapshot.Valid (snapshot : Snapshot) (binding : Binding) : Prop where
  version : snapshot.version = schemaVersion
  binding : snapshot.binding = binding
  saved : 0 < snapshot.savedAtUs
  tail : ∀ id, snapshot.tailAfter = some id → 0 ≤ id
  ceiling : ∀ id, snapshot.backfillCeiling = some id → 0 ≤ id
  retries : snapshot.retries.length ≤ maxRetryIds
  conflicts : snapshot.conflicts.length ≤ maxRetryIds
  deferred : ∀ entry ∈ snapshot.deferred, 0 < entry.1 ∧ entry.2 ≤ maxWaitUs
  once : (snapshot.deferred.map (·.1)).Nodup

theorem any_negative_iff {position : Option Int} :
    position.any (fun id => decide (id < 0)) = false ↔ ∀ id, position = some id → 0 ≤ id := by
  cases position <;> simp

theorem validate_iff : snapshot.validate binding = .ok () ↔ snapshot.Valid binding := by
  rw [Snapshot.validate]
  by_cases hmismatch :
      (decide (snapshot.version ≠ schemaVersion) || decide (snapshot.binding ≠ binding)) = true
  · rw [if_pos hmismatch]
    simp only [Bool.or_eq_true, decide_eq_true_eq] at hmismatch
    constructor
    · nofun
    · intro h
      rcases hmismatch with hversion | hbinding
      · exact absurd h.version hversion
      · exact absurd h.binding hbinding
  rw [if_neg hmismatch]
  simp only [Bool.or_eq_true, decide_eq_true_eq, not_or, not_ne_iff] at hmismatch
  by_cases hbounds : (decide (snapshot.savedAtUs ≤ 0) ||
      snapshot.tailAfter.any (fun id => decide (id < 0)) ||
      snapshot.backfillCeiling.any (fun id => decide (id < 0)) ||
      decide (maxRetryIds < snapshot.retries.length) ||
      decide (maxRetryIds < snapshot.conflicts.length)) = true
  · rw [if_pos hbounds]
    simp only [Bool.or_eq_true, decide_eq_true_eq] at hbounds
    constructor
    · nofun
    · intro h
      have hsaved := h.saved
      have hretries := h.retries
      have hconflicts := h.conflicts
      have htail := any_negative_iff.mpr h.tail
      have hceiling := any_negative_iff.mpr h.ceiling
      rw [htail, hceiling] at hbounds
      simp only [Bool.false_eq_true, or_false] at hbounds
      omega
  rw [if_neg hbounds]
  simp only [Bool.or_eq_true, decide_eq_true_eq, not_or, Bool.not_eq_true] at hbounds
  obtain ⟨⟨⟨⟨hsaved, htail⟩, hceiling⟩, hretries⟩, hconflicts⟩ := hbounds
  by_cases hids : Snapshot.idsValid [] snapshot.deferred = true
  · rw [if_pos hids]
    obtain ⟨hall, honce⟩ := idsValid_iff.mp hids
    exact iff_of_true rfl ⟨hmismatch.1, hmismatch.2, by omega, any_negative_iff.mp htail,
      any_negative_iff.mp hceiling, by omega, by omega,
      fun entry hentry => ⟨(hall entry hentry).1, (hall entry hentry).2.1⟩, honce⟩
  · rw [if_neg hids]
    refine iff_of_false nofun fun h => hids (idsValid_iff.mpr ⟨fun entry hentry => ?_, h.once⟩)
    obtain ⟨hpositive, hwait⟩ := h.deferred entry hentry
    exact ⟨hpositive, hwait, not_mem_nil⟩

theorem deferred_ids (snapshot : Snapshot) :
    snapshot.deferred.map (·.1) = snapshot.retryIds ++ snapshot.conflicts.map (·.id) := by
  rw [Snapshot.deferred, map_append, map_map, map_map]
  rfl

theorem Snapshot.Valid.ids (h : snapshot.Valid binding) :
    snapshot.retryIds.Nodup ∧ (snapshot.conflicts.map (·.id)).Nodup ∧
      (∀ id ∈ snapshot.conflicts.map (·.id), id ∉ snapshot.retryIds) ∧
      (∀ id ∈ snapshot.retryIds, 0 < id) ∧ ∀ id ∈ snapshot.conflicts.map (·.id), 0 < id := by
  have honce := h.once
  have hpositive (id : Int) (hid : id ∈ snapshot.deferred.map (·.1)) : 0 < id := by
    obtain ⟨entry, hentry, rfl⟩ := mem_map.mp hid
    exact (h.deferred entry hentry).1
  rw [deferred_ids] at honce hpositive
  rw [nodup_append] at honce
  exact ⟨honce.1, honce.2.1, fun id hid hmem => honce.2.2 id hmem id hid rfl,
    fun id hid => hpositive id (mem_append_left _ hid),
    fun id hid => hpositive id (mem_append_right _ hid)⟩

theorem retryIds_capture (binding : Binding) (cursor : ReconcileCursor) (now : Nat) (wallUs : Int) :
    (Snapshot.capture binding cursor now wallUs).retryIds = cursor.retryIds := by
  rw [Snapshot.retryIds, Snapshot.capture, map_map]
  rfl

theorem waitUs_le (until' now : Nat) : waitUs until' now ≤ maxWaitUs :=
  Nat.div_le_div_right (Nat.min_le_right _ _)

/-- A valid cursor can be saved whenever the wall clock is positive. -/
theorem valid_capture (h : cursor.Valid now) (binding : Binding) (hwall : 0 < wallUs) :
    (Snapshot.capture binding cursor now wallUs).Valid binding := by
  obtain ⟨⟨hsound, hpositive, hconflictsPositive, honce, hlength, hapart⟩, hscan⟩ := h
  have hconflicts : (Snapshot.capture binding cursor now wallUs).conflicts.map (·.id) =
      (cursor.conflictBackoff.filter fun known => decide (now < known.2)).map (·.1) := by
    rw [Snapshot.capture, map_map]
    rfl
  have hretries : cursor.retries.length ≤ maxRetryIds := by
    rw [← length_retryIds]
    exact hsound.bounded
  refine ⟨rfl, rfl, hwall, hscan.tail, hscan.ceiling, ?_, ?_, ?_, ?_⟩
  · rw [Snapshot.capture, length_map]
    exact hretries
  · rw [Snapshot.capture, length_map]
    exact Nat.le_trans (length_filter_le _ _) hlength
  · intro entry hentry
    rcases mem_append.mp hentry with hretry | hconflict
    · obtain ⟨retry, hmem, rfl⟩ := mem_map.mp hretry
      obtain ⟨deferred, hdeferred, rfl⟩ := mem_map.mp hmem
      exact ⟨hpositive _ (mem_map_of_mem hdeferred), waitUs_le _ _⟩
    · obtain ⟨conflict, hmem, rfl⟩ := mem_map.mp hconflict
      obtain ⟨known, hknown, rfl⟩ := mem_map.mp hmem
      have hid : known.1 ∈ cursor.conflictBackoff.map (·.1) :=
        mem_map_of_mem (mem_filter.mp hknown).1
      exact ⟨hconflictsPositive _ hid, waitUs_le _ _⟩
  · rw [deferred_ids, retryIds_capture, hconflicts, nodup_append]
    refine ⟨hsound.distinct, honce.sublist (filter_sublist.map _), fun id hid other hother heq => ?_⟩
    obtain ⟨known, hknown, hknownId⟩ := mem_map.mp hother
    rw [mem_filter, decide_eq_true_eq] at hknown
    exact hapart known hknown.1 hknown.2 (hknownId ▸ heq ▸ hid)

theorem retryIds_restore (snapshot : Snapshot) (cursor : ReconcileCursor) (now : Nat)
    (wallUs : Int) : (snapshot.restore cursor now wallUs).retryIds = snapshot.retryIds := by
  rw [ReconcileCursor.retryIds, Snapshot.restore, map_map]
  rfl

/-- What was restored from a valid checkpoint is valid. -/
theorem valid_restore (h : snapshot.Valid binding) (cursor : ReconcileCursor) (now : Nat)
    (wallUs : Int) : (snapshot.restore cursor now wallUs).Valid now := by
  obtain ⟨hretries, hconflicts, hapart, hpositive, hconflictsPositive⟩ := h.ids
  have hids := retryIds_restore snapshot cursor now wallUs
  have hlength : snapshot.retryIds.length ≤ maxRetryIds := by
    rw [Snapshot.retryIds, length_map]
    exact h.retries
  have hsub : ((snapshot.restore cursor now wallUs).conflictBackoff.map (·.1)).Sublist
      (snapshot.conflicts.map (·.id)) := by
    apply map_filterMap_sublist
    intro conflict known hknown
    split at hknown
    · cases hknown
      rfl
    · cases hknown
  refine ⟨⟨⟨hids ▸ hretries, hids ▸ hlength⟩, hids ▸ hpositive,
    fun id hid => hconflictsPositive id (hsub.subset hid), hconflicts.sublist hsub, ?_,
    fun known hknown _ => ?_⟩, h.tail, h.ceiling⟩
  · exact Nat.le_trans (length_filterMap_le _ _) h.conflicts
  · rw [hids]
    exact hapart _ (hsub.subset (mem_map_of_mem hknown))

/-- What was merged from a valid cursor and a valid checkpoint is valid. -/
theorem valid_merged {merged : ReconcileCursor} (h : cursor.Valid now)
    (hsnapshot : snapshot.Valid binding) (hmerged : MergeKept cursor snapshot now wallUs merged) :
    merged.Valid now := by
  obtain ⟨-, -, -, hpositive, hconflictsPositive⟩ := hsnapshot.ids
  have hrest := hmerged.rest
  refine ⟨⟨⟨hmerged.distinct, ?_⟩, ?_, ?_, hmerged.conflicts.once, hmerged.conflicts.bounded,
    fun known hknown _ => hmerged.apart known hknown⟩, ?_⟩
  · rw [length_retryIds]
    exact hmerged.bounded
  · intro id hid
    rw [hmerged.union, mem_append, mem_filter] at hid
    rcases hid with hlocal | hstored
    · exact h.debt.positive id hlocal
    · exact hpositive id hstored.1
  · intro id hid
    obtain ⟨known, hknown, rfl⟩ := mem_map.mp hid
    rcases hmerged.conflictSource known hknown with hlocal | hstored
    · exact h.debt.conflictsPositive _ hlocal
    · exact hconflictsPositive _ hstored
  · rw [hrest]
    exact h.scan.of_eq rfl rfl

end AgentMail.Reconcile
