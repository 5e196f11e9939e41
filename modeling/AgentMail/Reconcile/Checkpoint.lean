import AgentMail.Reconcile.RepairRounds

/-!
# The checkpoint of archive repair

Workers that repair one mailbox share a checkpoint file
(`recovery/message_reconcile/database/checkpoint.rs`). A pass holds the lock of the file: it
restores the scan positions and the retry debt, or merges them into what a failed save has left in
memory, repairs, and saves. Instants belong to a process; the file has delays and the wall clock.
-/

namespace AgentMail.Reconcile

open Base

/-! ### Snapshots -/

/-- `SCHEMA_VERSION`. -/
def schemaVersion : Nat := 2

/-- `Binding`. -/
structure Binding where
  database : Text
  archive : Text
  generation : Text
  databaseGeneration : Text
deriving DecidableEq

/-- `Retry`. -/
structure Retry where
  id : Int
  attempts : Nat
  waitUs : Nat

/-- `Conflict`. -/
structure Conflict where
  id : Int
  waitUs : Nat

/-- `Snapshot`. -/
structure Snapshot where
  version : Nat
  binding : Binding
  savedAtUs : Int
  tailAfter : Option Int
  backfillCeiling : Option Int
  nextLaneIsHistory : Bool
  nextLaneIsRetry : Bool
  retries : List Retry
  conflicts : List Conflict

/-- `Duration::as_micros`, and the largest wait. -/
def asMicros (duration : Nat) : Nat := duration / 1000

def maxWaitUs : Nat := asMicros maxRetryBackoff

/-- `wait_us`. -/
def waitUs (until' now : Nat) : Nat := asMicros (min (until' - now) maxRetryBackoff)

/-- Why a checkpoint is refused. -/
inductive CheckpointError where
  | mismatch
  | bounds
  | deferredIds
deriving DecidableEq

namespace Snapshot

/-- `capture`. -/
def capture (binding : Binding) (cursor : ReconcileCursor) (now : Nat) (wallUs : Int) :
    Snapshot where
  version := schemaVersion
  binding := binding
  savedAtUs := wallUs
  tailAfter := cursor.tailAfter
  backfillCeiling := cursor.backfillCeiling
  nextLaneIsHistory := cursor.nextLaneIsHistory
  nextLaneIsRetry := cursor.nextLaneIsRetry
  retries := cursor.retries.map fun retry => ⟨retry.id, retry.attempts, waitUs retry.readyAt now⟩
  conflicts := (cursor.conflictBackoff.filter fun known => decide (now < known.2)).map fun known =>
    ⟨known.1, waitUs known.2 now⟩

/-- The ids of the retry debt. -/
def retryIds (snapshot : Snapshot) : List Int := snapshot.retries.map (·.id)

/-- The deferred ids with their waits. -/
def deferred (snapshot : Snapshot) : List (Int × Nat) :=
  snapshot.retries.map (fun retry => (retry.id, retry.waitUs)) ++
    snapshot.conflicts.map fun conflict => (conflict.id, conflict.waitUs)

/-- The loop of `validate` over the deferred ids. -/
def idsValid (seen : List Int) : List (Int × Nat) → Bool
  | [] => true
  | (id, wait) :: rest =>
    if decide (id ≤ 0) || decide (maxWaitUs < wait) || seen.contains id then false
    else idsValid (id :: seen) rest

/-- `validate`. -/
def validate (snapshot : Snapshot) (binding : Binding) : Except CheckpointError Unit :=
  if decide (snapshot.version ≠ schemaVersion) || decide (snapshot.binding ≠ binding) then
    .error .mismatch
  else if decide (snapshot.savedAtUs ≤ 0) || snapshot.tailAfter.any (fun id => decide (id < 0)) ||
      snapshot.backfillCeiling.any (fun id => decide (id < 0)) ||
      decide (maxRetryIds < snapshot.retries.length) ||
      decide (maxRetryIds < snapshot.conflicts.length) then
    .error .bounds
  else if idsValid [] snapshot.deferred then .ok ()
  else .error .deferredIds

/-- The delay that is left of a wait; a clock that went back has not counted anything down. -/
def readyAt (snapshot : Snapshot) (now : Nat) (wallUs : Int) (wait : Nat) : Nat :=
  now + (wait - (saturatingSub wallUs snapshot.savedAtUs).toNat) * 1000

/-- `restore`. -/
def restore (snapshot : Snapshot) (cursor : ReconcileCursor) (now : Nat) (wallUs : Int) :
    ReconcileCursor :=
  { cursor with
    tailAfter := snapshot.tailAfter
    backfillCeiling := snapshot.backfillCeiling
    nextLaneIsHistory := snapshot.nextLaneIsHistory
    nextLaneIsRetry := snapshot.nextLaneIsRetry
    retries := snapshot.retries.map fun retry =>
      ⟨retry.id, retry.attempts, snapshot.readyAt now wallUs retry.waitUs⟩
    conflictBackoff := snapshot.conflicts.filterMap fun conflict =>
      if now < snapshot.readyAt now wallUs conflict.waitUs then
        some (conflict.id, snapshot.readyAt now wallUs conflict.waitUs)
      else none }

end Snapshot

/-! ### Merging -/

/-- The retry that is retained for an id, when another one is observed. -/
def DeferredRetry.observe (retained retry : DeferredRetry) : DeferredRetry :=
  if retained.attempts < retry.attempts then
    { retained with attempts := retry.attempts, readyAt := max retained.readyAt retry.readyAt }
  else retained

/-- The loop over the retries of both sides. -/
def mergeRetries : List DeferredRetry → List DeferredRetry → Option (List DeferredRetry)
  | retained, [] => some retained
  | retained, retry :: rest =>
    if retained.any fun known => decide (known.id = retry.id) then
      mergeRetries
        (retained.map fun known => if known.id = retry.id then known.observe retry else known) rest
    else if retained.length = maxRetryIds then none
    else mergeRetries (retained ++ [retry]) rest

/-- A conflict that one side has observed. -/
structure Observed where
  isLocal : Bool
  id : Int
  until' : Nat

/-- The loop over the conflicts of both sides. -/
def mergeConflicts (now : Nat) : List DeferredRetry → List (Int × Nat) → List Observed →
    Option (List DeferredRetry × List (Int × Nat))
  | retries, conflicts, [] => some (retries, conflicts)
  | retries, conflicts, observed :: rest =>
    if observed.until' ≤ now then mergeConflicts now retries conflicts rest
    else if retries.any fun known => decide (known.id = observed.id) then
      mergeConflicts now
        (if observed.isLocal then retries.map fun known =>
            if known.id = observed.id then
              { known with readyAt := max known.readyAt observed.until' } else known
          else retries) conflicts rest
    else if conflicts.any fun known => decide (known.1 = observed.id) then
      mergeConflicts now retries
        (if observed.isLocal then conflicts.map fun known =>
            if known.1 = observed.id then (known.1, max known.2 observed.until') else known
          else conflicts) rest
    else if conflicts.length = maxRetryIds then none
    else mergeConflicts now retries (conflicts ++ [(observed.id, observed.until')]) rest

/-- What the checkpoint owes: after the clock went back its retries are ready, and its conflicts are
left out. -/
def durableDebt (snapshot : Snapshot) (now : Nat) (wallUs : Int) : ReconcileCursor :=
  let durable := snapshot.restore .default now wallUs
  if wallUs < snapshot.savedAtUs then
    { durable with
      retries := durable.retries.map fun retry => { retry with readyAt := now }
      conflictBackoff := [] }
  else durable

/-- `merge_unsaved_debt`. -/
def mergeUnsavedDebt (cursor : ReconcileCursor) (snapshot : Snapshot) (now : Nat) (wallUs : Int) :
    Bool × ReconcileCursor :=
  let durable := durableDebt snapshot now wallUs
  match mergeRetries [] (cursor.retries ++ durable.retries) with
  | none => (false, cursor)
  | some retries =>
    match mergeConflicts now retries []
      (cursor.conflictBackoff.map (fun known => ⟨true, known.1, known.2⟩) ++
        durable.conflictBackoff.map fun known => ⟨false, known.1, known.2⟩) with
    | none => (false, cursor)
    | some (retries, conflicts) =>
      (true, { cursor with retries := retries, conflictBackoff := conflicts })

/-! ### The store -/

/-- `RestoreState`, and the errors of `Store::restore`. -/
inductive RestoreState where
  | absent
  | restored
  | merged
  | capacityBlocked
  | invalid (error : CheckpointError)
  | otherBinding
deriving DecidableEq

/-- `Store::restore`, for the checkpoint that was read. -/
def restoreCheckpoint (binding : Binding) (file : Option Snapshot) (cursor : ReconcileCursor)
    (now : Nat) (wallUs : Int) : RestoreState × ReconcileCursor :=
  match file with
  | none => (.absent, cursor)
  | some snapshot =>
    match snapshot.validate snapshot.binding with
    | .error error => (.invalid error, cursor)
    | .ok _ =>
      if snapshot.binding ≠ binding then
        (.otherBinding, { cursor with
          tailAfter := none
          backfillCeiling := none
          nextLaneIsHistory := false
          startupBackfillComplete := false })
      else if cursor.checkpointDirty then
        let merged := mergeUnsavedDebt cursor snapshot now wallUs
        (if merged.1 then .merged else .capacityBlocked, merged.2)
      else (.restored, snapshot.restore cursor now wallUs)

/-- What becomes of a save: it fails before the file is replaced, or after it, or does not fail. -/
inductive Saving where
  | refused
  | published
  | unsynced

/-- `Store::save_with`: whether the save succeeded, and the file. -/
def saveCheckpoint (binding : Binding) (file : Option Snapshot) (cursor : ReconcileCursor)
    (now : Nat) (wallUs : Int) (saving : Saving) : Bool × Option Snapshot :=
  let snapshot := Snapshot.capture binding cursor now wallUs
  match snapshot.validate binding with
  | .error _ => (false, file)
  | .ok _ =>
    match saving with
    | .refused => (false, file)
    | .published => (true, some snapshot)
    | .unsynced => (false, some snapshot)

/-! ### A pass of a worker -/

/-- What a pass of a worker meets. -/
structure Visit where
  /-- The checkpoint is available. -/
  storeOpen : Bool
  restoredAt : Nat
  restoreWallUs : Int
  pass : Pass
  savedAt : Nat
  saveWallUs : Int
  saving : Saving

/-- What a pass of a worker did. -/
structure VisitReport where
  /-- What `Store::restore` said, if the checkpoint was available. -/
  restored : Option RestoreState
  response : Response
  saved : Bool

/-- `checkpoint::run`, from the checkpoint file and the cursor of the worker. -/
def runVisit (source : Text) (binding : Binding) (visit : Visit) (file : Option Snapshot)
    (cursor : ReconcileCursor) : VisitReport × Option Snapshot × ReconcileCursor :=
  let bound := cursor.bind source
  let restored := if visit.storeOpen then
      let restored := restoreCheckpoint binding file bound visit.restoredAt visit.restoreWallUs
      (some restored.1, restored.2)
    else (none, bound)
  let passed := reconcileMessageBatchInner visit.pass restored.2
  let dirty : ReconcileCursor := { passed.2 with checkpointDirty := true }
  if visit.storeOpen && decide (restored.1 ≠ some .capacityBlocked) &&
      decide (dirty.sourceIdentity = source) then
    let saved := saveCheckpoint binding file dirty visit.savedAt visit.saveWallUs visit.saving
    (⟨restored.1, passed.1, saved.1⟩, saved.2,
      if saved.1 then { dirty with checkpointDirty := false } else dirty)
  else (⟨restored.1, passed.1, false⟩, file, dirty)

end AgentMail.Reconcile
