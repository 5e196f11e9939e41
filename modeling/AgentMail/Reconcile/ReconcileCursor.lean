import AgentMail.Refusal.Ledger
import Mathlib.Data.List.Sort
import Mathlib.Data.List.MinMax

/-!
# The cursor of archive repair

The maintenance worker walks over the live messages in bounded passes and repairs what the archive
lacks (`recovery/message_reconcile/database.rs`). Its cursor says how far the newest mail and the
descending history were read, and which ids are to be tried again or are in conflict.
-/

namespace AgentMail.Reconcile

open Base

/-! ### Bounds -/

/-- `IDS_PER_LANE`. -/
def idsPerLane : Nat := 16

/-- `MAX_REPAIRS_PER_BATCH`. -/
def maxRepairsPerBatch : Nat := 4

/-- `MAX_BATCH_PAYLOAD_BYTES`. -/
def maxBatchPayloadBytes : Nat := 16 * 1024 * 1024

/-- `NORMAL_ARCHIVE_GRACE_US`. -/
def normalArchiveGraceUs : Int := 30 * 1000000

/-- `MAX_ARCHIVE_LAG_GRACE_US`. -/
def maxArchiveLagGraceUs : Nat := 10 * 60 * 1000000

/-- `MAX_RETRY_IDS`. -/
def maxRetryIds : Nat := 1024

/-- `MAX_RETRIES_PER_PASS`. -/
def maxRetriesPerPass : Nat := 16

/-- `MAX_IDS_PER_PASS`. -/
def maxIdsPerPass : Nat := 32

/-- `Duration::from_secs`; instants and durations are in nanoseconds. -/
def secs (n : Nat) : Nat := n * 10 ^ 9

/-- `MAX_RETRY_BACKOFF`. -/
def maxRetryBackoff : Nat := secs 60

/-- `u32::MAX`. -/
def u32Max : Nat := 2 ^ 32 - 1

/-! ### The cursor -/

/-- `DeferredRetry`. -/
structure DeferredRetry where
  id : Int
  attempts : Nat
  readyAt : Nat

/-- `ReconcileCursor`. -/
structure ReconcileCursor where
  sourceIdentity : Text
  tailAfter : Option Int
  backfillCeiling : Option Int
  nextLaneIsHistory : Bool
  nextLaneIsRetry : Bool
  settledBeforeUs : Int
  startupBackfillComplete : Bool
  retries : List DeferredRetry
  conflictBackoff : List (Int × Nat)
  persistProgress : Bool
  checkpointDirty : Bool

namespace ReconcileCursor

/-- `Default`. -/
def default : ReconcileCursor where
  sourceIdentity := []
  tailAfter := none
  backfillCeiling := none
  nextLaneIsHistory := false
  nextLaneIsRetry := false
  settledBeforeUs := 0
  startupBackfillComplete := false
  retries := []
  conflictBackoff := []
  persistProgress := false
  checkpointDirty := false

/-- `settled_before`. -/
def settledBefore (settledBeforeUs : Int) : ReconcileCursor :=
  { default with settledBeforeUs := settledBeforeUs, persistProgress := true }

/-- The ids of the retry lane. -/
def retryIds (cursor : ReconcileCursor) : List Int := cursor.retries.map (·.id)

/-- `advance`. -/
def advance (cursor : ReconcileCursor) (id : Int) (tail : Bool) : ReconcileCursor :=
  if tail then
    { cursor with tailAfter := some (max (cursor.tailAfter.getD 0) id), nextLaneIsHistory := true }
  else
    { cursor with backfillCeiling := some (saturatingSub id 1), nextLaneIsHistory := false }

/-- `forget_retry`. -/
def forgetRetry (cursor : ReconcileCursor) (id : Int) : ReconcileCursor :=
  { cursor with retries := cursor.retries.filter fun retry => decide (retry.id ≠ id) }

/-- The delay of `defer_transient` after so many attempts. -/
def backoff (attempts : Nat) : Nat :=
  if attempts = 0 then 0 else min (secs (2 ^ min (attempts - 1) 6)) maxRetryBackoff

/-- `defer_transient`. -/
def deferTransient (cursor : ReconcileCursor) (id : Int) (now : Nat) : ReconcileCursor :=
  let previous := cursor.retries.find? fun retry => decide (retry.id = id)
  let attempts := (previous.map fun retry => min u32Max (retry.attempts + 1)).getD 0
  { cursor with
    retries := cursor.retries.eraseP (fun retry => decide (retry.id = id)) ++
      [⟨id, attempts, now + backoff attempts⟩] }

/-- `defer_conflict`. -/
def deferConflict (cursor : ReconcileCursor) (id : Int) (now : Nat) : ReconcileCursor :=
  let forgotten := cursor.forgetRetry id
  let kept := cursor.conflictBackoff.filter fun known =>
    decide (known.1 ≠ id) && decide (now < known.2)
  let room := if kept.length = maxRetryIds then kept.drop 1 else kept
  { forgotten with conflictBackoff := room ++ [(id, now + maxRetryBackoff)] }

/-- Whether the id is on the retry lane. -/
def retains (cursor : ReconcileCursor) (id : Int) : Bool :=
  cursor.retries.any fun retry => decide (retry.id = id)

/-- Whether a conflict of the id is cooling down. -/
def conflicted (cursor : ReconcileCursor) (id : Int) (now : Nat) : Bool :=
  cursor.conflictBackoff.any fun known => decide (known.1 = id) && decide (now < known.2)

end ReconcileCursor

/-! ### Selection -/

/-- A row of `messages`, as far as selection reads it. -/
structure Message where
  id : Int
  createdTs : Int
  positive : 0 < id
  inRange : id ≤ i64Max

/-- The rows of `messages` in the order of their key. -/
structure Messages where
  rows : List Message
  sorted : rows.Pairwise fun a b => a.id < b.id

/-- `SELECT COALESCE(MAX(id), 0) FROM messages`. -/
def Messages.maxId (messages : Messages) : Int := ((messages.rows.map (·.id)).max?).getD 0

/-- The ids that fulfil a condition on the row, ascending. -/
def Messages.ids (messages : Messages) (condition : Message → Bool) : List Int :=
  (messages.rows.filter condition).map (·.id)

/-- `normal_archive_cutoff`. -/
def normalArchiveCutoff (nowUs settledBeforeUs : Int) (archiveLagUs : Nat) : Int :=
  let lagGraceUs := (min archiveLagUs maxArchiveLagGraceUs : Nat)
  max (saturatingSub (saturatingSub nowUs normalArchiveGraceUs) lagGraceUs) settledBeforeUs

/-- The page of the newest mail in `select_ids`. -/
def tailPage (messages : Messages) (cursor : ReconcileCursor) (cutoff : Int) : List Int :=
  let page := match cursor.tailAfter with
    | some after => (messages.ids fun row =>
        decide (after < row.id) && decide (row.createdTs ≤ cutoff)).take idsPerLane
    | none => (messages.ids fun row => decide (row.createdTs ≤ cutoff)).reverse.take idsPerLane
  page.insertionSort (· ≤ ·)

/-- The page of the history in `select_ids`. -/
def historyPage (messages : Messages) (cursor : ReconcileCursor) (cutoff : Int) : List Int :=
  (messages.ids fun row => decide (0 < row.id) &&
    decide (row.id ≤ cursor.backfillCeiling.getD messages.maxId) &&
    decide (row.createdTs ≤ cutoff)).reverse.take idsPerLane

/-- `interleave_ids`. -/
def interleaveIds (tail history : List Int) (historyFirst : Bool) : List (Int × Bool) :=
  (List.range (max tail.length history.length)).flatMap fun index =>
    let fromTail := (tail[index]?.map fun id => (id, true)).toList
    let fromHistory := (history[index]?.map fun id => (id, false)).toList
    if historyFirst then fromHistory ++ fromTail else fromTail ++ fromHistory

/-- What a pass meets while it selects. -/
structure Source where
  identity : Text
  /-- The source was acquired, can be written, and its maximal id was read. -/
  opened : Bool
  messages : Messages
  /-- Both pages were read. -/
  listed : Bool

namespace ReconcileCursor

/-- `select_ids`, up to the pool: another source starts a new cursor. -/
def bind (cursor : ReconcileCursor) (identity : Text) : ReconcileCursor :=
  if identity ≠ cursor.sourceIdentity then
    { default with
      sourceIdentity := identity
      settledBeforeUs := cursor.settledBeforeUs
      persistProgress := cursor.persistProgress }
  else cursor

/-- The newest mail was read up to an id that does not exist any more. -/
def outruns (cursor : ReconcileCursor) (messages : Messages) : Bool :=
  cursor.tailAfter.any fun after => decide (messages.maxId < after)

/-- `select_ids`, up to the pages: a source that lost its newest rows is scanned anew. -/
def rewind (cursor : ReconcileCursor) (messages : Messages) : ReconcileCursor :=
  if cursor.outruns messages then
    { cursor with
      tailAfter := none
      backfillCeiling := none
      nextLaneIsHistory := false
      startupBackfillComplete := false }
  else cursor

/-- The end of a history round. -/
def wrap (cursor : ReconcileCursor) : ReconcileCursor :=
  { cursor with backfillCeiling := none, startupBackfillComplete := true }

end ReconcileCursor

/-- `select_ids`, with the cursor it leaves. -/
def selectIds (source : Source) (cursor : ReconcileCursor) (cutoff : Int) :
    ReconcileCursor × Option (List (Int × Bool)) :=
  let bound := cursor.bind source.identity
  if !source.opened then (bound, none)
  else
    let current := bound.rewind source.messages
    if !source.listed then (current, none)
    else
      let tail := tailPage source.messages current cutoff
      let history := historyPage source.messages current cutoff
      let current := if history.isEmpty then current.wrap else current
      (current, some (interleaveIds tail history current.nextLaneIsHistory))

/-! ### Seeding -/

/-- What seeding reads of a ticket of the ledger of failed writes. Only messages with a positive id
become witnesses. -/
structure FailedWrite where
  scope : Refusal.Scope
  id : Int
  readyAt : Nat
  positive : 0 < id

/-- The ledger of failed writes as it is when a pass seeds its retries. -/
structure Seeding where
  durabilityDegraded : Bool
  diskIsCritical : Bool
  scope : Option Refusal.Scope
  now : Nat
  entries : List FailedWrite

/-- The loop of `ready_tickets`. -/
def collectReady (scope : Refusal.Scope) (cursor : ReconcileCursor) (now limit : Nat) :
    List FailedWrite → List FailedWrite → List FailedWrite
  | ready, [] => ready
  | ready, entry :: entries =>
    if ready.length = limit then ready
    else if decide (entry.scope ≠ scope) || decide (now < entry.readyAt) ||
        cursor.retains entry.id || cursor.conflicted entry.id now ||
        ready.any (fun ticket => decide (ticket.id = entry.id)) then
      collectReady scope cursor now limit ready entries
    else collectReady scope cursor now limit (ready ++ [entry]) entries

/-- `ready_tickets`. -/
def readyTickets (entries : List FailedWrite) (scope : Refusal.Scope) (cursor : ReconcileCursor)
    (now : Nat) : List FailedWrite :=
  collectReady scope cursor now (min (maxRetryIds - cursor.retries.length) maxRetriesPerPass) []
    entries

/-- The loop of `seed_retries`, with the ids that were put on the retry lane. -/
def seedTickets (now : Nat) (cursor : ReconcileCursor) :
    List FailedWrite → ReconcileCursor × List Int
  | [] => (cursor, [])
  | ticket :: tickets =>
    if maxRetryIds ≤ cursor.retries.length then (cursor, [])
    else if cursor.retains ticket.id || cursor.conflicted ticket.id now then
      seedTickets now cursor tickets
    else
      let seeded := seedTickets now
        { cursor.deferTransient ticket.id now with nextLaneIsRetry := true } tickets
      (seeded.1, ticket.id :: seeded.2)

/-- `seed_retries`. -/
def seedRetries (seeding : Seeding) (cursor : ReconcileCursor) : ReconcileCursor × List Int :=
  if !seeding.durabilityDegraded || seeding.diskIsCritical then (cursor, [])
  else match seeding.scope with
    | none => (cursor, [])
    | some scope =>
      seedTickets seeding.now cursor (readyTickets seeding.entries scope cursor seeding.now)

end AgentMail.Reconcile
