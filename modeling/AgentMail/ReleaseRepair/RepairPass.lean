import AgentMail.Lib.Table
import AgentMail.Reconcile.ReconcileCursor

/-!
# The retry queue of release repair

Ids of releases whose publication met a busy archive
(`crates/mcp-agent-mail-storage/src/recovery/reservation_reconcile/retry.rs:13–75`). The checkpoint
of the queue is not part of a pass.
-/

namespace AgentMail.ReleaseRepair

open Base Lib List

/-- `MAX_RETRY_IDS`. -/
def maxRetryIds : Nat := 1024

/-- `RETRY_IDS_PER_BATCH`. -/
def retryIdsPerBatch : Nat := 8

/-- `MAX_BACKOFF`. -/
def maxBackoff : Nat := Reconcile.secs 60

structure DeferredRelease where
  id : Int
  attempts : Nat
  readyAt : Nat

structure RetryQueue where
  pending : List DeferredRelease

namespace RetryQueue

def contains (queue : RetryQueue) (id : Int) : Bool :=
  queue.pending.any fun retry => decide (retry.id = id)

def isFull (queue : RetryQueue) : Bool := decide (queue.pending.length ≥ maxRetryIds)

def forget (queue : RetryQueue) (id : Int) : RetryQueue :=
  ⟨queue.pending.filter fun retry => decide (retry.id ≠ id)⟩

/-- `defer`, and whether the id was kept. -/
def defer (queue : RetryQueue) (id : Int) (now : Nat) : Bool × RetryQueue :=
  let previous := queue.pending.find? fun retry => decide (retry.id = id)
  if previous.isNone && queue.isFull then (false, queue)
  else
    let attempts := (previous.map fun retry => min Reconcile.u32Max (retry.attempts + 1)).getD 0
    let backoff :=
      if attempts = 0 then 0 else min (Reconcile.secs (2 ^ min (attempts - 1) 6)) maxBackoff
    (true, ⟨queue.pending.eraseP (fun retry => decide (retry.id = id)) ++
      [⟨id, attempts, now + backoff⟩]⟩)

def due (queue : RetryQueue) (now : Nat) : List Int :=
  ((queue.pending.filter fun retry => decide (retry.readyAt ≤ now)).take retryIdsPerBatch).map (·.id)

/-! ### What the operations do to the ids -/

def ids (queue : RetryQueue) : List Int := queue.pending.map (·.id)

/-- The ids are distinct, and no more than fit. -/
structure Sound (queue : RetryQueue) : Prop where
  distinct : queue.ids.Nodup
  bounded : queue.ids.length ≤ maxRetryIds

variable {queue : RetryQueue} {id id' : Int} {now : Nat}

theorem contains_iff : queue.contains id = true ↔ id ∈ queue.ids := by
  simp [contains, ids]

theorem isFull_eq_false : queue.isFull = false ↔ queue.ids.length < maxRetryIds := by
  simp [isFull, ids]

theorem ids_forget (queue : RetryQueue) (id : Int) :
    (queue.forget id).ids = queue.ids.filter fun known => decide (known ≠ id) := by
  rw [ids, ids, filter_map]
  rfl

theorem mem_ids_forget : id' ∈ (queue.forget id).ids ↔ id' ≠ id ∧ id' ∈ queue.ids := by
  rw [ids_forget, mem_filter, decide_eq_true_eq, and_comm]

theorem Sound.forget (h : queue.Sound) (id : Int) : (queue.forget id).Sound where
  distinct := by
    rw [ids_forget]
    exact h.distinct.filter _
  bounded := by
    rw [ids_forget]
    exact (length_filter_le _ _).trans h.bounded

/-- An id for which there is room is kept at the end of the queue. -/
theorem defer_of_room (hroom : id ∈ queue.ids ∨ queue.isFull = false) (now : Nat) :
    (queue.defer id now).1 = true ∧ (queue.defer id now).2.ids = queue.ids.erase id ++ [id] := by
  have htaken : ((queue.pending.find? fun retry => decide (retry.id = id)).isNone &&
      queue.isFull) = false := by
    rcases hroom with hmem | hfree
    · obtain ⟨retry, hretry, rfl⟩ := mem_map.mp hmem
      have hsome : (queue.pending.find? fun known => decide (known.id = retry.id)).isSome = true :=
        List.find?_isSome.mpr ⟨retry, hretry, decide_eq_true rfl⟩
      rw [← Option.not_isSome, hsome]
      rfl
    · rw [hfree, Bool.and_false]
  unfold defer
  simp only [htaken, Bool.false_eq_true, if_false]
  refine ⟨trivial, ?_⟩
  simp only [ids, map_append, map_cons, map_nil, map_eraseP_key]

theorem mem_ids_defer (h : queue.Sound) (hroom : id ∈ queue.ids ∨ queue.isFull = false) :
    id' ∈ (queue.defer id now).2.ids ↔ id' = id ∨ id' ∈ queue.ids := by
  rw [(defer_of_room hroom now).2, mem_append, h.distinct.mem_erase_iff, mem_singleton]
  by_cases heq : id' = id <;> simp [heq]

theorem Sound.defer (h : queue.Sound) (hroom : id ∈ queue.ids ∨ queue.isFull = false) :
    (queue.defer id now).2.Sound where
  distinct := by
    rw [(defer_of_room hroom now).2, nodup_append]
    refine ⟨h.distinct.erase id, nodup_singleton id, fun known hknown other hother => ?_⟩
    rw [mem_singleton] at hother
    rw [hother]
    exact (h.distinct.mem_erase_iff.mp hknown).1
  bounded := by
    have hbounded := h.bounded
    rw [(defer_of_room hroom now).2, length_append, length_singleton]
    by_cases hmem : id ∈ queue.ids
    · have hpos := length_pos_of_mem hmem
      rw [length_erase_of_mem hmem]
      omega
    · rw [erase_of_not_mem hmem]
      have := isFull_eq_false.mp (hroom.resolve_left hmem)
      omega

theorem due_sublist (queue : RetryQueue) (now : Nat) : (queue.due now).Sublist queue.ids :=
  ((take_sublist _ _).trans filter_sublist).map _

theorem length_due (queue : RetryQueue) (now : Nat) : (queue.due now).length ≤ retryIdsPerBatch := by
  rw [due, length_map]
  exact length_take_le _ _

end RetryQueue

end AgentMail.ReleaseRepair

/-!
## A pass of release repair

`run_admitted` with the selections of its two lanes
(`crates/mcp-agent-mail-storage/src/recovery/reservation_reconcile/retry.rs:104–275`, `323–417`,
`crates/mcp-agent-mail-storage/src/recovery/reservation_reconcile.rs:27–31`, `260–311`). What the
source, the archive, the clocks and the stop requests do comes with the pass. A pass keeps a record
of what it attempted, passed and stopped before.
-/

namespace AgentMail.ReleaseRepair

open Base List

/-- `RETRY_REPAIRS_PER_BATCH`. -/
def retryRepairsPerBatch : Nat := 2

/-- `PRIORITY_ROWS_PER_PAGE`. -/
def priorityRowsPerPage : Nat := 128

/-- `IDS_PER_BATCH`. -/
def idsPerBatch : Int := 32

/-- `MAX_REPAIRS_PER_BATCH`. -/
def maxRepairsPerBatch : Nat := 4

/-- `PRIORITY_IDS_PER_BATCH`. -/
def priorityIdsPerBatch : Int := 16

/-- `PRIORITY_REPAIRS_PER_BATCH`. -/
def priorityRepairsPerBatch : Nat := 2

/-! ### The source -/

/-- A row of `file_reservations`, and whether `file_reservation_releases` has a row for it. -/
structure Reservation where
  id : Int
  expiresTs : Int
  releasedTs : Option Int
  inLedger : Bool
  positive : 0 < id

/-- Released and unexpired. -/
def Reservation.eligible (row : Reservation) (nowUs : Int) : Bool :=
  decide (row.expiresTs > nowUs) && (row.releasedTs.isSome || row.inLedger)

/-- The reservations in the order of their primary key. -/
structure Reservations where
  rows : List Reservation
  sorted : rows.Pairwise fun a b => a.id < b.id

/-- `SELECT COALESCE(MAX(id), 0)`. -/
def Reservations.maxId (reservations : Reservations) : Int :=
  (reservations.rows.map (·.id)).max?.getD 0

/-- `WHERE fr.id > ? AND fr.id <= ? ORDER BY fr.id`. -/
def Reservations.between (reservations : Reservations) (after ceiling : Int) : List Reservation :=
  reservations.rows.filter fun row => decide (after < row.id) && decide (row.id ≤ ceiling)

/-- What a selection meets: whether it gets a connection, what its two queries give, the clock of
the second and whether it was cancelled in the end. -/
structure Selection where
  connection : Except Text Unit
  queryOnly : Bool
  aggregate : Except Text Reservations
  page : Except Text Reservations
  nowUs : Int
  cancelled : Bool

/-! ### Positions and lanes -/

structure ScanPosition where
  after : Int
  ceiling : Option Int

def ScanPosition.default : ScanPosition := ⟨0, none⟩

/-- `advance`. -/
def ScanPosition.advance (position : ScanPosition) (id : Int) : ScanPosition where
  after := id
  ceiling := if position.ceiling = some id then none else position.ceiling

inductive Lane where
  | priority
  | history
  deriving DecidableEq

structure ReservationReconcileCursor where
  priority : ScanPosition
  history : ScanPosition
  retries : RetryQueue

namespace ReservationReconcileCursor

/-- `Default`. -/
def default : ReservationReconcileCursor := ⟨.default, .default, ⟨[]⟩⟩

def position (cursor : ReservationReconcileCursor) : Lane → ScanPosition
  | .priority => cursor.priority
  | .history => cursor.history

def setPosition (cursor : ReservationReconcileCursor) (lane : Lane) (position : ScanPosition) :
    ReservationReconcileCursor :=
  match lane with
  | .priority => { cursor with priority := position }
  | .history => { cursor with history := position }

end ReservationReconcileCursor

/-! ### Selecting -/

/-- The part of both `select_ids` before the page: the position with a ceiling. -/
def Selection.begin (selection : Selection) (position : ScanPosition) : Except Text ScanPosition :=
  match selection.connection with
  | .error reason => .error reason
  | .ok () =>
    if selection.queryOnly then
      .error "query-only snapshots cannot authorize reservation archive repair".toList
    else
      match position.ceiling with
      | some _ => .ok position
      | none =>
        match selection.aggregate with
        | .error reason => .error reason
        | .ok reservations => .ok ⟨0, some reservations.maxId⟩

/-- `super::select_ids`; the limit is positive. -/
def selectAnyIds (selection : Selection) (position : ScanPosition) (limit : Int)
    (unexpiredOnly : Bool) : Except Text (List Int) × ScanPosition :=
  match selection.begin position with
  | .error reason => (.error reason, position)
  | .ok position =>
    match selection.page with
    | .error reason => (.error reason, position)
    | .ok reservations =>
      let rows := ((reservations.between position.after (position.ceiling.getD 0)).filter fun row =>
        !unexpiredOnly || row.eligible selection.nowUs).take limit.toNat
      (.ok (rows.map (·.id)), if rows.isEmpty then { position with ceiling := none } else position)

/-- The loop over a page of the priority lane: the ids and the last id of the page. -/
def scanPage (ceiling : Int) (limit : Nat) :
    Int → List Int → List (Int × Bool) → Option (List Int × Int)
  | last, ids, [] => some (ids, last)
  | last, ids, (id, eligible) :: rows =>
    if id ≤ last ∨ id > ceiling then none
    else scanPage ceiling limit id (if eligible && decide (ids.length < limit) then ids ++ [id] else ids) rows

/-- `select_ids` of the priority lane. -/
def selectPriorityIds (selection : Selection) (position : ScanPosition) (limit : Int) :
    Except Text (List Int) × ScanPosition :=
  if ¬ (0 < limit ∧ limit ≤ priorityRowsPerPage) then
    (.error "invalid reservation priority candidate budget".toList, position)
  else
    match selection.begin position with
    | .error reason => (.error reason, position)
    | .ok position =>
      match selection.page with
      | .error reason => (.error reason, position)
      | .ok reservations =>
        let ceiling := position.ceiling.getD 0
        let rows := (reservations.between position.after ceiling).take priorityRowsPerPage
        if rows.isEmpty then (.ok [], { position with ceiling := none })
        else
          match scanPage ceiling limit.toNat position.after []
              (rows.map fun row => (row.id, row.eligible selection.nowUs)) with
          | none =>
            (.error "reservation priority page contains invalid selection evidence".toList, position)
          | some (ids, last) =>
            (.ok ids,
              if ids.isEmpty && !selection.cancelled then position.advance last else position)

/-- `select_ids`. -/
def selectIds (selection : Selection) (position : ScanPosition) (limit : Int) :
    Lane → Except Text (List Int) × ScanPosition
  | .priority => selectPriorityIds selection position limit
  | .history => selectAnyIds selection position limit false

/-! ### Attempts -/

/-- `ReleaseFailure`, as far as it decides. -/
structure ReleaseFailure where
  transient : Bool
  deriving DecidableEq

/-- `ReservationReconcileReport`. -/
structure ReservationReconcileReport where
  scanned : Nat
  unchanged : Nat
  attempted : Nat
  repaired : Nat
  deferred : Nat
  deferredTransient : Nat
  retryLen : Nat
  interrupted : Bool
  budgetExhausted : Bool

def ReservationReconcileReport.default : ReservationReconcileReport :=
  ⟨0, 0, 0, 0, 0, 0, 0, false, false⟩

/-- What an id meets: a stop request or the breaker before the attempt, whether the attempt began a
publication and what came of it, and a stop request after it. -/
structure Turn where
  stopped : Bool
  breakerTripped : Bool
  started : Bool
  result : Except ReleaseFailure Bool
  stoppedAfter : Bool
  now : Nat

/-- An attempt, with the result that was recorded unless the attempt was interrupted. -/
structure Attempt where
  id : Int
  started : Bool
  recorded : Option (Except ReleaseFailure Bool)

/-- An id that a lane has passed, with the ids that the retry queue held then. -/
structure Passed where
  lane : Lane
  id : Int
  retained : List Int

/-- The variables of `run_admitted`, and the record of the pass. -/
structure Walk where
  cursor : ReservationReconcileCursor
  report : ReservationReconcileReport
  selectedCount : Int
  seen : List Int
  turn : Nat
  attempts : List Attempt
  passed : List Passed
  stops : List (Lane × Int)
  ceilings : List (Lane × Int)

def Walk.start (cursor : ReservationReconcileCursor) : Walk :=
  ⟨cursor, .default, 0, [], 0, [], [], [], []⟩

/-- `record_result`. -/
def recordResult (id : Int) (result : Except ReleaseFailure Bool) (queue : RetryQueue)
    (report : ReservationReconcileReport) (now : Nat) :
    Bool × RetryQueue × ReservationReconcileReport :=
  let report := { report with scanned := report.scanned + 1 }
  match result with
  | .ok repaired =>
    (true, queue.forget id, if repaired then { report with repaired := report.repaired + 1 }
      else { report with unchanged := report.unchanged + 1 })
  | .error error =>
    let report := { report with deferred := report.deferred + 1 }
    if error.transient then
      let report := { report with deferredTransient := report.deferredTransient + 1 }
      let (kept, queue) := queue.defer id now
      if kept then (true, queue, report)
      else (false, queue, { report with budgetExhausted := true })
    else (true, queue.forget id, report)

/-- `attempt`; `false` leaves the candidate unconsumed. -/
def attempt (turn : Turn) (id : Int) (w : Walk) : Bool × Walk :=
  let report := { w.report with attempted := w.report.attempted + turn.started.toNat }
  if turn.stoppedAfter then
    (false, { w with
      report := { report with interrupted := true }
      attempts := w.attempts ++ [⟨id, turn.started, none⟩] })
  else
    let (consumed, queue, report) := recordResult id turn.result w.cursor.retries report turn.now
    (consumed, { w with
      cursor := { w.cursor with retries := queue }
      report := report
      attempts := w.attempts ++ [⟨id, turn.started, some turn.result⟩] })

/-! ### The pass -/

/-- How a part of the pass ends: the pass goes on, leaves its lanes, or returns. -/
inductive Exit where
  | done
  | leave
  | finished
  | failed (reason : Text)

structure Pass where
  now : Nat
  turns : Nat → Turn
  priority : Selection
  history : Selection

def Pass.selection (pass : Pass) : Lane → Selection
  | .priority => pass.priority
  | .history => pass.history

def Walk.interrupt (w : Walk) : Walk := { w with report := { w.report with interrupted := true } }

def Walk.exhaust (w : Walk) : Walk := { w with report := { w.report with budgetExhausted := true } }

/-- The turn of the next id is taken. -/
def Walk.next (w : Walk) : Walk := { w with turn := w.turn + 1 }

def Walk.see (w : Walk) (id : Int) : Walk := { w with seen := w.seen ++ [id] }

/-- The lane stops before an id. -/
def Walk.stop (w : Walk) (lane : Lane) (id : Int) : Walk := { w with stops := w.stops ++ [(lane, id)] }

/-- `advance` in a lane. -/
def Walk.pass (w : Walk) (lane : Lane) (id : Int) : Walk :=
  { w with
    cursor := w.cursor.setPosition lane ((w.cursor.position lane).advance id)
    passed := w.passed ++ [⟨lane, id, w.cursor.retries.ids⟩] }

def breakerOpen : Text := "reservation reconciliation stopped: source corruption observed".toList

/-- The ids whose retry is due. -/
def retryLoop (turns : Nat → Turn) : List Int → Walk → Exit × Walk
  | [], w => (.done, w)
  | id :: ids, w =>
    let turn := turns w.turn
    let w := w.next
    if turn.stopped then (.finished, w.interrupt)
    else if w.report.attempted ≥ retryRepairsPerBatch then (.done, w.exhaust)
    else if turn.breakerTripped then (.failed breakerOpen, w)
    else
      match attempt turn id w with
      | (false, w) => (.finished, w)
      | (true, w) => retryLoop turns ids (w.see id)

/-- The ids that a lane has selected. -/
def scanLoop (turns : Nat → Turn) (lane : Lane) (repairLimit : Nat) : List Int → Walk → Exit × Walk
  | [], w => (.done, w)
  | id :: ids, w =>
    let turn := turns w.turn
    let w := w.next
    if turn.stopped then (.finished, (w.stop lane id).interrupt)
    else if w.seen.contains id || w.cursor.retries.contains id then
      scanLoop turns lane repairLimit ids (w.pass lane id)
    else if w.report.attempted ≥ repairLimit || w.cursor.retries.isFull then
      (.done, (w.stop lane id).exhaust)
    else if turn.breakerTripped then (.failed breakerOpen, w.stop lane id)
    else
      match attempt turn id w with
      | (false, w) => (.finished, w.stop lane id)
      | (true, w) => scanLoop turns lane repairLimit ids ((w.see id).pass lane id)

/-- The ceiling with which a selection reads its page. -/
def Selection.ceiling? (selection : Selection) (position : ScanPosition) : Option Int :=
  (selection.begin position).toOption.bind (·.ceiling)

/-- One round of the loop over the lanes. -/
def laneLoop (pass : Pass) (priorityLimit : Nat) (lane : Lane) (w : Walk) : Exit × Walk :=
  let remaining := idsPerBatch - w.selectedCount
  let idLimit := if lane = .priority then min priorityIdsPerBatch remaining else remaining
  if idLimit = 0 then (.leave, w)
  else
    let repairLimit := if lane = .priority then priorityLimit else maxRepairsPerBatch
    let position := w.cursor.position lane
    let (ids, position') := selectIds (pass.selection lane) position idLimit lane
    let w := { w with
      cursor := w.cursor.setPosition lane position'
      ceilings := w.ceilings ++ (((pass.selection lane).ceiling? position).map (lane, ·)).toList }
    match ids with
    | .error reason => (.failed reason, w)
    | .ok ids =>
      scanLoop pass.turns lane repairLimit ids
        { w with selectedCount := w.selectedCount + ids.length }

/-- The loop over the lanes. -/
def lanesLoop (pass : Pass) (priorityLimit : Nat) : List Lane → Walk → Exit × Walk
  | [], w => (.done, w)
  | lane :: lanes, w =>
    match laneLoop pass priorityLimit lane w with
    | (.done, w) => lanesLoop pass priorityLimit lanes w
    | stopped => stopped

/-- What a pass gives back, and its record. -/
structure Response where
  result : Except Text ReservationReconcileReport
  attempts : List Attempt
  passed : List Passed
  stops : List (Lane × Int)
  ceilings : List (Lane × Int)

/-- `finish`. -/
def Walk.finish (w : Walk) : ReservationReconcileReport :=
  { w.report with retryLen := w.cursor.retries.pending.length }

def Walk.response (w : Walk) (result : Except Text ReservationReconcileReport) : Response :=
  ⟨result, w.attempts, w.passed, w.stops, w.ceilings⟩

/-- The walk of a pass up to its end. -/
def walk (pass : Pass) (cursor : ReservationReconcileCursor) : Exit × Walk :=
  let due := cursor.retries.due pass.now
  match retryLoop pass.turns due { Walk.start cursor with selectedCount := due.length } with
  | (.done, w) =>
    let priorityLimit := min (w.report.attempted + priorityRepairsPerBatch) (maxRepairsPerBatch - 1)
    lanesLoop pass priorityLimit [.priority, .history] w
  | stopped => stopped

/-- `run_admitted`. -/
def runAdmitted (pass : Pass) (cursor : ReservationReconcileCursor) :
    Response × ReservationReconcileCursor :=
  match walk pass cursor with
  | (.finished, w) => (w.response (.ok w.finish), w.cursor)
  | (.failed reason, w) => (w.response (.error reason), w.cursor)
  | (_, w) =>
    -- Discovery goes on at catch-up cadence while the round of the history is open.
    let w := if w.report.deferred = 0 && decide (w.report.scanned > 0) &&
        w.cursor.history.ceiling.isSome then w.exhaust else w
    (w.response (.ok w.finish), w.cursor)

end AgentMail.ReleaseRepair
