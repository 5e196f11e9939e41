import AgentMail.Reconcile.ReconcileCursor

/-!
# A pass of archive repair

`reconcile_message_batch_inner`: one loop takes candidates from the retry lane and from the selected
ids of the two scan lanes, under a bound on repairs, ids and payload bytes. What the source, the
archive and the stop flag do is input.
-/

namespace AgentMail.Reconcile

open Base

/-! ### What a pass meets -/

/-- `ReconcileFailure`, without the text that is logged. -/
structure ReconcileFailure where
  transient : Bool

/-- `ReconcileResult`. -/
structure ReconcileResult where
  filesCreated : Nat
  gitCommitNeeded : Bool

/-- What a pass meets at one candidate: the flag is read before it, before its publication and
after it. -/
structure Turn where
  stopped : Bool
  breakerTripped : Bool
  admitted : Bool
  identity : Text
  /-- The payload bytes of `prepare_message_classified`. -/
  prepared : Except ReconcileFailure Nat
  stoppedAdmitted : Bool
  reconciled : Except ReconcileFailure ReconcileResult
  stoppedAfter : Bool

/-- What a pass meets. -/
structure Pass where
  stopped : Bool
  breakerTripped : Bool
  nowUs : Int
  archiveLagUs : Nat
  admitted : Bool
  /-- The pool is the configured live database. -/
  poolBound : Bool
  source : Source
  seeding : Seeding
  now : Nat
  /-- What is met at a candidate, by the number of candidates that may still come. -/
  turns : Nat → Turn

/-- The cutoff of the pass. -/
def Pass.cutoff (pass : Pass) (cursor : ReconcileCursor) : Int :=
  normalArchiveCutoff pass.nowUs cursor.settledBeforeUs pass.archiveLagUs

/-! ### One candidate -/

/-- `PayloadAdmission`. -/
inductive PayloadAdmission where
  | fits
  | nextBatch
  | oversized

/-- `payload_admission`. -/
def payloadAdmission (used candidate : Nat) : PayloadAdmission :=
  if maxBatchPayloadBytes < candidate then .oversized
  else if maxBatchPayloadBytes - used < candidate then .nextBatch
  else .fits

/-- `ReconcileReport`, as far as a pass without a checkpoint fills it. -/
structure ReconcileReport where
  scanned : Nat
  unchanged : Nat
  repaired : Nat
  filesCreated : Nat
  deferred : Nat
  deferredTransient : Nat
  deferredConflict : Nat
  retryLen : Nat
  payloadBytes : Nat
  interrupted : Bool
  budgetExhausted : Bool

def ReconcileReport.default : ReconcileReport := ⟨0, 0, 0, 0, 0, 0, 0, 0, 0, false, false⟩

/-- What comes of reading and publishing one candidate. -/
inductive Attempted where
  | nextBatch
  | interrupted (payloadBytes : Nat)
  | done (payloadBytes : Nat) (result : Except ReconcileFailure ReconcileResult)

/-- The candidate is read and published. -/
def Turn.attempt (turn : Turn) (used : Nat) : Attempted :=
  match turn.prepared with
  | .error failure => .done 0 (.error failure)
  | .ok payloadBytes =>
    match payloadAdmission used payloadBytes with
    | .oversized => .done 0 (.error ⟨false⟩)
    | .nextBatch => .nextBatch
    | .fits =>
      if turn.stoppedAdmitted then .interrupted payloadBytes
      else .done payloadBytes turn.reconciled

/-- What an attempt ends with. -/
inductive Outcome where
  | repaired
  | unchanged
  | transient
  | conflict
deriving DecidableEq

/-- The outcome that is recorded for a result. -/
def outcomeOf : Except ReconcileFailure ReconcileResult → Outcome
  | .ok result =>
    if decide (0 < result.filesCreated) || result.gitCommitNeeded then .repaired else .unchanged
  | .error failure => if failure.transient then .transient else .conflict

/-! ### The loop -/

/-- A candidate: its id, and its lane if it is a scan lane, where `true` is the lane of new mail. -/
abbrev Candidate : Type := Int × Option Bool

/-- The loop between two candidates. The attempts that were completed and the places of the scan
lanes that were passed are kept. -/
structure Loop where
  cursor : ReconcileCursor
  report : ReconcileReport
  retries : List Int
  selected : List (Int × Bool)
  seen : List Int
  attempts : List (Int × Outcome)
  passed : List (Int × Bool)

/-- Why the loop ended before it ran out of candidates. -/
inductive Halt where
  | interrupted
  | budgetExhausted
  | saturated
  | nextBatch
  | sourceCorruption
  | admissionContention
  | sourceChanged

namespace Loop

def nextRetry (l : Loop) : Option (Candidate × Loop) :=
  match l.retries with
  | [] => none
  | id :: rest => some ((id, none), { l with retries := rest })

def nextSelected (l : Loop) : Option (Candidate × Loop) :=
  match l.selected with
  | [] => none
  | (id, tail) :: rest => some ((id, some tail), { l with selected := rest })

/-- The next candidate; a full retry lane goes first, since only it can make room. -/
def next (l : Loop) : Option (Candidate × Loop) :=
  if l.cursor.nextLaneIsRetry || decide (maxRetryIds ≤ l.cursor.retries.length) then
    l.nextRetry.or l.nextSelected
  else l.nextSelected.or l.nextRetry

/-- The candidate's scan lane goes past it. -/
def advance (l : Loop) (candidate : Candidate) : Loop :=
  match candidate.2 with
  | none => l
  | some tail => { l with
      cursor := l.cursor.advance candidate.1 tail
      passed := l.passed ++ [(candidate.1, tail)] }

/-- The candidate waits: it was read in this pass, or is cooling down, or is a duplicate of a
retry. -/
def skips (l : Loop) (now : Nat) (candidate : Candidate) : Bool :=
  l.seen.contains candidate.1 ||
  (l.cursor.retries.any fun retry =>
    decide (retry.id = candidate.1) && decide (now < retry.readyAt)) ||
  l.cursor.conflicted candidate.1 now || (candidate.2.isSome && l.cursor.retains candidate.1)

/-- A completed attempt is counted and recorded. -/
def complete (l : Loop) (now : Nat) (candidate : Candidate)
    (result : Except ReconcileFailure ReconcileResult) : Loop :=
  let id := candidate.1
  let cursor := { l.cursor with nextLaneIsRetry := candidate.2.isSome }
  let report := { l.report with scanned := l.report.scanned + 1 }
  let attempts := l.attempts ++ [(id, outcomeOf result)]
  match result with
  | .ok result =>
    if decide (0 < result.filesCreated) || result.gitCommitNeeded then
      { l with
        attempts := attempts
        cursor := cursor.forgetRetry id
        report := { report with
          repaired := report.repaired + 1
          filesCreated := report.filesCreated + result.filesCreated } }
    else
      { l with
        attempts := attempts
        cursor := cursor.forgetRetry id
        report := { report with unchanged := report.unchanged + 1 } }
  | .error failure =>
    let report := { report with deferred := report.deferred + 1 }
    if failure.transient then
      { l with
        attempts := attempts
        cursor := cursor.deferTransient id now
        report := { report with deferredTransient := report.deferredTransient + 1 } }
    else
      { l with
        attempts := attempts
        cursor := cursor.deferConflict id now
        report := { report with deferredConflict := report.deferredConflict + 1 } }

def interrupt (l : Loop) : Loop := { l with report := { l.report with interrupted := true } }

def exhaust (l : Loop) : Loop := { l with report := { l.report with budgetExhausted := true } }

/-- The body of the loop for one candidate, and why the loop ends if it does. -/
def turn (l : Loop) (identity : Text) (now : Nat) (turn : Turn) (candidate : Candidate) :
    Loop × Option Halt :=
  if turn.stopped then (l.interrupt, some .interrupted)
  else if turn.breakerTripped then (l, some .sourceCorruption)
  else if decide (maxRepairsPerBatch ≤ l.report.repaired) ||
      decide (maxIdsPerPass ≤ l.report.scanned) then (l.exhaust, some .budgetExhausted)
  else if l.skips now candidate then (l.advance candidate, none)
  else if decide (maxRetryIds ≤ l.cursor.retries.length) && !l.cursor.retains candidate.1 then
    (l, some .saturated)
  else if !turn.admitted then (l, some .admissionContention)
  else if turn.identity ≠ identity then (l, some .sourceChanged)
  else
    let read := { l with seen := candidate.1 :: l.seen }
    match turn.attempt l.report.payloadBytes with
    | .nextBatch => (read.exhaust, some .nextBatch)
    | .interrupted payloadBytes =>
      ({ read with report := { read.report with
          payloadBytes := read.report.payloadBytes + payloadBytes } }.interrupt, some .interrupted)
    | .done payloadBytes result =>
      let charged := { read with report := { read.report with
        payloadBytes := read.report.payloadBytes + payloadBytes } }
      if turn.stoppedAfter then (charged.interrupt, some .interrupted)
      else ((charged.complete now candidate result).advance candidate, none)

/-- How many candidates may still come. -/
def remaining (l : Loop) : Nat := l.retries.length + l.selected.length

/-- The loop, for so many candidates, with the candidate that it ends at. -/
def run (identity : Text) (now : Nat) (turns : Nat → Turn) :
    Nat → Loop → Loop × Option (Candidate × Halt)
  | 0, l => (l, none)
  | n + 1, l =>
    match l.next with
    | none => (l, none)
    | some (candidate, rest) =>
      match rest.turn identity now (turns n) candidate with
      | (after, none) => run identity now turns n after
      | (after, some halt) => (after, some (candidate, halt))

end Loop

/-! ### The pass -/

/-- Why a pass is an error. -/
inductive PassError where
  | breakerOpen
  | admissionContention
  | poolMismatch
  | selection
  | sourceCorruption
  | sourceChanged

/-- The halts that are errors. -/
def Halt.error? : Halt → Option PassError
  | .sourceCorruption => some .sourceCorruption
  | .admissionContention => some .admissionContention
  | .sourceChanged => some .sourceChanged
  | _ => none

/-- What a pass reports, and what it did. -/
structure Response where
  result : Except PassError ReconcileReport
  /-- The ids of failed writes that were put on the retry lane. -/
  seeded : List Int
  /-- The messages that were read. -/
  read : List Int
  /-- The attempts that were completed. -/
  attempts : List (Int × Outcome)
  /-- The places of the scan lanes that were passed. -/
  passed : List (Int × Bool)
  /-- The candidate at which the loop ended. -/
  stoppedAt : Option (Candidate × Halt)

/-- A pass that ends before it has selected. -/
def Response.early (result : Except PassError ReconcileReport) : Response :=
  ⟨result, [], [], [], [], none⟩

/-- The loop at its start: the retries that are ready, and the selected ids. -/
def Loop.start (cursor : ReconcileCursor) (selected : List (Int × Bool)) (now : Nat) : Loop where
  cursor := cursor
  report := .default
  retries := ((cursor.retries.filter fun retry => decide (retry.readyAt ≤ now)).take
    maxRetriesPerPass).map (·.id)
  selected := selected
  seen := []
  attempts := []
  passed := []

/-- The end of the pass: a startup round that goes on asks for the next pass soon. -/
def Loop.finish (l : Loop) : ReconcileReport :=
  { l.report with
    budgetExhausted := l.report.budgetExhausted || (l.cursor.persistProgress &&
      !l.cursor.startupBackfillComplete && decide (0 < l.report.scanned) && !l.report.interrupted)
    retryLen := l.cursor.retries.length }

/-- `reconcile_message_batch_inner`. -/
def reconcileMessageBatchInner (pass : Pass) (cursor : ReconcileCursor) :
    Response × ReconcileCursor :=
  if pass.stopped then
    (.early (.ok { ReconcileReport.default with interrupted := true }), cursor)
  else if pass.breakerTripped then (.early (.error .breakerOpen), cursor)
  else if !pass.admitted then (.early (.error .admissionContention), cursor)
  else if !pass.poolBound then (.early (.error .poolMismatch), cursor)
  else
    match selectIds pass.source cursor (pass.cutoff cursor) with
    | (cursor, none) => (.early (.error .selection), cursor)
    | (cursor, some selected) =>
      let seeded := seedRetries pass.seeding cursor
      let start := Loop.start seeded.1 selected pass.now
      let ending := start.run seeded.1.sourceIdentity pass.now pass.turns start.remaining
      let result := match ending.2.bind fun stopped => stopped.2.error? with
        | some error => .error error
        | none => .ok ending.1.finish
      (⟨result, seeded.2, ending.1.seen, ending.1.attempts, ending.1.passed, ending.2⟩,
        ending.1.cursor)

end AgentMail.Reconcile
