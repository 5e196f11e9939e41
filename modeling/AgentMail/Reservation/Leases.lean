import AgentMail.Base.Values
import AgentMail.Reservation.ConflictIndex

/-!
# File leases

The table of file reservations with its release ledger, and the transactions on it:
`create_file_reservations` (`crates/mcp-agent-mail-db/src/queries.rs:15216–15516`),
`release_reservations*` (`:15937–16300,16397–16459`), `renew_reservations` (`:16460–16626`) and
the escalation grant `apply_claim` (`crates/mcp-agent-mail-db/src/ack_escalation.rs:163–341`).
Every transaction runs under `BEGIN IMMEDIATE`, so each one is a function of the table it
starts from; what it reads from other tables (idempotency keys, agents, messages) comes in as
an argument.
-/

namespace AgentMail.Reservation

open Base Pattern List

/-- `FileReservationRow`. Every writer stores 0 or 1 for `exclusive` and NULL or an integer for
`released_ts`. -/
structure FileReservationRow where
  id : Int
  projectId : Int
  agentId : Int
  pathPattern : Text
  exclusive : Bool
  reason : String
  createdTs : Int
  expiresTs : Int
  releasedTs : Option Int
  deriving DecidableEq

/-- The errors that the lease transactions return. -/
inductive DbError where
  | resourceBusy (message : String)
  | internal (message : String)
  | invalidArgument (field message : String)
  | idempotencyConflict
  | inactiveAgent
  | sqlite (message : String)
  deriving DecidableEq

/-! ### The table -/

/-- `file_reservations` with its `AUTOINCREMENT` counter, and the reservation ids recorded in
`file_reservation_releases`. -/
structure LeaseTable where
  rows : List FileReservationRow
  releases : List Int
  sequence : Int
  ids_nodup : (rows.map (·.id)).Nodup
  ids_le : ∀ r ∈ rows, r.id ≤ sequence

namespace LeaseTable

def empty : LeaseTable := ⟨[], [], 0, nodup_nil, by simp⟩

/-- `ACTIVE_RESERVATION_PREDICATE` on integer release stamps: never released, a sentinel stamp,
and no entry in the ledger. -/
def isUnreleased (t : LeaseTable) (r : FileReservationRow) : Bool :=
  r.releasedTs.all (· ≤ 0) && !t.releases.contains r.id

/-- `({ACTIVE_RESERVATION_PREDICATE}) AND expires_ts > now`. -/
def isActive (t : LeaseTable) (now : Int) (r : FileReservationRow) : Bool :=
  t.isUnreleased r && now < r.expiresTs

/-- `INSERT`: the row gets the next id of the counter. -/
def insert (t : LeaseTable) (row : FileReservationRow) : LeaseTable where
  rows := t.rows ++ [{ row with id := t.sequence + 1 }]
  releases := t.releases
  sequence := t.sequence + 1
  ids_nodup := by
    rw [map_append, map_singleton, nodup_append]
    refine ⟨t.ids_nodup, nodup_singleton _, ?_⟩
    intro id hid id' hid' he
    obtain ⟨r, hr, rfl⟩ := mem_map.mp hid
    have hid' : id' = t.sequence + 1 := by simpa using hid'
    have := t.ids_le r hr
    omega
  ids_le := by
    intro r hr
    rcases mem_append.mp hr with hr | hr
    · have := t.ids_le r hr
      omega
    · rw [mem_singleton] at hr
      rw [hr]

/-- `UPDATE ... WHERE test`, for updates that leave the primary key alone. -/
def update (t : LeaseTable) (test : FileReservationRow → Bool)
    (set : FileReservationRow → FileReservationRow) (hset : ∀ r, (set r).id = r.id := by intro _; rfl) :
    LeaseTable where
  rows := t.rows.map fun r => if test r then set r else r
  releases := t.releases
  sequence := t.sequence
  ids_nodup := by
    have hid : ((fun r : FileReservationRow => r.id) ∘ fun r => if test r then set r else r) =
        fun r => r.id := by
      funext r
      simp only [Function.comp_apply]
      split
      · exact hset r
      · rfl
    rw [map_map, hid]
    exact t.ids_nodup
  ids_le := by
    intro r hr
    obtain ⟨r', hr', rfl⟩ := mem_map.mp hr
    have := t.ids_le r' hr'
    split
    · rw [hset]
      exact this
    · exact this

/-- `INSERT OR IGNORE INTO file_reservation_releases`. -/
def recordRelease (t : LeaseTable) (id : Int) : LeaseTable :=
  { t with releases := if t.releases.contains id then t.releases else t.releases ++ [id] }

end LeaseTable

/-! ### `create_file_reservations` -/

/-- What `idempotency_check_in_tx` finds; without a claim it is `proceed`. -/
inductive IdempotencyCheck where
  | proceed
  | replay (rows : List FileReservationRow)
  | conflict

/-- The arguments of `create_file_reservations_impl`, with what the transaction reads elsewhere:
the idempotency record and whether the agent is active in the project. -/
structure CreateRequest where
  projectId : Int
  agentId : Int
  paths : List Text
  ttlSeconds : Int
  exclusive : Bool
  reason : String
  idempotency : IdempotencyCheck
  agentActive : Bool

/-- The rows of `conflict_sql`: active reservations of other agents, only the exclusive ones for
a shared request. -/
def conflictRows (t : LeaseTable) (now : Int) (projectId agentId : Int) (exclusive : Bool) :
    List FileReservationRow :=
  t.rows.filter fun r => r.projectId == projectId && r.agentId != agentId && t.isActive now r &&
    (exclusive || r.exclusive)

/-- The rows of `existing_sql`: active reservations of the agent on the same pattern text. -/
def existingRows (t : LeaseTable) (now : Int) (q : CreateRequest) (path : Text) :
    List FileReservationRow :=
  t.rows.filter fun r => r.projectId == q.projectId && r.agentId == q.agentId &&
    r.pathPattern == path && t.isActive now r

/-- A re-acquired lease: at least `ttl` from now, and the mode and reason of the request. -/
def renewedRow (now : Int) (q : CreateRequest) (row : FileReservationRow) : FileReservationRow :=
  { row with
    expiresTs := max row.expiresTs (saturatingAdd now (saturatingMul q.ttlSeconds 1000000))
    exclusive := q.exclusive
    reason := q.reason }

/-- The row that a fresh reservation inserts. -/
def freshRow (now : Int) (q : CreateRequest) (path : Text) : FileReservationRow where
  id := 0
  projectId := q.projectId
  agentId := q.agentId
  pathPattern := path
  exclusive := q.exclusive
  reason := q.reason
  createdTs := now
  expiresTs := saturatingAdd now (saturatingMul q.ttlSeconds 1000000)
  releasedTs := none

/-- `UPDATE file_reservations SET expires_ts = ?, "exclusive" = ?, reason = ? WHERE id = ?`. -/
def storeLease (t : LeaseTable) (row : FileReservationRow) : LeaseTable :=
  t.update (·.id == row.id) fun r =>
    { r with expiresTs := row.expiresTs, exclusive := row.exclusive, reason := row.reason }

/-- One turn of the loop over `paths`: renew the agent's own leases on the path, or insert one. -/
def reservePath (now : Int) (q : CreateRequest) (acc : List FileReservationRow × LeaseTable)
    (path : Text) : Except DbError (List FileReservationRow × LeaseTable) :=
  let existing := existingRows acc.2 now q path
  if !existing.isEmpty then
    let renewed := existing.map (renewedRow now q)
    .ok (acc.1 ++ renewed, renewed.foldl storeLease acc.2)
  else
    let table := acc.2.insert (freshRow now q path)
    if table.sequence ≤ 0 then
      .error (.internal "file reservation insert succeeded but last_insert_rowid() returned invalid id")
    else .ok (acc.1 ++ [{ freshRow now q path with id := table.sequence }], table)

/-- The message of a rejected request. -/
def conflictMessage (path norm : Text) : String :=
  "Reservation conflict: '" ++ String.ofList path ++
    "' overlaps with active exclusive reservation '" ++ String.ofList norm ++ "'"

/-- `create_file_reservations_impl`. An error or a replay rolls back, so the table is unchanged. -/
def createFileReservations (P : Platform) (t : LeaseTable) (now : Int) (q : CreateRequest) :
    Except DbError (List FileReservationRow × LeaseTable) :=
  match q.idempotency with
  | .replay rows => .ok (rows, t)
  | .conflict => .error .idempotencyConflict
  | .proceed =>
    if !q.agentActive then .error .inactiveAgent
    else
      let activeIndex := ReservationConflictIndex.build P
        ((conflictRows t now q.projectId q.agentId q.exclusive).map (·.pathPattern))
      let conflict := q.paths.findSome? fun path =>
        (ReservationConflictIndex.firstConflict P.caseInsensitive activeIndex
          (CompiledPattern.new P path)).map fun activePat => conflictMessage path activePat.norm
      match conflict with
      | some message => .error (.resourceBusy message)
      | none => q.paths.foldlM (reservePath now q) ([], t)

/-! ### The escalation grant -/

/-- The part of `AckEscalationRequest` that `apply_claim` uses after authorisation, and whether
`AUTHORIZED_SQL` returned a row. -/
structure ClaimRequest where
  authorized : Bool
  projectId : Int
  holderId : Int
  pattern : Text
  ttlSeconds : Int
  exclusive : Bool

inductive AckEscalationOutcome where
  | granted (row : FileReservationRow)
  | alreadyCovered
  | noLongerOverdue

def maxActiveCandidates : Nat := 4096

def maxPatternBytes : Nat := 4096

/-- `length(CAST(text AS BLOB))`. -/
def utf8Length (t : Text) : Nat := (t.map Char.utf8Size).sum

def ackReason : String := "ack-overdue"

/-- The loop over the active reservations; the result says whether the claim is covered. -/
def claimedBy (P : Platform) (q : ClaimRequest) : List FileReservationRow → Bool →
    Except DbError Bool
  | [], alreadyClaimed => .ok alreadyClaimed
  | row :: rest, alreadyClaimed =>
    if row.agentId ≤ 0 then .error (.internal "invalid active reservation holder")
    else if maxPatternBytes < utf8Length row.pathPattern then .error (.sqlite "path_pattern")
    else if row.agentId = q.holderId then
      if row.pathPattern = q.pattern then
        if 256 < row.reason.utf8ByteSize then .error (.sqlite "reason")
        else if row.reason ≠ ackReason ∨ row.exclusive ≠ q.exclusive then
          .error (.resourceBusy "ACK escalation refuses to renew an unrelated same-path lease")
        else claimedBy P q rest true
      else claimedBy P q rest alreadyClaimed
    else if (q.exclusive || row.exclusive) &&
        (CompiledPattern.new P row.pathPattern).overlaps P.caseInsensitive
          (CompiledPattern.new P q.pattern) then
      .error (.resourceBusy "ACK escalation reservation conflict")
    else claimedBy P q rest alreadyClaimed

/-- The row that a grant inserts. -/
def claimRow (now : Int) (q : ClaimRequest) : FileReservationRow where
  id := 0
  projectId := q.projectId
  agentId := q.holderId
  pathPattern := q.pattern
  exclusive := q.exclusive
  reason := ackReason
  createdTs := now
  expiresTs := saturatingAdd now (saturatingMul q.ttlSeconds 1000000)
  releasedTs := none

/-- `apply_claim`, with the read-back of the inserted row. -/
def applyClaim (P : Platform) (t : LeaseTable) (now : Int) (q : ClaimRequest) :
    Except DbError (AckEscalationOutcome × LeaseTable) :=
  if !q.authorized then .ok (.noLongerOverdue, t)
  else
    let active := (t.rows.filter fun r => r.projectId == q.projectId && t.isActive now r).take
      (maxActiveCandidates + 1)
    if maxActiveCandidates < active.length then
      .error (.resourceBusy "ACK escalation conflict budget exceeded")
    else
      match claimedBy P q active false with
      | .error e => .error e
      | .ok true => .ok (.alreadyCovered, t)
      | .ok false =>
        let table := t.insert (claimRow now q)
        let row := { claimRow now q with id := table.sequence }
        if table.sequence ≤ 0 then .error (.internal "ACK grant has no valid inserted row ID")
        else if (table.rows.filter fun r => r == row && table.isUnreleased r).length ≠ 1 then
          .error (.internal "ACK grant did not persist the requested active reservation")
        else .ok (.granted row, table)

/-! ### `renew_reservations` -/

/-- The optional `id IN (...)` and `path_pattern = ?` filters; an empty list selects nothing. -/
def matchesFilters (paths : Option (List Text)) (ids : Option (List Int))
    (r : FileReservationRow) : Bool :=
  ids.all (·.contains r.id) && paths.all (·.contains r.pathPattern)

structure RenewRequest where
  projectId : Int
  agentId : Int
  extendSeconds : Int
  paths : Option (List Text)
  reservationIds : Option (List Int)
  agentActive : Bool

/-- The row and owner conditions that the `UPDATE` and its read-back share. -/
def renewable (t : LeaseTable) (q : RenewRequest) (row r : FileReservationRow) : Bool :=
  r.id == row.id && r.projectId == q.projectId && r.agentId == q.agentId && t.isUnreleased r

/-- `UPDATE file_reservations SET expires_ts = ?` of a lease that has not changed or expired. -/
def storeExpiry (t : LeaseTable) (now : Int) (q : RenewRequest) (row : FileReservationRow)
    (expires : Int) : LeaseTable :=
  t.update (fun r => renewable t q row r && r.expiresTs == row.expiresTs && now < r.expiresTs)
    fun r => { r with expiresTs := expires }

/-- One turn of the renewal loop: the guarded `UPDATE` and a read-back of the stored expiry. -/
def renewRow (now : Int) (q : RenewRequest) (acc : List FileReservationRow × LeaseTable)
    (row : FileReservationRow) : Except DbError (List FileReservationRow × LeaseTable) :=
  let expires := saturatingAdd (max row.expiresTs now) (saturatingMul q.extendSeconds 1000000)
  let table := storeExpiry acc.2 now q row expires
  let stored := (table.rows.find? (renewable table q row)).map (·.expiresTs)
  if stored ≠ some expires then
    .error (.internal "renew_reservations: eligible lease expiry was not stored")
  else .ok (acc.1 ++ [{ row with expiresTs := expires }], table)

/-- `renew_reservations`. -/
def renewReservations (t : LeaseTable) (now : Int) (q : RenewRequest) :
    Except DbError (List FileReservationRow × LeaseTable) :=
  if !q.agentActive then .error .inactiveAgent
  else
    let candidates := t.rows.filter fun r => r.projectId == q.projectId &&
      r.agentId == q.agentId && t.isActive now r && matchesFilters q.paths q.reservationIds r
    candidates.foldlM (renewRow now q) ([], t)

/-! ### Releases -/

/-- `ReleaseReservationExpiryConstraint`. -/
inductive ExpiryConstraint where
  | any
  | onOrBefore (cutoff : Int)
  | exact (expires : Int)

def ExpiryConstraint.allows (c : ExpiryConstraint) (expires : Int) : Bool :=
  match c with
  | .any => true
  | .onOrBefore cutoff => expires ≤ cutoff
  | .exact e => expires == e

/-- `ReleaseReservationScope`. -/
structure ReleaseScope where
  projectId : Int
  agentId : Int
  createdAtOrBefore : Option Int

def ReleaseScope.allows (s : ReleaseScope) (r : FileReservationRow) : Bool :=
  r.projectId == s.projectId && r.agentId == s.agentId && s.createdAtOrBefore.all (r.createdTs ≤ ·)

/-- `StaleReservationReleaseGuard`: the lease observed for an id, if there is one, and whether
`stale_reservation_activity_still_matches` holds for it in this transaction. -/
structure StaleGuard where
  candidate : Int → Option FileReservationRow
  activityMatches : FileReservationRow → Bool

/-- The identity columns that a stale release rechecks. -/
def sameObserved (observed r : FileReservationRow) : Bool :=
  r.projectId == observed.projectId && r.agentId == observed.agentId &&
    r.pathPattern == observed.pathPattern && r.exclusive == observed.exclusive &&
    r.reason == observed.reason && r.createdTs == observed.createdTs &&
    r.expiresTs == observed.expiresTs

/-- The state of the release loop: the next marker, the markers given out and the table. -/
structure ReleaseState where
  marker : Int
  released : List (Int × Int)
  table : LeaseTable

/-- One turn of the loop over the ids. -/
def releaseId (constraint : ExpiryConstraint) (scope : Option ReleaseScope)
    (guard : Option StaleGuard) (s : ReleaseState) (id : Int) : ReleaseState :=
  -- A stale release without its original evidence is skipped.
  let admitted : Option (FileReservationRow → Bool) :=
    match guard with
    | none => some fun _ => true
    | some g => (g.candidate id).map fun observed r => sameObserved observed r && g.activityMatches observed
  match admitted with
  | none => s
  | some test =>
    let eligible := s.table.rows.any fun r => r.id == id && s.table.isUnreleased r &&
      constraint.allows r.expiresTs && scope.all (·.allows r) && test r
    if !eligible then s
    else
      { marker := saturatingAdd s.marker 1
        released := s.released ++ [(id, s.marker)]
        table := (s.table.update (·.id == id) fun r =>
          { r with releasedTs := some s.marker }).recordRelease id }

/-- `release_reservations_by_ids_with_constraints`. -/
def releaseReservationsByIdsWithConstraints (t : LeaseTable) (now : Int) (ids : List Int)
    (constraint : ExpiryConstraint) (scope : Option ReleaseScope) (guard : Option StaleGuard) :
    ReleaseState :=
  ids.foldl (releaseId constraint scope guard) ⟨now, [], t⟩

/-- `release_reservations_with_created_cutoff`: select the agent's unreleased rows, then release
them by id inside the same scope. Chunks of a large filter are separate transactions. -/
def releaseReservations (t : LeaseTable) (now : Int) (scope : ReleaseScope)
    (paths : Option (List Text)) (ids : Option (List Int)) : ReleaseState :=
  let selected := t.rows.filter fun r =>
    scope.allows r && t.isUnreleased r && matchesFilters paths ids r
  releaseReservationsByIdsWithConstraints t now (selected.map (·.id)) .any (some scope) none

/-- The admission loop of `release_stale_reservations`: candidates must be distinct active leases
of the project. -/
def staleCandidateError (projectId observedAt : Int) : List Int → List FileReservationRow →
    Option DbError
  | _, [] => none
  | seen, c :: rest =>
    if c.projectId ≠ projectId ∨ c.releasedTs.any (0 < ·) ∨ c.expiresTs ≤ observedAt ∨ c.id ∈ seen then
      some (.invalidArgument "stale reservation candidate"
        ("reservation " ++ toString c.id ++ " is not a unique active lease in project " ++
          toString projectId))
    else staleCandidateError projectId observedAt (c.id :: seen) rest

/-- `release_stale_reservations`. -/
def releaseStaleReservations (t : LeaseTable) (now projectId : Int)
    (candidates : List FileReservationRow) (observedAt inactivityUs graceUs : Int)
    (activityMatches : FileReservationRow → Bool) : Except DbError ReleaseState :=
  if inactivityUs < 0 ∨ graceUs < 0 then
    .error (.invalidArgument "stale reservation thresholds"
      "inactivity and activity grace must be nonnegative")
  else
    match staleCandidateError projectId observedAt [] candidates with
    | some e => .error e
    | none =>
      .ok (releaseReservationsByIdsWithConstraints t now (candidates.map (·.id)) .any none
        (some ⟨fun id => candidates.find? (·.id == id), activityMatches⟩))

end AgentMail.Reservation
