import AgentMail.Lib.Loop
import AgentMail.Reservation.Exclusion

/-!
# Leases under an idempotency key

`create_file_reservations_impl` as a whole (`crates/mcp-agent-mail-db/src/queries.rs:15216–15516`), with
`idempotency_check_in_tx`, `decode_idempotency_check` and `idempotency_record_in_tx` (`:9946–10070`):
a key is looked up, the leases are granted and the key is recorded in one transaction, and whatever
stops it rolls everything back.

A key is kept for a retention time (`idempotency.rs`); behind it, it counts as never used.
-/

namespace AgentMail.Reservation

open Base Lib Pattern List

/-! ### Keys -/

structure IdempotencyClaim where
  projectId : Int
  tool : Text
  key : Text
  fingerprint : Text

/-- A row of `idempotency_keys`. -/
structure IdempotencyRow where
  projectId : Int
  tool : Text
  key : Text
  payloadFingerprint : Text
  resultJson : Text
  createdTs : Int
  expiresTs : Int

/-- The primary key. -/
def IdempotencyRow.scope (r : IdempotencyRow) : Int × Text × Text := (r.projectId, r.tool, r.key)

def IdempotencyClaim.scope (c : IdempotencyClaim) : Int × Text × Text := (c.projectId, c.tool, c.key)

structure KeyTable where
  rows : List IdempotencyRow
  scopes_nodup : (rows.map IdempotencyRow.scope).Nodup

namespace KeyTable

/-- `DELETE FROM idempotency_keys WHERE expires_ts < ?`. -/
def prune (keys : KeyTable) (now : Int) : KeyTable where
  rows := keys.rows.filter fun r => !(r.expiresTs < now : Bool)
  scopes_nodup := keys.scopes_nodup.sublist (filter_sublist.map _)

def lookup (keys : KeyTable) (claim : IdempotencyClaim) : Option IdempotencyRow :=
  keys.rows.find? fun r => decide (r.scope = claim.scope)

/-- `INSERT … ON CONFLICT(project_id, tool, idempotency_key) DO NOTHING`. -/
def insert (keys : KeyTable) (row : IdempotencyRow) : KeyTable :=
  if h : row.scope ∈ keys.rows.map IdempotencyRow.scope then keys
  else ⟨keys.rows ++ [row], nodup_map_concat keys.scopes_nodup h⟩

end KeyTable

structure IdempotencyConflict where
  tool : Text
  key : Text
  originalFingerprint : Text
  attemptedFingerprint : Text
  originalCreatedTs : Int

inductive IdempotentOutcome (α : Type) where
  | fresh (result : α)
  | replayed (result : α)
  | conflict (info : IdempotencyConflict)

/-- What a claim meets in the table. -/
inductive ClaimCheck where
  | proceed
  | replay (resultJson : Text)
  | conflict (info : IdempotencyConflict)

def decodeIdempotencyCheck (row : Option IdempotencyRow) (claim : IdempotencyClaim) : ClaimCheck :=
  match row with
  | none => .proceed
  | some row =>
    if row.payloadFingerprint = claim.fingerprint then .replay row.resultJson
    else
      .conflict
        { tool := claim.tool
          key := claim.key
          originalFingerprint := row.payloadFingerprint
          attemptedFingerprint := claim.fingerprint
          originalCreatedTs := row.createdTs }

/-- `serde_json` on the rows of a result. -/
structure RowsCodec where
  toJson : List FileReservationRow → Except String Text
  fromJson : Text → Except String (List FileReservationRow)

/-- The rows are written, and read back as they were. -/
def RowsCodec.Reliable (S : RowsCodec) (rows : List FileReservationRow) : Prop :=
  ∃ json, S.toJson rows = .ok json ∧ S.fromJson json = .ok rows

/-! ### The transaction -/

/-- The release ledger has nothing about rows to come. -/
def LedgerBehind (t : LeaseTable) : Prop := ∀ id ∈ t.releases, id ≤ t.sequence

/-- The tables that the transaction writes. `AUTOINCREMENT` counts from zero, and the release ledger
refers to rows that have been inserted. -/
structure ReservationDb where
  leases : LeaseTable
  keys : KeyTable
  sequence_nonneg : 0 ≤ leases.sequence
  ledger : LedgerBehind leases

/-- How a transaction ends. -/
inductive TxEnd (α : Type) where
  | commit (result : α) (db : ReservationDb)
  | rollback (result : α)

/-- The result, and the database that a transaction leaves. -/
def TxEnd.settle {α : Type} (db : ReservationDb) : TxEnd α → α × ReservationDb
  | .commit result db' => (result, db')
  | .rollback result => (result, db)

/-- `t'` comes from `t` by inserts and updates. -/
def Grows (t t' : LeaseTable) : Prop := t'.releases = t.releases ∧ t.sequence ≤ t'.sequence

theorem Grows.trans {t t' t'' : LeaseTable} (h : Grows t t') (h' : Grows t' t'') : Grows t t'' :=
  ⟨h'.1.trans h.1, h.2.trans h'.2⟩

theorem LedgerBehind.grows {t t' : LeaseTable} (h : LedgerBehind t) (hgrows : Grows t t') :
    LedgerBehind t' := by
  unfold LedgerBehind
  rw [hgrows.1]
  intro id hid
  exact (h id hid).trans hgrows.2

theorem grows_foldl_storeLease (rows : List FileReservationRow) (t : LeaseTable) :
    Grows t (rows.foldl storeLease t) := by
  induction rows generalizing t with
  | nil => exact ⟨rfl, le_rfl⟩
  | cons row rows ih =>
    have hfirst : Grows t (storeLease t row) := ⟨rfl, le_rfl⟩
    exact hfirst.trans (ih _)

variable {q : CreateRequest} {path : Text} {now : Int}

theorem grows_reservePath {acc acc' : List FileReservationRow × LeaseTable}
    (h : reservePath now q acc path = .ok acc') : Grows acc.2 acc'.2 := by
  unfold reservePath at h
  dsimp only at h
  split at h
  · cases h
    exact grows_foldl_storeLease _ _
  · split at h
    · cases h
    · cases h
      refine ⟨rfl, ?_⟩
      show acc.2.sequence ≤ acc.2.sequence + 1
      omega

theorem grows_reservePaths {paths : List Text} {acc acc' : List FileReservationRow × LeaseTable}
    (h : paths.foldlM (reservePath now q) acc = .ok acc') : Grows acc.2 acc'.2 := by
  induction paths generalizing acc with
  | nil =>
    cases h
    exact ⟨rfl, le_rfl⟩
  | cons path paths ih =>
    obtain ⟨mid, hfirst, hrest⟩ := foldlM_cons_eq_ok.mp h
    exact (grows_reservePath hfirst).trans (ih hrest)

theorem grows_createFileReservations {P : Platform} {t t' : LeaseTable}
    {rows : List FileReservationRow} (h : createFileReservations P t now q = .ok (rows, t')) :
    Grows t t' := by
  unfold createFileReservations at h
  split at h
  · cases h
    exact ⟨rfl, le_rfl⟩
  · cases h
  · split at h
    · cases h
    · dsimp only at h
      split at h
      · cases h
      · exact grows_reservePaths h

/-- The database after a grant. -/
def ReservationDb.granted (db : ReservationDb) {leases : LeaseTable} (keys : KeyTable)
    (h : Grows db.leases leases) : ReservationDb where
  leases := leases
  keys := keys
  sequence_nonneg := db.sequence_nonneg.trans h.2
  ledger := db.ledger.grows h

/-- The check inside the transaction: expired keys go first. Without a claim nothing is read. -/
def checkClaim (keys : KeyTable) (now : Int) (claim : Option IdempotencyClaim) :
    ClaimCheck × KeyTable :=
  match claim with
  | none => (.proceed, keys)
  | some claim =>
    let keys := keys.prune now
    (decodeIdempotencyCheck (keys.lookup claim) claim, keys)

/-- `idempotency_record_in_tx`. -/
def recordClaim (keys : KeyTable) (claim : IdempotencyClaim) (resultJson : Text)
    (now expiresTs : Int) : KeyTable :=
  keys.insert
    { projectId := claim.projectId
      tool := claim.tool
      key := claim.key
      payloadFingerprint := claim.fingerprint
      resultJson := resultJson
      createdTs := now
      expiresTs := expiresTs }

/-- The body between `BEGIN IMMEDIATE` and its end. The request comes without an idempotency record
of its own, since the check is made here. -/
def createTx (P : Platform) (S : RowsCodec) (db : ReservationDb) (now retentionSecs : Int)
    (q : CreateRequest) (claim : Option IdempotencyClaim) :
    TxEnd (Except DbError (IdempotentOutcome (List FileReservationRow))) :=
  let idempotencyExpiresTs := saturatingAdd now (saturatingMul retentionSecs 1000000)
  let (check, keys) := checkClaim db.keys now claim
  match check with
  | .replay resultJson =>
    match S.fromJson resultJson with
    | .ok rows => .rollback (.ok (.replayed rows))
    | .error e =>
      .rollback (.error (.internal
        ("idempotency replay for create_file_reservations: stored result is undecodable: " ++ e)))
  | .conflict info => .rollback (.ok (.conflict info))
  | .proceed =>
    match h : createFileReservations P db.leases now { q with idempotency := .proceed } with
    | .error e => .rollback (.error e)
    | .ok (out, leases) =>
      have hgrows : Grows db.leases leases := grows_createFileReservations h
      match claim with
      | none => .commit (.ok (.fresh out)) (db.granted keys hgrows)
      | some claim =>
        match S.toJson out with
        | .error e =>
          .rollback (.error (.internal ("idempotency record for " ++ String.ofList claim.tool ++
            ": result is unserializable: " ++ e)))
        | .ok json =>
          .commit (.ok (.fresh out))
            (db.granted (recordClaim keys claim json now idempotencyExpiresTs) hgrows)

/-- `create_file_reservations_impl`. -/
def createFileReservationsImpl (P : Platform) (S : RowsCodec) (db : ReservationDb)
    (now retentionSecs : Int) (q : CreateRequest) (claim : Option IdempotencyClaim) :
    Except DbError (IdempotentOutcome (List FileReservationRow)) × ReservationDb :=
  (createTx P S db now retentionSecs q claim).settle db

/-! ### Keys that are found -/

/-- The table has the claim's key, and it has not expired. -/
def Recorded (keys : KeyTable) (now : Int) (claim : IdempotencyClaim) (row : IdempotencyRow) :
    Prop :=
  row ∈ keys.rows ∧ row.scope = claim.scope ∧ now ≤ row.expiresTs

theorem lookup_prune {keys : KeyTable} {claim : IdempotencyClaim} {row : IdempotencyRow} :
    (keys.prune now).lookup claim = some row ↔ Recorded keys now claim row := by
  apply (find?_key_eq_some (keys.prune now).scopes_nodup).trans
  simp only [KeyTable.prune, mem_filter, Recorded]
  constructor
  · rintro ⟨⟨hmem, hlive⟩, hscope⟩
    exact ⟨hmem, hscope, by simpa using hlive⟩
  · rintro ⟨hmem, hscope, hlive⟩
    exact ⟨⟨hmem, by simpa using hlive⟩, hscope⟩

theorem lookup_prune_none {keys : KeyTable} {claim : IdempotencyClaim} :
    (keys.prune now).lookup claim = none ↔ ∀ row, ¬ Recorded keys now claim row := by
  rw [Option.eq_none_iff_forall_ne_some]
  simp only [ne_eq, lookup_prune]

/-- The recorded row is in the table, unless its key was there before. -/
theorem mem_insert_of_new {keys : KeyTable} {row : IdempotencyRow}
    (h : ∀ r ∈ keys.rows, r.scope ≠ row.scope) : row ∈ (keys.insert row).rows := by
  have hnew : row.scope ∉ keys.rows.map IdempotencyRow.scope := by
    intro hmem
    obtain ⟨r, hr, hscope⟩ := mem_map.mp hmem
    exact h r hr hscope
  unfold KeyTable.insert
  rw [dif_neg hnew]
  exact mem_append_right _ (mem_singleton_self _)

/-! ### Leases that are granted -/

/-- The agent has an active lease on the pattern, in the requested mode. -/
def Leased (t : LeaseTable) (now : Int) (q : CreateRequest) (path : Text) : Prop :=
  ∃ r ∈ t.rows, r.projectId = q.projectId ∧ r.agentId = q.agentId ∧ r.pathPattern = path ∧
    r.exclusive = q.exclusive ∧ t.isActive now r = true

/-- The clock is not at its end and the lease lasts. -/
theorem lt_saturatingAdd {ttl : Int} (hnow : now < i64Max) (httl : 0 < ttl) :
    now < saturatingAdd now (saturatingMul ttl 1000000) := by
  unfold saturatingAdd saturatingMul clampI64
  unfold i64Max at hnow
  unfold i64Min i64Max
  omega

theorem existingRows_eq {t : LeaseTable} {r : FileReservationRow} :
    r ∈ existingRows t now q path ↔ r ∈ t.rows ∧ r.projectId = q.projectId ∧
      r.agentId = q.agentId ∧ r.pathPattern = path ∧ t.isActive now r = true := by
  simp only [existingRows, mem_filter, Bool.and_eq_true, beq_iff_eq, and_assoc]

/-- A lease that is stored: it runs on after `now`, in the requested mode. -/
def Lasting (now : Int) (q : CreateRequest) (row : FileReservationRow) : Prop :=
  now < row.expiresTs ∧ row.exclusive = q.exclusive

theorem leased_of_stored {t : LeaseTable} {r row : FileReservationRow} (hrow : Lasting now q row)
    (hr : r ∈ existingRows t now q path) (hid : r.id = row.id) :
    Leased (storeLease t row) now q path := by
  obtain ⟨hmem, hproject, hagent, hpath, hactive⟩ := existingRows_eq.mp hr
  refine ⟨_, mem_map_of_mem hmem, ?_⟩
  rw [if_pos (beq_iff_eq.mpr hid)]
  refine ⟨hproject, hagent, hpath, hrow.2, ?_⟩
  unfold LeaseTable.isActive at hactive ⊢
  rw [Bool.and_eq_true] at hactive ⊢
  exact ⟨hactive.1, decide_eq_true hrow.1⟩

theorem leased_storeLease {t : LeaseTable} {row : FileReservationRow} (hrow : Lasting now q row)
    (h : Leased t now q path) : Leased (storeLease t row) now q path := by
  obtain ⟨r, hr, hproject, hagent, hpath, hmode, hactive⟩ := h
  by_cases hid : r.id = row.id
  · exact leased_of_stored hrow (existingRows_eq.mpr ⟨hr, hproject, hagent, hpath, hactive⟩) hid
  · refine ⟨_, mem_map_of_mem hr, ?_⟩
    rw [if_neg (mt beq_iff_eq.mp hid)]
    exact ⟨hproject, hagent, hpath, hmode, hactive⟩

theorem leased_foldl_storeLease {rows : List FileReservationRow}
    (hrows : ∀ row ∈ rows, Lasting now q row) {t : LeaseTable} (h : Leased t now q path) :
    Leased (rows.foldl storeLease t) now q path := by
  induction rows generalizing t with
  | nil => exact h
  | cons row rows ih =>
    rw [forall_mem_cons] at hrows
    exact ih hrows.2 (leased_storeLease hrows.1 h)

/-- A lease that one of the stored rows belongs to is renewed. -/
theorem leased_of_renewed {r : FileReservationRow} {rows : List FileReservationRow}
    (hrows : ∀ row ∈ rows, Lasting now q row) (hid : r.id ∈ rows.map (·.id)) {t : LeaseTable}
    (hr : r ∈ existingRows t now q path) : Leased (rows.foldl storeLease t) now q path := by
  induction rows generalizing t with
  | nil => cases hid
  | cons row rows ih =>
    rw [forall_mem_cons] at hrows
    by_cases heq : r.id = row.id
    · exact leased_foldl_storeLease hrows.2 (leased_of_stored hrows.1 hr heq)
    · apply ih hrows.2
      · exact (mem_cons.mp hid).resolve_left heq
      · obtain ⟨hmem, hrest⟩ := existingRows_eq.mp hr
        apply existingRows_eq.mpr
        refine ⟨?_, hrest⟩
        have hkeep := mem_map_of_mem (f := fun r => if r.id == row.id then
          { r with expiresTs := row.expiresTs, exclusive := row.exclusive, reason := row.reason }
          else r) hmem
        rwa [if_neg (mt beq_iff_eq.mp heq)] at hkeep

section

variable {now : Int} {q : CreateRequest}

theorem lasting_renewed (hnow : now < i64Max) (httl : 0 < q.ttlSeconds)
    {rows : List FileReservationRow} : ∀ row ∈ rows.map (renewedRow now q), Lasting now q row := by
  intro row hrow
  obtain ⟨r, _, rfl⟩ := mem_map.mp hrow
  exact ⟨(lt_saturatingAdd hnow httl).trans_le (le_max_right _ _), rfl⟩

theorem leased_reservePath (hnow : now < i64Max) (httl : 0 < q.ttlSeconds)
    {acc acc' : List FileReservationRow × LeaseTable} (hledger : LedgerBehind acc.2)
    (h : reservePath now q acc path = .ok acc') : Leased acc'.2 now q path := by
  unfold reservePath at h
  dsimp only at h
  split at h
  · next hex =>
    cases h
    obtain ⟨r, rest, hrest⟩ : ∃ r rest, existingRows acc.2 now q path = r :: rest :=
      exists_cons_of_ne_nil (by simpa using hex)
    have hr : r ∈ existingRows acc.2 now q path := by
      rw [hrest]
      exact mem_cons_self
    apply leased_of_renewed (lasting_renewed hnow httl) _ hr
    rw [map_map]
    exact mem_map_of_mem (f := (·.id) ∘ renewedRow now q) hr
  · split at h
    · cases h
    · cases h
      refine ⟨_, mem_append_right _ (mem_singleton_self _), rfl, rfl, rfl, rfl, ?_⟩
      have hnew : acc.2.releases.contains (acc.2.sequence + 1) = false := by
        rw [contains_eq_mem, decide_eq_false_iff_not]
        intro hmem
        have := hledger _ hmem
        omega
      unfold LeaseTable.isActive LeaseTable.isUnreleased
      show (true && !acc.2.releases.contains (acc.2.sequence + 1) && _) = true
      rw [hnew]
      exact decide_eq_true (lt_saturatingAdd hnow httl)

theorem reservePath_keeps (hnow : now < i64Max) (httl : 0 < q.ttlSeconds) {other : Text}
    {acc acc' : List FileReservationRow × LeaseTable} (h : reservePath now q acc path = .ok acc')
    (hleased : Leased acc.2 now q other) : Leased acc'.2 now q other := by
  unfold reservePath at h
  dsimp only at h
  split at h
  · cases h
    exact leased_foldl_storeLease (lasting_renewed hnow httl) hleased
  · split at h
    · cases h
    · cases h
      obtain ⟨r, hr, hrest⟩ := hleased
      exact ⟨r, mem_append_left _ hr, hrest⟩

/-- The loop leases every path, and keeps what it has leased. -/
theorem leased_reservePaths (hnow : now < i64Max) (httl : 0 < q.ttlSeconds) {paths : List Text}
    {acc acc' : List FileReservationRow × LeaseTable} (hledger : LedgerBehind acc.2)
    (h : paths.foldlM (reservePath now q) acc = .ok acc') :
    (∀ other, Leased acc.2 now q other → Leased acc'.2 now q other) ∧
      ∀ path ∈ paths, Leased acc'.2 now q path := by
  induction paths generalizing acc with
  | nil =>
    cases h
    exact ⟨fun _ hother => hother, by simp⟩
  | cons path paths ih =>
    obtain ⟨mid, hfirst, hrest⟩ := foldlM_cons_eq_ok.mp h
    obtain ⟨hkeep, hall⟩ := ih (hledger.grows (grows_reservePath hfirst)) hrest
    constructor
    · intro other hother
      exact hkeep other (reservePath_keeps hnow httl hfirst hother)
    · rw [forall_mem_cons]
      exact ⟨hkeep path (leased_reservePath hnow httl hledger hfirst), hall⟩

/-- The loop cannot fail: the counter is positive after an insert. -/
theorem reservePaths_ok {paths : List Text} {acc : List FileReservationRow × LeaseTable}
    (hsequence : 0 ≤ acc.2.sequence) : ∃ acc', paths.foldlM (reservePath now q) acc = .ok acc' := by
  induction paths generalizing acc with
  | nil => exact ⟨acc, rfl⟩
  | cons path paths ih =>
    obtain ⟨mid, hmid⟩ : ∃ mid, reservePath now q acc path = .ok mid := by
      unfold reservePath
      dsimp only
      split
      · exact ⟨_, rfl⟩
      · rw [if_neg]
        · exact ⟨_, rfl⟩
        · show ¬ acc.2.sequence + 1 ≤ 0
          omega
    obtain ⟨acc', hrest⟩ := ih (hsequence.trans (grows_reservePath hmid).2)
    exact ⟨acc', foldlM_cons_eq_ok.mpr ⟨mid, hmid, hrest⟩⟩

end

/-! ### All or nothing -/

/-- What the index finds: an active lease of another agent that overlaps the path, with which the path
shares a route. -/
def Conflicts (P : Platform) (t : LeaseTable) (now : Int) (q : CreateRequest) (path : Text) : Prop :=
  ∃ r ∈ conflictRows t now q.projectId q.agentId q.exclusive,
    patternsOverlap P r.pathPattern path = true ∧
      ReservationConflictIndex.SharesRoute (CompiledPattern.new P r.pathPattern)
        (CompiledPattern.new P path)

section

variable {P : Platform} {t : LeaseTable} {now : Int} {q : CreateRequest}

/-- The answer of the conflict check of one path. -/
def checked (P : Platform) (t : LeaseTable) (now : Int) (q : CreateRequest) (path : Text) :
    Option CompiledPattern :=
  ReservationConflictIndex.firstConflict P.caseInsensitive
    (ReservationConflictIndex.build P
      ((conflictRows t now q.projectId q.agentId q.exclusive).map (·.pathPattern)))
    (CompiledPattern.new P path)

theorem checked_eq_none : checked P t now q path = none ↔ ¬ Conflicts P t now q path := by
  constructor
  · rintro hnone ⟨r, hr, hoverlap, hroute⟩
    have hfree := ReservationConflictIndex.firstConflict_none (mem_map_of_mem hr) hnone hroute
    rw [patternsOverlap, hfree] at hoverlap
    cases hoverlap
  · intro h
    cases hfound : checked P t now q path with
    | none => rfl
    | some e =>
      obtain ⟨p, hp, _, hoverlap, hroute⟩ := ReservationConflictIndex.firstConflict_some hfound
      obtain ⟨r, hr, rfl⟩ := mem_map.mp hp
      exact absurd ⟨r, hr, hoverlap, hroute⟩ h

/-- The request without its idempotency record, as the transaction runs it. -/
theorem create_eq (hactive : q.agentActive = true) :
    createFileReservations P t now { q with idempotency := .proceed } =
      match q.paths.findSome? fun path => (checked P t now q path).map fun activePat =>
          conflictMessage path activePat.norm with
      | some message => .error (.resourceBusy message)
      | none => q.paths.foldlM (reservePath now { q with idempotency := .proceed }) ([], t) := by
  unfold createFileReservations
  dsimp only
  rw [if_neg (by rw [hactive]; decide)]
  rfl

theorem create_error_of_inactive (h : q.agentActive = false) :
    createFileReservations P t now { q with idempotency := .proceed } = .error .inactiveAgent := by
  unfold createFileReservations
  dsimp only
  rw [if_pos (by rw [h]; rfl)]

theorem create_error_of_conflicts (hpath : path ∈ q.paths) (hconflict : Conflicts P t now q path)
    (hactive : q.agentActive = true) :
    ∃ message, createFileReservations P t now { q with idempotency := .proceed } =
      .error (.resourceBusy message) := by
  rw [create_eq hactive]
  cases hfound : q.paths.findSome? fun path => (checked P t now q path).map fun activePat =>
      conflictMessage path activePat.norm with
  | some message => exact ⟨message, rfl⟩
  | none =>
    have hnone := Option.map_eq_none_iff.mp (List.findSome?_eq_none_iff.mp hfound path hpath)
    exact absurd hconflict (checked_eq_none.mp hnone)

theorem create_ok_of_free (hsequence : 0 ≤ t.sequence) (hactive : q.agentActive = true)
    (hfree : ∀ path ∈ q.paths, ¬ Conflicts P t now q path) :
    ∃ out t', createFileReservations P t now { q with idempotency := .proceed } = .ok (out, t') ∧
      q.paths.foldlM (reservePath now { q with idempotency := .proceed }) ([], t) =
        .ok (out, t') := by
  have hnone : (q.paths.findSome? fun path => (checked P t now q path).map fun activePat =>
      conflictMessage path activePat.norm) = none := by
    apply List.findSome?_eq_none_iff.mpr
    intro path hpath
    exact Option.map_eq_none_iff.mpr (checked_eq_none.mpr (hfree path hpath))
  obtain ⟨⟨out, t'⟩, hloop⟩ : ∃ acc', q.paths.foldlM
      (reservePath now { q with idempotency := .proceed }) ([], t) = .ok acc' :=
    reservePaths_ok hsequence
  refine ⟨out, t', ?_, hloop⟩
  rw [create_eq hactive, hnone]
  exact hloop

end

section

variable {P : Platform} {S : RowsCodec} {db : ReservationDb} {now retentionSecs : Int}
  {q : CreateRequest} {claim : IdempotencyClaim}

theorem impl_replayed {row : IdempotencyRow} {rows : List FileReservationRow}
    (hrow : Recorded db.keys now claim row) (hsame : row.payloadFingerprint = claim.fingerprint)
    (hrows : S.fromJson row.resultJson = .ok rows) :
    createFileReservationsImpl P S db now retentionSecs q (some claim) =
      (.ok (.replayed rows), db) := by
  unfold createFileReservationsImpl createTx checkClaim
  dsimp only
  rw [lookup_prune.mpr hrow, decodeIdempotencyCheck, if_pos hsame]
  dsimp only
  rw [hrows]
  rfl

theorem impl_conflict {row : IdempotencyRow} (hrow : Recorded db.keys now claim row)
    (hother : row.payloadFingerprint ≠ claim.fingerprint) :
    ∃ info, createFileReservationsImpl P S db now retentionSecs q (some claim) =
      (.ok (.conflict info), db) := by
  unfold createFileReservationsImpl createTx checkClaim
  dsimp only
  rw [lookup_prune.mpr hrow, decodeIdempotencyCheck, if_neg hother]
  exact ⟨_, rfl⟩

theorem impl_error {e : DbError} (hnone : ∀ row, ¬ Recorded db.keys now claim row)
    (h : createFileReservations P db.leases now { q with idempotency := .proceed } = .error e) :
    createFileReservationsImpl P S db now retentionSecs q (some claim) = (.error e, db) := by
  unfold createFileReservationsImpl createTx checkClaim
  dsimp only
  rw [lookup_prune_none.mpr hnone, decodeIdempotencyCheck]
  dsimp only
  split
  · next e' he' =>
    rw [h] at he'
    cases he'
    rfl
  · next out leases hok =>
    rw [h] at hok
    cases hok

/-- The key is recorded with the rows, and its record can be replayed. -/
theorem impl_fresh {out : List FileReservationRow} {leases : LeaseTable}
    (hnone : ∀ row, ¬ Recorded db.keys now claim row)
    (h : createFileReservations P db.leases now { q with idempotency := .proceed } =
      .ok (out, leases)) (hcodec : S.Reliable out) :
    ∃ db' row, createFileReservationsImpl P S db now retentionSecs q (some claim) =
        (.ok (.fresh out), db') ∧ db'.leases = leases ∧ row ∈ db'.keys.rows ∧
      row.scope = claim.scope ∧ row.payloadFingerprint = claim.fingerprint ∧
      S.fromJson row.resultJson = .ok out ∧
      row.expiresTs = saturatingAdd now (saturatingMul retentionSecs 1000000) := by
  obtain ⟨json, hwrite, hread⟩ := hcodec
  have hfresh : ∀ r ∈ (db.keys.prune now).rows, r.scope ≠ claim.scope := by
    intro r hr hscope
    obtain ⟨hmem, hlive⟩ := mem_filter.mp hr
    exact hnone r ⟨hmem, hscope, by simpa using hlive⟩
  unfold createFileReservationsImpl createTx checkClaim
  dsimp only
  rw [lookup_prune_none.mpr hnone, decodeIdempotencyCheck]
  dsimp only
  split
  · next e he =>
    rw [h] at he
    cases he
  · next out' leases' hok =>
    obtain ⟨rfl, rfl⟩ := Prod.mk.inj (Except.ok.inj (h.symm.trans hok))
    rw [hwrite]
    exact ⟨_, _, rfl, rfl, mem_insert_of_new hfresh, rfl, rfl, hread, rfl⟩

def firstRequest : CreateRequest := requestOf 1 "src/a.rs".toList true

def firstClaim : IdempotencyClaim where
  projectId := 1
  tool := "file_reservation_paths".toList
  key := "k1".toList
  fingerprint := "f1".toList

def emptyDb : ReservationDb where
  leases := .empty
  keys := ⟨[], nodup_nil⟩
  sequence_nonneg := le_rfl
  ledger := by
    intro id hid
    cases hid

/-- The rows that the request gets at a time. -/
def rowsAt (now : Int) : List FileReservationRow :=
  [⟨1, 1, 1, "src/a.rs".toList, true, "edit", now, now + 60000000, none⟩]

def jsonAt (createdTs expiresTs : String) : Text :=
  ("[\x7b\"id\":1,\"project_id\":1,\"agent_id\":1,\"path_pattern\":\"src/a.rs\",\"exclusive\":1," ++
    "\"reason\":\"edit\",\"created_ts\":" ++ createdTs ++ ",\"expires_ts\":" ++ expiresTs ++
    ",\"released_ts\":null\x7d]").toList

/-- `serde_json` on one result. -/
def codecOf (rows : List FileReservationRow) (json : Text) : RowsCodec where
  toJson rows' := if rows' = rows then .ok json else .error "not these rows"
  fromJson json' :=
    if json' = json then .ok rows else .error "expected value at line 1 column 1"

theorem codecOf_reliable (rows : List FileReservationRow) (json : Text) :
    (codecOf rows json).Reliable rows := ⟨json, if_pos rfl, if_pos rfl⟩

def firstCodec : RowsCodec := codecOf (rowsAt 0) (jsonAt "0" "60000000")

def expiredRow : IdempotencyRow where
  projectId := 1
  tool := "file_reservation_paths".toList
  key := "k1".toList
  payloadFingerprint := "f1".toList
  resultJson := "[]".toList
  createdTs := 0
  expiresTs := 86400000000

def expiredDb : ReservationDb where
  leases := .empty
  keys := ⟨[expiredRow], nodup_singleton _⟩
  sequence_nonneg := le_rfl
  ledger := by
    intro id hid
    cases hid

/-- Behind the expiry of its key the request is made again. -/
def laterCodec : RowsCodec := codecOf (rowsAt 86400000001) (jsonAt "86400000001" "86460000001")

end

end AgentMail.Reservation
