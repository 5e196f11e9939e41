import AgentMail.Base.Values
import Mathlib.Data.List.Nodup
import Mathlib.Data.List.MinMax

/-!
# The message id allocator

Message ids come from the `messages` row of `sqlite_sequence`, which election
(`crates/mcp-agent-mail-db/src/queries.rs:8640–8745`) and floor repair
(`crates/mcp-agent-mail-db/src/id_floor.rs:813–956`) both read and rewrite. The engine may fail
at any statement; a transaction works on a copy of the durable store until it commits.
-/

namespace AgentMail.Store

open Base List

/-- A row of `sqlite_sequence`. The columns have no type and `name` is not unique. -/
structure SequenceRow where
  rowid : Int
  name : String
  seq : Option Int
  deriving DecidableEq

def SequenceRow.isMessages (r : SequenceRow) : Bool := r.name == "messages"

/-- `sqlite_sequence`, with its unique row ids. -/
structure SequenceTable where
  rows : List SequenceRow
  nodup : (rows.map (·.rowid)).Nodup

/-- What the allocator reads and writes of the database: the ids of `messages`, and
`sqlite_sequence`. -/
structure Database where
  messages : List Int
  sequence : SequenceTable

/-- `COALESCE(MAX(column), 0)` over the values that are not `NULL`. -/
def coalesceMax (values : List Int) : Int := values.max?.getD 0

theorem le_coalesceMax {values : List Int} {x : Int} (h : x ∈ values) : x ≤ coalesceMax values := by
  obtain ⟨m, hm⟩ := Option.isSome_iff_exists.mp (isSome_max?_of_mem h)
  rw [coalesceMax, hm]
  exact (List.max?_eq_some_iff.mp hm).2 x h

/-! ### Statements on `sqlite_sequence` -/

namespace SequenceTable

variable (t : SequenceTable)

def messagesRows : List SequenceRow := t.rows.filter (·.isMessages)

/-- The rows of the other tables. -/
def others : List SequenceRow := t.rows.filter (!·.isMessages)

/-- `SELECT COALESCE(MAX(seq), 0) FROM sqlite_sequence WHERE name = 'messages'`. -/
def maxSeq : Int := coalesceMax (t.messagesRows.filterMap (·.seq))

/-- A row id that no row has: one more than the largest. -/
def freshRowid : Int := coalesceMax (t.rows.map (·.rowid)) + 1

theorem freshRowid_notMem : t.freshRowid ∉ t.rows.map (·.rowid) := by
  intro h
  have := le_coalesceMax h
  unfold freshRowid at this
  omega

/-- `INSERT INTO sqlite_sequence (name, seq) SELECT 'messages', value WHERE NOT EXISTS (…)`. -/
def insertIfMissing (value : Int) : SequenceTable where
  rows :=
    if t.rows.any (·.isMessages) then t.rows
    else t.rows ++ [⟨t.freshRowid, "messages", some value⟩]
  nodup := by
    split
    · exact t.nodup
    · rw [map_append, nodup_append]
      refine ⟨t.nodup, nodup_singleton _, ?_⟩
      intro a ha b hb
      rw [map_singleton, mem_singleton] at hb
      rintro rfl
      rw [hb] at ha
      exact t.freshRowid_notMem ha

/-- `UPDATE sqlite_sequence SET seq = … WHERE name = 'messages'`. -/
def updateMessages (value : Option Int → Option Int) : SequenceTable where
  rows := t.rows.map fun r => if r.isMessages then { r with seq := value r.seq } else r
  nodup := by
    have hid : ((fun r : SequenceRow => r.rowid) ∘ fun r : SequenceRow =>
        if r.isMessages then { r with seq := value r.seq } else r) = (·.rowid) := by
      funext r
      simp only [Function.comp_apply]
      split <;> rfl
    rw [map_map, hid]
    exact t.nodup

/-- `DELETE … WHERE name = 'messages' AND rowid <> (SELECT MIN(rowid) … WHERE name = 'messages')`. -/
def keepFirst : SequenceTable where
  rows :=
    let first := (t.messagesRows.map (·.rowid)).min?
    t.rows.filter fun r => !r.isMessages || first == some r.rowid
  nodup := t.nodup.sublist (filter_sublist.map _)

/-- The four statements of `repair_sql`. A comparison with `NULL` is not true, so `CASE` takes its
`ELSE` branch there. -/
def repairSql (desiredFloor : Int) : SequenceTable :=
  let raised := fun r : SequenceRow => match r.seq with
    | some seq => if seq > desiredFloor then seq else desiredFloor
    | none => desiredFloor
  let highest := (t.messagesRows.map raised).max?
  let updated := t.updateMessages fun _ => highest
  let single := updated.keepFirst
  let present := single.insertIfMissing desiredFloor
  present.updateMessages fun seq => match seq with
    | some seq => if seq < desiredFloor then some desiredFloor else some seq
    | none => none

end SequenceTable

/-! ### Transactions -/

/-- A connection: the durable store and, inside a transaction, the copy it works on. -/
structure Conn where
  durable : Database
  tx : Option Database

namespace Conn

def rollback (c : Conn) : Conn := { c with tx := none }

def commit (c : Conn) : Conn := { durable := c.tx.getD c.durable, tx := none }

end Conn

/-- The statements of the election that can fail. -/
inductive ElectStage where
  | maxId | seed | readSeq | update

/-- `elect_message_id_in_tx`; `work` is the store inside the writer's transaction, and every error
path rolls it back. -/
def electMessageIdInTx (fault : ElectStage → Option String) (archiveSeed : Int) (durable work : Database) :
    Except DbError Int × Conn :=
  let rolledBack : Conn := { durable := durable, tx := none }
  match fault .maxId with
  | some e => (.error (.sqlite e), rolledBack)
  | none =>
    let maxId := coalesceMax work.messages
    let seedFloor := max (max maxId archiveSeed) 0
    match fault .seed with
    | some e => (.error (.sqlite e), rolledBack)
    | none =>
      let seeded := work.sequence.insertIfMissing seedFloor
      let inserted := seeded.rows.length - work.sequence.rows.length
      if inserted > 1 then
        (.error (.internal s!"message id election: allocator seed matched {inserted} rows"), rolledBack)
      else
        match fault .readSeq with
        | some e => (.error (.sqlite e), rolledBack)
        | none =>
          let durableSeq := seeded.maxSeq
          match checkedAdd (max (max (max durableSeq maxId) archiveSeed) 0) 1 with
          | none =>
            (.error (.internal "message id election exhausted the positive i64 row-id range"), rolledBack)
          | some elected =>
            match fault .update with
            | some e => (.error (.sqlite e), rolledBack)
            | none =>
              let updated := seeded.messagesRows.length
              if updated ≠ 1 then
                (.error (.internal
                  s!"message id election: allocator row update matched {updated} rows"), rolledBack)
              else
                (.ok elected, { durable := durable, tx := some { work with
                  sequence := seeded.updateMessages fun _ => some elected } })

/-- The statements of the repair that can fail. -/
inductive RepairStage where
  | begin | readMax | readSeq | repair | verify | commit

/-- The body of `advance_messages_id_floor_with` inside its transaction: the new floor, or `none`
where nothing is to do, with the store it leaves. -/
def repairInTx (fault : RepairStage → Option String) (archiveMax : Int) (work : Database) :
    Except DbError (Option Int × Database) :=
  match fault .readMax with
  | some e => .error (.sqlite s!"id_floor: read MAX(id): {e}")
  | none =>
    let dbMaxId := coalesceMax work.messages
    match fault .readSeq with
    | some e => .error (.sqlite s!"id_floor: read sqlite_sequence: {e}")
    | none =>
      let seqRowCount := work.sequence.messagesRows.length
      let seqValue := work.sequence.maxSeq
      let currentFloor := max dbMaxId seqValue
      let desiredFloor := max currentFloor archiveMax
      if seqRowCount = 1 ∧ seqValue ≥ desiredFloor then .ok (none, work)
      else
        match fault .repair with
        | some error => .error (.sqlite s!"id_floor: repair/advance sqlite_sequence: {error}")
        | none =>
          let repaired := work.sequence.repairSql desiredFloor
          match fault .verify with
          | some e => .error (.sqlite s!"id_floor: verify sqlite_sequence repair: {e}")
          | none =>
            let persistedCount := repaired.messagesRows.length
            let persistedFloor := repaired.maxSeq
            if persistedCount ≠ 1 ∨ persistedFloor < desiredFloor then
              .error (.sqlite (s!"id_floor: allocator repair verification failed: " ++
                s!"row_count={persistedCount}, seq={persistedFloor}, required_floor={desiredFloor}"))
            else .ok (some persistedFloor, { work with sequence := repaired })

/-- `advance_messages_id_floor`; `BEGIN IMMEDIATE` fails inside a transaction of the caller. -/
def advanceMessagesIdFloor (fault : RepairStage → Option String) (archiveMaxId : Option Int)
    (c : Conn) : Except DbError (Option Int) × Conn :=
  match archiveMaxId with
  | none => (.ok none, c)
  | some archiveMax =>
    if archiveMax ≤ 0 then (.ok none, c)
    else
      match fault .begin, c.tx with
      | some e, _ => (.error (.sqlite s!"id_floor: begin allocator repair: {e}"), c)
      | none, some _ =>
        (.error (.sqlite ("id_floor: begin allocator repair: " ++
          "cannot start a transaction within a transaction")), c)
      | none, none =>
        match repairInTx fault archiveMax c.durable with
        | .error error => (.error error, c.rollback)
        | .ok (repaired, work) =>
          match fault .commit with
          | some error =>
            (.error (.sqlite s!"id_floor: commit allocator repair: {error}"), c.rollback)
          | none => (.ok repaired, Conn.commit { c with tx := some work })

/-! ### What the statements leave -/

namespace SequenceTable

variable (t : SequenceTable)

theorem messagesRows_updateMessages (value : Option Int → Option Int) :
    (t.updateMessages value).messagesRows =
      t.messagesRows.map fun r => { r with seq := value r.seq } := by
  unfold messagesRows updateMessages
  dsimp only
  induction t.rows with
  | nil => rfl
  | cons r rows ih =>
    rw [map_cons]
    cases hr : r.isMessages with
    | true =>
      have hr' : SequenceRow.isMessages { r with seq := value r.seq } = true := hr
      rw [if_pos rfl, filter_cons_of_pos hr', filter_cons_of_pos hr, map_cons, ih]
    | false =>
      rw [if_neg Bool.false_ne_true, filter_cons_of_neg (by rw [hr]; exact Bool.false_ne_true),
        filter_cons_of_neg (by rw [hr]; exact Bool.false_ne_true), ih]

@[simp] theorem others_updateMessages (value : Option Int → Option Int) :
    (t.updateMessages value).others = t.others := by
  unfold others updateMessages
  dsimp only
  induction t.rows with
  | nil => rfl
  | cons r rows ih =>
    rw [map_cons]
    cases hr : r.isMessages with
    | true =>
      have hr' : SequenceRow.isMessages { r with seq := value r.seq } = true := hr
      rw [if_pos rfl, filter_cons_of_neg (by simp [hr']), filter_cons_of_neg (by simp [hr]), ih]
    | false =>
      rw [if_neg Bool.false_ne_true, filter_cons_of_pos (by simp [hr]),
        filter_cons_of_pos (by simp [hr]), ih]

theorem messagesRows_insertIfMissing (value : Int) :
    (t.insertIfMissing value).messagesRows =
      if t.messagesRows = [] then [⟨t.freshRowid, "messages", some value⟩] else t.messagesRows := by
  have hany : t.rows.any (·.isMessages) = true ↔ ¬ t.messagesRows = [] := by
    unfold messagesRows
    rw [any_eq_true, filter_eq_nil_iff]
    push Not
    rfl
  unfold insertIfMissing
  by_cases h : t.messagesRows = []
  · have hnone : t.rows.any (·.isMessages) = false := by
      rw [← Bool.not_eq_true, hany]
      exact not_not.mpr h
    rw [if_pos h, messagesRows]
    dsimp only
    rw [hnone, if_neg Bool.false_ne_true, filter_append]
    unfold messagesRows at h
    rw [h]
    rfl
  · rw [if_neg h, messagesRows]
    dsimp only
    rw [if_pos (hany.mpr h), messagesRows]

@[simp] theorem others_insertIfMissing (value : Int) : (t.insertIfMissing value).others = t.others := by
  unfold others insertIfMissing
  dsimp only
  split
  · rfl
  · rw [filter_append]
    exact append_nil _

@[simp] theorem others_keepFirst : t.keepFirst.others = t.others := by
  unfold others keepFirst
  dsimp only
  rw [filter_filter]
  apply filter_congr
  intro r _
  cases r.isMessages <;> simp

theorem messagesRows_keepFirst :
    t.keepFirst.messagesRows = t.messagesRows.filter fun r =>
      (t.messagesRows.map (·.rowid)).min? == some r.rowid := by
  unfold messagesRows keepFirst messagesRows
  dsimp only
  rw [filter_filter, filter_filter]
  apply filter_congr
  intro r _
  cases r.isMessages <;> simp

/-- The deletion leaves one `messages` row if there was any. -/
theorem length_messagesRows_keepFirst (h : t.messagesRows ≠ []) :
    t.keepFirst.messagesRows.length = 1 := by
  have hnodup : (t.messagesRows.map (·.rowid)).Nodup :=
    t.nodup.sublist (filter_sublist.map _)
  obtain ⟨k, hk⟩ : ∃ k, (t.messagesRows.map (·.rowid)).min? = some k := by
    rw [← Option.isSome_iff_exists, isSome_min?_iff]
    simpa using h
  have hmem : k ∈ t.messagesRows.map (·.rowid) := (List.min?_eq_some_iff.mp hk).1
  have hcount : (t.messagesRows.map (·.rowid)).count k = 1 := count_eq_one_of_mem hnodup hmem
  rw [messagesRows_keepFirst, hk, ← countP_eq_length_filter, ← hcount, List.count, countP_map]
  apply countP_congr
  intro r _
  simp only [Function.comp_apply, beq_iff_eq, Option.some.injEq]
  exact eq_comm

theorem maxSeq_of_forall {value : Int} (hne : t.messagesRows ≠ [])
    (h : ∀ r ∈ t.messagesRows, r.seq = some value) : t.maxSeq = value := by
  obtain ⟨r, rest, he⟩ := exists_cons_of_ne_nil hne
  have hmem : value ∈ t.messagesRows.filterMap (·.seq) :=
    mem_filterMap.mpr ⟨r, by simp [he], h r (by simp [he])⟩
  have hall : ∀ x ∈ t.messagesRows.filterMap (·.seq), x ≤ value := by
    intro x hx
    obtain ⟨r', hr', hx'⟩ := mem_filterMap.mp hx
    rw [h r' hr'] at hx'
    cases hx'
    exact Int.le_refl _
  have hmax : (t.messagesRows.filterMap (·.seq)).max? = some value :=
    List.max?_eq_some_iff.mpr ⟨hmem, hall⟩
  rw [maxSeq, coalesceMax, hmax]
  rfl

theorem maxSeq_insertIfMissing (value : Int) (h : 0 ≤ value) :
    t.maxSeq ≤ (t.insertIfMissing value).maxSeq := by
  unfold maxSeq
  rw [messagesRows_insertIfMissing]
  by_cases hnil : t.messagesRows = []
  · rw [if_pos hnil, hnil]
    exact h
  · rw [if_neg hnil]

/-- `CASE WHEN seq > floor THEN seq ELSE floor END`. -/
theorem le_raised (desiredFloor : Int) (seq : Option Int) :
    desiredFloor ≤ (match seq with
      | some seq => if seq > desiredFloor then seq else desiredFloor
      | none => desiredFloor : Int) := by
  cases seq with
  | none => exact Int.le_refl _
  | some seq =>
    dsimp only
    split <;> omega

/-- The four statements leave one row for the table, no lower than the floor they were given, and
every other row as it was. -/
theorem repairSql_spec (desiredFloor : Int) :
    (t.repairSql desiredFloor).messagesRows.length = 1 ∧
      desiredFloor ≤ (t.repairSql desiredFloor).maxSeq ∧
      (t.repairSql desiredFloor).others = t.others := by
  unfold repairSql
  dsimp only
  by_cases hnil : t.messagesRows = []
  · -- No row: the insertion creates the only one.
    have hrows (value : Option Int → Option Int) :
        (t.updateMessages value).keepFirst.messagesRows = [] := by
      rw [messagesRows_keepFirst, messagesRows_updateMessages, hnil]
      rfl
    refine ⟨?_, ?_, by simp⟩
    · rw [messagesRows_updateMessages, messagesRows_insertIfMissing, if_pos (hrows _)]
      rfl
    · apply le_of_eq
      symm
      apply maxSeq_of_forall
      · rw [messagesRows_updateMessages, messagesRows_insertIfMissing, if_pos (hrows _)]
        exact cons_ne_nil _ _
      · rw [messagesRows_updateMessages, messagesRows_insertIfMissing, if_pos (hrows _)]
        simp
  · -- The first update makes all rows equal, so the survivor carries the highest value.
    obtain ⟨highest, hmax⟩ : ∃ highest, (t.messagesRows.map fun r => (match r.seq with
        | some seq => if seq > desiredFloor then seq else desiredFloor
        | none => desiredFloor : Int)).max? = some highest := by
      rw [← Option.isSome_iff_exists, isSome_max?_iff]
      simpa using hnil
    have hfloor : desiredFloor ≤ highest := by
      obtain ⟨r, _, hr⟩ := mem_map.mp (List.max?_eq_some_iff.mp hmax).1
      rw [← hr]
      exact le_raised desiredFloor r.seq
    have hupdated : (t.updateMessages fun _ => some highest).messagesRows ≠ [] := by
      rw [messagesRows_updateMessages]
      simpa using hnil
    have hone := length_messagesRows_keepFirst _ hupdated
    have hne : (t.updateMessages fun _ => some highest).keepFirst.messagesRows ≠ [] := by
      intro h
      rw [h] at hone
      cases hone
    rw [hmax]
    refine ⟨?_, ?_, by simp⟩
    · rw [messagesRows_updateMessages, messagesRows_insertIfMissing, if_neg hne, length_map, hone]
    · apply le_trans hfloor
      apply le_of_eq
      symm
      apply maxSeq_of_forall
      · rw [messagesRows_updateMessages, messagesRows_insertIfMissing, if_neg hne]
        simpa using hne
      · intro r hr
        rw [messagesRows_updateMessages, messagesRows_insertIfMissing, if_neg hne,
          messagesRows_keepFirst, messagesRows_updateMessages] at hr
        obtain ⟨r', hr', rfl⟩ := mem_map.mp hr
        obtain ⟨r'', _, rfl⟩ := mem_map.mp (mem_of_mem_filter hr')
        dsimp only
        rw [if_neg (by omega)]

end SequenceTable

/-! ### Election and repair -/

/-- An election fails with the transaction rolled back, or rewrites the one row of the table with
an id above everything it read. -/
theorem electMessageIdInTx_cases (fault : ElectStage → Option String) (archiveSeed : Int)
    (durable work : Database) :
    (∃ e, electMessageIdInTx fault archiveSeed durable work = (.error e, ⟨durable, none⟩)) ∨
    ∃ elected sequence, electMessageIdInTx fault archiveSeed durable work =
        (.ok elected, ⟨durable, some { work with sequence := sequence }⟩) ∧
      (∀ m ∈ work.messages, m < elected) ∧ work.sequence.maxSeq < elected ∧ archiveSeed < elected ∧
      sequence.maxSeq = elected ∧ sequence.others = work.sequence.others := by
  unfold electMessageIdInTx
  dsimp only
  generalize hseed : max (max (coalesceMax work.messages) archiveSeed) 0 = seedFloor
  split
  · exact .inl ⟨_, rfl⟩
  · split
    · exact .inl ⟨_, rfl⟩
    · split
      · exact .inl ⟨_, rfl⟩
      · split
        · exact .inl ⟨_, rfl⟩
        · split
          · exact .inl ⟨_, rfl⟩
          · next elected helected =>
            split
            · exact .inl ⟨_, rfl⟩
            · split
              · exact .inl ⟨_, rfl⟩
              · next hone =>
                have hnonneg : 0 ≤ seedFloor := by omega
                have hseq := work.sequence.maxSeq_insertIfMissing seedFloor hnonneg
                have hvalue : elected = max (max (max (work.sequence.insertIfMissing seedFloor).maxSeq
                    (coalesceMax work.messages)) archiveSeed) 0 + 1 := by
                  unfold checkedAdd at helected
                  split at helected
                  · exact (Option.some.inj helected).symm
                  · cases helected
                refine .inr ⟨elected, _, rfl, ?_, by omega, by omega, ?_, by simp⟩
                · intro m hm
                  have := le_coalesceMax hm
                  omega
                · rw [not_not] at hone
                  apply SequenceTable.maxSeq_of_forall
                  · rw [SequenceTable.messagesRows_updateMessages]
                    intro hnil
                    have hlen := congrArg List.length hnil
                    rw [length_map, hone] at hlen
                    cases hlen
                  · intro r hr
                    rw [SequenceTable.messagesRows_updateMessages, mem_map] at hr
                    obtain ⟨_, _, rfl⟩ := hr
                    rfl

/-- A repair in its transaction fails, or leaves one row at or above every floor. -/
theorem repairInTx_ok {fault : RepairStage → Option String} {archiveMax : Int} {work work' : Database}
    {floor : Option Int} (h : repairInTx fault archiveMax work = .ok (floor, work')) :
    work'.messages = work.messages ∧ work'.sequence.messagesRows.length = 1 ∧
      coalesceMax work.messages ≤ work'.sequence.maxSeq ∧
      work.sequence.maxSeq ≤ work'.sequence.maxSeq ∧ archiveMax ≤ work'.sequence.maxSeq ∧
      work'.sequence.others = work.sequence.others := by
  unfold repairInTx at h
  dsimp only at h
  split at h
  · cases h
  · split at h
    · cases h
    · split at h
      · next hdone =>
        cases h
        exact ⟨rfl, hdone.1, by omega, Int.le_refl _, by omega, rfl⟩
      · split at h
        · cases h
        · split at h
          · cases h
          · split at h
            · cases h
            · next hverified =>
              cases h
              rw [not_or, not_not, Int.not_lt] at hverified
              have hothers := (work.sequence.repairSql_spec (max (max (coalesceMax work.messages)
                work.sequence.maxSeq) archiveMax)).2.2
              dsimp only
              exact ⟨rfl, hverified.1, by omega, by omega, by omega, hothers⟩

/-! ### Runs -/

/-- What an engine may do to the sequence on its own when it inserts a row: never lower it, never
touch another table. -/
structure Engine where
  advance : SequenceTable → Int → SequenceTable
  others : ∀ t id, (advance t id).others = t.others
  le_maxSeq : ∀ t id, t.maxSeq ≤ (advance t id).maxSeq

/-- One serialised transaction, with the faults it meets. Deletion of messages is added to the
transactions of the allocator, since ids must not come back after it. -/
inductive Event where
  | insert (fault : ElectStage → Option String) (archiveSeed : Int) (engine : Engine) (commits : Bool)
  | repair (fault : RepairStage → Option String) (archiveMaxId : Option Int)
  | delete (keeps : Int → Bool)

inductive Outcome where
  | inserted (id : Int)
  | rolledBack
  | insertFailed (e : DbError)
  | repaired (floor : Option Int)
  | repairFailed (e : DbError)
  | deleted
  deriving DecidableEq

/-- The election or repair did not commit. -/
def Outcome.aborted : Outcome → Bool
  | .rolledBack | .insertFailed _ | .repairFailed _ => true
  | _ => false

/-- The connection between transactions, and the ids that elections have committed so far. -/
structure System where
  conn : Conn
  committed : List Int

/-- One transaction. An insertion elects its id, inserts the row and commits or rolls back. -/
def step (s : System) : Event → Outcome × System
  | .insert fault archiveSeed engine commits =>
    match electMessageIdInTx fault archiveSeed s.conn.durable s.conn.durable with
    | (.error e, conn) => (.insertFailed e, { s with conn := conn })
    | (.ok id, conn) =>
      if commits then
        let inserted := conn.tx.map fun work : Database =>
          { messages := id :: work.messages, sequence := engine.advance work.sequence id }
        (.inserted id, { conn := Conn.commit { conn with tx := inserted }, committed := id :: s.committed })
      else (.rolledBack, { s with conn := conn.rollback })
  | .repair fault archiveMaxId =>
    match advanceMessagesIdFloor fault archiveMaxId s.conn with
    | (.error e, conn) => (.repairFailed e, { s with conn := conn })
    | (.ok floor, conn) => (.repaired floor, { s with conn := conn })
  | .delete keeps =>
    let durable := { s.conn.durable with messages := s.conn.durable.messages.filter keeps }
    (.deleted, { s with conn := { s.conn with durable := durable } })

/-- The system after a sequence of transactions. -/
def run (start : Database) (events : List Event) : System :=
  events.foldl (fun s e => (step s e).2) { conn := { durable := start, tx := none }, committed := [] }

/-- No transaction is open, and the sequence is at or above every committed id. -/
structure Invariant (s : System) : Prop where
  closed : s.conn.tx = none
  le_maxSeq : ∀ id ∈ s.committed, id ≤ s.conn.durable.sequence.maxSeq

/-- A repair in the system: skipped, aborted without a trace, or committed. -/
theorem advanceMessagesIdFloor_cases {fault : RepairStage → Option String} {archiveMaxId : Option Int}
    {c : Conn} (hclosed : c.tx = none) :
    ((∀ archiveMax, archiveMaxId = some archiveMax → archiveMax ≤ 0) ∧
      advanceMessagesIdFloor fault archiveMaxId c = (.ok none, c)) ∨
    (∃ archiveMax e, archiveMaxId = some archiveMax ∧ 0 < archiveMax ∧
      advanceMessagesIdFloor fault archiveMaxId c = (.error e, c)) ∨
    ∃ archiveMax floor work, archiveMaxId = some archiveMax ∧ 0 < archiveMax ∧
      repairInTx fault archiveMax c.durable = .ok (floor, work) ∧
      advanceMessagesIdFloor fault archiveMaxId c = (.ok floor, ⟨work, none⟩) := by
  have hrollback : c.rollback = c := by
    obtain ⟨durable, tx⟩ := c
    cases hclosed
    rfl
  unfold advanceMessagesIdFloor
  cases archiveMaxId with
  | none =>
    left
    refine ⟨?_, rfl⟩
    intro _ h
    cases h
  | some archiveMax =>
    dsimp only
    by_cases hpos : archiveMax ≤ 0
    · left
      rw [if_pos hpos]
      refine ⟨?_, rfl⟩
      intro _ h
      cases h
      exact hpos
    · rw [if_neg hpos, hclosed]
      rw [Int.not_le] at hpos
      right
      cases fault .begin with
      | some e => exact .inl ⟨archiveMax, _, rfl, hpos, rfl⟩
      | none =>
        dsimp only
        cases hrepair : repairInTx fault archiveMax c.durable with
        | error e =>
          dsimp only
          rw [hrollback]
          exact .inl ⟨archiveMax, _, rfl, hpos, rfl⟩
        | ok result =>
          obtain ⟨floor, work⟩ := result
          dsimp only
          cases fault .commit with
          | some e =>
            dsimp only
            rw [hrollback]
            exact .inl ⟨archiveMax, _, rfl, hpos, rfl⟩
          | none => exact .inr ⟨archiveMax, floor, work, rfl, hpos, hrepair, rfl⟩

/-- What one transaction does from a state with the invariant. -/
structure Guarantees (s : System) (e : Event) : Prop where
  /-- A committed id is above every row, every committed id, the sequence and the seed. -/
  fresh : ∀ fault archiveSeed engine commits id, e = .insert fault archiveSeed engine commits →
    (step s e).1 = .inserted id →
    (∀ m ∈ s.conn.durable.messages, m < id) ∧ (∀ m ∈ s.committed, m < id) ∧
      s.conn.durable.sequence.maxSeq < id ∧ archiveSeed < id
  unchanged : (step s e).1.aborted = true → (step s e).2 = s
  /-- A repair from a positive archive maximum leaves one row at or above every floor. -/
  floor : ∀ fault archiveMax floor, e = .repair fault (some archiveMax) → 0 < archiveMax →
    (step s e).1 = .repaired floor → (step s e).2.conn.durable.sequence.messagesRows.length = 1 ∧
      max (max (coalesceMax s.conn.durable.messages) s.conn.durable.sequence.maxSeq) archiveMax ≤
        (step s e).2.conn.durable.sequence.maxSeq ∧
      (step s e).2.conn.durable.sequence.others = s.conn.durable.sequence.others ∧
      (step s e).2.conn.durable.messages = s.conn.durable.messages
  /-- Without a positive archive maximum there is nothing to repair. -/
  skipped : ∀ fault archiveMaxId, e = .repair fault archiveMaxId →
    (∀ archiveMax, archiveMaxId = some archiveMax → archiveMax ≤ 0) → step s e = (.repaired none, s)

theorem step_guarantees {s : System} (hs : Invariant s) (e : Event) : Guarantees s e := by
  cases e with
  | insert fault archiveSeed engine commits =>
    have hcases := electMessageIdInTx_cases fault archiveSeed s.conn.durable s.conn.durable
    have hclosed : (⟨s.conn.durable, none⟩ : Conn) = s.conn := by
      rw [← hs.closed]
    refine ⟨?_, ?_, nofun, nofun⟩
    · intro _ _ _ _ id he hid
      cases he
      rcases hcases with ⟨e, he⟩ | ⟨elected, sequence, he, hmessages, hseq, hseed, _, _⟩
      · simp only [step, he] at hid
        cases hid
      · simp only [step, he] at hid
        split at hid
        · cases hid
          refine ⟨hmessages, ?_, hseq, hseed⟩
          intro m hm
          have := hs.le_maxSeq m hm
          omega
        · cases hid
    · intro haborted
      rcases hcases with ⟨e, he⟩ | ⟨elected, sequence, he, _⟩
      · simp only [step, he, hclosed]
      · simp only [step, he] at haborted ⊢
        split at haborted
        · cases haborted
        · next hrolled =>
          rw [if_neg hrolled]
          simp only [Conn.rollback, hclosed]
  | repair fault archiveMaxId =>
    refine ⟨nofun, ?_, ?_, ?_⟩
    · intro haborted
      rcases @advanceMessagesIdFloor_cases fault archiveMaxId _ hs.closed with
        ⟨_, he⟩ | ⟨_, e, _, _, he⟩ | ⟨archiveMax, floor, work, _, _, _, he⟩
      · simp only [step, he] at haborted
        cases haborted
      · simp only [step, he]
      · simp only [step, he] at haborted
        cases haborted
    · intro _ archiveMax floor he hpos hfloor
      cases he
      rcases @advanceMessagesIdFloor_cases fault (some archiveMax) _ hs.closed
        with ⟨hskip, _⟩ | ⟨_, e, _, _, he⟩ | ⟨archiveMax', floor', work, hmax, _, hrepair, he⟩
      · have := hskip archiveMax rfl
        omega
      · simp only [step, he] at hfloor
        cases hfloor
      · cases hmax
        obtain ⟨hmessages, hone, hdb, hseq, harchive, hothers⟩ := repairInTx_ok hrepair
        simp only [step, he]
        exact ⟨hone, by omega, hothers, hmessages⟩
    · intro _ _ he hskip
      cases he
      rcases @advanceMessagesIdFloor_cases fault archiveMaxId _ hs.closed with
        ⟨_, he⟩ | ⟨archiveMax, e, hmax, hpos, he⟩ | ⟨archiveMax, floor, work, hmax, hpos, _, he⟩
      · simp only [step, he]
      · have := hskip archiveMax hmax
        omega
      · have := hskip archiveMax hmax
        omega
  | delete keeps => exact ⟨nofun, nofun, nofun, nofun⟩

theorem step_invariant {s : System} (hs : Invariant s) (e : Event) : Invariant (step s e).2 := by
  cases e with
  | insert fault archiveSeed engine commits =>
    rcases electMessageIdInTx_cases fault archiveSeed s.conn.durable s.conn.durable with
      ⟨e, he⟩ | ⟨elected, sequence, he, _, hseq, _, hmax, _⟩
    · simp only [step, he]
      exact ⟨rfl, hs.le_maxSeq⟩
    · simp only [step, he]
      split
      · refine ⟨rfl, ?_⟩
        have hadvance := engine.le_maxSeq sequence elected
        intro id hid
        change id ≤ (engine.advance sequence elected).maxSeq
        rcases mem_cons.mp hid with rfl | hid
        · omega
        · have := hs.le_maxSeq id hid
          omega
      · exact ⟨rfl, hs.le_maxSeq⟩
  | repair fault archiveMaxId =>
    rcases @advanceMessagesIdFloor_cases fault archiveMaxId _ hs.closed with
      ⟨_, he⟩ | ⟨_, e, _, _, he⟩ | ⟨archiveMax, floor, work, _, _, hrepair, he⟩
    · simp only [step, he]
      exact hs
    · simp only [step, he]
      exact hs
    · obtain ⟨_, _, _, hseq, _, _⟩ := repairInTx_ok hrepair
      simp only [step, he]
      refine ⟨rfl, ?_⟩
      intro id hid
      exact le_trans (hs.le_maxSeq id hid) hseq
  | delete keeps => exact ⟨hs.closed, hs.le_maxSeq⟩

theorem run_invariant (start : Database) (events : List Event) : Invariant (run start events) := by
  have hfoldl (s : System) (hs : Invariant s) :
      Invariant (events.foldl (fun s e => (step s e).2) s) := by
    induction events generalizing s with
    | nil => exact hs
    | cons e events ih => exact ih _ (step_invariant hs e)
  exact hfoldl _ ⟨rfl, nofun⟩

/-- Message ids are never reused: in every run, from every content of the two tables. -/
theorem run_guarantees (start : Database) (events : List Event) (e : Event) :
    Guarantees (run start events) e := step_guarantees (run_invariant start events) e

/-- Without an archive maximum a successful repair leaves the allocator as it is, here with two
rows and with none. -/
theorem repair_skips_without_archive :
    (step (run ⟨[10], ⟨[⟨1, "messages", some 7⟩, ⟨2, "messages", some 9⟩], by decide⟩⟩ [])
        (.repair (fun _ => none) none)).1 = .repaired none ∧
    (step (run ⟨[10], ⟨[⟨1, "messages", some 7⟩, ⟨2, "messages", some 9⟩], by decide⟩⟩ [])
        (.repair (fun _ => none) none)).2.conn.durable.sequence.messagesRows.length = 2 ∧
    (step (run ⟨[10], ⟨[], by decide⟩⟩ []) (.repair (fun _ => none) (some 0))).1 = .repaired none ∧
    (step (run ⟨[10], ⟨[], by decide⟩⟩ [])
        (.repair (fun _ => none) (some 0))).2.conn.durable.sequence.messagesRows.length = 0 := by
  decide

end AgentMail.Store
