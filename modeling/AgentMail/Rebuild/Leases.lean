import AgentMail.Base.Decimal
import AgentMail.Lib.Claiming
import AgentMail.Rebuild.Frontmatter

/-!
# Agents of the rebuilt database

The rebuild creates agents on demand (`ensure_agent_exists`,
`crates/mcp-agent-mail-db/src/reconstruct.rs:3222–3257`). The fresh database has the base schema
only (`schema_migrations_base`), in which `UNIQUE(project_id, name)` compares names exactly: the
index that ignores case is created by a later start. The lookup after the insertion ignores the
case of ASCII letters, so it can find rows of several spellings, and it reads the first.
-/

namespace AgentMail.Rebuild

open Base Lib List

/-- The columns of `agents` that the rebuild reads back. -/
structure AgentRow where
  projectId : Int
  name : Text
  deriving DecidableEq

/-- Which row comes first where a query for a name has no `ORDER BY`. Any choice is allowed. -/
structure RowOrder where
  first : Text → List (Int × AgentRow) → Option (Int × AgentRow)
  first_mem : ∀ name rows r, first name rows = some r → r ∈ rows
  first_isSome : ∀ name rows, rows ≠ [] → (first name rows).isSome

/-- `project_id = ? AND name = ? COLLATE NOCASE`. -/
def matchesName (projectId : Int) (name : Text) (r : Int × AgentRow) : Bool :=
  r.2.projectId == projectId && eqIgnoreAsciiCase r.2.name name

/-- The table of agents and the memo `agent_ids`, whose entries name rows of the table. -/
structure Names where
  agents : Ledger AgentRow
  agentIds : List ((Int × Text) × Int)
  resolves : ∀ e ∈ agentIds, ∃ a, (e.2, a) ∈ agents.rows ∧ matchesName e.1.1 e.1.2 (e.2, a) = true

namespace Names

def empty : Names where
  agents := Ledger.empty
  agentIds := []
  resolves := by simp

end Names

/-- `INSERT OR IGNORE INTO agents`. -/
def insertOrIgnoreAgent (agents : Ledger AgentRow) (a : AgentRow) : Ledger AgentRow :=
  if agents.items.contains a then agents else agents.issue a

/-- `query_last_insert_or_existing_id_composite`. -/
def queryAgentId (Q : RowOrder) (agents : Ledger AgentRow) (projectId : Int) (name : Text) :
    Option Int :=
  (Q.first name (agents.rows.filter (matchesName projectId name))).map Prod.fst

theorem matchesName_self (id : Int) (a : AgentRow) : matchesName a.projectId a.name (id, a) = true := by
  simp [matchesName, eqIgnoreAsciiCase]

theorem rows_insertOrIgnoreAgent (agents : Ledger AgentRow) (a : AgentRow) :
    agents.rows <+: (insertOrIgnoreAgent agents a).rows := by
  unfold insertOrIgnoreAgent
  split
  · exact prefix_refl _
  · exact prefix_append _ _

theorem exists_row_insertOrIgnoreAgent (agents : Ledger AgentRow) (a : AgentRow) :
    ∃ id, (id, a) ∈ (insertOrIgnoreAgent agents a).rows := by
  unfold insertOrIgnoreAgent
  split
  · next h => exact Ledger.mem_items.mp (contains_iff_mem.mp h)
  · exact ⟨_, Ledger.mem_rows_issue.mpr (Or.inr ⟨rfl, rfl⟩)⟩

theorem queryAgentId_eq_some {Q : RowOrder} {agents : Ledger AgentRow} {projectId id : Int}
    {name : Text} (h : queryAgentId Q agents projectId name = some id) :
    ∃ a, (id, a) ∈ agents.rows ∧ matchesName projectId name (id, a) = true := by
  obtain ⟨⟨id', a⟩, hr, rfl⟩ := Option.map_eq_some_iff.mp h
  have hmem := mem_filter.mp (Q.first_mem _ _ _ hr)
  exact ⟨a, hmem⟩

/-- The lookup after the insertion finds a row, so its error branch is never reached. -/
theorem queryAgentId_isSome (Q : RowOrder) (agents : Ledger AgentRow) (a : AgentRow) :
    (queryAgentId Q (insertOrIgnoreAgent agents a) a.projectId a.name).isSome = true := by
  rw [queryAgentId, Option.isSome_map]
  apply Q.first_isSome
  obtain ⟨id, hid⟩ := exists_row_insertOrIgnoreAgent agents a
  intro hnil
  have hmem := mem_filter.mpr ⟨hid, matchesName_self id a⟩
  rw [hnil] at hmem
  exact not_mem_nil hmem

/-- Insert an agent if its name is new, look it up and remember the answer: the end of
`ensure_agent_exists` and, for an agent with a profile, of a turn of `discover_agents`. -/
def registerAgent (Q : RowOrder) (N : Names) (projectId : Int) (name : Text) : Int × Names :=
  let agents := insertOrIgnoreAgent N.agents ⟨projectId, name⟩
  let aid := (queryAgentId Q agents projectId name).get
    (queryAgentId_isSome Q N.agents ⟨projectId, name⟩)
  (aid, {
    agents
    agentIds := Assoc.insert (projectId, name) aid N.agentIds
    resolves := by
      intro e he
      rw [Assoc.insert, mem_append, mem_singleton] at he
      rcases he with he | rfl
      · obtain ⟨a, ha, hmatch⟩ := N.resolves e (mem_of_mem_filter he)
        exact ⟨a, (rows_insertOrIgnoreAgent N.agents _).subset ha, hmatch⟩
      · exact queryAgentId_eq_some (Option.some_get _).symm })

/-- `ensure_agent_exists`. -/
def ensureAgentExists (Q : RowOrder) (N : Names) (projectId : Int) (name : Text) : Int × Names :=
  match Assoc.get? (projectId, name) N.agentIds with
  | some id => (id, N)
  | none => registerAgent Q N projectId name

/-! ### What the two operations do -/

/-- Agents are added, never changed. -/
def Names.Extends (N N' : Names) : Prop := N.agents.rows <+: N'.agents.rows

namespace Names

theorem Extends.refl (N : Names) : N.Extends N := prefix_refl _

theorem Extends.trans {N N' N'' : Names} (h : N.Extends N') (h' : N'.Extends N'') : N.Extends N'' :=
  List.IsPrefix.trans h h'

/-- The agent with an id has a name that matches. -/
def IsAgent (N : Names) (id projectId : Int) (name : Text) : Prop :=
  ∃ a, (id, a) ∈ N.agents.rows ∧ matchesName projectId name (id, a) = true

theorem IsAgent.mono {N N' : Names} (h : N.Extends N') {id projectId : Int} {name : Text}
    (ha : N.IsAgent id projectId name) : N'.IsAgent id projectId name := by
  obtain ⟨a, hrow, hmatch⟩ := ha
  exact ⟨a, h.subset hrow, hmatch⟩

end Names

theorem registerAgent_extends (Q : RowOrder) (N : Names) (projectId : Int) (name : Text) :
    N.Extends (registerAgent Q N projectId name).2 :=
  rows_insertOrIgnoreAgent N.agents _

theorem registerAgent_isAgent (Q : RowOrder) (N : Names) (projectId : Int) (name : Text) :
    (registerAgent Q N projectId name).2.IsAgent (registerAgent Q N projectId name).1 projectId
      name :=
  queryAgentId_eq_some (Option.some_get _).symm

theorem ensureAgentExists_extends (Q : RowOrder) (N : Names) (projectId : Int) (name : Text) :
    N.Extends (ensureAgentExists Q N projectId name).2 := by
  unfold ensureAgentExists
  split
  · exact Names.Extends.refl N
  · exact registerAgent_extends Q N projectId name

theorem ensureAgentExists_isAgent (Q : RowOrder) (N : Names) (projectId : Int) (name : Text) :
    (ensureAgentExists Q N projectId name).2.IsAgent (ensureAgentExists Q N projectId name).1
      projectId name := by
  unfold ensureAgentExists
  split
  · next id h =>
    exact N.resolves _ (Assoc.mem_of_get? h)
  · exact registerAgent_isAgent Q N projectId name

/-- Two names of one agent differ at most in the case of ASCII letters. -/
theorem Names.IsAgent.name_eq {N : Names} {id projectId projectId' : Int} {name name' : Text}
    (h : N.IsAgent id projectId name) (h' : N.IsAgent id projectId' name') :
    eqIgnoreAsciiCase name name' = true := by
  obtain ⟨a, ha, hmatch⟩ := h
  obtain ⟨a', ha', hmatch'⟩ := h'
  obtain rfl := Ledger.eq_of_mem ha ha'
  simp only [matchesName, eqIgnoreAsciiCase, Bool.and_eq_true, beq_iff_eq] at hmatch hmatch' ⊢
  rw [← hmatch.2, hmatch'.2]

/-! ### The memo -/

theorem get?_ensureAgentExists (Q : RowOrder) (N : Names) (projectId : Int) (name : Text) :
    Assoc.get? (projectId, name) (ensureAgentExists Q N projectId name).2.agentIds =
      some (ensureAgentExists Q N projectId name).1 := by
  unfold ensureAgentExists
  split
  · next id h => exact h
  · simp only [registerAgent]
    rw [Assoc.get?_insert, if_pos rfl]

theorem get?_ensureAgentExists_of_some (Q : RowOrder) {N : Names} {k : Int × Text} {id : Int}
    (h : Assoc.get? k N.agentIds = some id) (projectId : Int) (name : Text) :
    Assoc.get? k (ensureAgentExists Q N projectId name).2.agentIds = some id := by
  unfold ensureAgentExists
  split
  · exact h
  · next hnone =>
    simp only [registerAgent]
    rw [Assoc.get?_insert]
    split
    · next hk =>
      rw [hk, h] at hnone
      cases hnone
    · exact h

theorem ensureAgentExists_of_some (Q : RowOrder) {N : Names} {projectId id : Int} {name : Text}
    (h : Assoc.get? (projectId, name) N.agentIds = some id) :
    ensureAgentExists Q N projectId name = (id, N) := by
  unfold ensureAgentExists
  simp only [h]

end AgentMail.Rebuild

/-!
## Replaying archived reservations

`discover_file_reservations` (`crates/mcp-agent-mail-db/src/reconstruct.rs:3579–3932`). One lease can
have several artifacts. A second artifact of one project, generation and id is skipped, an
artifact of a known lease is merged into its row, and every other one gets a row: under its
archived id if no artifact claimed that id before, else under a generated one.
-/

namespace AgentMail.Rebuild

open Base Lib Artifact List

/-- `ArchivedFileReservation`. -/
structure ArchivedFileReservation where
  reservationId : Option Int
  generation : Option Text
  agentName : Text
  pathPattern : Text
  exclusive : Bool
  reason : Text
  createdTs : Int
  expiresTs : Int
  releasedTs : Option Int

/-- A file of `file_reservations`; the content is `none` where it cannot be read. -/
structure ReservationFile where
  name : Text
  content : Option Text

/-- A flag that is written as a boolean or as a number. -/
def jsonFlag (key : Text) (value : Json) : Option Bool :=
  (value.get? key).bind fun v => v.asBool.or (v.asI64.map fun n => n != 0)

/-- `parse_archived_file_reservation`; `none` is a parse error. -/
def parseArchivedFileReservation (R : Readers) (file : ReservationFile) :
    Option ArchivedFileReservation := do
  let data ← file.content
  let reservation ← R.parseJson data
  let pathPattern ← (((reservation.strField "path_pattern".toList).or
    (reservation.strField "path".toList)).map trim).filter fun value => !value.isEmpty
  let createdTs := ((parseTs R.dates "created_ts".toList reservation).or
    (parseTs R.dates "created".toList reservation)).getD 0
  return {
    reservationId := positiveId "id".toList reservation
    generation := ((parseReservationArtifactFilename file.name).bind (·.generation)).or
      (reservation.strField "db_generation".toList)
    agentName := (normalizedArchiveAgentName (reservation.strField "agent".toList)).getD
      "unknown".toList
    pathPattern
    exclusive := (jsonFlag "exclusive".toList reservation).getD true
    reason := (reservation.strField "reason".toList).getD []
    createdTs
    expiresTs := (parseTs R.dates "expires_ts".toList reservation).getD createdTs
    releasedTs := parseTs R.dates "released_ts".toList reservation }

/-- `ReservationIdentity`: project, agent, pattern, exclusive and `created_ts`. -/
abbrev ReservationIdentity := Int × Int × Text × Bool × Int

/-- A row of `file_reservations`. -/
structure LeaseRow where
  projectId : Int
  agentId : Int
  pathPattern : Text
  exclusive : Bool
  reason : Text
  createdTs : Int
  expiresTs : Int
  releasedTs : Option Int

def LeaseRow.identity (r : LeaseRow) : ReservationIdentity :=
  (r.projectId, r.agentId, r.pathPattern, r.exclusive, r.createdTs)

/-- An artifact with its project and the agent that holds it. -/
structure HeldArtifact where
  projectId : Int
  agentId : Int
  reservation : ArchivedFileReservation

namespace HeldArtifact

def identity (a : HeldArtifact) : ReservationIdentity :=
  (a.projectId, a.agentId, a.reservation.pathPattern, a.reservation.exclusive,
    a.reservation.createdTs)

def number (a : HeldArtifact) : Option Int := a.reservation.reservationId

/-- Project, generation and id, for an artifact with an id. -/
def generationKey (a : HeldArtifact) : Option (Int × Text × Int) :=
  a.number.map fun id => (a.projectId, a.reservation.generation.getD [], id)

def row (a : HeldArtifact) : LeaseRow where
  projectId := a.projectId
  agentId := a.agentId
  pathPattern := a.reservation.pathPattern
  exclusive := a.reservation.exclusive
  reason := a.reservation.reason
  createdTs := a.reservation.createdTs
  expiresTs := a.reservation.expiresTs
  releasedTs := a.reservation.releasedTs

end HeldArtifact

/-- The lease table and the dedup state beside it. -/
structure Leases where
  rows : Ledger LeaseRow
  usedReservationIds : List Int
  seenReservations : List (Int × Text × Int)
  seenReservationIdentities : List (ReservationIdentity × Int)

def Leases.empty : Leases := ⟨Ledger.empty, [], [], []⟩

/-- The comparison of tuples in `merge_archived_file_reservation_lifecycle`. -/
def rankGt (a b : Bool × Int × Int × Text) : Bool :=
  if a.1 != b.1 then a.1
  else if a.2.1 ≠ b.2.1 then b.2.1 < a.2.1
  else if a.2.2.1 ≠ b.2.2.1 then b.2.2.1 < a.2.2.1
  else b.2.2.2 < a.2.2.2

/-- `merge_archived_file_reservation_lifecycle`. -/
def mergeLifecycle (incoming : ArchivedFileReservation) (existing : LeaseRow) : LeaseRow :=
  let existingRank := (existing.releasedTs.isSome,
    existing.releasedTs.getD existing.expiresTs, existing.expiresTs, existing.reason)
  let incomingRank := (incoming.releasedTs.isSome,
    incoming.releasedTs.getD incoming.expiresTs, incoming.expiresTs, incoming.reason)
  { existing with
    reason := if rankGt incomingRank existingRank then incoming.reason else existing.reason
    expiresTs := max existing.expiresTs incoming.expiresTs
    releasedTs := match existing.releasedTs, incoming.releasedTs with
      | some e, some i => some (max e i)
      | some e, none => some e
      | none, i => i }

namespace Leases

/-- `insert_fresh`. -/
def insertFresh (L : Leases) (a : HeldArtifact) : Leases :=
  { L with
    rows := L.rows.issue a.row
    seenReservationIdentities :=
      Assoc.insert a.identity (L.rows.top + 1) L.seenReservationIdentities }

/-- `INSERT OR REPLACE` under the archived id. -/
def insertVerbatim (L : Leases) (a : HeldArtifact) (id : Int) : Leases :=
  { L with
    rows := L.rows.replaceAt id a.row
    usedReservationIds := L.usedReservationIds ++ [id]
    seenReservationIdentities := Assoc.insert a.identity id L.seenReservationIdentities }

/-- The end of `insert_archived_file_reservation`, for an artifact that is not skipped. -/
def importArtifact (L : Leases) (a : HeldArtifact) : Leases :=
  match Assoc.get? a.identity L.seenReservationIdentities with
  | some existing => { L with rows := L.rows.update existing (mergeLifecycle a.reservation) }
  | none =>
    match a.number with
    | none => L.insertFresh a
    | some id => if id ∈ L.usedReservationIds then L.insertFresh a else L.insertVerbatim a id

/-- `insert_archived_file_reservation`, once the agent is known. -/
def insertArtifact (L : Leases) (a : HeldArtifact) : Leases :=
  match a.generationKey with
  | some key =>
    if key ∈ L.seenReservations then L
    else importArtifact { L with seenReservations := L.seenReservations ++ [key] } a
  | none => importArtifact L a

/-- A list of artifacts, one after the other. -/
def replay (L : Leases) (artifacts : List HeldArtifact) : Leases := artifacts.foldl insertArtifact L

end Leases

/-- The loop of `discover_file_reservations` over the parsed artifacts of a project. -/
def insertReservations (Q : RowOrder) (projectId : Int) (S : Names × Leases)
    (reservations : List ArchivedFileReservation) : Names × Leases :=
  reservations.foldl (fun S r =>
    let (agentId, N) := ensureAgentExists Q S.1 projectId r.agentName
    (N, S.2.insertArtifact ⟨projectId, agentId, r⟩)) S

/-- The agents that hold the reservations of a project. -/
def holders (Q : RowOrder) (projectId : Int) (N : Names)
    (reservations : List ArchivedFileReservation) : Names × List HeldArtifact :=
  reservations.foldl (fun S r =>
    let (agentId, N) := ensureAgentExists Q S.1 projectId r.agentName
    (N, S.2 ++ [⟨projectId, agentId, r⟩])) (N, [])

theorem insertReservations_eq (Q : RowOrder) (projectId : Int) (N : Names) (L : Leases)
    (reservations : List ArchivedFileReservation) :
    insertReservations Q projectId (N, L) reservations = ((holders Q projectId N reservations).1,
        L.replay (holders Q projectId N reservations).2) := by
  induction reservations using reverseRecOn with
  | nil => rfl
  | append_singleton reservations r ih =>
    unfold insertReservations at ih ⊢
    unfold holders at ih ⊢
    rw [foldl_append, foldl_append, ih]
    simp only [foldl_cons, foldl_nil, Leases.replay, foldl_append]

theorem holders_concat (Q : RowOrder) (projectId : Int) (N : Names)
    (reservations : List ArchivedFileReservation) (r : ArchivedFileReservation) :
    holders Q projectId N (reservations ++ [r]) =
      ((ensureAgentExists Q (holders Q projectId N reservations).1 projectId r.agentName).2,
        (holders Q projectId N reservations).2 ++
          [⟨projectId, (ensureAgentExists Q (holders Q projectId N reservations).1 projectId
            r.agentName).1, r⟩]) := by
  unfold holders
  rw [foldl_append]
  rfl

theorem holders_extends (Q : RowOrder) (projectId : Int) (N : Names)
    (reservations : List ArchivedFileReservation) :
    N.Extends (holders Q projectId N reservations).1 := by
  induction reservations using reverseRecOn with
  | nil => exact Names.Extends.refl N
  | append_singleton reservations r ih =>
    rw [holders_concat]
    exact ih.trans (ensureAgentExists_extends _ _ _ _)

/-- Every reservation is held, in the project, by the agent that it names. -/
theorem holders_isAgent (Q : RowOrder) (projectId : Int) (N : Names)
    (reservations : List ArchivedFileReservation) :
    (holders Q projectId N reservations).2.map (fun a => (a.projectId, a.reservation)) =
        reservations.map (projectId, ·) ∧ ∀ a ∈ (holders Q projectId N reservations).2,
        (holders Q projectId N reservations).1.IsAgent a.agentId projectId
          a.reservation.agentName := by
  induction reservations using reverseRecOn with
  | nil => exact ⟨rfl, by simp [holders]⟩
  | append_singleton reservations r ih =>
    rw [holders_concat]
    constructor
    · simp [ih.1]
    · intro a ha
      rw [mem_append, mem_singleton] at ha
      rcases ha with ha | rfl
      · exact (ih.2 a ha).mono (ensureAgentExists_extends _ _ _ _)
      · exact ensureAgentExists_isAgent _ _ _ _

end AgentMail.Rebuild
