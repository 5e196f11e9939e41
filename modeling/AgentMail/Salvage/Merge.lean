import AgentMail.Lib.Keyset
import AgentMail.Rebuild.Reconstruct

/-!
# Merging a salvaged database

`merge_salvaged_database` (`crates/mcp-agent-mail-db/src/reconstruct.rs:4624–6796`): the rows of the
previous database are added to the candidate that was rebuilt from the archive. Projects and agents
are matched by slug or human key and by name, and the maps that this gives translate the ids of
reservations, releases, messages, recipients and receipts. The run ends with a check of ownership,
and an error rolls everything back.

The salvaged rows are typed: a column that cannot be read is `none` where the code has a default
for it, and stands for an error of the database otherwise. Left out are the tables that no message,
recipient, lease or reply edge depends on (agent links, products, proof nonces, deregistrations and
the profile columns of agents), `archive_metadata_json`, the column `recipients_json` after
`sync_reconstructed_message_recipients_json`, the counters and the warnings. The tables that are left
out can only make the merge fail.
-/

namespace AgentMail.Salvage

open Base Lib Rebuild

/-! ### The salvaged database -/

structure SalvagedProject where
  id : Int
  slug : Text
  humanKey : Option Text

structure SalvagedAgent where
  id : Int
  projectId : Int
  name : Text

structure SalvagedReservation where
  id : Int
  projectId : Int
  agentId : Int
  pathPattern : Text
  exclusive : Option Int
  reason : Option Text
  createdTs : Option Int
  expiresTs : Option Int
  releasedTs : Option Int

/-- A row of `file_reservation_releases`. -/
structure ReleaseRow where
  reservationId : Int
  releasedTs : Int

structure SalvagedMessage where
  id : Int
  projectId : Int
  senderId : Int
  threadId : Option Text
  topic : Option Text
  replyTo : Option Int
  subject : Option Text
  bodyMd : Option Text
  importance : Option Text
  ackRequired : Option Int
  createdTs : Option Int
  recipientsJson : Option Text
  attachments : Option Text

/-- A row of `message_recipients` or of `project_mailbox_receipts`, where the kind is not used. -/
structure SalvagedRecipient where
  messageId : Int
  agentId : Int
  kind : Option Text
  readTs : Option Int
  ackTs : Option Int

/-- The salvaged tables, each in the order in which it is read: by id, by rowid for recipients and
receipts. -/
structure Database where
  projects : List SalvagedProject
  agents : List SalvagedAgent
  reservations : List SalvagedReservation
  releases : List ReleaseRow
  messages : List SalvagedMessage
  recipients : List SalvagedRecipient
  receipts : List SalvagedRecipient
  projects_ascending : projects.Pairwise fun a b => a.id < b.id
  agents_ascending : agents.Pairwise fun a b => a.id < b.id
  reservations_ascending : reservations.Pairwise fun a b => a.id < b.id
  releases_ascending : releases.Pairwise fun a b => a.reservationId < b.reservationId
  messages_ascending : messages.Pairwise fun a b => a.id < b.id
  recipients_nodup : (recipients.map fun r => (r.messageId, r.agentId)).Nodup

/-! ### The merged database -/

/-- A row of `message_recipients` with its read and acknowledged state. -/
structure RecipientState where
  messageId : Int
  agentId : Int
  kind : Kind
  readTs : Option Int
  ackTs : Option Int

/-- A row of `project_mailbox_receipts`. -/
structure ReceiptRow where
  messageId : Int
  agentId : Int
  readTs : Option Int
  ackTs : Option Int

/-- The first row of a query without `ORDER BY`. -/
structure Choice (κ α : Type) where
  first : κ → List α → Option α
  first_mem : ∀ k rows r, first k rows = some r → r ∈ rows
  first_isSome : ∀ k rows, rows ≠ [] → (first k rows).isSome

/-- How the engine orders the rows of queries without `ORDER BY`. -/
structure QueryOrder where
  agents : RowOrder
  projects : Choice Text (Int × ProjectRow)
  messages : Choice Identity (Int × MessageRow)

inductive MergeError where
  | nonPositiveProject (id : Int)
  | emptySlug (id : Int)
  | nonPositiveAgent (id : Int)
  | emptyName (id : Int)
  | nonPositiveReservation (id : Int)
  | nonPositiveMessage (id : Int)
  | missingAgent (id : Int)
  | missingMessage (id : Int)
  | repeatedRecipient (messageId agentId : Int)
  | foreignReservation (id : Int)
  | foreignRecipient (messageId agentId : Int)

/-- An id map. -/
abbrev IdMap := List (Int × Int)

/-! ### Projects -/

/-- `enrich_existing_project_from_salvage`. -/
def enrichProject (slug humanKey : Text) (current : ProjectRow) : ProjectRow :=
  if (trim current.humanKey).isEmpty || current.humanKey == placeholderHumanKey current.slug then
    { slug
      humanKey := if isAbsolute (trim humanKey) then trim humanKey else current.humanKey }
  else current

/-- The row of a salvaged project: by slug, else by human key, else a new one. -/
def mergeProject (Q : QueryOrder) (S : Ledger ProjectRow × IdMap) (p : SalvagedProject) :
    Except MergeError (Ledger ProjectRow × IdMap) :=
  if p.id ≤ 0 then .error (.nonPositiveProject p.id)
  else
    let slug := trim p.slug
    if slug.isEmpty then .error (.emptySlug p.id)
    else
      let humanKey := p.humanKey.getD (placeholderHumanKey slug)
      match (S.1.rows.find? fun r => r.2.slug == slug).or
          (Q.projects.first humanKey (S.1.rows.filter fun r => r.2.humanKey == humanKey)) with
      | some r => .ok (S.1.update r.1 (enrichProject slug humanKey), Assoc.insert p.id r.1 S.2)
      | none => .ok (S.1.issue ⟨slug, humanKey⟩, Assoc.insert p.id (S.1.top + 1) S.2)

/-! ### Agents -/

/-- The row of a salvaged agent. An agent of an unmapped project is skipped. -/
def mergeAgent (Q : QueryOrder) (projectIdMap : IdMap) (S : Ledger AgentRow × IdMap)
    (a : SalvagedAgent) : Except MergeError (Ledger AgentRow × IdMap) :=
  if a.id ≤ 0 then .error (.nonPositiveAgent a.id)
  else
    match Assoc.get? a.projectId projectIdMap with
    | none => .ok S
    | some targetProjectId =>
      let name := trim a.name
      if name.isEmpty then .error (.emptyName a.id)
      else
        let targetAgentId := (queryAgentId Q.agents
          (insertOrIgnoreAgent S.1 ⟨targetProjectId, name⟩) targetProjectId name).get
            (queryAgentId_isSome Q.agents S.1 ⟨targetProjectId, name⟩)
        .ok (insertOrIgnoreAgent S.1 ⟨targetProjectId, name⟩, Assoc.insert a.id targetAgentId S.2)

/-- `agent_project_id`. -/
def agentProjectId (agents : Ledger AgentRow) (agentId : Int) : Option Int :=
  (agents.get? agentId).map AgentRow.projectId

/-- Projects and agents of the target and the maps to them. -/
structure Identities where
  projects : Ledger ProjectRow
  projectIdMap : IdMap
  agents : Ledger AgentRow
  agentIdMap : IdMap

/-- The loops over projects and agents. -/
def mergeIdentities (Q : QueryOrder) (C : Candidate) (D : Database) :
    Except MergeError Identities := do
  let (projects, projectIdMap) ← D.projects.foldlM (mergeProject Q) (C.projects, [])
  let (agents, agentIdMap) ← D.agents.foldlM (mergeAgent Q projectIdMap) (C.names.agents, [])
  return { projects, projectIdMap, agents, agentIdMap }

/-! ### Reservations -/

/-- The row with the lowest id: `ORDER BY id`, then `first()`. -/
def lowest {β : Type} (rows : List (Int × β)) : Option (Int × β) :=
  rows.foldl (fun best r => match best with
    | none => some r
    | some b => if r.1 < b.1 then some r else some b) none

/-- The lease of a salvaged reservation under its mapped ids. -/
def SalvagedReservation.row (r : SalvagedReservation) (projectId agentId : Int) : LeaseRow where
  projectId := projectId
  agentId := agentId
  pathPattern := trim r.pathPattern
  exclusive := r.exclusive.getD 1 != 0
  reason := r.reason.getD []
  createdTs := r.createdTs.getD 0
  expiresTs := r.expiresTs.getD (r.createdTs.getD 0)
  releasedTs := r.releasedTs

/-- The merge of a salvaged lease into the row with its identity. -/
def mergeLease (salvaged current : LeaseRow) : LeaseRow :=
  { current with
    reason := if current.reason.isEmpty then salvaged.reason else current.reason
    expiresTs := max current.expiresTs salvaged.expiresTs
    releasedTs := current.releasedTs.or salvaged.releasedTs }

/-- The mapped project and agent of a reservation that is not skipped. -/
def reservationTarget (I : Identities) (r : SalvagedReservation) : Option (Int × Int) := do
  let targetProjectId ← Assoc.get? r.projectId I.projectIdMap
  let targetAgentId ← Assoc.get? r.agentId I.agentIdMap
  if agentProjectId I.agents targetAgentId = some targetProjectId ∧ (trim r.pathPattern).isEmpty = false
  then return (targetProjectId, targetAgentId)
  else none

def mergeReservation (I : Identities) (S : Ledger LeaseRow × IdMap) (r : SalvagedReservation) :
    Except MergeError (Ledger LeaseRow × IdMap) :=
  if r.id ≤ 0 then .error (.nonPositiveReservation r.id)
  else
    match reservationTarget I r with
    | none => .ok S
    | some target =>
      let salvaged := r.row target.1 target.2
      match lowest (S.1.rows.filter fun e => e.2.identity = salvaged.identity) with
      | some e => .ok (S.1.update e.1 (mergeLease salvaged), Assoc.insert r.id e.1 S.2)
      | none => .ok (S.1.issue salvaged, Assoc.insert r.id (S.1.top + 1) S.2)

/-- A row of the salvaged release ledger. -/
def mergeRelease (reservationIdMap : IdMap) (leases : Ledger LeaseRow) (releases : List ReleaseRow)
    (r : ReleaseRow) : List ReleaseRow :=
  match Assoc.get? r.reservationId reservationIdMap with
  | none => releases
  | some targetReservationId =>
    if releases.any fun e => e.reservationId == targetReservationId then releases
    else
      match (leases.get? targetReservationId).bind LeaseRow.releasedTs with
      | some legacyRelease =>
        if legacyRelease ≠ r.releasedTs then releases
        else releases ++ [⟨targetReservationId, r.releasedTs⟩]
      | none => releases ++ [⟨targetReservationId, r.releasedTs⟩]

/-! ### Messages -/

/-- The agents and the two memos of the message loop. -/
structure Directory where
  agents : Ledger AgentRow
  placeholderSenders : List ((Int × Text) × Int)
  reconstructedRecipients : List ((Int × Text) × Int)
  placeholderSenders_resolve : ∀ e ∈ placeholderSenders, ∃ a, (e.2, a) ∈ agents.rows ∧
    matchesName e.1.1 e.1.2 (e.2, a) = true
  reconstructedRecipients_resolve : ∀ e ∈ reconstructedRecipients, ∃ a, (e.2, a) ∈ agents.rows ∧
    matchesName e.1.1 e.1.2 (e.2, a) = true

namespace Directory

/-- Both memos start empty. -/
def start (agents : Ledger AgentRow) : Directory where
  agents := agents
  placeholderSenders := []
  reconstructedRecipients := []
  placeholderSenders_resolve := by simp
  reconstructedRecipients_resolve := by simp

/-- The agents with the memo of placeholder senders. -/
def senders (T : Directory) : Names :=
  ⟨T.agents, T.placeholderSenders, T.placeholderSenders_resolve⟩

/-- The agents with the memo of recipients. -/
def recipients (T : Directory) : Names :=
  ⟨T.agents, T.reconstructedRecipients, T.reconstructedRecipients_resolve⟩

/-- `ensure_agent_exists` with the memo of placeholder senders. -/
def ensureSender (Q : QueryOrder) (T : Directory) (projectId : Int) (name : Text) :
    Int × Directory :=
  let result := ensureAgentExists Q.agents T.senders projectId name
  (result.1, {
    agents := result.2.agents
    placeholderSenders := result.2.agentIds
    reconstructedRecipients := T.reconstructedRecipients
    placeholderSenders_resolve := result.2.resolves
    reconstructedRecipients_resolve := fun e he => by
      obtain ⟨a, ha, hmatch⟩ := T.reconstructedRecipients_resolve e he
      exact ⟨a, (ensureAgentExists_extends Q.agents T.senders projectId name).subset ha, hmatch⟩ })

/-- `ensure_agent_exists` with the memo of recipients. -/
def ensureRecipient (Q : QueryOrder) (T : Directory) (projectId : Int) (name : Text) :
    Int × Directory :=
  let result := ensureAgentExists Q.agents T.recipients projectId name
  (result.1, {
    agents := result.2.agents
    placeholderSenders := T.placeholderSenders
    reconstructedRecipients := result.2.agentIds
    placeholderSenders_resolve := fun e he => by
      obtain ⟨a, ha, hmatch⟩ := T.placeholderSenders_resolve e he
      exact ⟨a, (ensureAgentExists_extends Q.agents T.recipients projectId name).subset ha, hmatch⟩
    reconstructedRecipients_resolve := result.2.resolves })

end Directory

/-- `parse_salvaged_recipients_json`. -/
def parseSalvagedRecipientsJson (R : Readers) (recipientsJson : Option Text) : Recipients :=
  match recipientsJson.filter fun json => !(trim json).isEmpty with
  | none => ⟨[], [], []⟩
  | some json =>
    match R.parseJson json with
    | none => ⟨[malformedRecipientsSentinel], [], []⟩
    | some parsed => normalizeArchiveRecipientsJson parsed

/-- `parse_salvaged_attachments_json`; `none` is the sentinel for a malformed payload. -/
def parseSalvagedAttachmentsJson (R : Readers) (attachmentsJson : Option Text) :
    Option (List Json) :=
  match attachmentsJson.filter fun json => !(trim json).isEmpty with
  | none => some []
  | some json =>
    match R.parseJson json with
    | some (.arr values) => some values
    | _ => none

namespace SalvagedMessage

def created (m : SalvagedMessage) : Int := m.createdTs.getD 0

def subjectText (m : SalvagedMessage) : Text := m.subject.getD []

/-- What tells the message apart, in the project to which it is mapped. -/
def identity (m : SalvagedMessage) (projectId : Int) : Identity :=
  (projectId, m.created, m.subjectText)

/-- The inserted row; reply edges are set later. -/
def row (R : Readers) (m : SalvagedMessage) (projectId senderId : Int) : MessageRow where
  projectId := projectId
  senderId := senderId
  threadId := m.threadId.bind sanitizeReconstructedThreadId
  topic := (m.topic.map trim).filter fun value => !value.isEmpty
  replyTo := none
  subject := m.subjectText
  bodyMd := m.bodyMd.getD []
  importance := m.importance.getD "normal".toList
  ackRequired := m.ackRequired.getD 0 != 0
  createdTs := m.created
  recipients := parseSalvagedRecipientsJson R m.recipientsJson
  attachments := parseSalvagedAttachmentsJson R m.attachments

end SalvagedMessage

/-- The state of the message loop. `carried` is a history variable: the salvaged messages that were
inserted, with their rows. -/
structure Carry where
  messages : Ledger MessageRow
  directory : Directory
  recipients : List RecipientState
  deliveries : List DeliveryRow
  events : List ProjectEvent
  messageIdMap : IdMap
  salvageReplyMessageIdMap : List ((Int × Int) × Int)
  pendingSalvageReplyEdges : List PendingReplyEdge
  carried : List (Int × SalvagedMessage)

/-- The entries of the maps for a message that the target holds. -/
def Carry.link (S : Carry) (m : SalvagedMessage) (targetProjectId target : Int) : Carry :=
  { S with
    messageIdMap := Assoc.insert m.id target S.messageIdMap
    salvageReplyMessageIdMap :=
      Assoc.insert (m.projectId, m.id) target S.salvageReplyMessageIdMap
    pendingSalvageReplyEdges := match m.replyTo.filter fun r => 0 < r with
      | some parent => S.pendingSalvageReplyEdges ++
          [⟨m.projectId, m.id, parent, targetProjectId, target⟩]
      | none => S.pendingSalvageReplyEdges }

/-- The sender of a salvaged message: `none` where it maps outside the project. -/
def messageSender (Q : QueryOrder) (agentIdMap : IdMap) (T : Directory) (targetProjectId : Int)
    (m : SalvagedMessage) : Option (Int × Directory) :=
  match Assoc.get? m.senderId agentIdMap with
  | some mapped =>
    if agentProjectId T.agents mapped ≠ some targetProjectId then none else some (mapped, T)
  | none => some (T.ensureSender Q targetProjectId
      ("unknown-agent-".toList ++ Artifact.intText m.senderId))

/-- The named recipients in the order of the loop. -/
def namedRecipients (r : Recipients) : List (Text × Kind) :=
  r.toNames.map (·, Kind.to) ++ r.ccNames.map (·, Kind.cc) ++ r.bccNames.map (·, Kind.bcc)

/-- `insert_recipient`. -/
def insertRecipientState (recipients : List RecipientState) (messageId agentId : Int)
    (kind : Kind) : List RecipientState :=
  if recipients.any fun s => s.messageId == messageId && s.agentId == agentId then recipients
  else recipients ++ [⟨messageId, agentId, kind, none, none⟩]

/-- One turn of the loop over the recipients of an inserted message. -/
def carryRecipient (Q : QueryOrder) (targetProjectSlug : Option Text)
    (targetProjectId targetMessageId created : Int) (S : Carry) (r : Text × Kind) : Carry :=
  match targetProjectSlug, parseProjectMailboxAddress r.1 with
  | some slug, some ident =>
    if ident = slug ∧ (r.2 = .to ∨ r.2 = .cc) then
      { S with
        deliveries := insertDelivery S.deliveries ⟨targetMessageId, targetProjectId, r.2, created⟩
        events := insertEvent S.events ⟨targetProjectId, targetMessageId, created⟩ }
    else S
  | _, _ =>
    let (agentId, directory) := S.directory.ensureRecipient Q targetProjectId r.1
    { S with
      directory
      recipients := insertRecipientState S.recipients targetMessageId agentId r.2 }

/-- `project_slug_by_id`, asked only if an address is among the recipients. -/
def mailboxSlug (projects : Ledger ProjectRow) (targetProjectId : Int)
    (named : List (Text × Kind)) : Option Text :=
  if named.any fun r => (parseProjectMailboxAddress r.1).isSome then
    (projects.get? targetProjectId).map ProjectRow.slug
  else none

/-- The insertion of a message that the target does not hold: under its own id if that is free, else
under a generated one. -/
def insertMessage (Q : QueryOrder) (R : Readers) (projects : Ledger ProjectRow) (S : Carry)
    (m : SalvagedMessage) (targetProjectId senderId : Int) (directory : Directory) : Carry :=
  let row := m.row R targetProjectId senderId
  let (target, messages) :=
    if (S.messages.get? m.id).isSome then (S.messages.top + 1, S.messages.issue row)
    else (m.id, S.messages.insertAt m.id row)
  let S' := { S with messages, directory, carried := S.carried ++ [(target, m)] }.link m
    targetProjectId target
  let named := namedRecipients row.recipients
  named.foldl (carryRecipient Q (mailboxSlug projects targetProjectId named) targetProjectId target
    m.created) S'

/-- One turn of the message loop. -/
def mergeMessage (Q : QueryOrder) (R : Readers) (I : Identities) (S : Carry)
    (m : SalvagedMessage) : Except MergeError Carry :=
  if m.id ≤ 0 then .error (.nonPositiveMessage m.id)
  else
    match Assoc.get? m.projectId I.projectIdMap with
    | none => .ok S
    | some targetProjectId =>
      if (S.messages.get? m.id).any fun row => row.identity = m.identity targetProjectId then
        .ok (S.link m targetProjectId m.id)
      else
        -- `message_identity_existing_id`
        match Q.messages.first (m.identity targetProjectId)
            (S.messages.rows.filter fun r => r.2.identity = m.identity targetProjectId) with
        | some existing => .ok (S.link m targetProjectId existing.1)
        | none =>
          match messageSender Q I.agentIdMap S.directory targetProjectId m with
          | none => .ok S
          | some sender =>
            .ok (insertMessage Q R I.projects S m targetProjectId sender.1 sender.2)

/-! ### Reply edges -/

/-- A parent that the salvaged database does not hold is looked up in the map of the archive. -/
def resolveArchivedParent (archivedMessageIdMap : List ((Int × Int) × Int))
    (map : List ((Int × Int) × Int)) (edge : PendingReplyEdge) : List ((Int × Int) × Int) :=
  if Assoc.contains (edge.sourceProject, edge.sourceParent) map then map
  else
    match Assoc.get? (edge.targetProject, edge.sourceParent) archivedMessageIdMap with
    | some target => Assoc.insert (edge.sourceProject, edge.sourceParent) target map
    | none => map

/-! ### Recipients and receipts -/

/-- `normalize_salvaged_recipient_kind`. -/
def normalizeSalvagedRecipientKind (rawKind : Option Text) : Kind :=
  match (rawKind.map trim).filter fun kind => !kind.isEmpty with
  | none => .to
  | some trimmed =>
    if trimmed.map Char.toLower = "cc".toList then .cc
    else if trimmed.map Char.toLower = "bcc".toList then .bcc
    else .to

/-- One turn of the loop over `message_recipients`. -/
def mergeRecipient (agents : Ledger AgentRow) (messages : Ledger MessageRow)
    (agentIdMap messageIdMap : IdMap) (recipients : List RecipientState) (r : SalvagedRecipient) :
    Except MergeError (List RecipientState) :=
  match Assoc.get? r.agentId agentIdMap with
  | none => .ok recipients
  | some targetAgentId =>
    match agentProjectId agents targetAgentId with
    | none => .error (.missingAgent targetAgentId)
    | some targetAgentProjectId =>
      match Assoc.get? r.messageId messageIdMap with
      | none => .ok recipients
      | some targetMessageId =>
        match (messages.get? targetMessageId).map MessageRow.projectId with
        | none => .error (.missingMessage targetMessageId)
        | some targetMessageProjectId =>
          if targetAgentProjectId ≠ targetMessageProjectId then .ok recipients
          else
            let state : RecipientState := ⟨targetMessageId, targetAgentId,
              normalizeSalvagedRecipientKind r.kind, r.readTs, r.ackTs⟩
            match recipients.filter fun s =>
                s.messageId == targetMessageId && s.agentId == targetAgentId with
            | [] => .ok (recipients ++ [state])
            | [_] => .ok (recipients.map fun s =>
                if s.messageId == targetMessageId && s.agentId == targetAgentId then state else s)
            | _ => .error (.repeatedRecipient targetMessageId targetAgentId)

/-- One turn of the loop over `project_mailbox_receipts`. -/
def mergeReceipt (agents : Ledger AgentRow) (deliveries : List DeliveryRow)
    (agentIdMap messageIdMap : IdMap) (receipts : List ReceiptRow) (r : SalvagedRecipient) :
    List ReceiptRow :=
  match Assoc.get? r.messageId messageIdMap, Assoc.get? r.agentId agentIdMap with
  | some targetMessageId, some targetAgentId =>
    if deliveries.any fun d => d.messageId == targetMessageId &&
        agentProjectId agents targetAgentId == some d.projectId then
      let held := if receipts.any fun s => s.messageId == targetMessageId &&
          s.agentId == targetAgentId then receipts
        else receipts ++ [⟨targetMessageId, targetAgentId, none, none⟩]
      held.map fun s =>
        if s.messageId == targetMessageId && s.agentId == targetAgentId then
          { s with readTs := s.readTs.or r.readTs, ackTs := s.ackTs.or r.ackTs }
        else s
    else receipts
  | _, _ => receipts

/-! ### The merge -/

/-- The merged database, with the maps that the merge has built. -/
structure Merged where
  projects : Ledger ProjectRow
  agents : Ledger AgentRow
  leases : Ledger LeaseRow
  releases : List ReleaseRow
  messages : Ledger MessageRow
  recipients : List RecipientState
  deliveries : List DeliveryRow
  events : List ProjectEvent
  receipts : List ReceiptRow
  projectIdMap : IdMap
  agentIdMap : IdMap
  reservationIdMap : IdMap
  messageIdMap : IdMap
  carried : List (Int × SalvagedMessage)

/-- The checks of ownership at the end. -/
def verifyOwnership (M : Merged) : Except MergeError Unit :=
  match M.leases.rows.find? fun r => (agentProjectId M.agents r.2.agentId).any fun p =>
      r.2.projectId ≠ p with
  | some r => .error (.foreignReservation r.1)
  | none =>
    match M.recipients.find? fun r => (M.messages.get? r.messageId).any fun row =>
        (agentProjectId M.agents r.agentId).any fun p => row.projectId ≠ p with
    | some r => .error (.foreignRecipient r.messageId r.agentId)
    | none => .ok ()

/-- `SALVAGE_MESSAGE_BATCH_ROWS`. -/
def salvageMessageBatchRows : Nat := 128

/-- The messages of the salvaged database as the loop reads them. -/
def Database.readMessages (D : Database) : List SalvagedMessage :=
  readBatches SalvagedMessage.id salvageMessageBatchRows D.messages (D.messages.length + 1) none

/-- The state of the message loop at its start. -/
def Carry.start (C : Candidate) (agents : Ledger AgentRow) : Carry where
  messages := C.mail.messages
  directory := Directory.start agents
  recipients := C.mail.recipients.map fun r => ⟨r.messageId, r.agentId, r.kind, none, none⟩
  deliveries := C.mail.deliveries
  events := C.mail.events
  messageIdMap := []
  salvageReplyMessageIdMap := []
  pendingSalvageReplyEdges := []
  carried := []

/-- The message loop. -/
def carryMessages (Q : QueryOrder) (R : Readers) (C : Candidate) (I : Identities)
    (messages : List SalvagedMessage) : Except MergeError Carry :=
  messages.foldlM (mergeMessage Q R I) (Carry.start C I.agents)

/-- The messages after the loop, with their reply edges. -/
def Carry.linked (C : Candidate) (S : Carry) : Ledger MessageRow :=
  let replyMap := S.pendingSalvageReplyEdges.foldl (resolveArchivedParent C.mail.messageIdMap)
    S.salvageReplyMessageIdMap
  applyPendingReplyEdges replyMap S.pendingSalvageReplyEdges S.messages

/-- `merge_salvaged_database`. The release ledger of a candidate is empty. -/
def mergeSalvagedDatabase (Q : QueryOrder) (R : Readers) (C : Candidate) (D : Database) :
    Except MergeError Merged := do
  let I ← mergeIdentities Q C D
  let (leases, reservationIdMap) ← D.reservations.foldlM (mergeReservation I) (C.leases.rows, [])
  let S ← carryMessages Q R C I D.readMessages
  let messages := S.linked C
  let recipients ← D.recipients.foldlM
    (mergeRecipient S.directory.agents messages I.agentIdMap S.messageIdMap) S.recipients
  let merged : Merged := {
    projects := I.projects
    agents := S.directory.agents
    leases
    releases := D.releases.foldl (mergeRelease reservationIdMap leases) []
    messages
    recipients
    deliveries := S.deliveries
    events := S.events
    receipts := D.receipts.foldl
      (mergeReceipt S.directory.agents S.deliveries I.agentIdMap S.messageIdMap) []
    projectIdMap := I.projectIdMap
    agentIdMap := I.agentIdMap
    reservationIdMap
    messageIdMap := S.messageIdMap
    carried := S.carried }
  verifyOwnership merged
  return merged

end AgentMail.Salvage
