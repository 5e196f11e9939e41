import Mathlib.Data.List.Sort
import AgentMail.Inbox.Mailbox
import AgentMail.Lib.Loop
import AgentMail.Lib.Table

/-!
# Inbox counters

`inbox_stats` keeps the counters of every inbox beside the tables they are counted from. A send
adds one to the rows of its recipients (`crates/mcp-agent-mail-db/src/queries.rs:14396–14494`);
every other transaction recounts the rows it touches (`queries.rs:14496–14629`). The transactions:
`create_message_with_recipients_tx` (`queries.rs:9462–9860`), `mark_message_read`,
`mark_messages_read_batch`, `acknowledge_message` and `acknowledge_messages_batch`
(`queries.rs:12922–13107,13955–14300`).

The id of a new message is elected elsewhere and `recipients_json` is rendered elsewhere: a send
takes the finished row. Counters are unbounded integers.
-/

namespace AgentMail.Inbox

open Lib

/-- `AgentInboxStatsRebuild`, a row of `inbox_stats` without its key. -/
structure InboxStats where
  totalCount : Int
  unreadCount : Int
  ackPendingCount : Int
  lastMessageTs : Option Int
  deriving DecidableEq

/-- `trg_inbox_stats_insert`, as a migration or an older program may have left it
(`schema.rs:612–632,1132–1158`). -/
inductive InsertTrigger where
  | upsert
  | compat

/-- The mailbox with its counters, `agent_deregistrations`, and the legacy triggers that are
installed. -/
structure CountedMailbox where
  mailbox : Mailbox
  deregistered : List (Int × Int)
  stats : List (Int × InboxStats)
  insertTrigger : Option InsertTrigger
  markReadTrigger : Bool
  ackTrigger : Bool

/-- The errors of the transactions. -/
inductive TxError where
  | notFound (entity identifier : String)
  | invalidArgument (field message : String)
  | constraint (table : String)

/-! ### Recounting -/

namespace Mailbox

variable (M : Mailbox)

/-- `message_recipients mr JOIN messages m ON m.id = mr.message_id WHERE mr.agent_id = ?`. -/
def inboxRows (agentId : Int) : List (Recipient × Message) :=
  (M.recipients.filter (·.agentId == agentId)).filterMap fun r =>
    (M.message? r.messageId).map fun m => (r, m)

/-- `mr.ack_ts IS NULL AND m.ack_required = 1`. -/
def awaitsAck (row : Recipient × Message) : Bool :=
  row.1.ackTs.isNone && row.2.ackRequired == 1

/-- The aggregates of some rows, if there are any. -/
def countRows (rows : List (Recipient × Message)) : Option InboxStats :=
  if rows.length = 0 then none
  else some {
    totalCount := rows.length
    unreadCount := rows.countP fun row => row.1.readTs.isNone
    ackPendingCount := rows.countP awaitsAck
    lastMessageTs := (rows.map (·.2.createdTs)).max? }

/-- `compute_agent_inbox_stats_in_tx`. -/
def computeAgentInboxStats (agentId : Int) : Option InboxStats := countRows (M.inboxRows agentId)

end Mailbox

/-- `MAX_IN_CLAUSE_ITEMS`. -/
def maxInClauseItems : Nat := 500

/-- One turn of the inner loop of `rebuild_agents_inbox_stats_in_tx`. -/
def insertAgentInboxStats (D : CountedMailbox) (agentId : Int) : Except TxError CountedMailbox :=
  match D.mailbox.computeAgentInboxStats agentId with
  | none => .ok D
  | some stats =>
    if Assoc.contains agentId D.stats then .error (.constraint "inbox_stats")
    else .ok { D with stats := D.stats ++ [(agentId, stats)] }

/-- One turn of the outer loop: a chunk of agents is reset and counted again. -/
def rebuildChunk (D : CountedMailbox) (chunk : List Int) : Except TxError CountedMailbox :=
  chunk.foldlM insertAgentInboxStats
    { D with stats := D.stats.filter fun e => !chunk.contains e.1 }

/-- `rebuild_agents_inbox_stats_in_tx`. -/
def rebuildAgentsInboxStats (D : CountedMailbox) (agentIds : List Int) :
    Except TxError CountedMailbox :=
  (chunks maxInClauseItems (agentIds.insertionSort (· ≤ ·)).dedup).foldlM rebuildChunk D

/-! ### Adding one message -/

/-- `ADD_NEW_MESSAGE_TO_INBOX_STATS_SQL`. -/
def InboxStats.addNewMessage (ackRequired createdTs : Int) (s : InboxStats) : InboxStats where
  totalCount := s.totalCount + 1
  unreadCount := s.unreadCount + 1
  ackPendingCount := s.ackPendingCount + ackRequired
  lastMessageTs := some (max (s.lastMessageTs.getD 0) createdTs)

/-- `UPDATE inbox_stats SET .. WHERE agent_id = ?`. -/
def CountedMailbox.updateStats (D : CountedMailbox) (agentId : Int) (f : InboxStats → InboxStats) :
    CountedMailbox :=
  { D with stats := D.stats.map fun e => if e.1 = agentId then (e.1, f e.2) else e }

/-- One turn of the loop of `add_new_message_to_inbox_stats_in_tx`; an agent without a row is
recounted. -/
def countDelivery (ackRequired createdTs : Int) (s : CountedMailbox × List Int) (agentId : Int) :
    CountedMailbox × List Int :=
  if Assoc.contains agentId s.1.stats then
    (s.1.updateStats agentId (InboxStats.addNewMessage ackRequired createdTs), s.2)
  else (s.1, s.2 ++ [agentId])

/-- `add_new_message_to_inbox_stats_in_tx`. -/
def addNewMessageToInboxStats (D : CountedMailbox) (delivered recount : List Int)
    (ackRequired createdTs : Int) : Except TxError CountedMailbox :=
  if delivered.isEmpty then rebuildAgentsInboxStats D recount
  else if D.insertTrigger.isSome then rebuildAgentsInboxStats D (recount ++ delivered)
  else
    let s := delivered.foldl (countDelivery ackRequired createdTs) (D, recount)
    rebuildAgentsInboxStats s.1 s.2

/-! ### Table updates -/

namespace Mailbox

variable (M : Mailbox)

/-- `INSERT INTO messages`. -/
def insertMessage (m : Message) : Except TxError Mailbox :=
  if h : m.id ∈ M.messages.map (·.id) then .error (.constraint "messages")
  else .ok { M with
    messages := M.messages ++ [m]
    messages_nodup := nodup_map_concat M.messages_nodup h }

/-- `INSERT_MESSAGE_RECIPIENT_SQL`, with `ON CONFLICT DO NOTHING`; the flag is the number of rows
inserted. -/
def insertRecipient (r : Recipient) : Bool × Mailbox :=
  if h : (r.messageId, r.agentId) ∈ M.recipients.map fun x => (x.messageId, x.agentId) then (false, M)
  else (true, { M with
    recipients := M.recipients ++ [r]
    recipients_nodup := nodup_map_concat M.recipients_nodup h })

/-- `UPDATE message_recipients SET .. WHERE agent_id = ? AND message_id IN (..)`. -/
def updateReceipts (agentId : Int) (messageIds : List Int) (readTs : Option Int) (ackTs : Option Int) :
    Mailbox where
  messages := M.messages
  recipients := M.recipients.map fun r =>
    if r.agentId = agentId ∧ messageIds.contains r.messageId then
      { r with readTs := r.readTs.or readTs, ackTs := r.ackTs.or ackTs }
    else r
  deliveries := M.deliveries
  receipts := M.receipts
  agents := M.agents
  messages_nodup := M.messages_nodup
  recipients_nodup := by
    rw [List.map_map]
    have hkey : ((fun r : Recipient => (r.messageId, r.agentId)) ∘ fun r =>
        if r.agentId = agentId ∧ messageIds.contains r.messageId then
          { r with readTs := r.readTs.or readTs, ackTs := r.ackTs.or ackTs }
        else r) = fun r => (r.messageId, r.agentId) := by
      funext r
      dsimp only [Function.comp]
      split <;> rfl
    rw [hkey]
    exact M.recipients_nodup
  deliveries_nodup := M.deliveries_nodup
  receipts_nodup := M.receipts_nodup
  agents_nodup := M.agents_nodup

/-- `INSERT INTO project_mailbox_deliveries`. -/
def insertDelivery (d : Delivery) : Except TxError Mailbox :=
  if h : d.messageId ∈ M.deliveries.map (·.messageId) then
    .error (.constraint "project_mailbox_deliveries")
  else .ok { M with
    deliveries := M.deliveries ++ [d]
    deliveries_nodup := nodup_map_concat M.deliveries_nodup h }

/-- The row for the shared mailbox of the project, if the project is addressed. -/
def deliverToProject (projectMailbox : Bool) (d : Delivery) : Except TxError Mailbox :=
  if projectMailbox then M.insertDelivery d else .ok M

/-- The two statements of `receipt_write_statements` on `project_mailbox_receipts`. -/
def writeReceipt (messageId agentId : Int) (readTs ackTs : Option Int) : Mailbox where
  messages := M.messages
  recipients := M.recipients
  deliveries := M.deliveries
  receipts :=
    let receipts :=
      if (messageId, agentId) ∈ M.receipts.map fun r => (r.messageId, r.agentId) then M.receipts
      else M.receipts ++ [⟨messageId, agentId, none, none⟩]
    receipts.map fun r =>
      if r.messageId = messageId ∧ r.agentId = agentId then
        { r with readTs := r.readTs.or readTs, ackTs := r.ackTs.or ackTs }
      else r
  agents := M.agents
  messages_nodup := M.messages_nodup
  recipients_nodup := M.recipients_nodup
  deliveries_nodup := M.deliveries_nodup
  receipts_nodup := by
    have hkey : ((fun r : MailboxReceipt => (r.messageId, r.agentId)) ∘ fun r =>
        if r.messageId = messageId ∧ r.agentId = agentId then
          { r with readTs := r.readTs.or readTs, ackTs := r.ackTs.or ackTs }
        else r) = fun r => (r.messageId, r.agentId) := by
      funext r
      dsimp only [Function.comp]
      split <;> rfl
    dsimp only
    rw [List.map_map, hkey]
    split
    · exact M.receipts_nodup
    · next h => exact nodup_map_concat M.receipts_nodup h
  agents_nodup := M.agents_nodup

/-- `record_project_mailbox_receipt_in_tx`: the stored times, if the message is a delivery to the
project that the agent sees. -/
def recordProjectMailboxReceipt (agentId messageId : Int) (readTs ackTs : Option Int) :
    Option ((Option Int × Option Int) × Mailbox) := do
  let d ← M.delivery? messageId
  let m ← M.message? messageId
  let viewer ← M.agent? agentId
  if M.visibleToViewer viewer d m then
    let M' := M.writeReceipt messageId agentId readTs ackTs
    let r ← M'.receipts.find? fun r => r.messageId == messageId && r.agentId == agentId
    return ((r.readTs, r.ackTs), M')
  else none

end Mailbox

/-! ### Legacy triggers -/

/-- What the insert trigger makes of the row of the recipient. -/
def InsertTrigger.fire (t : InsertTrigger) (m : Message) (row : Option InboxStats) : InboxStats :=
  match t, row with
  | .upsert, none => ⟨1, 1, if m.ackRequired = 1 then 1 else 0, some m.createdTs⟩
  | .upsert, some s => s.addNewMessage (if m.ackRequired = 1 then 1 else 0) m.createdTs
  | .compat, none => InboxStats.addNewMessage m.ackRequired m.createdTs ⟨0, 0, 0, some m.createdTs⟩
  | .compat, some s => s.addNewMessage m.ackRequired m.createdTs

namespace CountedMailbox

/-- A recipient row joins, and the insert trigger counts it. -/
def insertRecipient (D : CountedMailbox) (m : Message) (r : Recipient) : Bool × CountedMailbox :=
  let (inserted, M) := D.mailbox.insertRecipient r
  let stats :=
    match inserted, D.insertTrigger with
    | true, some t =>
      Assoc.insert r.agentId (t.fire m (Assoc.get? r.agentId D.stats)) D.stats
    | _, _ => D.stats
  (inserted, { D with mailbox := M, stats := stats })

/-- Read and acknowledgement times are written once; the update triggers lower the counters by
the rows that change. -/
def updateReceipts (D : CountedMailbox) (agentId : Int) (messageIds : List Int)
    (readTs ackTs : Option Int) : CountedMailbox :=
  let touched := D.mailbox.recipients.filter fun r =>
    r.agentId == agentId && messageIds.contains r.messageId
  let nowRead := if D.markReadTrigger && readTs.isSome then touched.countP (·.readTs.isNone) else 0
  let nowAcked := if D.ackTrigger && ackTs.isSome then touched.countP (·.ackTs.isNone) else 0
  { D with mailbox := D.mailbox.updateReceipts agentId messageIds readTs ackTs }.updateStats agentId
    fun s => { s with
      unreadCount := (fun n => max 0 (n - 1))^[nowRead] s.unreadCount
      ackPendingCount := (fun n => max 0 (n - 1))^[nowAcked] s.ackPendingCount }

end CountedMailbox

/-! ### Transactions -/

/-- `ensure_message_participants_active_in_tx`, for one of the distinct participants. -/
def ensureActive (D : CountedMailbox) (agentId : Int) : Except TxError Unit :=
  match D.mailbox.agent? agentId with
  | none => .error (.notFound "Agent" (toString agentId))
  | some agent =>
    match Assoc.get? agentId D.deregistered with
    | some ts => .error (.invalidArgument "agent_deregistered"
        ("Agent '" ++ agent.name ++ "' was deregistered at " ++ toString ts))
    | none =>
      match agent.retiredAt with
      | some ts => .error (.invalidArgument "agent_retired"
          ("Agent '" ++ agent.name ++ "' was retired at " ++ toString ts))
      | none => .ok ()

/-- One turn of the recipient loop: who got a row, and who had one. -/
def deliver (m : Message) (s : CountedMailbox × List Int × List Int) (recipient : Int × String) :
    CountedMailbox × List Int × List Int :=
  let (inserted, D) := s.1.insertRecipient m ⟨m.id, recipient.1, recipient.2, none, none⟩
  if inserted then (D, s.2.1 ++ [recipient.1], s.2.2) else (D, s.2.1, s.2.2 ++ [recipient.1])

/-- `ack_required` as the row stores it. -/
def Message.requireAck (m : Message) (ackRequired : Bool) : Message :=
  { m with ackRequired := if ackRequired then 1 else 0 }

/-- The writes of `create_message_with_recipients_tx`. -/
def insertMessageRows (D : CountedMailbox) (m : Message) (recipients : List (Int × String))
    (projectMailbox : Bool) : Except TxError CountedMailbox := do
  let M ← D.mailbox.insertMessage m
  let s := recipients.foldl (deliver m) ({ D with mailbox := M }, [], [])
  let M ← s.1.mailbox.deliverToProject projectMailbox ⟨m.id, m.projectId⟩
  addNewMessageToInboxStats { s.1 with mailbox := M } s.2.1 s.2.2 m.ackRequired m.createdTs

/-- `create_message_with_recipients_tx`, past the idempotency gate and the election of the id. -/
def createMessageWithRecipients (D : CountedMailbox) (m : Message) (ackRequired : Bool)
    (recipients : List (Int × String)) (projectMailbox : Bool) : Except TxError CountedMailbox := do
  (keepNew (· == ·) (m.senderId :: recipients.map (·.1))).forM (ensureActive D)
  if m.replyTo = some m.id then
    .error (.invalidArgument "reply_to" "a message cannot be its own reply parent")
  else insertMessageRows D (m.requireAck ackRequired) recipients projectMailbox

/-- An agent without a row of its own records a receipt of a delivery to the project. -/
def receiveFromProject (D : CountedMailbox) (agentId messageId : Int) (readTs ackTs : Option Int) :
    Except TxError CountedMailbox :=
  match D.mailbox.recordProjectMailboxReceipt agentId messageId readTs ackTs with
  | some ((some _, ack), M) =>
    if ackTs.isSome && ack.isNone then
      .error (.notFound "MessageRecipient" (toString agentId ++ ":" ++ toString messageId))
    else .ok { D with mailbox := M }
  | _ => .error (.notFound "MessageRecipient" (toString agentId ++ ":" ++ toString messageId))

/-- `mark_message_read` and `acknowledge_message`. -/
def receiveMessage (D : CountedMailbox) (agentId messageId : Int) (readTs ackTs : Option Int) :
    Except TxError CountedMailbox := do
  let D ← rebuildAgentsInboxStats (D.updateReceipts agentId [messageId] readTs ackTs) [agentId]
  if D.mailbox.isRecipient messageId agentId then .ok D
  else receiveFromProject D agentId messageId readTs ackTs

/-- `mark_message_read`. -/
def markMessageRead (D : CountedMailbox) (agentId messageId now : Int) :
    Except TxError CountedMailbox :=
  receiveMessage D agentId messageId (some now) none

/-- `acknowledge_message`. -/
def acknowledgeMessage (D : CountedMailbox) (agentId messageId now : Int) :
    Except TxError CountedMailbox :=
  receiveMessage D agentId messageId (some now) (some now)

/-- The batches update chunk by chunk and recount once. -/
def receiveBatch (D : CountedMailbox) (agentId : Int) (messageIds : List Int)
    (readTs ackTs : Option Int) : Except TxError CountedMailbox :=
  rebuildAgentsInboxStats
    ((chunks maxInClauseItems messageIds).foldl
      (fun D chunk => D.updateReceipts agentId chunk readTs ackTs) D) [agentId]

/-- `mark_messages_read_batch`. -/
def markMessagesReadBatch (D : CountedMailbox) (agentId : Int) (messageIds : List Int) (now : Int) :
    Except TxError CountedMailbox :=
  if messageIds.isEmpty then .ok D else receiveBatch D agentId messageIds (some now) none

/-- `acknowledge_messages_batch`, which drops repeated ids first. -/
def acknowledgeMessagesBatch (D : CountedMailbox) (agentId : Int) (messageIds : List Int)
    (now : Int) : Except TxError CountedMailbox :=
  if messageIds.isEmpty then .ok D
  else receiveBatch D agentId (keepNew (· == ·) messageIds) (some now) (some now)

/-- A transaction. -/
inductive Tx where
  | send (m : Message) (ackRequired : Bool) (recipients : List (Int × String)) (projectMailbox : Bool)
  | markRead (agentId messageId now : Int)
  | markReadBatch (agentId : Int) (messageIds : List Int) (now : Int)
  | acknowledge (agentId messageId now : Int)
  | acknowledgeBatch (agentId : Int) (messageIds : List Int) (now : Int)

def Tx.run (D : CountedMailbox) : Tx → Except TxError CountedMailbox
  | .send m ackRequired recipients projectMailbox =>
    createMessageWithRecipients D m ackRequired recipients projectMailbox
  | .markRead agentId messageId now => markMessageRead D agentId messageId now
  | .markReadBatch agentId messageIds now => markMessagesReadBatch D agentId messageIds now
  | .acknowledge agentId messageId now => acknowledgeMessage D agentId messageId now
  | .acknowledgeBatch agentId messageIds now => acknowledgeMessagesBatch D agentId messageIds now

/-- The database after a transaction: an error rolls it back. -/
def CountedMailbox.commit (D : CountedMailbox) (tx : Tx) : CountedMailbox :=
  match tx.run D with
  | .ok D' => D'
  | .error _ => D

end AgentMail.Inbox
