import AgentMail.Base.Text
import AgentMail.Base.Values
import Mathlib.Data.List.Nodup

/-!
# Mailbox tables

The tables that inbox reads join: messages, direct recipients, the shared mailbox of a project
with its deliveries and receipts, and agents. The predicate of the shared mailbox is
`visible_to_viewer_sql` (`crates/mcp-agent-mail-db/src/project_mailbox.rs:69–80`). Primary keys
are unique; nothing else is assumed, so recipients and deliveries may be orphans.
-/

namespace AgentMail.Inbox

open Base

/-- A row of `messages`. -/
structure Message where
  id : Int
  projectId : Int
  senderId : Int
  threadId : Option String
  topic : Option Text
  replyTo : Option Int
  subject : String
  bodyMd : String
  importance : String
  ackRequired : Int
  createdTs : Int
  recipientsJson : String
  attachments : String

/-- A row of `message_recipients`. -/
structure Recipient where
  messageId : Int
  agentId : Int
  kind : String
  readTs : Option Int
  ackTs : Option Int

/-- A row of `project_mailbox_deliveries`. -/
structure Delivery where
  messageId : Int
  projectId : Int

/-- A row of `project_mailbox_receipts`. -/
structure MailboxReceipt where
  messageId : Int
  agentId : Int
  readTs : Option Int
  ackTs : Option Int

/-- A row of `agents`. -/
structure Agent where
  id : Int
  name : String
  projectId : Int
  inceptionTs : Int
  retiredAt : Option Int
  contactPolicy : Option Text

/-- The tables, with their primary keys. -/
structure Mailbox where
  messages : List Message
  recipients : List Recipient
  deliveries : List Delivery
  receipts : List MailboxReceipt
  agents : List Agent
  messages_nodup : (messages.map (·.id)).Nodup
  recipients_nodup : (recipients.map fun r => (r.messageId, r.agentId)).Nodup
  deliveries_nodup : (deliveries.map (·.messageId)).Nodup
  receipts_nodup : (receipts.map fun r => (r.messageId, r.agentId)).Nodup
  agents_nodup : (agents.map (·.id)).Nodup

/-- `UNKNOWN_SENDER_DISPLAY`. -/
def unknownSenderDisplay : String := "[unknown sender]"

/-- `PROJECT_MAILBOX_KIND`. -/
def projectMailboxKind : String := "project"

namespace Mailbox

variable (M : Mailbox)

def message? (id : Int) : Option Message := M.messages.find? (·.id == id)

def agent? (id : Int) : Option Agent := M.agents.find? (·.id == id)

def delivery? (messageId : Int) : Option Delivery := M.deliveries.find? (·.messageId == messageId)

/-- `COALESCE(sender.name, unknown)`. -/
def senderName (senderId : Int) : String := (M.agent? senderId).elim unknownSenderDisplay (·.name)

/-- The agent is a direct recipient of the message. -/
def isRecipient (messageId agentId : Int) : Bool :=
  M.recipients.any fun r => r.messageId == messageId && r.agentId == agentId

/-- `LOWER(COALESCE(contact_policy, 'auto')) <> 'block_all'`. -/
def acceptsContact (viewer : Agent) : Bool :=
  !eqIgnoreAsciiCase (viewer.contactPolicy.getD "auto".toList) "block_all".toList

/-- `visible_to_viewer_sql`. -/
def visibleToViewer (viewer : Agent) (d : Delivery) (m : Message) : Bool :=
  d.projectId == viewer.projectId && m.projectId == d.projectId && m.senderId != viewer.id &&
    viewer.retiredAt.isNone && decide (viewer.inceptionTs ≤ m.createdTs) &&
    acceptsContact viewer && !M.isRecipient d.messageId viewer.id

end Mailbox

def sampleMailbox : Mailbox where
  messages := [
    { id := 1, projectId := 1, senderId := 3, threadId := none, topic := none, replyTo := none,
      subject := "all", bodyMd := "", importance := "normal", ackRequired := 0, createdTs := 10,
      recipientsJson := "", attachments := "[]" },
    { id := 2, projectId := 1, senderId := 3, threadId := none, topic := none, replyTo := none,
      subject := "one", bodyMd := "", importance := "normal", ackRequired := 0, createdTs := 11,
      recipientsJson := "", attachments := "[]" }]
  recipients := [{ messageId := 2, agentId := 2, kind := "to", readTs := none, ackTs := none }]
  deliveries := [{ messageId := 1, projectId := 1 }]
  receipts := []
  agents := [
    { id := 2, name := "BlueLake", projectId := 1, inceptionTs := 0, retiredAt := none,
      contactPolicy := none },
    { id := 3, name := "RedStone", projectId := 1, inceptionTs := 0, retiredAt := none,
      contactPolicy := none }]
  messages_nodup := by decide
  recipients_nodup := by decide
  deliveries_nodup := by decide
  receipts_nodup := by decide
  agents_nodup := by decide

end AgentMail.Inbox
