import AgentMail.Inbox.Mailbox
import AgentMail.Lib.Cursor
import Mathlib.Data.Prod.Lex

/-!
# The overdue-acknowledgement scan

`crates/mcp-agent-mail-db/src/ack_scan.rs:41–255`: one page of the deliveries whose acknowledgement
is overdue, above the position of a cursor and below the bounds that the first page of a lap fixed.
A join on a primary key is a lookup. The columns that no other inbox read needs stand beside the
mailbox.
-/

namespace AgentMail.Inbox

open Base Lib

/-- The mailbox with the lives of its agents and the stamp of the database. -/
structure AckDatabase where
  mailbox : Mailbox
  taskDescription : Int → Text
  deregistered : List Int
  generation : Option String
  messages_pos : ∀ m ∈ mailbox.messages, 0 < m.id ∧ 0 < m.projectId
  agents_pos : ∀ a ∈ mailbox.agents, 0 < a.id

/-- `UnackedMessageRow`. -/
structure UnackedMessageRow where
  messageId : Int
  projectId : Int
  createdTs : Int
  agentId : Int

def UnackedMessageRow.key (r : UnackedMessageRow) : Int ×ₗ Int := toLex (r.messageId, r.agentId)

/-- `MAX_ACK_SCAN_PAGE_SIZE`. -/
def maxAckScanPageSize : Nat := 128

/-- `DEREGISTERED_TASK_PREFIX`. -/
def deregisteredTaskPrefix : Text := "[DEREGISTERED ".toList

/-! ### The query -/

namespace AckDatabase

variable (D : AckDatabase)

/-- Neither in the ledger of deregistrations nor marked in its task description. -/
def registered (agentId : Int) : Bool :=
  !D.deregistered.contains agentId &&
    (D.taskDescription agentId).take deregisteredTaskPrefix.length != deregisteredTaskPrefix

/-- A row of the first `UNION ALL` branch. -/
def directRow? (r : Recipient) : Option UnackedMessageRow := do
  let m ← D.mailbox.message? r.messageId
  let recipient ← D.mailbox.agent? r.agentId
  if recipient.projectId == m.projectId && m.ackRequired == 1 && r.ackTs.isNone &&
      recipient.retiredAt.isNone && D.registered recipient.id then
    some ⟨m.id, m.projectId, m.createdTs, r.agentId⟩
  else none

/-- `pr.ack_ts` of the left join. -/
def receiptAck (messageId agentId : Int) : Option Int :=
  (D.mailbox.receipts.find? fun pr =>
    pr.messageId == messageId && pr.agentId == agentId).bind (·.ackTs)

/-- A row of the second branch. -/
def sharedRow? (d : Delivery) (m : Message) (viewer : Agent) : Option UnackedMessageRow :=
  if viewer.projectId == d.projectId && m.ackRequired == 1 &&
      (D.receiptAck d.messageId viewer.id).isNone && D.registered viewer.id &&
      D.mailbox.visibleToViewer viewer d m then
    some ⟨m.id, m.projectId, m.createdTs, viewer.id⟩
  else none

/-- The deliveries whose acknowledgement is missing, without the bounds of a page. -/
def unacked : List UnackedMessageRow :=
  D.mailbox.recipients.filterMap D.directRow? ++
    D.mailbox.deliveries.flatMap fun d =>
      match D.mailbox.message? d.messageId with
      | some m => D.mailbox.agents.filterMap (D.sharedRow? d m)
      | none => []

/-- `COALESCE((SELECT MAX(id) FROM messages), 0)`. -/
def maxMessageId : Int := ((D.mailbox.messages.map (·.id)).max?).getD 0

end AckDatabase

structure AckScanCursor where
  databaseScope : String
  generationId : Option String
  upperId : Int
  beforeTs : Int
  afterMessage : Int
  afterAgent : Int

structure AckScanPage where
  rows : List UnackedMessageRow
  window : AckScanCursor
  hasMore : Bool

/-- A row of the projection: `row_kind` 0 or 1. -/
inductive ScanRow where
  | metadata (generationId : Option String) (upperId beforeTs afterMessage afterAgent : Int)
  | delivery (row : UnackedMessageRow)

/-- The bound values of the statement. -/
structure PageQuery where
  resume : Bool
  expectedGeneration : Option String
  previousUpperId : Int
  previousBeforeTs : Int
  currentBeforeTs : Int
  previousMessage : Int
  previousAgent : Int
  limit : Nat

def scanError (detail : String) : DbError := .sqlite ("ACK_SCAN: " ++ detail)

/-- `page_query`. -/
def pageQuery (databaseScope : String) (cursor : Option AckScanCursor) (overdueBeforeTs : Int)
    (pageSize : Nat) : Except DbError PageQuery :=
  if ¬ (1 ≤ pageSize ∧ pageSize ≤ maxAckScanPageSize) then
    .error (scanError "page size must be between 1 and 128")
  else
    let cursor := cursor.filter fun c => c.databaseScope == databaseScope
    .ok {
      resume := cursor.isSome
      expectedGeneration := cursor.bind (·.generationId)
      previousUpperId := cursor.elim 0 (·.upperId)
      previousBeforeTs := cursor.elim overdueBeforeTs (·.beforeTs)
      currentBeforeTs := overdueBeforeTs
      previousMessage := cursor.elim 0 (·.afterMessage)
      previousAgent := cursor.elim 0 (·.afterAgent)
      limit := pageSize + 2 }

/-- What the `WHERE` clauses ask of a row of the window. -/
def AckScanCursor.bounds (w : AckScanCursor) (r : UnackedMessageRow) : Bool :=
  decide (r.createdTs ≤ w.beforeTs) && decide (r.messageId ≤ w.upperId) &&
    (decide (w.afterMessage < r.messageId) ||
      r.messageId == w.afterMessage && decide (w.afterAgent < r.agentId))

/-- `ORDER BY row_kind, message_id, agent_id`, without the metadata. -/
def sortRows (rows : List UnackedMessageRow) : List UnackedMessageRow :=
  rows.mergeSort fun a b => decide (a.key ≤ b.key)

/-- `PAGE_SQL_PREFIX`, run on a database. -/
def PageQuery.run (q : PageQuery) (D : AckDatabase) : List ScanRow :=
  let resumed := q.resume && D.generation == q.expectedGeneration
  let upperId := if resumed then q.previousUpperId else D.maxMessageId
  let beforeTs := if resumed then q.previousBeforeTs else q.currentBeforeTs
  let afterMessage := if resumed then q.previousMessage else 0
  let afterAgent := if resumed then q.previousAgent else 0
  let w : AckScanCursor := ⟨"", D.generation, upperId, beforeTs, afterMessage, afterAgent⟩
  (.metadata D.generation upperId beforeTs afterMessage afterAgent ::
    (sortRows (D.unacked.filter w.bounds)).map .delivery).take q.limit

/-! ### Decoding -/

/-- The loop over the delivery rows; `previous` is the last key. -/
def decodeRows (window : AckScanCursor) :
    Int ×ₗ Int → List ScanRow → Except DbError (List UnackedMessageRow)
  | _, [] => .ok []
  | _, .metadata .. :: _ =>
    .error (scanError "unordered or out-of-window delivery projection")
  | previous, .delivery row :: rows =>
    if row.messageId ≤ 0 ∨ row.agentId ≤ 0 ∨ row.projectId ≤ 0 ∨ row.key ≤ previous ∨
        window.upperId < row.messageId ∨ window.beforeTs < row.createdTs then
      .error (scanError "unordered or out-of-window delivery projection")
    else (decodeRows window row.key rows).map (row :: ·)

/-- `decode_page`. -/
def decodePage (databaseScope : String) (rows : List ScanRow) (pageSize : Nat) :
    Except DbError AckScanPage :=
  match rows with
  | [] => .error (scanError "missing scan metadata or oversized projection")
  | header :: rest =>
    if pageSize + 2 < (header :: rest).length then
      .error (scanError "missing scan metadata or oversized projection")
    else
      match header with
      | .delivery _ => .error (scanError "scan metadata is not first")
      | .metadata generationId upperId beforeTs afterMessage afterAgent =>
        if generationId.any fun value => value.isEmpty || decide (256 < value.utf8ByteSize) then
          .error (scanError "database generation is empty or oversized")
        else if upperId < 0 ∨ afterMessage < 0 ∨ afterAgent < 0 then
          .error (scanError "negative scan bounds")
        else
          let window : AckScanCursor :=
            ⟨databaseScope, generationId, upperId, beforeTs, afterMessage, afterAgent⟩
          (decodeRows window (toLex (afterMessage, afterAgent)) rest).map fun messages =>
            { rows := messages.take pageSize, window, hasMore := decide (pageSize < messages.length) }

/-- `overdue_ack_page`, on the database that the statement sees. -/
def overdueAckPage (D : AckDatabase) (scope : String) (cursor : Option AckScanCursor)
    (overdueBeforeTs : Int) (pageSize : Nat) : Except DbError AckScanPage :=
  match pageQuery scope cursor overdueBeforeTs pageSize with
  | .error error => .error error
  | .ok q => decodePage scope (q.run D) pageSize

/-- `continuation_after`. -/
def AckScanPage.continuationAfter (page : AckScanPage) (consumed : Nat) :
    Except DbError (Option AckScanCursor) :=
  if page.rows.length < consumed then
    .error (scanError "consumed count exceeds the observed page")
  else if consumed = page.rows.length ∧ page.hasMore = false then .ok none
  else
    match if consumed = 0 then none else page.rows[consumed - 1]? with
    | some row =>
      .ok (some { page.window with afterMessage := row.messageId, afterAgent := row.agentId })
    | none => .ok (some page.window)

/-! ### Laps -/

/-- What a page of a lap meets: the database at that moment, the worker's cutoff and page size, and
how many of the rows the worker handles. -/
structure Turn where
  database : AckDatabase
  overdueBeforeTs : Int
  pageSize : Nat
  handles : Nat

/-- A page that was read. -/
structure Observed where
  turn : Turn
  page : AckScanPage

/-- The worker handles no more rows than the page has. -/
def Observed.consumed (o : Observed) : List UnackedMessageRow := o.page.rows.take o.turn.handles

/-- The pages of a lap, and whether the lap finished. -/
def ackLap (scope : String) :
    Option AckScanCursor → List Turn → Except DbError (List Observed × Bool)
  | _, [] => .ok ([], false)
  | cursor, t :: ts =>
    match overdueAckPage t.database scope cursor t.overdueBeforeTs t.pageSize with
    | .error error => .error error
    | .ok page =>
      match page.continuationAfter (min t.handles page.rows.length) with
      | .error error => .error error
      | .ok none => .ok ([⟨t, page⟩], true)
      | .ok (some next) =>
        match ackLap scope (some next) ts with
        | .error error => .error error
        | .ok (observed, finished) => .ok (⟨t, page⟩ :: observed, finished)

end AgentMail.Inbox
