import AgentMail.Inbox.Pages

/-!
# Pending acknowledgements

The oldest-first window of `crates/mcp-agent-mail-db/src/unacked_inbox.rs:347–657`: the direct
receipts of an agent are scanned in the order of their message ids, then the headers of the project
from the inception of the agent on, in pages of one timestamp order. The reference is the relational
query of the tests there (`36–52`, `220–243`).
-/

namespace AgentMail.Inbox

open Base Lib

/-- `Receipt` of a pending acknowledgement. -/
structure AckReceipt where
  kind : String
  readTs : Option Int

/-- An entry of an `OldestWindow`. -/
structure AckEntry where
  createdTs : Int
  id : Int
  receipt : AckReceipt

def AckEntry.key (c : AckEntry) : Int ×ₗ Int := toLex (c.createdTs, c.id)

/-- The `BTreeMap` of the source from its least key to its greatest. -/
abbrev OldestWindow := List AckEntry

/-- The engine also lists a project's messages under `ORDER BY created_ts ASC`, with ties in an
order of its own that is the same for every page. -/
structure AckEngine (M : Mailbox) extends Engine M where
  oldest : Int → List Message
  oldest_perm : ∀ projectId, (oldest projectId).Perm (M.messages.filter (·.projectId == projectId))
  oldest_sorted : ∀ projectId, (oldest projectId).Pairwise fun a b => a.createdTs ≤ b.createdTs

/-- The inclusive cutoff `before_ts`. -/
def beforeCutoff (beforeTs : Option Int) (m : Message) : Bool :=
  beforeTs.all fun cutoff => decide (m.createdTs ≤ cutoff)

/-- The rows of a map in the order of its keys. -/
def inKeyOrder {β : Type} (entries : List (Int × β)) : List (Int × β) :=
  entries.mergeSort fun a b => decide (a.1 ≤ b.1)

/-- There is room, or the key is before the last one. -/
def admits (limit : Nat) (window : OldestWindow) (key : Int ×ₗ Int) : Bool :=
  window.length < limit || window.getLast?.any fun old => decide (key < old.key)

/-- `keep_oldest`. -/
def keepOldest (limit : Nat) (window : OldestWindow) (c : AckEntry) : OldestWindow :=
  if admits limit window c.key then
    let window := (window.filter fun old => decide (old.key ≠ c.key)).orderedInsert
      (fun a b => a.key ≤ b.key) c
    if window.length > limit then window.dropLast else window
  else window

section

variable {M : Mailbox} (E : AckEngine M) (projectId agentId : Int) (limit : Nat)
  (beforeTs : Option Int)

/-! ### The direct window -/

/-- What the loop over a page of receipts keeps. -/
structure ReceiptRows where
  after : Option Int
  pending : List (Int × AckReceipt)

/-- One receipt of a page. -/
def directRow (s : ReceiptRows) (r : Recipient) : Except FetchError ReceiptRows :=
  if s.after.any (fun previous => decide (r.messageId ≤ previous)) then
    internalError "pending acknowledgement receipt cursor did not advance"
  else .ok {
    after := some r.messageId
    pending := if r.ackTs.isNone then Assoc.insert r.messageId ⟨r.kind, r.readTs⟩ s.pending
      else s.pending }

/-- One header of a page. -/
def directHeader (s : List (Int × AckReceipt) × OldestWindow) (m : Message) :
    Except FetchError (List (Int × AckReceipt) × OldestWindow) :=
  match Assoc.get? m.id s.1 with
  | none => internalError "unrequested or duplicate pending acknowledgement header"
  | some receipt =>
    let pending := Assoc.erase m.id s.1
    if m.projectId == projectId && m.ackRequired == 1 && beforeCutoff beforeTs m then
      .ok (pending, keepOldest limit s.2 ⟨m.createdTs, m.id, receipt⟩)
    else .ok (pending, s.2)

/-- The headers of the pending receipts of a page. -/
def directHeaders (pending : List (Int × AckReceipt)) (window : OldestWindow) :
    Except FetchError OldestWindow :=
  if pending.isEmpty then .ok window
  else
    let ids := pending.map (·.1)
    let headers := lookupMessages E.toEngine ids
    if headers.length > ids.length then
      internalError "pending acknowledgement header batch exceeded its bound"
    else do
      let s ← headers.foldlM (directHeader projectId limit beforeTs) (pending, window)
      .ok s.2

/-- The state of `direct_window`. -/
structure DirectScan where
  after : Option Int
  window : OldestWindow

/-- One page of `direct_window`. -/
def directStep (s : DirectScan) : Except FetchError (OldestWindow ⊕ DirectScan) :=
  let rows := recipientPageOrdered M agentId s.after
  if rows.length > pageSize then
    internalError "pending acknowledgement receipt page exceeded its bound"
  else do
    let page ← rows.foldlM directRow { after := s.after, pending := [] }
    let window ← directHeaders E projectId limit beforeTs page.pending s.window
    if rows.length < pageSize then .ok (.inl window)
    else .ok (.inr { after := page.after, window := window })

/-- `direct_window`. -/
def directWindow : Except FetchError OldestWindow :=
  iterate (directStep E projectId agentId limit beforeTs) .outOfFuel (M.recipients.length + 1)
    { after := none, window := [] }

/-! ### The shared window -/

/-- `shared_page_query`: what is left from a timestamp on, without the rows of that timestamp that
were read. -/
def oldestPage (floor : Int) (skipAtFloor : Nat) : List Message :=
  (((E.oldest projectId).filter fun m =>
    decide (floor ≤ m.createdTs) && beforeCutoff beforeTs m).drop skipAtFloor).take 128

/-- One row of `keyed_receipts`. -/
def keyedRow {α : Type} (messageId : α → Int) (batch : List Int) (out : List (Int × α)) (row : α) :
    Except FetchError (List (Int × α)) :=
  if !batch.contains (messageId row) || Assoc.contains (messageId row) out then
    internalError "unrequested or duplicate pending acknowledgement receipt"
  else .ok (Assoc.insert (messageId row) row out)

/-- `keyed_receipts`: batches of eight keys, nine rows at most. -/
def keyedReceipts {α : Type} (lookup : List Int → List α) (messageId : α → Int) (ids : List Int) :
    Except FetchError (List (Int × α)) :=
  (chunks 8 ids).foldlM (fun out batch =>
    let rows := (lookup batch).take 9
    if rows.length > batch.length then
      internalError "pending acknowledgement receipt lookup exceeded its bound"
    else rows.foldlM (keyedRow messageId batch) out) []

/-- What the loop over a page of headers keeps. -/
structure AckPage where
  last : Int
  trailing : Nat
  seen : List Int
  headers : List (Int × Int)

/-- One header of a page. -/
def sharedRow (window : OldestWindow) (s : AckPage) (m : Message) : Except FetchError AckPage :=
  if m.createdTs < s.last || !beforeCutoff beforeTs m || m.projectId != projectId ||
      s.seen.contains m.id then
    internalError "invalid pending acknowledgement shared page"
  else if m.createdTs = s.last ∧ i64Max < s.trailing + 1 then
    internalError "pending acknowledgement timestamp offset overflow"
  else .ok {
    last := m.createdTs
    trailing := if m.createdTs = s.last then s.trailing + 1 else 1
    seen := s.seen ++ [m.id]
    headers :=
      if m.senderId != agentId && m.ackRequired == 1 &&
          admits limit window (toLex (m.createdTs, m.id)) then
        Assoc.insert m.id m.createdTs s.headers
      else s.headers }

/-- One delivery of a page. -/
def ackDelivery (s : List (Int × Int) × List (Int × Int)) (d : Delivery) :
    Except FetchError (List (Int × Int) × List (Int × Int)) :=
  match Assoc.get? d.messageId s.1 with
  | none => internalError "unrequested or duplicate pending acknowledgement delivery"
  | some created =>
    .ok (Assoc.erase d.messageId s.1,
      if d.projectId == projectId then Assoc.insert d.messageId created s.2 else s.2)

/-- One delivery enters the window unless the receipt taken out for it is acknowledged. -/
def keepDelivery (s : List (Int × MailboxReceipt) × OldestWindow) (entry : Int × Int) :
    List (Int × MailboxReceipt) × OldestWindow :=
  let receipts := Assoc.erase entry.1 s.1
  match Assoc.get? entry.1 s.1 with
  | some receipt =>
    if receipt.ackTs.isSome then (receipts, s.2)
    else (receipts, keepOldest limit s.2 ⟨entry.2, entry.1, projectMailboxKind, receipt.readTs⟩)
  | none => (receipts, keepOldest limit s.2 ⟨entry.2, entry.1, projectMailboxKind, none⟩)

/-- The candidates of a page. -/
def sharedHeaders (headers : List (Int × Int)) (window : OldestWindow) :
    Except FetchError OldestWindow :=
  if headers.isEmpty then .ok window
  else
    let rows := lookupDeliveries E.toEngine ((inKeyOrder headers).map (·.1))
    if rows.length > headers.length then
      internalError "pending acknowledgement delivery lookup exceeded its bound"
    else do
      let s ← rows.foldlM (ackDelivery projectId) (headers, [])
      let deliveries := s.2
      let direct ← keyedReceipts (lookupRecipients E.toEngine agentId) (·.messageId)
        ((inKeyOrder deliveries).map (·.1))
      let deliveries := (direct.map (·.1)).foldl (fun m k => Assoc.erase k m) deliveries
      let receipts ← keyedReceipts (lookupReceipts E.toEngine agentId) (·.messageId)
        ((inKeyOrder deliveries).map (·.1))
      .ok ((inKeyOrder deliveries).foldl (keepDelivery limit) (receipts, window)).2

/-- The state of `extend_shared_window`. -/
structure AckWalk where
  floor : Int
  skipAtFloor : Nat
  window : OldestWindow

/-- One page of `extend_shared_window`. -/
def ackStep (s : AckWalk) : Except FetchError (OldestWindow ⊕ AckWalk) :=
  let rows := oldestPage E projectId beforeTs s.floor s.skipAtFloor
  if rows.length > sharedPageSize then
    internalError "pending acknowledgement shared page exceeded its bound"
  else do
    let page ← rows.foldlM (sharedRow projectId agentId limit beforeTs s.window)
      { last := s.floor, trailing := s.skipAtFloor, seen := [], headers := [] }
    let window ← sharedHeaders E projectId agentId limit page.headers s.window
    let complete := window.length == limit &&
      window.getLast?.any fun old => decide (old.createdTs < page.last)
    if rows.length < sharedPageSize || complete then .ok (.inl window)
    else if page.last = s.floor ∧ page.trailing ≤ s.skipAtFloor then
      internalError "pending acknowledgement shared cursor did not advance"
    else .ok (.inr { floor := page.last, skipAtFloor := page.trailing, window := window })

/-- `extend_shared_window`. -/
def extendSharedWindow (window : OldestWindow) : Except FetchError OldestWindow :=
  match M.agent? agentId with
  | none => .ok window
  | some viewer =>
    if viewer.projectId != projectId || viewer.retiredAt.isSome ||
        viewer.contactPolicy.any (eqIgnoreAsciiCase · "block_all".toList) then .ok window
    else
      iterate (ackStep E projectId agentId limit beforeTs) .outOfFuel
        ((E.oldest projectId).length + 1)
        { floor := viewer.inceptionTs, skipAtFloor := 0, window := window }

/-- The window of `read_with_options`, before its messages are hydrated. The shared mailbox is read
when it has a delivery to the project. -/
def unackedWindow : Except FetchError OldestWindow := do
  let selected ← directWindow E projectId agentId limit beforeTs
  if M.deliveries.any (·.projectId == projectId) then
    extendSharedWindow E projectId agentId limit beforeTs selected
  else .ok selected

end

/-! ### The reference -/

section

variable (M : Mailbox) (projectId agentId : Int) (beforeTs : Option Int)

/-- A row of `DIRECT_SELECTION`. -/
def directAck (m : Message) : Option AckEntry :=
  (M.recipient? agentId m.id).bind fun r =>
    if m.projectId == projectId && m.ackRequired == 1 && r.ackTs.isNone &&
        beforeCutoff beforeTs m then
      some ⟨m.createdTs, m.id, r.kind, r.readTs⟩
    else none

/-- A row of `SHARED_SELECTION`. -/
def sharedAck (m : Message) : Option AckEntry :=
  (M.delivery? m.id).bind fun d =>
    (M.agent? agentId).bind fun viewer =>
      let receipt := M.mailboxReceipt? agentId m.id
      if d.projectId == projectId && m.ackRequired == 1 && (receipt.bind (·.ackTs)).isNone &&
          M.visibleToViewer viewer d m && beforeCutoff beforeTs m then
        some ⟨m.createdTs, m.id, projectMailboxKind, receipt.bind (·.readTs)⟩
      else none

/-- `selection_query` without its order and limit. -/
def pendingAcks : List AckEntry :=
  M.messages.filterMap (directAck M projectId agentId beforeTs) ++
    M.messages.filterMap (sharedAck M projectId agentId beforeTs)

/-- `selection_query`: `ORDER BY created_ts ASC, id ASC LIMIT limit`. -/
def selectionQuery (limit : Nat) : List AckEntry :=
  ((pendingAcks M projectId agentId beforeTs).mergeSort fun a b => decide (a.key ≤ b.key)).take limit

end

end AgentMail.Inbox
