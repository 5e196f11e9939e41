import AgentMail.Inbox.Mailbox
import AgentMail.Lib.Loop
import AgentMail.Lib.Paging
import AgentMail.Lib.Table
import AgentMail.Lib.Window
import Mathlib.Data.Prod.Lex

/-!
# Inbox reads

`fetch_inbox_rows_from_conn_impl` (`crates/mcp-agent-mail-db/src/sync.rs:418–436`) over
`crates/mcp-agent-mail-db/src/sync/inbox.rs:100–856` and
`crates/mcp-agent-mail-db/src/project_mailbox.rs:184–208, 403–426, 651–668`. One read sees one
snapshot. The direct inbox has two plans: a walk over the project's headers, newest first, under a
work budget, and a scan of all receipts of the agent.
-/

namespace AgentMail.Inbox

open Base Lib

/-- `InboxBodyPolicy`. -/
inductive BodyPolicy where
  | full
  | metadataOnly

/-- `InboxFetchOptions`. -/
structure FetchOptions where
  urgentOnly : Bool
  unreadOnly : Bool
  ackRequiredOnly : Bool
  ackOverdueBefore : Option Int
  topic : Option Text
  bodyPolicy : BodyPolicy

/-- `InboxRow`. -/
structure InboxRow where
  message : Message
  kind : String
  senderName : String
  readTs : Option Int
  ackTs : Option Int

/-- `Receipt`. -/
structure Receipt where
  kind : String
  readTs : Option Int
  ackTs : Option Int

def Recipient.receipt (r : Recipient) : Receipt :=
  { kind := r.kind, readTs := r.readTs, ackTs := r.ackTs }

/-- An error of the source, the index of a missing map key (a panic there), or a loop that has used
up its fuel. -/
inductive FetchError where
  | database (error : DbError)
  | missingKey
  | outOfFuel

def internalError {α : Type} (message : String) : Except FetchError α :=
  .error (.database (.internal message))

/-! ### The engine -/

/-- What leaves the order of its rows open: statements without `ORDER BY`, and hash maps. -/
inductive Query where
  | recipientPage
  | recipientRange
  | messageLookup
  | agentLookup
  | deliveryLookup
  | recipientLookup
  | receiptLookup
  | hashMap

/-- The choices of the database engine within one snapshot. `listing` is the project's
messages under `ORDER BY created_ts DESC`, with ties in an order of its own. `order` arranges the
rows of a statement without `ORDER BY`, so that its `LIMIT` cuts anywhere. `inboxStats` is the
unverified `total_count`. -/
structure Engine (M : Mailbox) where
  listing : Int → List Message
  order : {α : Type} → Query → List Int → List α → List α
  inboxStats : Int → Option Int
  listing_perm : ∀ projectId, (listing projectId).Perm (M.messages.filter (·.projectId == projectId))
  listing_sorted : ∀ projectId, (listing projectId).Pairwise fun a b => b.createdTs ≤ a.createdTs
  order_perm : ∀ {α : Type} (query : Query) (params : List Int) (rows : List α),
    (order query params rows).Perm rows
  capacity : (M.messages.length : Int) ≤ i64Max

/-- `PAGE_SIZE`. -/
def pageSize : Nat := 256

/-- `SHARED_PAGE_SIZE`. -/
def sharedPageSize : Nat := 128

/-- `NEWEST_FIRST_MIN_INBOX`. -/
def newestFirstMinInbox : Int := 256

/-- `RECIPIENT_RANGE_LIMIT`. -/
def recipientRangeLimit : Nat := 2 * sharedPageSize

section

variable {M : Mailbox} (E : Engine M)

/-- `shared_page_query`. -/
def sharedPageQuery (projectId : Int) (mark : Mark Int) : List Message :=
  (remaining Message.createdTs (E.listing projectId) mark).take sharedPageSize

/-- `lookup_query` on `messages`. -/
def lookupMessages (ids : List Int) : List Message :=
  E.order .messageLookup ids (M.messages.filter fun m => ids.contains m.id)

/-- `lookup_query` on `agents`. -/
def lookupAgents (ids : List Int) : List Agent :=
  E.order .agentLookup ids (M.agents.filter fun a => ids.contains a.id)

/-- `shared_lookup_query` on `project_mailbox_deliveries`. -/
def lookupDeliveries (ids : List Int) : List Delivery :=
  E.order .deliveryLookup ids (M.deliveries.filter fun d => ids.contains d.messageId)

/-- A batch of keys of one agent in `message_recipients`. -/
def lookupRecipients (agentId : Int) (ids : List Int) : List Recipient :=
  E.order .recipientLookup (agentId :: ids)
    (M.recipients.filter fun r => r.agentId == agentId && ids.contains r.messageId)

/-- A batch of keys of one agent in `project_mailbox_receipts`. -/
def lookupReceipts (agentId : Int) (ids : List Int) : List MailboxReceipt :=
  E.order .receiptLookup (agentId :: ids)
    (M.receipts.filter fun r => r.agentId == agentId && ids.contains r.messageId)

/-- `RECIPIENT_RANGE_SQL`. -/
def recipientRange (agentId low high : Int) : List Recipient :=
  (E.order .recipientRange [agentId, low, high]
    (M.recipients.filter fun r =>
      r.agentId == agentId && (low ≤ r.messageId && r.messageId ≤ high))).take 256

/-- The agent's recipient rows after a message id. -/
def recipientsAfter (M : Mailbox) (agentId : Int) (after : Option Int) : List Recipient :=
  M.recipients.filter fun r => r.agentId == agentId && after.all (· < r.messageId)

/-- `RECIPIENT_PAGE_SQL` and `RECIPIENT_NEXT_SQL`. -/
def recipientPage (agentId : Int) (after : Option Int) : List Recipient :=
  (E.order .recipientPage (agentId :: after.toList) (recipientsAfter M agentId after)).take pageSize

/-- Ascending message ids. -/
def sortByMessageId (rows : List Recipient) : List Recipient :=
  rows.mergeSort fun a b => decide (a.messageId ≤ b.messageId)

/-- `RECIPIENT_PAGE_ORDERED_SQL` and `RECIPIENT_NEXT_ORDERED_SQL`. -/
def recipientPageOrdered (M : Mailbox) (agentId : Int) (after : Option Int) : List Recipient :=
  (sortByMessageId (recipientsAfter M agentId after)).take pageSize

/-- The keys of a hash map. -/
def mapKeys {β : Type} (entries : List (Int × β)) : List Int :=
  E.order .hashMap [] (entries.map (·.1))

end

/-- `shared_receipt_rows`: batches of eight keys. -/
def sharedReceiptRows {α : Type} (lookup : List Int → List α) (ids : List Int) :
    Except FetchError (List α) :=
  (chunks 8 ids).foldlM (fun out chunk =>
    if (lookup chunk).length > chunk.length then
      internalError "shared inbox receipt batch returned duplicate keys"
    else .ok (out ++ lookup chunk)) []

/-! ### Filters -/

section

variable (options : FetchOptions)

def missesUrgent (m : Message) : Bool :=
  options.urgentOnly && !(m.importance == "high" || m.importance == "urgent")

def missesTopic (m : Message) : Bool :=
  options.topic.any fun wanted => !m.topic.any fun actual => eqIgnoreAsciiCase actual wanted

def missesAck (m : Message) : Bool :=
  (options.ackRequiredOnly && m.ackRequired != 1) ||
    options.ackOverdueBefore.any fun ts => m.ackRequired != 1 || decide (m.createdTs ≥ ts)

def missesReceipt (readTs ackTs : Option Int) : Bool :=
  (options.unreadOnly && readTs.isSome) ||
    ((options.ackRequiredOnly || options.ackOverdueBefore.isSome) && ackTs.isSome)

/-- A filter on the read or acknowledgement state is set. -/
def hasStateFilter : Bool :=
  options.unreadOnly || options.ackRequiredOnly || options.ackOverdueBefore.isSome

end

def missesSince (sinceTs : Option Int) (m : Message) : Bool :=
  sinceTs.any fun ts => decide (m.createdTs ≤ ts)

/-! ### The newest window -/

/-- An entry of a `NewestWindow`. -/
structure Candidate where
  createdTs : Int
  id : Int
  receipt : Receipt

def Candidate.key (c : Candidate) : Int ×ₗ Int := toLex (c.createdTs, c.id)

/-- The `BTreeMap` of the source from its greatest key to its least. -/
abbrev NewestWindow := List Candidate

/-- Insert a candidate that belongs to the newest `limit`, and drop the oldest if there is one
too many. -/
def admitCandidate (limit : Nat) (newest : NewestWindow) (c : Candidate) : NewestWindow :=
  if newest.length < limit || newest.getLast?.any (fun old => decide (old.key < c.key)) then
    let newest := Window.place Candidate.key c (newest.filter fun old => decide (old.key ≠ c.key))
    if newest.length > limit then newest.dropLast else newest
  else newest

/-- The window is full and its oldest entry is newer than everything still to be read. -/
def windowComplete (limit : Nat) (newest : NewestWindow) (mark : Mark Int) : Bool :=
  newest.length == limit &&
    newest.getLast?.any fun oldest => mark.ceiling.any fun last => decide (last < oldest.createdTs)

/-! ### Pages of headers -/

/-- What the loop over a page of headers keeps: `last_ts` and `trailing_count`, the creation
times of the ids that passed the header filters, and whether a row was too old. -/
structure PageScan where
  mark : Mark Int
  candidates : List (Int × Int)
  lowerBoundReached : Bool

/-- One row of the loop over a page of headers. -/
def scanRow (label : String) (projectId : Int) (tooOld skips : Message → Bool) (s : PageScan)
    (m : Message) : Except FetchError PageScan :=
  if s.mark.ceiling.any (fun previous => decide (m.createdTs > previous)) then
    internalError (label ++ " inbox timestamps are not descending")
  else if s.mark.ceiling == some m.createdTs && decide (i64Max < s.mark.skip + 1) then
    internalError (label ++ " inbox timestamp offset overflow")
  else
    let s := { s with mark := s.mark.advance Message.createdTs m }
    if tooOld m then .ok { s with lowerBoundReached := true }
    else if m.projectId != projectId then
      internalError (label ++ " inbox returned a foreign project header")
    else if skips m then .ok s
    else if Assoc.contains m.id s.candidates then
      internalError ("duplicate " ++ label ++ " inbox candidate")
    else .ok { s with candidates := Assoc.insert m.id m.createdTs s.candidates }

def scanPage (label : String) (projectId : Int) (tooOld skips : Message → Bool) (mark : Mark Int)
    (rows : List Message) : Except FetchError PageScan :=
  rows.foldlM (scanRow label projectId tooOld skips)
    { mark := mark, candidates := [], lowerBoundReached := false }

section

variable {M : Mailbox} (E : Engine M) (projectId agentId : Int) (sinceTs : Option Int) (limit : Nat)
  (options : FetchOptions)

/-! ### The newest-first walk -/

/-- `newest_first_budget`. -/
def newestFirstBudget : Option Nat :=
  if hasStateFilter options then none
  else
    match E.inboxStats agentId with
    | none => none
    | some total =>
      if total < newestFirstMinInbox || saturatingMul (min limit i64Max) 4 > total then none
      else some (total.tdiv 4).toNat

/-- `page_receipts`. -/
def pageReceipts (candidates : List (Int × Int)) : Except FetchError (List (Int × Receipt) × Nat) :=
  match (mapKeys E candidates).min?, (mapKeys E candidates).max? with
  | some low, some high => do
    let rows := recipientRange E agentId low high
    let rows ←
      if rows.length ≥ recipientRangeLimit then
        sharedReceiptRows (lookupRecipients E agentId) (mapKeys E candidates)
      else .ok rows
    .ok (rows.filterMap fun r =>
      if Assoc.contains r.messageId candidates then some (r.messageId, r.receipt) else none,
      rows.length)
  | _, _ => .ok ([], 0)

/-- The receipts of a page enter the window. -/
def admitReceipts (candidates : List (Int × Int)) (receipts : List (Int × Receipt))
    (newest : NewestWindow) : Except FetchError NewestWindow :=
  receipts.foldlM (fun newest entry =>
    match Assoc.get? entry.1 candidates with
    | none => .error .missingKey
    | some created =>
      .ok (admitCandidate limit newest { createdTs := created, id := entry.1, receipt := entry.2 })) newest

/-- The state of `newest_first_window`. -/
structure Walk where
  newest : NewestWindow
  mark : Mark Int
  work : Nat
  pages : Nat

/-- One page of `newest_first_window`. -/
def newestFirstStep (budget : Nat) (w : Walk) : Except FetchError (Option NewestWindow ⊕ Walk) :=
  let rows := sharedPageQuery E projectId w.mark
  if rows.length > sharedPageSize then internalError "direct inbox header page exceeded its bound"
  else do
    let pages := w.pages + 1
    let work := usizeSaturatingAdd w.work (usizeSaturatingMul pages sharedPageSize)
    let scan ← scanPage "direct" projectId (missesSince sinceTs)
      (fun m => missesUrgent options m || missesTopic options m) w.mark rows
    let (receipts, read) ← pageReceipts E agentId scan.candidates
    let work := usizeSaturatingAdd work read
    let newest ← admitReceipts limit scan.candidates receipts w.newest
    if rows.length < sharedPageSize || scan.lowerBoundReached ||
        windowComplete limit newest scan.mark then .ok (.inl (some newest))
    else if work ≥ budget then .ok (.inl none)
    else .ok (.inr { newest := newest, mark := scan.mark, work := work, pages := pages })

/-- `newest_first_window`. -/
def newestFirstWindow (budget : Nat) : Except FetchError (Option NewestWindow) :=
  if hasStateFilter options then internalError "read/ACK-state filters need the receipt scan"
  else
    iterate (newestFirstStep E projectId agentId sinceTs limit options budget) .outOfFuel
      ((E.listing projectId).length + 1)
      { newest := [], mark := { ceiling := none, skip := 0 }, work := 0, pages := 0 }

/-! ### The receipt scan -/

/-- `keyed_by_message_id`. -/
def keyedByMessageId (rows : List Recipient) : Except FetchError (List Recipient) :=
  if rows.length > pageSize then internalError "inbox recipient page exceeded its bound"
  else .ok (sortByMessageId rows)

/-- `receipt_page`. -/
def receiptPage (after : Option Int) : Except FetchError (List Recipient) := do
  let page ← keyedByMessageId (recipientPage E agentId after)
  match if page.length = pageSize then page.getLast? else none with
  | none => .ok page
  | some last =>
    let counted :=
      ((recipientsAfter M agentId after).filter fun r => decide (r.messageId ≤ last.messageId)).length
    if counted = page.length then .ok page
    else keyedByMessageId (recipientPageOrdered M agentId after)

/-- One header of `admit_headers`. -/
def admitHeader (s : List (Int × Receipt) × NewestWindow) (m : Message) :
    Except FetchError (List (Int × Receipt) × NewestWindow) :=
  match Assoc.get? m.id s.1 with
  | none => internalError "message lookup returned an unrequested inbox ID"
  | some receipt =>
    let pending := Assoc.erase m.id s.1
    if m.projectId != projectId then .ok (pending, s.2)
    else if missesUrgent options m || missesAck options m || missesSince sinceTs m ||
        missesTopic options m then .ok (pending, s.2)
    else .ok (pending, admitCandidate limit s.2 { createdTs := m.createdTs, id := m.id, receipt := receipt })

/-- `admit_headers`. -/
def admitHeaders (pending : List (Int × Receipt)) (newest : NewestWindow) :
    Except FetchError NewestWindow :=
  if pending.isEmpty then .ok newest
  else do
    let s ← (lookupMessages E (mapKeys E pending)).foldlM
      (admitHeader projectId sinceTs limit options) (pending, newest)
    .ok s.2

/-- The state of `receipt_window`. -/
structure ReceiptScan where
  after : Option Int
  newest : NewestWindow
  pending : List (Int × Receipt)

/-- One receipt of `receipt_window`. -/
def receiptRow (s : ReceiptScan) (r : Recipient) : Except FetchError ReceiptScan :=
  if s.after.any (fun previous => decide (r.messageId ≤ previous)) then
    internalError "inbox recipient cursor did not advance"
  else if missesReceipt options r.readTs r.ackTs then .ok { s with after := some r.messageId }
  else do
    let pending := Assoc.insert r.messageId r.receipt s.pending
    if pending.length = pageSize then
      let newest ← admitHeaders E projectId sinceTs limit options pending s.newest
      .ok { after := some r.messageId, newest := newest, pending := [] }
    else .ok { after := some r.messageId, newest := s.newest, pending := pending }

/-- One page of `receipt_window`; the last one also admits what is pending. -/
def receiptStep (s : ReceiptScan) : Except FetchError (NewestWindow ⊕ ReceiptScan) := do
  let rows ← receiptPage E agentId s.after
  let s ← rows.foldlM (receiptRow E projectId sinceTs limit options) s
  if rows.length < pageSize then
    let newest ← admitHeaders E projectId sinceTs limit options s.pending s.newest
    .ok (.inl newest)
  else .ok (.inr s)

/-- `receipt_window`. -/
def receiptWindow : Except FetchError NewestWindow :=
  iterate (receiptStep E projectId agentId sinceTs limit options) .outOfFuel
    (M.recipients.length + 1) { after := none, newest := [], pending := [] }

/-! ### Hydration -/

/-- The message columns under a body policy. -/
def hydrateMessage (m : Message) : Message :=
  match options.bodyPolicy with
  | .full => m
  | .metadataOnly => { m with bodyMd := "" }

/-- One message row of `hydrate`. -/
def hydrateRow (s : List (Int × Int × Receipt) × List InboxRow) (m : Message) :
    Except FetchError (List (Int × Int × Receipt) × List InboxRow) :=
  match Assoc.get? m.id s.1 with
  | none => internalError "inbox hydration returned an unselected ID"
  | some (created, receipt) =>
    if m.projectId != projectId || m.createdTs != created then
      internalError "inbox source changed inside its read snapshot"
    else
      .ok (Assoc.erase m.id s.1, s.2 ++ [
        { message := hydrateMessage options m, kind := receipt.kind,
          senderName := unknownSenderDisplay, readTs := receipt.readTs, ackTs := receipt.ackTs }])

/-- `dedup` of a vector: one of each run of equal elements. -/
def dedup : List Int → List Int
  | a :: b :: l => if a = b then dedup (b :: l) else a :: dedup (b :: l)
  | l => l

/-- The sender names of `hydrate`. -/
def senderNames (rows : List InboxRow) : List (Int × String) :=
  let senders := dedup ((rows.map (·.message.senderId)).mergeSort fun a b => decide (a ≤ b))
  ((chunks pageSize senders).flatMap (lookupAgents E)).foldl
    (fun names a => Assoc.insert a.id a.name names) []

def InboxRow.key (row : InboxRow) : Int ×ₗ Int := toLex (row.message.createdTs, row.message.id)

/-- `hydrate`. -/
def hydrate (newest : NewestWindow) : Except FetchError (List InboxRow) := do
  let selected := newest.foldl
    (fun selected c => Assoc.insert c.id (c.createdTs, c.receipt) selected) []
  let s ← (chunks pageSize (newest.map (·.id))).foldlM
    (fun s chunk => (lookupMessages E chunk).foldlM (hydrateRow projectId options) s) (selected, [])
  if s.2.length ≠ newest.length then
    internalError "selected inbox message disappeared inside its read snapshot"
  else
    let names := senderNames E s.2
    let rows := s.2.map fun row =>
      { row with senderName := (Assoc.get? row.message.senderId names).getD row.senderName }
    .ok (Window.sort InboxRow.key rows)

/-- `fetch_direct`. -/
def fetchDirect : Except FetchError (List InboxRow) :=
  if i64Max < limit then
    .error (.database (.invalidArgument "limit" "limit exceeds i64::MAX"))
  else if limit = 0 then .ok []
  else do
    let walked ←
      match newestFirstBudget E agentId limit options with
      | some budget => newestFirstWindow E projectId agentId sinceTs limit options budget
      | none => .ok none
    let newest ←
      match walked with
      | some newest => .ok newest
      | none => receiptWindow E projectId agentId sinceTs limit options
    hydrate E projectId options newest

/-! ### The shared mailbox -/

/-- One delivery of a page, if its header was a candidate. -/
def deliveryRow (headers deliveries : List (Int × Int)) (d : Delivery) :
    Except FetchError (List (Int × Int)) :=
  match Assoc.get? d.messageId headers with
  | none => internalError "unrequested shared inbox delivery"
  | some created =>
    .ok (if d.projectId == projectId then Assoc.insert d.messageId created deliveries else deliveries)

/-- One stored receipt of a page. -/
def sharedReceiptRow (deliveries : List (Int × Int)) (receipts : List (Int × Option Int × Option Int))
    (r : MailboxReceipt) : Except FetchError (List (Int × Option Int × Option Int)) :=
  if Assoc.contains r.messageId deliveries then
    .ok (Assoc.insert r.messageId (r.readTs, r.ackTs) receipts)
  else internalError "unrequested shared inbox receipt"

/-- One delivery of a page enters the window, with its receipt taken out of the map. -/
def admitDelivery (s : List (Int × Option Int × Option Int) × NewestWindow) (entry : Int × Int) :
    List (Int × Option Int × Option Int) × NewestWindow :=
  let receipt := (Assoc.get? entry.1 s.1).getD (none, none)
  let receipts := Assoc.erase entry.1 s.1
  if missesReceipt options receipt.1 receipt.2 then (receipts, s.2)
  else
    (receipts, admitCandidate limit s.2
      { createdTs := entry.2, id := entry.1,
        receipt := { kind := projectMailboxKind, readTs := receipt.1, ackTs := receipt.2 } })

/-- The candidates of a page enter the window. -/
def admitShared (headers : List (Int × Int)) (newest : NewestWindow) :
    Except FetchError NewestWindow :=
  if headers.isEmpty then .ok newest
  else do
    let deliveries ← (lookupDeliveries E (mapKeys E headers)).foldlM (deliveryRow projectId headers) []
    if deliveries.isEmpty then .ok newest
    else
      let direct ← sharedReceiptRows (lookupRecipients E agentId) (mapKeys E deliveries)
      let deliveries := direct.foldl (fun deliveries r => Assoc.erase r.messageId deliveries) deliveries
      if deliveries.isEmpty then .ok newest
      else
        let rows ← sharedReceiptRows (lookupReceipts E agentId) (mapKeys E deliveries)
        let receipts ← rows.foldlM (sharedReceiptRow deliveries) []
        .ok ((E.order .hashMap [] deliveries).foldl (admitDelivery limit options) (receipts, newest)).2

/-- The state of `fetch_shared`. -/
structure SharedWalk where
  newest : NewestWindow
  mark : Mark Int

/-- One page of `fetch_shared`. -/
def sharedStep (inception : Int) (w : SharedWalk) : Except FetchError (NewestWindow ⊕ SharedWalk) :=
  let rows := sharedPageQuery E projectId w.mark
  if rows.length > sharedPageSize then internalError "shared inbox page exceeded its bound"
  else do
    let scan ← scanPage "shared" projectId
      (fun m => decide (m.createdTs < inception) || missesSince sinceTs m)
      (fun m => m.senderId == agentId || (missesUrgent options m || missesAck options m ||
        missesTopic options m)) w.mark rows
    let newest ← admitShared E projectId agentId limit options scan.candidates w.newest
    if rows.length < sharedPageSize || scan.lowerBoundReached ||
        windowComplete limit newest scan.mark then .ok (.inl newest)
    else .ok (.inr { newest := newest, mark := scan.mark })

/-- `fetch_shared`. -/
def fetchShared : Except FetchError (List InboxRow) :=
  if limit = 0 then .ok []
  else
    match M.agent? agentId with
    | none => .ok []
    | some viewer =>
      if viewer.projectId != projectId || viewer.retiredAt.isSome ||
          viewer.contactPolicy.any (eqIgnoreAsciiCase · "block_all".toList) then .ok []
      else do
        let newest ← iterate
          (sharedStep E projectId agentId sinceTs limit options viewer.inceptionTs) .outOfFuel
          ((E.listing projectId).length + 1)
          { newest := [], mark := { ceiling := none, skip := 0 } }
        hydrate E projectId options newest

/-- `fetch_project_mailbox_rows_from_conn`. -/
def fetchProjectMailboxRows : Except FetchError (List InboxRow) :=
  if i64Max < limit then
    .error (.database (.invalidArgument "limit" "limit exceeds i64::MAX"))
  else if !M.deliveries.any (·.projectId == projectId) then .ok []
  else fetchShared E projectId agentId sinceTs limit options

/-- `merge_inbox_rows`. -/
def mergeInboxRows (direct shared : List InboxRow) : List InboxRow :=
  if shared.isEmpty then direct else (Window.sort InboxRow.key (direct ++ shared)).take limit

/-- `fetch_inbox_rows_from_conn_impl`. -/
def fetchInboxRows : Except FetchError (List InboxRow) := do
  let direct ← fetchDirect E projectId agentId sinceTs limit options
  let shared ← fetchProjectMailboxRows E projectId agentId sinceTs limit options
  .ok (mergeInboxRows limit direct shared)

end

end AgentMail.Inbox
