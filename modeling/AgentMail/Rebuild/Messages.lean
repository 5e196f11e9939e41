import AgentMail.Lib.Renumber
import AgentMail.Rebuild.Leases

/-!
# Storing archived messages

`parse_and_insert_message` (`crates/mcp-agent-mail-db/src/reconstruct.rs:2736–3030`) from the point
where the file is parsed: the sender is ensured, the id is settled, the row is inserted, and then
the reply edge and the recipients are recorded. The first pass walks the files of every project;
a file whose id is held by another message waits for the second pass, which calls the same
routine without the queue and with an empty slug.

The files are read once here: the second pass parses a waiting file again, and its text is the
same. Left out are `archive_metadata_json`, the counters and the events of direct recipients.
-/

namespace AgentMail.Rebuild

open Base Lib

/-- Project, `created_ts` and subject: what tells messages apart. -/
abbrev Identity := Int × Int × Text

/-- A parsed file with the project in whose directory it stands. -/
structure Located where
  projectId : Int
  projectSlug : Text
  message : ArchivedMessage

namespace Located

def number (f : Located) : Option Int := f.message.sourceMessageId

def identity (f : Located) : Identity := (f.projectId, f.message.createdTs, f.message.subject)

end Located

/-- A row of `messages`. -/
structure MessageRow where
  projectId : Int
  senderId : Int
  threadId : Option Text
  topic : Option Text
  replyTo : Option Int
  subject : Text
  bodyMd : Text
  importance : Text
  ackRequired : Bool
  createdTs : Int
  recipients : Recipients
  attachments : Option (List Json)

/-- `message_row_identity`. -/
def MessageRow.identity (r : MessageRow) : Identity := (r.projectId, r.createdTs, r.subject)

/-- A row of `message_recipients`; the primary key is the message with the agent. -/
structure RecipientRow where
  messageId : Int
  agentId : Int
  kind : Kind

/-- A row of `project_mailbox_deliveries`; the primary key is the message. -/
structure DeliveryRow where
  messageId : Int
  projectId : Int
  kind : Kind
  deliveredTs : Int

/-- A row of `inbox_delivery_events` without an agent, unique for project and message. -/
structure ProjectEvent where
  projectId : Int
  messageId : Int
  deliveredTs : Int

/-- `PendingReplyEdge`. -/
structure PendingReplyEdge where
  sourceProject : Int
  sourceChild : Int
  sourceParent : Int
  targetProject : Int
  targetChild : Int

/-- `AMBIGUOUS_REPLY_MESSAGE_ID`. -/
def ambiguousReplyMessageId : Int := 0

/-- The message tables of the candidate and what the rebuild keeps beside them. `built` is a history
variable: the file behind every row. -/
structure Mail where
  messages : Ledger MessageRow
  recipients : List RecipientRow
  deliveries : List DeliveryRow
  events : List ProjectEvent
  messageIdMap : List ((Int × Int) × Int)
  pendingReplyEdges : List PendingReplyEdge
  deferred : List Located
  built : List (Int × Located)

def Mail.empty : Mail where
  messages := Ledger.empty
  recipients := []
  deliveries := []
  events := []
  messageIdMap := []
  pendingReplyEdges := []
  deferred := []
  built := []

/-! ### Recipients -/

/-- `insert_recipient`. -/
def insertRecipient (recipients : List RecipientRow) (r : RecipientRow) : List RecipientRow :=
  if recipients.any fun s => s.messageId == r.messageId && s.agentId == r.agentId then recipients
  else recipients ++ [r]

/-- `INSERT OR IGNORE INTO project_mailbox_deliveries`. -/
def insertDelivery (deliveries : List DeliveryRow) (d : DeliveryRow) : List DeliveryRow :=
  if deliveries.any fun e => e.messageId == d.messageId then deliveries else deliveries ++ [d]

/-- `INSERT_PROJECT_MAILBOX_EVENT_SQL`. -/
def insertEvent (events : List ProjectEvent) (e : ProjectEvent) : List ProjectEvent :=
  if events.any fun d => d.projectId == e.projectId && d.messageId == e.messageId then events
  else events ++ [e]

/-- `reconstruct_project_mailbox_recipient` for a name that is an address. -/
def addMailboxRecipient (slug : Text) (f : Located) (messageId : Int) (M : Mail) (ident : Text)
    (kind : Kind) : Mail :=
  if ident = slug ∧ (kind = .to ∨ kind = .cc) then
    { M with
      deliveries := insertDelivery M.deliveries
        ⟨messageId, f.projectId, kind, f.message.createdTs⟩
      events := insertEvent M.events ⟨f.projectId, messageId, f.message.createdTs⟩ }
  else M

/-- One turn of the loop over the recipients. -/
def addRecipient (Q : RowOrder) (slug : Text) (f : Located) (messageId : Int)
    (S : Names × Mail) (r : Text × Kind) : Names × Mail :=
  match parseProjectMailboxAddress r.1 with
  | some ident => (S.1, addMailboxRecipient slug f messageId S.2 ident r.2)
  | none =>
    let (aid, N) := ensureAgentExists Q S.1 f.projectId r.1
    (N, { S.2 with recipients := insertRecipient S.2.recipients ⟨messageId, aid, r.2⟩ })

def addRecipients (Q : RowOrder) (slug : Text) (f : Located) (messageId : Int)
    (S : Names × Mail) : Names × Mail :=
  f.message.named.foldl (addRecipient Q slug f messageId) S

/-! ### Rows -/

/-- The two insertion modes: with a queue, and without. -/
inductive Pass where
  | canonical
  | deferred

/-- What the collision handling decides about a file. -/
inductive Slot where
  /-- A true duplicate. -/
  | skip
  /-- The id is held by a different message. -/
  | wait
  | own (cid : Int)
  | generated

/-- The collision handling. -/
def settleId (pass : Pass) (messages : Ledger MessageRow) (f : Located) : Slot :=
  match f.number, pass with
  | some cid, .canonical =>
    match messages.get? cid with
    | some row => if row.identity = f.identity then .skip else .wait
    | none => .own cid
  | some _, .deferred =>
    -- `message_identity_already_present`
    if messages.items.any fun row => row.identity = f.identity then .skip else .generated
  | none, _ => .generated

/-- The inserted row; reply edges are set at the end. -/
def messageRow (f : Located) (senderId : Int) : MessageRow where
  projectId := f.projectId
  senderId := senderId
  threadId := f.message.threadId
  topic := f.message.topic
  replyTo := none
  subject := f.message.subject
  bodyMd := f.message.bodyMd
  importance := f.message.importance
  ackRequired := f.message.ackRequired
  createdTs := f.message.createdTs
  recipients := f.message.recipients
  attachments := f.message.attachments

/-- The entry of the id map for a file that was stored: a second row for one source id makes the
id ambiguous. -/
def recordSource (map : List ((Int × Int) × Int)) (key : Int × Int) (messageId : Int) :
    List ((Int × Int) × Int) :=
  match Assoc.get? key map with
  | some existing =>
    if existing ≠ messageId ∧ existing ≠ ambiguousReplyMessageId then
      Assoc.insert key ambiguousReplyMessageId map
    else map
  | none => Assoc.insert key messageId map

/-- The bookkeeping after the insertion of a row. -/
def recordMessage (M : Mail) (f : Located) (messageId : Int) (messages : Ledger MessageRow) : Mail :=
  { M with
    messages
    messageIdMap := match f.number with
      | some source => recordSource M.messageIdMap (f.projectId, source) messageId
      | none => M.messageIdMap
    pendingReplyEdges := match f.number, f.message.sourceReplyTo with
      | some source, some parent => M.pendingReplyEdges ++
          [⟨f.projectId, source, parent, f.projectId, messageId⟩]
      | _, _ => M.pendingReplyEdges
    built := M.built ++ [(messageId, f)] }

/-- `parse_and_insert_message`, once the file is parsed. -/
def parseAndInsertMessage (Q : RowOrder) (pass : Pass) (slug : Text) (S : Names × Mail)
    (f : Located) : Names × Mail :=
  let (senderId, N) := ensureAgentExists Q S.1 f.projectId f.message.senderName
  let M := S.2
  match settleId pass M.messages f with
  | .skip => (N, M)
  | .wait => (N, { M with deferred := M.deferred ++ [f] })
  | .own cid =>
    addRecipients Q slug f cid
      (N, recordMessage M f cid (M.messages.insertAt cid (messageRow f senderId)))
  | .generated =>
    let messageId := M.messages.top + 1
    addRecipients Q slug f messageId
      (N, recordMessage M f messageId (M.messages.issue (messageRow f senderId)))

/-- The loop of `discover_messages` over the parsed files of a project. -/
def insertMessages (Q : RowOrder) (S : Names × Mail) (files : List Located) : Names × Mail :=
  files.foldl (fun S f => parseAndInsertMessage Q .canonical f.projectSlug S f) S

/-- The deferred pass. -/
def insertDeferred (Q : RowOrder) (S : Names × Mail) : Names × Mail :=
  S.2.deferred.foldl (fun S f => parseAndInsertMessage Q .deferred [] S f) S

/-! ### What the recipients leave alone -/

/-- The states differ at most in who receives what. -/
structure Mail.SameMessages (M M' : Mail) : Prop where
  messages : M'.messages = M.messages
  messageIdMap : M'.messageIdMap = M.messageIdMap
  pendingReplyEdges : M'.pendingReplyEdges = M.pendingReplyEdges
  deferred : M'.deferred = M.deferred
  built : M'.built = M.built

theorem Mail.SameMessages.trans {M M' M'' : Mail} (h : M.SameMessages M')
    (h' : M'.SameMessages M'') : M.SameMessages M'' where
  messages := h'.messages.trans h.messages
  messageIdMap := h'.messageIdMap.trans h.messageIdMap
  pendingReplyEdges := h'.pendingReplyEdges.trans h.pendingReplyEdges
  deferred := h'.deferred.trans h.deferred
  built := h'.built.trans h.built

theorem addMailboxRecipient_sameMessages (slug : Text) (f : Located) (messageId : Int) (M : Mail)
    (ident : Text) (kind : Kind) :
    M.SameMessages (addMailboxRecipient slug f messageId M ident kind) := by
  unfold addMailboxRecipient
  split <;> exact ⟨rfl, rfl, rfl, rfl, rfl⟩

theorem addRecipient_sameMessages (Q : RowOrder) (slug : Text) (f : Located) (messageId : Int)
    (S : Names × Mail) (r : Text × Kind) :
    S.2.SameMessages (addRecipient Q slug f messageId S r).2 := by
  unfold addRecipient
  split
  · exact addMailboxRecipient_sameMessages _ _ _ _ _ _
  · exact ⟨rfl, rfl, rfl, rfl, rfl⟩

theorem addRecipient_extends (Q : RowOrder) (slug : Text) (f : Located) (messageId : Int)
    (S : Names × Mail) (r : Text × Kind) : S.1.Extends (addRecipient Q slug f messageId S r).1 := by
  unfold addRecipient
  split
  · exact Names.Extends.refl _
  · exact ensureAgentExists_extends _ _ _ _

/-- What holds between a state and the one after each turn, and composes, holds for the loop. -/
theorem addRecipients_rel {P : Names × Mail → Names × Mail → Prop} (hrefl : ∀ S, P S S)
    (htrans : ∀ S S' S'', P S S' → P S' S'' → P S S'') (Q : RowOrder) (slug : Text)
    (f : Located) (messageId : Int)
    (hstep : ∀ S, ∀ r ∈ f.message.named, P S (addRecipient Q slug f messageId S r))
    (S : Names × Mail) : P S (addRecipients Q slug f messageId S) := by
  unfold addRecipients
  generalize f.message.named = l at hstep
  induction l generalizing S with
  | nil => exact hrefl S
  | cons r l ih =>
    have hrest := ih (addRecipient Q slug f messageId S r)
      (fun S r hr => hstep S r (List.mem_cons_of_mem _ hr))
    exact htrans _ _ _ (hstep S r List.mem_cons_self) hrest

theorem addRecipients_sameMessages (Q : RowOrder) (slug : Text) (f : Located) (messageId : Int)
    (S : Names × Mail) : S.2.SameMessages (addRecipients Q slug f messageId S).2 :=
  addRecipients_rel (P := fun S S' => S.2.SameMessages S'.2)
    (fun _ => ⟨rfl, rfl, rfl, rfl, rfl⟩) (fun _ _ _ h h' => h.trans h') Q slug f messageId
    (fun S r _ => addRecipient_sameMessages Q slug f messageId S r) S

theorem addRecipients_extends (Q : RowOrder) (slug : Text) (f : Located) (messageId : Int)
    (S : Names × Mail) : S.1.Extends (addRecipients Q slug f messageId S).1 :=
  addRecipients_rel (P := fun S S' => S.1.Extends S'.1) (fun _ => Names.Extends.refl _)
    (fun _ _ _ h h' => h.trans h') Q slug f messageId
    (fun S r _ => addRecipient_extends Q slug f messageId S r) S

/-- What the routine does with a file, by what becomes of its id. -/
theorem parseAndInsertMessage_eq (Q : RowOrder) (pass : Pass) (slug : Text) (N : Names)
    (M : Mail) (f : Located) {senderId : Int} {N' : Names}
    (hsender : ensureAgentExists Q N f.projectId f.message.senderName = (senderId, N')) :
    parseAndInsertMessage Q pass slug (N, M) f = match settleId pass M.messages f with
      | .skip => (N', M)
      | .wait => (N', { M with deferred := M.deferred ++ [f] })
      | .own cid => addRecipients Q slug f cid
          (N', recordMessage M f cid (M.messages.insertAt cid (messageRow f senderId)))
      | .generated => addRecipients Q slug f (M.messages.top + 1)
          (N', recordMessage M f (M.messages.top + 1)
            (M.messages.issue (messageRow f senderId))) := by
  unfold parseAndInsertMessage
  simp only [hsender]

theorem parseAndInsertMessage_extends (Q : RowOrder) (pass : Pass) (slug : Text)
    (S : Names × Mail) (f : Located) : S.1.Extends (parseAndInsertMessage Q pass slug S f).1 := by
  rcases S with ⟨N, M⟩
  have hext := ensureAgentExists_extends Q N f.projectId f.message.senderName
  rcases hsender : ensureAgentExists Q N f.projectId f.message.senderName with ⟨senderId, N'⟩
  rw [hsender] at hext
  rw [parseAndInsertMessage_eq Q pass slug N M f hsender]
  cases settleId pass M.messages f with
  | skip => exact hext
  | wait => exact hext
  | own cid => exact hext.trans (addRecipients_extends Q slug f cid (N', _))
  | generated => exact hext.trans (addRecipients_extends Q slug f _ (N', _))

theorem insertMessages_extends (Q : RowOrder) (S : Names × Mail) (files : List Located) :
    S.1.Extends (insertMessages Q S files).1 := by
  unfold insertMessages
  induction files generalizing S with
  | nil => exact Names.Extends.refl _
  | cons f files ih => exact (parseAndInsertMessage_extends Q _ _ S f).trans (ih _)

theorem insertDeferred_extends (Q : RowOrder) (S : Names × Mail) :
    S.1.Extends (insertDeferred Q S).1 := by
  unfold insertDeferred
  generalize S.2.deferred = files
  induction files generalizing S with
  | nil => exact Names.Extends.refl _
  | cons f files ih => exact (parseAndInsertMessage_extends Q _ _ S f).trans (ih _)

/-! ### Invariants of the message tables -/

theorem settleId_own_free {pass : Pass} {messages : Ledger MessageRow} {f : Located} {cid : Int}
    (h : settleId pass messages f = .own cid) : cid ∉ messages.numbers := by
  unfold settleId at h
  cases hnum : f.number with
  | none => simp [hnum] at h
  | some n =>
    cases pass with
    | deferred =>
      simp only [hnum] at h
      split at h <;> cases h
    | canonical =>
      simp only [hnum] at h
      cases hget : messages.get? n with
      | none =>
        simp only [hget, Slot.own.injEq] at h
        exact h ▸ Ledger.get?_eq_none.mp hget
      | some row =>
        simp only [hget] at h
        split at h <;> cases h

/-- A property that survives whatever the routine does to the messages. -/
structure Mail.Stable (P : Mail → Prop) : Prop where
  same : ∀ M M' : Mail, M.SameMessages M' → P M → P M'
  wait : ∀ (M : Mail) (f : Located), P M → P { M with deferred := M.deferred ++ [f] }
  store : ∀ (M : Mail) (f : Located) (id senderId : Int) (messages : Ledger MessageRow), P M →
    id ∉ M.messages.numbers → messages.rows = M.messages.rows ++ [(id, messageRow f senderId)] →
    P (recordMessage M f id messages)

namespace Mail.Stable

variable {P : Mail → Prop}

theorem parseAndInsertMessage (h : Mail.Stable P) (Q : RowOrder) (pass : Pass) (slug : Text)
    (S : Names × Mail) (f : Located) (hS : P S.2) :
    P (Rebuild.parseAndInsertMessage Q pass slug S f).2 := by
  rcases S with ⟨N, M⟩
  rcases hsender : ensureAgentExists Q N f.projectId f.message.senderName with ⟨senderId, N'⟩
  rw [parseAndInsertMessage_eq Q pass slug N M f hsender]
  cases hslot : settleId pass M.messages f with
  | skip => exact hS
  | wait => exact h.wait M f hS
  | own cid =>
    have hfree := settleId_own_free hslot
    exact h.same _ _ (addRecipients_sameMessages Q slug f cid (N', _))
      (h.store M f cid senderId _ hS hfree (Ledger.rows_insertAt hfree _))
  | generated =>
    exact h.same _ _ (addRecipients_sameMessages Q slug f _ (N', _))
      (h.store M f _ senderId _ hS M.messages.top_succ_notMem_numbers rfl)

theorem insertMessages (h : Mail.Stable P) (Q : RowOrder) (S : Names × Mail)
    (files : List Located) (hS : P S.2) : P (Rebuild.insertMessages Q S files).2 := by
  unfold Rebuild.insertMessages
  induction files generalizing S with
  | nil => exact hS
  | cons f files ih => exact ih _ (h.parseAndInsertMessage Q _ _ S f hS)

theorem insertDeferred (h : Mail.Stable P) (Q : RowOrder) (S : Names × Mail) (hS : P S.2) :
    P (Rebuild.insertDeferred Q S).2 := by
  unfold Rebuild.insertDeferred
  generalize S.2.deferred = files
  induction files generalizing S with
  | nil => exact hS
  | cons f files ih => exact ih _ (h.parseAndInsertMessage Q _ _ S f hS)

end Mail.Stable

end AgentMail.Rebuild
