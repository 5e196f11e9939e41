import AgentMail.Inbox.Mailbox
import Mathlib.Data.List.Chain
import Mathlib.Data.List.ReduceOption
import Mathlib.Data.List.Sort

/-!
# Delivery receipts

`message_delivery_receipt_from_conn` (`crates/mcp-agent-mail-db/src/sync.rs:145–233`): the
recipients of one message with their signal receipts, rebuilt from the rows of a join. The part
about the shared mailbox is left out.
-/

namespace AgentMail.Inbox

open Base List

/-- `MessageDeliverySignalReceipt`. -/
structure SignalReceipt where
  deliveryRoute : Text
  signalPathDigest : Text
  observedTs : Int
  deriving DecidableEq

/-- A row of `message_delivery_signal_receipts`. -/
structure SignalRow where
  messageId : Int
  agentId : Int
  receipt : SignalReceipt

/-- `MessageDeliveryRecipientReceipt`. -/
structure RecipientReceipt where
  recipient : String
  kind : String
  acknowledgedTs : Option Int
  signalReceipts : List SignalReceipt
  deriving DecidableEq

/-- `MessageDeliveryReceipt`. -/
structure DeliveryReceipt where
  messageId : Int
  projectId : Int
  persistedTs : Int
  recipients : List RecipientReceipt
  deriving DecidableEq

/-- `DbError::NotFound`. -/
structure NotFound where
  entity : String
  identifier : Int
  deriving DecidableEq

/-- A row of the join. The columns of a signal are `NOT NULL`, so a left join gives all or none. -/
structure ReceiptRow where
  recipient : String
  kind : String
  ackTs : Option Int
  signal : Option SignalReceipt

/-- One row of the loop, which adds to the last entry if that shows the same name and kind. The
entries stand here from the last to the first. -/
def addReceiptRow (recipients : List RecipientReceipt) (row : ReceiptRow) : List RecipientReceipt :=
  let recipients :=
    if recipients.head?.all fun previous =>
        previous.recipient != row.recipient || previous.kind != row.kind then
      { recipient := row.recipient, kind := row.kind, acknowledgedTs := row.ackTs,
        signalReceipts := [] } :: recipients
    else recipients
  match row.signal, recipients with
  | some signal, current :: before =>
    { current with signalReceipts := current.signalReceipts ++ [signal] } :: before
  | _, _ => recipients

section

variable (M : Mailbox) (signals : List SignalRow)

/-- The recipients of a message, `ORDER BY agent_id`. -/
def recipientsOfMessage (messageId : Int) : List Recipient :=
  (M.recipients.filter (·.messageId == messageId)).insertionSort fun a b => a.agentId ≤ b.agentId

/-- The signal receipts of a recipient, `ORDER BY delivery_route`. -/
def signalsOf (r : Recipient) : List SignalReceipt :=
  ((signals.filter fun s => s.messageId == r.messageId && s.agentId == r.agentId).map
    SignalRow.receipt).insertionSort fun a b => textLe a.deliveryRoute b.deliveryRoute

/-- The rows of one recipient: none without its agent, and one without a signal. -/
def receiptRows (r : Recipient) : List ReceiptRow :=
  match M.agent? r.agentId with
  | none => []
  | some agent =>
    (if signalsOf signals r = [] then [none] else (signalsOf signals r).map some).map fun signal =>
      { recipient := agent.name, kind := r.kind, ackTs := r.ackTs, signal := signal }

/-- `message_delivery_receipt_from_conn`. -/
def messageDeliveryReceipt (projectId messageId : Int) : Except NotFound DeliveryReceipt :=
  match M.messages.find? fun m => m.id == messageId && m.projectId == projectId with
  | none => .error { entity := "Message", identifier := messageId }
  | some message => .ok {
    messageId := messageId
    projectId := projectId
    persistedTs := message.createdTs
    recipients := (((recipientsOfMessage M messageId).flatMap (receiptRows M signals)).foldl
      addReceiptRow []).reverse }

/-! ### What a receipt should show -/

/-- The entry is the one of the recipient row. -/
structure Shows (r : Recipient) (entry : RecipientReceipt) : Prop where
  agent : (M.agent? r.agentId).map Agent.name = some entry.recipient
  kind : entry.kind = r.kind
  acknowledgedTs : entry.acknowledgedTs = r.ackTs
  signalReceipts : entry.signalReceipts.Perm <|
    (signals.filter fun s => s.messageId == r.messageId && s.agentId == r.agentId).map SignalRow.receipt

/-- Every recipient row of the message has one entry, and there are no other entries. -/
def PerRecipient (receipt : DeliveryReceipt) : Prop :=
  ∃ rows : List Recipient, rows.Perm (M.recipients.filter (·.messageId == receipt.messageId)) ∧
    Forall₂ (Shows M signals) rows receipt.recipients

/-- What an entry displays of a recipient row. -/
def display (r : Recipient) : Option String × String := ((M.agent? r.agentId).map Agent.name, r.kind)

/-- The recipients have agents, and neighbours in the order of their agents differ in name or kind. -/
def Distinguished (rs : List Recipient) : Prop :=
  (∀ r ∈ rs, (M.agent? r.agentId).isSome) ∧ rs.IsChain fun a b => display M a ≠ display M b

end

/-! ### One recipient -/

/-- The last entry shows this name and kind. -/
def Alike (entries : List RecipientReceipt) (name kind : String) : Prop :=
  ∃ last ∈ entries.head?, last.recipient = name ∧ last.kind = kind

section

variable {M : Mailbox} {signals : List SignalRow} {entries : List RecipientReceipt} {name kind : String}
  {ackTs : Option Int}

theorem addReceiptRow_alike {last : RecipientReceipt} (h : last.recipient = name ∧ last.kind = kind)
    (signal : Option SignalReceipt) : addReceiptRow (last :: entries) ⟨name, kind, ackTs, signal⟩ =
      { last with signalReceipts := last.signalReceipts ++ signal.toList } :: entries := by
  obtain ⟨rfl, rfl⟩ := h
  cases signal <;> simp [addReceiptRow]

theorem addReceiptRow_fresh (h : ¬ Alike entries name kind) (signal : Option SignalReceipt) :
    addReceiptRow entries ⟨name, kind, ackTs, signal⟩ =
      ⟨name, kind, ackTs, signal.toList⟩ :: entries := by
  have hall : (entries.head?.all fun previous => previous.recipient != name || previous.kind != kind) =
      true := by
    rw [Option.all_eq_true]
    intro last hlast
    by_contra hsame
    refine h ⟨last, hlast, ?_⟩
    simpa using hsame
  cases signal <;> simp [addReceiptRow, hall]

/-- Rows like the last entry add their signals to it. -/
theorem foldl_addReceiptRow_alike (cells : List (Option SignalReceipt)) {last : RecipientReceipt}
    (h : last.recipient = name ∧ last.kind = kind) :
    (cells.map (ReceiptRow.mk name kind ackTs)).foldl addReceiptRow (last :: entries) =
      { last with signalReceipts := last.signalReceipts ++ cells.reduceOption } :: entries := by
  induction cells generalizing last with
  | nil => simp
  | cons signal cells ih =>
    rw [map_cons, foldl_cons, addReceiptRow_alike h]
    refine (ih ?_).trans ?_
    · exact h
    · cases signal <;> simp

variable (M signals) in
/-- The entry of a recipient whose agent has this name. -/
def entryOf (name : String) (r : Recipient) : RecipientReceipt :=
  { recipient := name, kind := r.kind, acknowledgedTs := r.ackTs, signalReceipts := signalsOf signals r }

variable (signals entries) in
/-- The rows of a recipient make an entry of their own, unless the last entry looks like it. -/
theorem foldl_receiptRows {agent : Agent} {r : Recipient} (hagent : M.agent? r.agentId = some agent) :
    ∃ last rest, (receiptRows M signals r).foldl addReceiptRow entries = last :: rest ∧
      (last.recipient = agent.name ∧ last.kind = r.kind) ∧
      (Alike entries agent.name r.kind → rest.length + 1 = entries.length) ∧
      (¬ Alike entries agent.name r.kind → last = entryOf signals agent.name r ∧ rest = entries) := by
  obtain ⟨signal, cells, hcells, hreduce⟩ : ∃ signal cells,
      (if signalsOf signals r = [] then [none] else (signalsOf signals r).map some) = signal :: cells ∧
      signal.toList ++ cells.reduceOption = signalsOf signals r := by
    cases signalsOf signals r with
    | nil => exact ⟨none, [], rfl, rfl⟩
    | cons s rest => exact ⟨some s, rest.map some, rfl, by simp [reduceOption, filterMap_map]⟩
  rw [receiptRows, hagent]
  dsimp only
  rw [hcells, map_cons, foldl_cons]
  by_cases halike : Alike entries agent.name r.kind
  · obtain ⟨last, hlast, hsame⟩ := halike
    obtain ⟨rest, rfl⟩ := head?_eq_some_iff.mp hlast
    rw [addReceiptRow_alike hsame]
    refine ⟨_, rest, foldl_addReceiptRow_alike cells hsame, hsame, fun _ => rfl, fun hno => ?_⟩
    exact absurd ⟨last, rfl, hsame⟩ hno
  · rw [addReceiptRow_fresh halike]
    refine ⟨_, entries, foldl_addReceiptRow_alike cells ⟨rfl, rfl⟩, ⟨rfl, rfl⟩, fun h => absurd h halike,
      fun _ => ⟨?_, rfl⟩⟩
    rw [entryOf, ← hreduce]

/-! ### All recipients -/

variable (M entries) in
/-- The next recipient does not look like the last entry. -/
def Fresh (r : Recipient) : Prop := ∀ agent, M.agent? r.agentId = some agent → ¬ Alike entries agent.name r.kind

theorem fresh_iff {agent : Agent} {a b : Recipient} {last : RecipientReceipt}
    (ha : M.agent? a.agentId = some agent) (hlast : last.recipient = agent.name ∧ last.kind = a.kind)
    (hb : (M.agent? b.agentId).isSome) : Fresh M (last :: entries) b ↔ display M a ≠ display M b := by
  obtain ⟨other, hother⟩ := Option.isSome_iff_exists.mp hb
  simp [Fresh, Alike, display, ha, hother, hlast]

variable (signals entries) in
/-- Recipients that can be told apart get the entries that show them. -/
theorem foldl_of_distinguished {rs : List Recipient} (h : Distinguished M rs)
    (hfresh : ∀ r ∈ rs.head?, Fresh M entries r) :
    ∃ out, (rs.flatMap (receiptRows M signals)).foldl addReceiptRow entries = out.reverse ++ entries ∧
      Forall₂ (Shows M signals) rs out := by
  induction rs generalizing entries with
  | nil => exact ⟨[], rfl, .nil⟩
  | cons r rs ih =>
    obtain ⟨agent, hagent⟩ := Option.isSome_iff_exists.mp (h.1 r mem_cons_self)
    obtain ⟨last, rest, hfold, hsame, -, hnew⟩ := foldl_receiptRows signals entries hagent
    obtain ⟨hentry, rfl⟩ := hnew (hfresh r rfl agent hagent)
    have htail : Distinguished M rs := ⟨fun b hb => h.1 b (mem_cons_of_mem _ hb), h.2.tail⟩
    obtain ⟨out, hout, hshows⟩ := ih (last :: rest) htail fun b hb => by
      obtain ⟨tail, rfl⟩ := head?_eq_some_iff.mp hb
      exact (fresh_iff hagent hsame (htail.1 b mem_cons_self)).mpr (isChain_cons_cons.mp h.2).1
    refine ⟨last :: out, ?_, .cons ?_ hshows⟩
    · rw [flatMap_cons, foldl_append, hfold, hout, reverse_cons, append_assoc]
      rfl
    · rw [hentry]
      exact ⟨by rw [hagent]; rfl, rfl, rfl, perm_insertionSort ..⟩

/-- There are as many entries as recipients only if these can be told apart. -/
theorem distinguished_of_length (rs : List Recipient) (entries : List RecipientReceipt) :
    ((rs.flatMap (receiptRows M signals)).foldl addReceiptRow entries).length ≤ entries.length + rs.length ∧
      (((rs.flatMap (receiptRows M signals)).foldl addReceiptRow entries).length =
        entries.length + rs.length → Distinguished M rs ∧ ∀ r ∈ rs.head?, Fresh M entries r) := by
  induction rs generalizing entries with
  | nil => exact ⟨Nat.le_refl _, fun _ => ⟨⟨nofun, .nil⟩, nofun⟩⟩
  | cons r rs ih =>
    rw [flatMap_cons, foldl_append, length_cons]
    cases hagent : M.agent? r.agentId with
    | none =>
      have hnone : receiptRows M signals r = [] := by rw [receiptRows, hagent]
      rw [hnone, foldl_nil]
      have hle := (ih entries).1
      exact ⟨by omega, fun heq => by omega⟩
    | some agent =>
      obtain ⟨last, rest, hfold, hsame, hmerged, hnew⟩ := foldl_receiptRows signals entries hagent
      rw [hfold]
      obtain ⟨hle, htail⟩ := ih (last :: rest)
      rw [length_cons] at hle htail
      by_cases halike : Alike entries agent.name r.kind
      · have hlength := hmerged halike
        exact ⟨by omega, fun heq => by omega⟩
      · obtain ⟨-, rfl⟩ := hnew halike
        refine ⟨by omega, fun heq => ?_⟩
        obtain ⟨hrest, hhead⟩ := htail (by omega)
        have hsome : (M.agent? r.agentId).isSome := hagent ▸ rfl
        refine ⟨⟨forall_mem_cons.mpr ⟨hsome, hrest.1⟩, ?_⟩, ?_⟩
        · refine isChain_cons.mpr ⟨fun b hb => ?_, hrest.2⟩
          exact (fresh_iff hagent hsame (hrest.1 b (mem_of_mem_head? hb))).mp (hhead b hb)
        · rintro _ ⟨⟩ other hother
          rw [hagent] at hother
          cases hother
          exact halike

end

/-- The receipt of a message has one entry for each recipient row exactly when the recipients can be
told apart. -/
theorem messageDeliveryReceipt_perRecipient_iff (M : Mailbox) (signals : List SignalRow) {m : Message}
    (hm : m ∈ M.messages) : ∃ receipt, messageDeliveryReceipt M signals m.projectId m.id = .ok receipt ∧
      (PerRecipient M signals receipt ↔ Distinguished M (recipientsOfMessage M m.id)) := by
  have hfound : (M.messages.find? fun n => n.id == m.id && n.projectId == m.projectId).isSome := by
    rw [find?_isSome]
    exact ⟨m, hm, by simp⟩
  obtain ⟨message, hmessage⟩ := Option.isSome_iff_exists.mp hfound
  refine ⟨_, by rw [messageDeliveryReceipt, hmessage], ?_⟩
  have hperm : recipientsOfMessage M m.id ~ M.recipients.filter (·.messageId == m.id) := perm_insertionSort ..
  constructor
  · rintro ⟨rows, hrows, hshows⟩
    have hlength := hshows.length_eq
    rw [hrows.length_eq, ← hperm.length_eq, length_reverse] at hlength
    exact ((distinguished_of_length _ []).2 (by simpa using hlength.symm)).1
  · intro h
    obtain ⟨out, hout, hshows⟩ := foldl_of_distinguished signals [] h
      fun r _ agent _ ⟨_, hlast, _⟩ => by cases hlast
    refine ⟨_, hperm, ?_⟩
    dsimp only
    rw [hout, append_nil, reverse_reverse]
    exact hshows

/-- A message to two agents of one name from two projects; the first has acknowledged it, and the
second was signalled. -/
def namesakes : Mailbox where
  messages := sampleMailbox.messages
  recipients := [⟨2, 2, "to", none, some 5⟩, ⟨2, 4, "to", none, none⟩]
  deliveries := []
  receipts := []
  agents := [⟨2, "BlueLake", 1, 0, none, none⟩, ⟨4, "BlueLake", 2, 0, none, none⟩]
  messages_nodup := by decide
  recipients_nodup := by decide
  deliveries_nodup := nodup_nil
  receipts_nodup := nodup_nil
  agents_nodup := by decide

def namesakeSignals : List SignalRow := [⟨2, 4, ⟨"file".toList, "00".toList, 7⟩⟩]

theorem messageDeliveryReceipt_perRecipient_iff_namesakes :
    ∃ receipt, messageDeliveryReceipt namesakes namesakeSignals 1 2 = .ok receipt ∧
      (PerRecipient namesakes namesakeSignals receipt ↔
        Distinguished namesakes (recipientsOfMessage namesakes 2)) :=
  messageDeliveryReceipt_perRecipient_iff namesakes namesakeSignals
    (m := namesakes.messages[1]) (getElem_mem _)

/-- One entry stands for both, with the time of the first and the signal of the second. -/
theorem messageDeliveryReceipt_not_perRecipient :
    ∃ receipt, messageDeliveryReceipt namesakes namesakeSignals 1 2 = .ok receipt ∧
      receipt.recipients = [⟨"BlueLake", "to", some 5, [⟨"file".toList, "00".toList, 7⟩]⟩] ∧
      ¬ PerRecipient namesakes namesakeSignals receipt := by
  refine ⟨⟨2, 1, 11, [⟨"BlueLake", "to", some 5, [⟨"file".toList, "00".toList, 7⟩]⟩]⟩, ?_, rfl, ?_⟩
  · decide +kernel
  · rintro ⟨rows, hrows, hshows⟩
    have hlength := hshows.length_eq
    rw [hrows.length_eq] at hlength
    exact absurd hlength (by decide)

end AgentMail.Inbox
