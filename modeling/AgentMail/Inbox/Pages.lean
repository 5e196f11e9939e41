import AgentMail.Inbox.Fetch

/-!
# The reference inbox

What an inbox read is for, as one join: the rows of `reference_inbox_rows_from_conn_impl`
(`crates/mcp-agent-mail-db/src/sync.rs:438–598`) and
`reference_project_mailbox_rows_from_conn` (`project_mailbox.rs:429–500`), each message with the
receipt under which the agent has it. The plans of `Fetch` collect the same messages in pages.
-/

namespace AgentMail.Inbox

open Base Lib List

namespace Mailbox

variable (M : Mailbox) (agentId : Int)

/-- The agent's direct recipient rows. -/
def recipientsOf : List Recipient := M.recipients.filter (·.agentId == agentId)

def recipient? (messageId : Int) : Option Recipient :=
  (M.recipientsOf agentId).find? (·.messageId == messageId)

/-- The agent's receipts in the shared mailbox. -/
def receiptsOf : List MailboxReceipt := M.receipts.filter (·.agentId == agentId)

def mailboxReceipt? (messageId : Int) : Option MailboxReceipt :=
  (M.receiptsOf agentId).find? (·.messageId == messageId)

end Mailbox

section

variable (M : Mailbox) (projectId agentId : Int) (sinceTs : Option Int) (options : FetchOptions)

/-- The `WHERE` clauses of the filters. -/
def satisfies (m : Message) (readTs ackTs : Option Int) : Bool :=
  (!options.urgentOnly || (m.importance == "high" || m.importance == "urgent")) &&
  (!options.unreadOnly || readTs.isNone) &&
  (!options.ackRequiredOnly || (m.ackRequired == 1 && ackTs.isNone)) &&
  options.ackOverdueBefore.all (fun ts =>
    m.ackRequired == 1 && ackTs.isNone && decide (m.createdTs < ts)) &&
  sinceTs.all (fun ts => decide (m.createdTs > ts)) &&
  options.topic.all fun wanted => m.topic.any fun actual => eqIgnoreAsciiCase actual wanted

/-- The receipt under which a message of the project is in the agent's direct inbox. -/
def directReceipt (m : Message) : Option Receipt :=
  (M.recipient? agentId m.id).bind fun r =>
    if m.projectId == projectId && satisfies sinceTs options m r.readTs r.ackTs then some r.receipt
    else none

/-- The receipt under which the agent sees a message of the shared mailbox. -/
def sharedReceipt (m : Message) : Option Receipt :=
  (M.delivery? m.id).bind fun d =>
    (M.agent? agentId).bind fun viewer =>
      let readTs := (M.mailboxReceipt? agentId m.id).bind (·.readTs)
      let ackTs := (M.mailboxReceipt? agentId m.id).bind (·.ackTs)
      if d.projectId == projectId && M.visibleToViewer viewer d m &&
          satisfies sinceTs options m readTs ackTs then
        some { kind := projectMailboxKind, readTs := readTs, ackTs := ackTs }
      else none

/-- The row of a message under a receipt. -/
def inboxRow (m : Message) (receipt : Receipt) : InboxRow :=
  { message := hydrateMessage options m, kind := receipt.kind, senderName := M.senderName m.senderId,
    readTs := receipt.readTs, ackTs := receipt.ackTs }

/-- The direct and the visible shared rows that satisfy the filters. -/
def referenceRows : List InboxRow :=
  (M.messages.filterMap fun m =>
    (directReceipt M projectId agentId sinceTs options m).map (inboxRow M options m)) ++
  (M.messages.filterMap fun m =>
    (sharedReceipt M projectId agentId sinceTs options m).map (inboxRow M options m))

end

/-! ### Picks -/

/-- A message with the receipt under which it is read. -/
abbrev Pick := Message × Receipt

namespace Pick

def key (p : Pick) : Int ×ₗ Int := toLex (p.1.createdTs, p.1.id)

def candidate (p : Pick) : Candidate := { createdTs := p.1.createdTs, id := p.1.id, receipt := p.2 }

end Pick

/-- The picks of a list of messages. -/
def picks (receipt : Message → Option Receipt) (messages : List Message) : List Pick :=
  messages.filterMap fun m => (receipt m).map fun r => (m, r)

/-- Their candidates. -/
def candidates (receipt : Message → Option Receipt) (messages : List Message) : List Candidate :=
  (picks receipt messages).map Pick.candidate

section

variable {receipt : Message → Option Receipt} {messages messages' : List Message}

theorem mem_picks {p : Pick} : p ∈ picks receipt messages ↔ p.1 ∈ messages ∧ receipt p.1 = some p.2 := by
  rw [picks, mem_filterMap]
  constructor
  · rintro ⟨m, hm, hp⟩
    rw [Option.map_eq_some_iff] at hp
    obtain ⟨r, hr, rfl⟩ := hp
    exact ⟨hm, hr⟩
  · rintro ⟨hm, hr⟩
    exact ⟨p.1, hm, by rw [hr]; rfl⟩

theorem candidates_append :
    candidates receipt (messages ++ messages') = candidates receipt messages ++ candidates receipt messages' := by
  rw [candidates, picks, filterMap_append, map_append]
  rfl

theorem candidates_perm (h : messages.Perm messages') :
    (candidates receipt messages).Perm (candidates receipt messages') :=
  (h.filterMap _).map _

/-- Messages without a receipt do not count. -/
theorem candidates_filter {keep : Message → Bool}
    (h : ∀ m ∈ messages, keep m = false → receipt m = none) :
    candidates receipt (messages.filter keep) = candidates receipt messages := by
  unfold candidates picks
  rw [filterMap_filter]
  congr 1
  apply filterMap_congr
  intro m hm
  cases hk : keep m with
  | true => rfl
  | false =>
    rw [h m hm hk]
    rfl

theorem candidates_eq_filterMap : candidates receipt messages = messages.filterMap fun m =>
    (receipt m).map fun r => { createdTs := m.createdTs, id := m.id, receipt := r } := by
  rw [candidates, picks, map_filterMap]
  congr 1
  funext m
  cases receipt m <;> rfl

/-- Picks of distinct messages have distinct keys. -/
theorem nodup_key_picks (h : (messages.map (·.id)).Nodup) :
    ((picks receipt messages).map Pick.key).Nodup := by
  have hid : ((picks receipt messages).map fun p => p.1.id).Nodup := by
    refine h.sublist (map_filterMap_sublist ?_ _)
    intro m p hp
    rw [Option.map_eq_some_iff] at hp
    obtain ⟨r, _, rfl⟩ := hp
    rfl
  rw [nodup_iff_pairwise_ne, pairwise_map] at hid ⊢
  apply hid.imp
  intro p q hne heq
  exact hne (congrArg (fun k => (ofLex k).2) heq)

theorem map_key_candidates :
    (candidates receipt messages).map Candidate.key = (picks receipt messages).map Pick.key := by
  rw [candidates, map_map]
  rfl

theorem nodup_key_candidates (h : (messages.map (·.id)).Nodup) :
    ((candidates receipt messages).map Candidate.key).Nodup := by
  rw [map_key_candidates]
  exact nodup_key_picks h

end

/-! ### The filters -/

section

variable {M : Mailbox} {projectId agentId : Int} {sinceTs : Option Int} {options : FetchOptions}
  {m : Message}

/-- The clauses hold exactly when no filter of the plans rejects the message or its receipt. -/
theorem satisfies_eq {readTs ackTs : Option Int} :
    satisfies sinceTs options m readTs ackTs =
      (!missesUrgent options m && !missesTopic options m && !missesAck options m &&
        !missesSince sinceTs m && !missesReceipt options readTs ackTs) := by
  have hoverdue : (options.ackOverdueBefore.all fun ts =>
      m.ackRequired == 1 && ackTs.isNone && decide (m.createdTs < ts)) =
      (!(options.ackOverdueBefore.any fun ts => m.ackRequired != 1 || decide (m.createdTs ≥ ts)) &&
        !(options.ackOverdueBefore.isSome && ackTs.isSome)) := by
    cases options.ackOverdueBefore with
    | none => rfl
    | some ts =>
      have hlt : decide (m.createdTs < ts) = !decide (m.createdTs ≥ ts) := by
        rw [← decide_not, decide_eq_decide]
        omega
      rw [Option.all_some, Option.any_some, Option.isSome_some, hlt, bne, ← Option.not_isSome]
      cases m.ackRequired == 1 <;> cases ackTs.isSome <;> cases decide (m.createdTs ≥ ts) <;> rfl
  have hsince : (sinceTs.all fun ts => decide (m.createdTs > ts)) = !missesSince sinceTs m := by
    cases sinceTs with
    | none => rfl
    | some ts =>
      rw [Option.all_some, missesSince, Option.any_some, ← decide_not, decide_eq_decide]
      omega
  have htopic : (options.topic.all fun wanted =>
      m.topic.any fun actual => eqIgnoreAsciiCase actual wanted) = !missesTopic options m := by
    unfold missesTopic
    cases options.topic with
    | none => rfl
    | some wanted => rw [Option.all_some, Option.any_some, Bool.not_not]
  unfold satisfies
  rw [hoverdue, hsince, htopic]
  unfold missesUrgent missesAck missesReceipt
  rw [← Option.not_isSome, ← Option.not_isSome, bne]
  generalize (options.ackOverdueBefore.any fun ts => m.ackRequired != 1 || decide (m.createdTs ≥ ts)) = overdue
  generalize options.ackOverdueBefore.isSome = hasOverdue
  cases options.urgentOnly <;> cases options.unreadOnly <;> cases options.ackRequiredOnly <;>
    grind

end

end AgentMail.Inbox

/-!
## Parts of an inbox read

The window that candidates enter, the scan of a page of headers, and lookups, whose rows are known
up to the order that the engine chooses.
-/

namespace AgentMail.Inbox

open Base Lib
open List

/-! ### Admission -/

theorem admitCandidate_top {limit : Nat} {l : List Candidate} {c : Candidate}
    (h : ((c :: l).map Candidate.key).Nodup) :
    admitCandidate limit (Window.top Candidate.key limit l) c = Window.top Candidate.key limit (c :: l) := by
  rw [← Window.offer_top limit h]
  unfold admitCandidate Window.offer
  -- The key is not in the map, so the insertion replaces nothing.
  have hnew : (Window.top Candidate.key limit l).filter (fun old => decide (old.key ≠ c.key)) =
      Window.top Candidate.key limit l := by
    rw [filter_eq_self]
    intro old hold
    rw [decide_eq_true_eq]
    intro heq
    rw [map_cons, nodup_cons] at h
    exact h.1 (heq ▸ mem_map_of_mem (Window.mem_of_mem_top hold))
  rw [hnew]

/-- Candidates with new keys enter the window in any order. -/
theorem foldl_admitCandidate {limit : Nat} {old new : List Candidate}
    (h : ((old ++ new).map Candidate.key).Nodup) :
    new.foldl (admitCandidate limit) (Window.top Candidate.key limit old) =
      Window.top Candidate.key limit (old ++ new) :=
  Window.foldl_top (fun _ _ hx => admitCandidate_top hx) h

/-- Candidates that are a permutation of the expected ones. -/
theorem foldl_admitCandidate_perm {limit : Nat} {old new new' : List Candidate} (hp : new'.Perm new)
    (h : ((old ++ new).map Candidate.key).Nodup) :
    new'.foldl (admitCandidate limit) (Window.top Candidate.key limit old) =
      Window.top Candidate.key limit (old ++ new) := by
  have hperm : (old ++ new').Perm (old ++ new) := hp.append_left old
  have h' : ((old ++ new').map Candidate.key).Nodup := (hperm.map _).nodup_iff.mpr h
  rw [foldl_admitCandidate h', Window.top_congr limit hperm h']

/-! ### Headers -/

section

variable {label : String} {projectId : Int} {tooOld skips : Message → Bool} {read rows : List Message}

theorem skip_le_length {l : List Message}
    (h : l.Pairwise fun a b => b.createdTs ≤ a.createdTs) :
    (markAfter Message.createdTs l).skip ≤ l.length := by
  rw [skip_markAfter h]
  exact length_filter_le ..

/-- The scan after the rows of a page, when `read` was read before it. -/
def scanned (tooOld skips : Message → Bool) (read rows : List Message) : PageScan where
  mark := markAfter Message.createdTs (read ++ rows)
  candidates := (rows.filter fun m => !tooOld m && !skips m).map fun m => (m.id, m.createdTs)
  lowerBoundReached := rows.any tooOld

theorem scanRow_eq_ok {m : Message}
    (hsorted : (read ++ rows ++ [m]).Pairwise fun a b => b.createdTs ≤ a.createdTs)
    (hproject : m.projectId = projectId) (hnew : m.id ∉ rows.map (·.id))
    (hcapacity : ((read ++ rows ++ [m]).length : Int) ≤ i64Max) :
    scanRow label projectId tooOld skips (scanned tooOld skips read rows) m =
      .ok (scanned tooOld skips read (rows ++ [m])) := by
  rw [pairwise_append] at hsorted
  have hdescending : ((markAfter Message.createdTs (read ++ rows)).ceiling.any
      fun previous => decide (m.createdTs > previous)) = false := by
    rw [ceiling_markAfter]
    cases hlast : (read ++ rows).getLast? with
    | none => rfl
    | some last =>
      rw [Option.map_some, Option.any_some, decide_eq_false_iff_not]
      have := hsorted.2.2 last (mem_of_getLast? hlast) m (mem_singleton_self m)
      omega
  have hroom : ¬ i64Max < (markAfter Message.createdTs (read ++ rows)).skip + 1 := by
    have hskip := skip_le_length hsorted.1
    rw [length_append, length_singleton] at hcapacity
    omega
  have hmark : (markAfter Message.createdTs (read ++ rows)).advance Message.createdTs m =
      markAfter Message.createdTs (read ++ (rows ++ [m])) := by
    rw [← append_assoc, markAfter_concat]
  have hforeign : (m.projectId != projectId) = false := by
    rw [hproject]
    exact bne_self_eq_false _
  have hnew' : m.id ∉ (scanned tooOld skips read rows).candidates.map (·.1) := by
    rw [scanned, map_map]
    intro hmem
    obtain ⟨x, hx, hid⟩ := mem_map.mp hmem
    exact hnew (mem_map.mpr ⟨x, (mem_filter.mp hx).1, hid⟩)
  have hcontains : Assoc.contains m.id (scanned tooOld skips read rows).candidates = false := by
    rw [← Bool.not_eq_true, Assoc.contains_iff]
    exact hnew'
  unfold scanRow
  dsimp only
  rw [hcontains, Assoc.insert_of_new hnew']
  unfold scanned
  dsimp only
  rw [hdescending, if_neg Bool.false_ne_true, decide_eq_false hroom, Bool.and_false,
    if_neg Bool.false_ne_true, hmark, hforeign, if_neg Bool.false_ne_true,
    if_neg Bool.false_ne_true, filter_append, map_append, any_append]
  cases hold : tooOld m with
  | true => simp [hold]
  | false => cases hskip : skips m <;> simp [hold, hskip]

/-- A page of the listing is scanned without an error. -/
theorem scanPage_eq_ok (hsorted : (read ++ rows).Pairwise fun a b => b.createdTs ≤ a.createdTs)
    (hproject : ∀ m ∈ rows, m.projectId = projectId) (hnodup : (rows.map (·.id)).Nodup)
    (hcapacity : ((read ++ rows).length : Int) ≤ i64Max) :
    scanPage label projectId tooOld skips (markAfter Message.createdTs read) rows =
      .ok (scanned tooOld skips read rows) := by
  have hstart : (scanned tooOld skips read []) =
      { mark := markAfter Message.createdTs read, candidates := [], lowerBoundReached := false } := by
    rw [scanned, append_nil]
    rfl
  have hfold : ∃ s, rows.foldlM (scanRow label projectId tooOld skips) (scanned tooOld skips read []) =
      .ok s ∧ s = scanned tooOld skips read rows := by
    apply foldlM_eq_ok (I := fun front s => s = scanned tooOld skips read front)
    · intro front m back s hrows hs
      rw [hrows, ← append_assoc, append_cons] at hsorted hcapacity
      rw [hrows, map_append, nodup_append] at hnodup
      refine ⟨_, ?_, rfl⟩
      rw [hs]
      apply scanRow_eq_ok
      · exact (pairwise_append.mp hsorted).1
      · exact hproject m (by rw [hrows]; simp)
      · intro hmem
        exact hnodup.2.2 m.id hmem m.id (by simp) rfl
      · rw [length_append] at hcapacity
        omega
    · rfl
  obtain ⟨s, hs, rfl⟩ := hfold
  rw [scanPage, ← hstart]
  exact hs

end

/-! ### Lookups -/

section

variable {M : Mailbox} {E : Engine M} {agentId : Int}

theorem nodup_recipientsOf : ((M.recipientsOf agentId).map (·.messageId)).Nodup :=
  nodup_map_filter_of_pair M.recipients_nodup agentId

theorem nodup_receiptsOf : ((M.receiptsOf agentId).map (·.messageId)).Nodup :=
  nodup_map_filter_of_pair M.receipts_nodup agentId

variable (E)

theorem lookupMessages_perm (ids : List Int) :
    (lookupMessages E ids).Perm (M.messages.filter fun m => ids.contains m.id) :=
  E.order_perm ..

theorem lookupAgents_perm (ids : List Int) :
    (lookupAgents E ids).Perm (M.agents.filter fun a => ids.contains a.id) :=
  E.order_perm ..

theorem lookupDeliveries_perm (ids : List Int) :
    (lookupDeliveries E ids).Perm (M.deliveries.filter fun d => ids.contains d.messageId) :=
  E.order_perm ..

theorem lookupRecipients_perm (agentId : Int) (ids : List Int) : (lookupRecipients E agentId ids).Perm
    ((M.recipientsOf agentId).filter fun r => ids.contains r.messageId) := by
  rw [Mailbox.recipientsOf, filter_filter]
  refine (E.order_perm ..).trans (List.Perm.of_eq ?_)
  apply filter_congr
  intro r _
  rw [Bool.and_comm]

theorem lookupReceipts_perm (agentId : Int) (ids : List Int) : (lookupReceipts E agentId ids).Perm
    ((M.receiptsOf agentId).filter fun r => ids.contains r.messageId) := by
  rw [Mailbox.receiptsOf, filter_filter]
  refine (E.order_perm ..).trans (List.Perm.of_eq ?_)
  apply filter_congr
  intro r _
  rw [Bool.and_comm]

theorem mapKeys_perm {β : Type} (entries : List (Int × β)) :
    (mapKeys E entries).Perm (entries.map (·.1)) :=
  E.order_perm ..

theorem contains_mapKeys {β : Type} (entries : List (Int × β)) (id : Int) :
    (mapKeys E entries).contains id = Assoc.contains id entries := by
  rw [Bool.eq_iff_iff, contains_iff_mem, (mapKeys_perm E entries).mem_iff, Assoc.contains_iff]

theorem not_contains_of_not_mem {id : Int} {ids : List Int} (h : id ∉ ids) :
    (!ids.contains id) = true := by
  rw [Bool.not_eq_true', ← Bool.not_eq_true, contains_iff_mem]
  exact h

theorem erase_filter {β : Type} (entries : List (Int × β)) (front : List Message) (m : Message) :
    Assoc.erase m.id (entries.filter fun e => !(front.map (·.id)).contains e.1) =
      entries.filter fun e => !((front ++ [m]).map (·.id)).contains e.1 := by
  rw [Assoc.erase, filter_filter]
  apply filter_congr
  intro e _
  rw [map_append, map_singleton, Bool.eq_iff_iff]
  simp
  tauto

/-- Batches of distinct keys find the rows of all keys. -/
theorem sharedReceiptRows_eq_ok {α : Type} {l : List α} {f : α → Int} {lookup : List Int → List α}
    (hl : (l.map f).Nodup) (h : ∀ ids, (lookup ids).Perm (l.filter fun x => ids.contains (f x)))
    {ids : List Int} (hids : ids.Nodup) :
    ∃ rows, sharedReceiptRows lookup ids = .ok rows ∧
      rows.Perm (l.filter fun x => ids.contains (f x)) := by
  have hfold : ∃ rows, sharedReceiptRows lookup ids = .ok rows ∧
      rows = (chunks 8 ids).flatMap lookup := by
    apply foldlM_eq_ok (I := fun (front : List (List Int)) (rows : List α) => rows = front.flatMap lookup)
    · intro front batch back rows _ hrows
      have hlength : ¬ (lookup batch).length > batch.length := by
        rw [(h batch).length_eq]
        exact Nat.not_lt.mpr (length_filter_contains_le hl batch)
      refine ⟨_, if_neg hlength, ?_⟩
      rw [hrows, flatMap_append, flatMap_singleton]
    · rfl
  obtain ⟨rows, hrows, rfl⟩ := hfold
  exact ⟨_, hrows, flatMap_chunks_perm h hids 8⟩

end

end AgentMail.Inbox
