import Mathlib.Data.List.Dedup
import AgentMail.Inbox.Counters

/-!
# The counters equal a recount

From a consistent database, every sequence of transactions leaves every row of `inbox_stats` equal
to what a recount of the recipient rows gives. A send is the interesting case: it changes the
inboxes of the agents that got a row, by one unread message each, and adds just that.
-/

namespace AgentMail.Inbox

open Lib List

/-- Recipients have their message, and every row of `inbox_stats` is exact. -/
structure CountedMailbox.Consistent (D : CountedMailbox) : Prop where
  parents : ∀ r ∈ D.mailbox.recipients, r.messageId ∈ D.mailbox.messages.map (·.id)
  keys : (D.stats.map (·.1)).Nodup
  exact : ∀ a, Assoc.get? a D.stats = D.mailbox.computeAgentInboxStats a

/-! ### Recounting -/

/-- Some agents are counted again and nothing else changes. -/
structure Recounted (D : CountedMailbox) (ids : List Int) (D' : CountedMailbox) : Prop where
  same : D' = { D with stats := D'.stats }
  keys : (D'.stats.map (·.1)).Nodup
  get : ∀ a, Assoc.get? a D'.stats =
    if a ∈ ids then D.mailbox.computeAgentInboxStats a else Assoc.get? a D.stats

variable {D : CountedMailbox}

theorem Recounted.mailbox_eq {D' : CountedMailbox} {ids : List Int} (h : Recounted D ids D') :
    D'.mailbox = D.mailbox := by
  rw [h.same]

theorem recounted_insert {a : Int} (hkeys : (D.stats.map (·.1)).Nodup)
    (hnone : Assoc.get? a D.stats = none) :
    ∃ D', insertAgentInboxStats D a = .ok D' ∧ Recounted D [a] D' := by
  unfold insertAgentInboxStats
  cases hstats : D.mailbox.computeAgentInboxStats a with
  | none =>
    refine ⟨D, rfl, rfl, hkeys, ?_⟩
    intro b
    by_cases hb : b = a
    · rw [if_pos (by simp [hb]), hb, hstats, hnone]
    · rw [if_neg (by simpa using hb)]
  | some stats =>
    have habsent : a ∉ D.stats.map (·.1) := Assoc.get?_eq_none.mp hnone
    have hcontains : Assoc.contains a D.stats = false := by
      rw [← Assoc.get?_isSome, hnone]
      rfl
    dsimp only
    rw [hcontains, if_neg Bool.false_ne_true]
    refine ⟨_, rfl, rfl, nodup_map_concat hkeys habsent, ?_⟩
    intro b
    dsimp only
    rw [Assoc.get?_append]
    by_cases hb : b = a
    · rw [if_pos (by simp [hb]), hb, hnone, hstats]
      simp [Assoc.get?]
    · have hnone' : Assoc.get? b [(a, stats)] = none := by
        simp [Assoc.get?, Ne.symm hb]
      rw [if_neg (by simpa using hb), hnone', Option.or_none]

theorem Recounted.trans {D' D'' : CountedMailbox} {ids ids' : List Int} (h : Recounted D ids D')
    (h' : Recounted D' ids' D'') : Recounted D (ids ++ ids') D'' where
  same := by rw [h'.same, h.same]
  keys := h'.keys
  get a := by
    rw [h'.get, h.get, h.mailbox_eq]
    by_cases ha : a ∈ ids
    · simp [ha]
    · simp [ha]

section

variable (hkeys : (D.stats.map (·.1)).Nodup)
include hkeys

theorem recounted_inserts {ids : List Int} (hids : ids.Nodup)
    (hnone : ∀ a ∈ ids, Assoc.get? a D.stats = none) :
    ∃ D', ids.foldlM insertAgentInboxStats D = .ok D' ∧ Recounted D ids D' := by
  induction ids generalizing D with
  | nil => exact ⟨D, rfl, rfl, hkeys, fun a => by simp⟩
  | cons a ids ih =>
    rw [nodup_cons] at hids
    obtain ⟨D₁, hfirst, hrecount⟩ := recounted_insert hkeys (hnone a mem_cons_self)
    have hrest : ∀ b ∈ ids, Assoc.get? b D₁.stats = none := by
      intro b hb
      have hne : b ≠ a := fun heq => hids.1 (heq ▸ hb)
      rw [hrecount.get, if_neg (by simpa using hne)]
      exact hnone b (mem_cons_of_mem a hb)
    obtain ⟨D', hloop, hafter⟩ := ih hrecount.keys hids.2 hrest
    refine ⟨D', ?_, hrecount.trans hafter⟩
    rw [foldlM_cons, hfirst]
    exact hloop

theorem recounted_chunk {chunk : List Int}
    (hchunk : chunk.Nodup) : ∃ D', rebuildChunk D chunk = .ok D' ∧ Recounted D chunk D' := by
  have hkept : ∀ a, Assoc.get? a (D.stats.filter fun e => !chunk.contains e.1) =
      if a ∈ chunk then none else Assoc.get? a D.stats := by
    intro a
    by_cases ha : a ∈ chunk
    · rw [if_pos ha, Assoc.get?_eq_none]
      intro hmem
      obtain ⟨e, he, rfl⟩ := mem_map.mp hmem
      have hnot := (mem_filter.mp he).2
      rw [contains_eq_mem, decide_eq_true ha] at hnot
      cases hnot
    · rw [if_neg ha]
      exact Assoc.get?_filter (p := fun x => !chunk.contains x) (by simpa using ha) D.stats
  obtain ⟨D', hloop, hrecount⟩ := recounted_inserts
    (D := { D with stats := D.stats.filter fun e => !chunk.contains e.1 })
    (hkeys.sublist (filter_sublist.map _)) hchunk (fun a ha => by rw [hkept, if_pos ha])
  refine ⟨D', hloop, ?_, hrecount.keys, ?_⟩
  · rw [hrecount.same]
  · intro a
    rw [hrecount.get]
    dsimp only
    rw [hkept]
    by_cases ha : a ∈ chunk
    · rw [if_pos ha, if_pos ha]
    · rw [if_neg ha, if_neg ha, if_neg ha]

theorem recounted_chunks {blocks : List (List Int)}
    (hblocks : ∀ chunk ∈ blocks, chunk.Nodup) :
    ∃ D', blocks.foldlM rebuildChunk D = .ok D' ∧ Recounted D blocks.flatten D' := by
  induction blocks generalizing D with
  | nil => exact ⟨D, rfl, rfl, hkeys, fun a => by simp⟩
  | cons chunk blocks ih =>
    obtain ⟨D₁, hfirst, hrecount⟩ := recounted_chunk hkeys (hblocks chunk mem_cons_self)
    obtain ⟨D', hloop, hafter⟩ := ih hrecount.keys
      fun c hc => hblocks c (mem_cons_of_mem chunk hc)
    refine ⟨D', ?_, hrecount.trans hafter⟩
    rw [foldlM_cons, hfirst]
    exact hloop

/-- `rebuild_agents_inbox_stats_in_tx` goes through and makes the rows exact. -/
theorem recounted_rebuild (ids : List Int) :
    ∃ D', rebuildAgentsInboxStats D ids = .ok D' ∧ Recounted D ids D' := by
  have hnodup := nodup_dedup (ids.insertionSort (· ≤ ·))
  rw [← flatten_chunks maxInClauseItems (ids.insertionSort (· ≤ ·)).dedup] at hnodup
  obtain ⟨D', hloop, hrecount⟩ := recounted_chunks hkeys (nodup_flatten.mp hnodup).1
  rw [flatten_chunks] at hrecount
  refine ⟨D', hloop, hrecount.same, hrecount.keys, fun a => ?_⟩
  rw [hrecount.get]
  simp

end

/-! ### What a new recipient row changes -/

/-- The counters of an inbox with one more unread message. -/
def bump (m : Message) : Option InboxStats → Option InboxStats
  | none => some ⟨1, 1, m.ackRequired, some m.createdTs⟩
  | some s => some (s.addNewMessage m.ackRequired m.createdTs)

theorem bump_iterate_some (m : Message) (n : Nat) (s : InboxStats) :
    (bump m)^[n] (some s) = some ((InboxStats.addNewMessage m.ackRequired m.createdTs)^[n] s) := by
  induction n generalizing s with
  | zero => rfl
  | succ n ih => exact ih _

theorem max?_concat (l : List Int) (x : Int) :
    (l ++ [x]).max? = some (l.max?.elim x fun y => max y x) := by
  cases l with
  | nil => rfl
  | cons y l =>
    rw [cons_append, List.max?_cons', foldl_append, List.max?_cons']
    rfl

variable {m : Message} {agentId : Int}

namespace Mailbox

variable {M M' : Mailbox}

theorem countRows_concat {rows : List (Recipient × Message)} {r : Recipient}
    (hread : r.readTs = none) (hack : r.ackTs = none)
    (hrequired : m.ackRequired = 0 ∨ m.ackRequired = 1) :
    countRows (rows ++ [(r, m)]) = bump m (countRows rows) := by
  have hpending : ([(r, m)].countP awaitsAck : Int) = m.ackRequired := by
    rcases hrequired with h | h
    · simp [awaitsAck, h]
    · simp [awaitsAck, h, hack]
  have hlength : (rows ++ [(r, m)]).length ≠ 0 := by simp
  unfold countRows
  rw [if_neg hlength, map_append, map_singleton, max?_concat, countP_append,
    countP_append, length_append]
  cases rows with
  | nil =>
    simp only [countP_nil, Nat.zero_add, hpending]
    simp [bump, hread]
  | cons row rows =>
    rw [if_neg (by simp)]
    simp only [bump, InboxStats.addNewMessage, Option.some.injEq, InboxStats.mk.injEq]
    refine ⟨by simp, by simp [hread], ?_, ?_⟩
    · rw [Int.natCast_add, hpending]
    · rw [map_cons, List.max?_cons']
      rfl

theorem inboxRows_congr (hrecipients : M'.recipients = M.recipients) (hmessages : M'.messages = M.messages)
    (a : Int) : M'.inboxRows a = M.inboxRows a := by
  unfold inboxRows message?
  rw [hrecipients, hmessages]

/-- A message without recipients is in no inbox. -/
theorem inboxRows_insertMessage (h : M.insertMessage m = .ok M')
    (hparents : ∀ r ∈ M.recipients, r.messageId ∈ M.messages.map (·.id)) (a : Int) :
    M'.inboxRows a = M.inboxRows a := by
  unfold insertMessage at h
  split at h
  · cases h
  · next hnew =>
    cases h
    apply filterMap_congr
    intro r hr
    have hmem := hparents r (mem_of_mem_filter hr)
    have hne : m.id ≠ r.messageId := fun heq => hnew (heq ▸ hmem)
    unfold message?
    dsimp only
    rw [List.find?_append]
    simp [hne]

theorem message?_insertMessage (h : M.insertMessage m = .ok M') :
    M'.message? m.id = some m ∧ M'.recipients = M.recipients ∧ M'.messages = M.messages ++ [m] := by
  unfold insertMessage at h
  split at h
  · cases h
  · next hnew =>
    cases h
    refine ⟨?_, rfl, rfl⟩
    unfold message?
    dsimp only
    have hnone : M.messages.find? (fun x => x.id == m.id) = none := by
      rw [List.find?_eq_none]
      intro x hx
      rw [beq_iff_eq]
      intro heq
      exact hnew (heq ▸ mem_map_of_mem hx)
    rw [List.find?_append, hnone]
    simp

/-- A new row is one more row of its agent's inbox. -/
theorem inboxRows_insertRecipient {r : Recipient} (hm : M.message? r.messageId = some m) (a : Int) :
    (M.insertRecipient r).2.inboxRows a =
      if (M.insertRecipient r).1 = true ∧ r.agentId = a then M.inboxRows a ++ [(r, m)]
      else M.inboxRows a := by
  unfold insertRecipient
  split
  · simp
  · unfold inboxRows message?
    dsimp only
    rw [filter_append, filterMap_append]
    unfold message? at hm
    by_cases ha : r.agentId = a
    · simp [ha, hm]
    · simp [ha]

theorem insertRecipient_messages (r : Recipient) : (M.insertRecipient r).2.messages = M.messages := by
  unfold insertRecipient
  split <;> rfl

theorem mem_insertRecipient {r x : Recipient} (h : x ∈ (M.insertRecipient r).2.recipients) :
    x ∈ M.recipients ∨ x = r := by
  unfold insertRecipient at h
  split at h
  · exact Or.inl h
  · exact (mem_append.mp h).imp id mem_singleton.mp

/-- Receipts of one agent are in no other agent's inbox. -/
theorem inboxRows_updateReceipts {messageIds : List Int} {readTs ackTs : Option Int} {a : Int}
    (ha : a ≠ agentId) :
    (M.updateReceipts agentId messageIds readTs ackTs).inboxRows a = M.inboxRows a := by
  unfold inboxRows updateReceipts message?
  dsimp only
  congr 1
  rw [filter_map]
  have hsame : ∀ r ∈ M.recipients.filter (·.agentId == a),
      (if r.agentId = agentId ∧ messageIds.contains r.messageId then
        { r with readTs := r.readTs.or readTs, ackTs := r.ackTs.or ackTs } else r) = r := by
    intro r hr
    have hkey := (mem_filter.mp hr).2
    rw [beq_iff_eq] at hkey
    rw [if_neg]
    rintro ⟨heq, _⟩
    exact ha (hkey.symm.trans heq)
  have hpred : (fun r : Recipient => r.agentId == a) ∘ (fun r =>
      if r.agentId = agentId ∧ messageIds.contains r.messageId then
        { r with readTs := r.readTs.or readTs, ackTs := r.ackTs.or ackTs } else r) =
      fun r => r.agentId == a := by
    funext r
    dsimp only [Function.comp]
    split <;> rfl
  rw [hpred]
  exact (map_congr_left hsame).trans (map_id'' (fun _ => rfl) _)

theorem mem_updateReceipts {messageIds : List Int} {readTs ackTs : Option Int} {x : Recipient}
    (h : x ∈ (M.updateReceipts agentId messageIds readTs ackTs).recipients) :
    ∃ r ∈ M.recipients, r.messageId = x.messageId := by
  obtain ⟨r, hr, rfl⟩ := mem_map.mp h
  refine ⟨r, hr, ?_⟩
  split <;> rfl

end Mailbox

/-! ### Sending -/

/-- The database while the recipient rows of a message are inserted: every agent that got a row
has one more unread message, and the rows of the others in `inbox_stats` are as before. -/
structure Delivered (D : CountedMailbox) (m : Message) (s : CountedMailbox × List Int × List Int) :
    Prop where
  trigger : s.1.insertTrigger = D.insertTrigger
  messages : s.1.mailbox.messages = D.mailbox.messages
  parents : ∀ r ∈ s.1.mailbox.recipients, r ∈ D.mailbox.recipients ∨ r.messageId = m.id
  keys : (s.1.stats.map (·.1)).Nodup
  rows : ∀ a, s.1.mailbox.computeAgentInboxStats a =
    (bump m)^[s.2.1.count a] (D.mailbox.computeAgentInboxStats a)
  others : ∀ a, a ∉ s.2.1 → Assoc.get? a s.1.stats = Assoc.get? a D.stats
  plain : D.insertTrigger = none → s.1.stats = D.stats

theorem Delivered.deliver {s : CountedMailbox × List Int × List Int} (h : Delivered D m s)
    (hm : D.mailbox.message? m.id = some m) (hrequired : m.ackRequired = 0 ∨ m.ackRequired = 1)
    (recipient : Int × String) : Delivered D m (Inbox.deliver m s recipient) := by
  have hm' : s.1.mailbox.message? m.id = some m := by
    unfold Mailbox.message?
    rw [h.messages]
    exact hm
  have hrows := Mailbox.inboxRows_insertRecipient
    (r := ⟨m.id, recipient.1, recipient.2, none, none⟩) hm'
  have hmessages := s.1.mailbox.insertRecipient_messages ⟨m.id, recipient.1, recipient.2, none, none⟩
  have hmem := fun x => Mailbox.mem_insertRecipient (M := s.1.mailbox)
    (r := ⟨m.id, recipient.1, recipient.2, none, none⟩) (x := x)
  unfold Inbox.deliver CountedMailbox.insertRecipient
  generalize s.1.mailbox.insertRecipient ⟨m.id, recipient.1, recipient.2, none, none⟩ = inserted
    at hrows hmessages hmem
  obtain ⟨flag, M⟩ := inserted
  dsimp only at hrows hmessages hmem
  have hparents : ∀ r ∈ M.recipients, r ∈ D.mailbox.recipients ∨ r.messageId = m.id := by
    intro r hr
    rcases hmem r hr with hold | rfl
    · exact h.parents r hold
    · exact Or.inr rfl
  cases flag with
  | false =>
    refine ⟨h.trigger, hmessages.trans h.messages, hparents, h.keys, ?_, h.others, h.plain⟩
    intro a
    refine Eq.trans ?_ (h.rows a)
    change Mailbox.countRows (M.inboxRows a) = Mailbox.countRows (s.1.mailbox.inboxRows a)
    rw [hrows a, if_neg (by simp)]
  | true =>
    dsimp only
    rw [if_pos rfl]
    refine ⟨h.trigger, hmessages.trans h.messages, hparents, ?_, ?_, ?_, ?_⟩
    · dsimp only
      split
      · exact Assoc.nodup_keys_insert h.keys
      · exact h.keys
    · intro a
      dsimp only
      rw [count_append, count_singleton]
      unfold Mailbox.computeAgentInboxStats
      rw [hrows a]
      have hbefore := h.rows a
      unfold Mailbox.computeAgentInboxStats at hbefore
      by_cases ha : recipient.1 = a
      · rw [if_pos ⟨rfl, ha⟩, if_pos (by simp [ha]), Function.iterate_succ_apply', ← hbefore]
        exact Mailbox.countRows_concat rfl rfl hrequired
      · rw [if_neg (fun hc => ha hc.2), if_neg (by simpa using ha), Nat.add_zero]
        exact hbefore
    · intro a ha
      dsimp only at ha ⊢
      rw [mem_append, mem_singleton, not_or] at ha
      split
      · rw [Assoc.get?_insert, if_neg (fun heq => ha.2 heq.symm)]
        exact h.others a ha.1
      · exact h.others a ha.1
    · intro hnone
      dsimp only
      rw [h.trigger, hnone]
      exact h.plain hnone

theorem delivered_foldl {s : CountedMailbox × List Int × List Int} (h : Delivered D m s)
    (hm : D.mailbox.message? m.id = some m) (hrequired : m.ackRequired = 0 ∨ m.ackRequired = 1)
    (recipients : List (Int × String)) : Delivered D m (recipients.foldl (deliver m) s) := by
  induction recipients generalizing s with
  | nil => exact h
  | cons recipient recipients ih => exact ih (h.deliver hm hrequired recipient)

/-- The rows while deliveries are counted: each is added to a row that exists, and the agents
without a row are put down for a recount. -/
structure Tallied (D : CountedMailbox) (m : Message) (recount delivered : List Int)
    (s : CountedMailbox × List Int) : Prop where
  same : s.1 = { D with stats := s.1.stats }
  keys : s.1.stats.map (·.1) = D.stats.map (·.1)
  get : ∀ a, Assoc.get? a s.1.stats = (Assoc.get? a D.stats).map
    (InboxStats.addNewMessage m.ackRequired m.createdTs)^[delivered.count a]
  recount : ∀ a, a ∈ s.2 ↔ a ∈ recount ∨ (a ∈ delivered ∧ Assoc.get? a D.stats = none)

theorem get?_updateStats (D : CountedMailbox) (b a : Int) (f : InboxStats → InboxStats) :
    Assoc.get? a (D.updateStats b f).stats =
      if a = b then (Assoc.get? a D.stats).map f else Assoc.get? a D.stats := by
  unfold CountedMailbox.updateStats Assoc.get?
  have hpred : (fun e : Int × InboxStats => e.1 == a) ∘ (fun e => if e.1 = b then (e.1, f e.2) else e) =
      fun e => e.1 == a := by
    funext e
    dsimp only [Function.comp]
    split <;> rfl
  rw [List.find?_map, hpred]
  cases hfind : D.stats.find? (fun e => e.1 == a) with
  | none => simp
  | some e =>
    have hkey := List.find?_some hfind
    rw [beq_iff_eq] at hkey
    simp only [Option.map_some, hkey]
    split <;> rfl

theorem keys_updateStats (D : CountedMailbox) (b : Int) (f : InboxStats → InboxStats) :
    (D.updateStats b f).stats.map (·.1) = D.stats.map (·.1) := by
  unfold CountedMailbox.updateStats
  rw [map_map]
  apply map_congr_left
  intro e _
  dsimp only [Function.comp]
  split <;> rfl

theorem Tallied.countDelivery {recount delivered : List Int} {s : CountedMailbox × List Int}
    (h : Tallied D m recount delivered s) (a : Int) :
    Tallied D m recount (delivered ++ [a])
      (Inbox.countDelivery m.ackRequired m.createdTs s a) := by
  have hrow : Assoc.contains a s.1.stats = (Assoc.get? a D.stats).isSome := by
    rw [← Assoc.get?_isSome, h.get, Option.isSome_map]
  unfold Inbox.countDelivery
  rw [hrow]
  cases hsome : Assoc.get? a D.stats with
  | none =>
    rw [Option.isSome_none, if_neg Bool.false_ne_true]
    refine ⟨h.same, h.keys, ?_, ?_⟩
    · intro b
      rw [h.get, count_append, count_singleton]
      by_cases hb : a = b
      · rw [← hb, hsome]
        rfl
      · rw [if_neg (by simpa using hb), Nat.add_zero]
    · intro b
      rw [mem_append, mem_append, mem_singleton, h.recount]
      by_cases hb : b = a
      · simp [hb, hsome]
      · simp [hb]
  | some row =>
    rw [Option.isSome_some, if_pos rfl]
    refine ⟨?_, ?_, ?_, ?_⟩
    · unfold CountedMailbox.updateStats
      dsimp only
      rw [h.same]
    · rw [keys_updateStats]
      exact h.keys
    · intro b
      rw [get?_updateStats, h.get, count_append, count_singleton]
      by_cases hb : b = a
      · rw [if_pos hb, if_pos (by simp [hb]), Option.map_map, Function.iterate_succ']
      · rw [if_neg hb, if_neg (by simpa using Ne.symm hb), Nat.add_zero]
    · intro b
      rw [h.recount, mem_append, mem_singleton]
      by_cases hb : b = a
      · simp [hb, hsome]
      · simp [hb]

theorem tallied_foldl (D : CountedMailbox) (m : Message) (recount delivered : List Int) :
    Tallied D m recount delivered
      (delivered.foldl (countDelivery m.ackRequired m.createdTs) (D, recount)) := by
  induction delivered using reverseRecOn with
  | nil => exact ⟨rfl, rfl, fun a => by simp, fun a => by simp⟩
  | append_singleton delivered a ih =>
    rw [foldl_append]
    exact ih.countDelivery a

/-- `add_new_message_to_inbox_stats_in_tx` after the recipient rows of a message. -/
theorem Delivered.exact {s : CountedMailbox × List Int × List Int} (h : Delivered D m s)
    (hD : ∀ a, Assoc.get? a D.stats = D.mailbox.computeAgentInboxStats a) {M : Mailbox}
    (hM : ∀ a, M.computeAgentInboxStats a = s.1.mailbox.computeAgentInboxStats a) :
    ∃ D', addNewMessageToInboxStats { s.1 with mailbox := M } s.2.1 s.2.2 m.ackRequired m.createdTs =
        .ok D' ∧ D'.mailbox = M ∧ (D'.stats.map (·.1)).Nodup ∧
      ∀ a, Assoc.get? a D'.stats = M.computeAgentInboxStats a := by
  -- An agent that got no row is exact as it was.
  have hother : ∀ a, a ∉ s.2.1 → Assoc.get? a s.1.stats = M.computeAgentInboxStats a := by
    intro a ha
    rw [h.others a ha, hD, hM, h.rows, count_eq_zero_of_not_mem ha]
    rfl
  unfold addNewMessageToInboxStats
  by_cases hempty : s.2.1.isEmpty
  · rw [if_pos hempty]
    obtain ⟨D', hrebuild, hrecount⟩ := recounted_rebuild (D := { s.1 with mailbox := M }) h.keys s.2.2
    refine ⟨D', hrebuild, hrecount.mailbox_eq, hrecount.keys, fun a => ?_⟩
    rw [hrecount.get]
    split
    · rfl
    · apply hother
      rw [List.isEmpty_iff.mp hempty]
      exact not_mem_nil
  rw [if_neg hempty]
  by_cases htrigger : s.1.insertTrigger.isSome
  · rw [if_pos htrigger]
    obtain ⟨D', hrebuild, hrecount⟩ := recounted_rebuild (D := { s.1 with mailbox := M }) h.keys
      (s.2.2 ++ s.2.1)
    refine ⟨D', hrebuild, hrecount.mailbox_eq, hrecount.keys, fun a => ?_⟩
    rw [hrecount.get]
    split
    · rfl
    · next ha =>
      apply hother
      intro hmem
      exact ha (mem_append_right _ hmem)
  · rw [if_neg htrigger]
    have hnone : D.insertTrigger = none := by
      rw [← h.trigger]
      simpa using htrigger
    have htally := tallied_foldl { s.1 with mailbox := M } m s.2.2 s.2.1
    dsimp only
    generalize s.2.1.foldl (countDelivery m.ackRequired m.createdTs)
      ({ s.1 with mailbox := M }, s.2.2) = t at htally
    have hstats : s.1.stats = D.stats := h.plain hnone
    obtain ⟨D', hrebuild, hrecount⟩ := recounted_rebuild (D := t.1)
      (by rw [htally.keys]; exact h.keys) t.2
    have hmailbox : t.1.mailbox = M := by rw [htally.same]
    refine ⟨D', hrebuild, hrecount.mailbox_eq.trans hmailbox, hrecount.keys, fun a => ?_⟩
    rw [hrecount.get, hmailbox]
    split
    · rfl
    · next ha =>
      rw [htally.recount, not_or] at ha
      rw [htally.get]
      dsimp only
      rw [hstats] at ha ⊢
      by_cases hmem : a ∈ s.2.1
      · -- The agent had an exact row, and its deliveries were added to it.
        obtain ⟨row, hrow⟩ := Option.ne_none_iff_exists'.mp (fun heq => ha.2 ⟨hmem, heq⟩)
        rw [hM, h.rows, ← hD, hrow, bump_iterate_some]
        rfl
      · rw [← hother a hmem, hstats, count_eq_zero_of_not_mem hmem]
        simp

theorem Mailbox.tables_of_deliverToProject {M M' : Mailbox} {projectMailbox : Bool} {d : Delivery}
    (h : M.deliverToProject projectMailbox d = .ok M') :
    M'.messages = M.messages ∧ M'.recipients = M.recipients := by
  unfold deliverToProject insertDelivery at h
  split at h
  · split at h
    · cases h
    · cases h
      exact ⟨rfl, rfl⟩
  · cases h
    exact ⟨rfl, rfl⟩

theorem CountedMailbox.Consistent.insertMessageRows {D' : CountedMailbox} (h : D.Consistent)
    (hrequired : m.ackRequired = 0 ∨ m.ackRequired = 1) {recipients : List (Int × String)}
    {projectMailbox : Bool}
    (hrun : Inbox.insertMessageRows D m recipients projectMailbox = .ok D') : D'.Consistent := by
  unfold Inbox.insertMessageRows at hrun
  obtain ⟨M₁, hinsert, hrun⟩ := bind_eq_ok.mp hrun
  obtain ⟨hfind, hrecipients, hmessages⟩ := Mailbox.message?_insertMessage hinsert
  have hrows := Mailbox.inboxRows_insertMessage hinsert h.parents
  have hstart : Delivered { D with mailbox := M₁ } m ({ D with mailbox := M₁ }, [], []) :=
    ⟨rfl, rfl, fun r hr => Or.inl hr, h.keys, fun a => rfl, fun a _ => rfl, fun _ => rfl⟩
  have hdelivered := delivered_foldl hstart hfind hrequired recipients
  generalize recipients.foldl (deliver m) ({ D with mailbox := M₁ }, [], []) = s at hdelivered hrun
  obtain ⟨M₂, hdelivery, hrun⟩ := bind_eq_ok.mp hrun
  have hM₂ := Mailbox.tables_of_deliverToProject hdelivery
  obtain ⟨D₁, hadd, hmailbox, hkeys, hexact⟩ := hdelivered.exact (M := M₂) (fun a => by
      rw [h.exact, Mailbox.computeAgentInboxStats, Mailbox.computeAgentInboxStats, hrows])
    fun a => by
      rw [Mailbox.computeAgentInboxStats, Mailbox.computeAgentInboxStats,
        Mailbox.inboxRows_congr hM₂.2 hM₂.1]
  rw [hadd] at hrun
  cases hrun
  refine ⟨?_, hkeys, ?_⟩
  · intro r hr
    rw [hmailbox] at hr ⊢
    rw [hM₂.2] at hr
    rw [hM₂.1, hdelivered.messages]
    dsimp only
    rw [hmessages, map_append, mem_append]
    rcases hdelivered.parents r hr with hold | hnew
    · refine Or.inl (h.parents r ?_)
      dsimp only at hold
      rw [hrecipients] at hold
      exact hold
    · rw [hnew]
      exact Or.inr mem_cons_self
  · intro a
    rw [hexact, hmailbox]

theorem CountedMailbox.Consistent.send {D' : CountedMailbox} (h : D.Consistent)
    {ackRequired : Bool} {recipients : List (Int × String)} {projectMailbox : Bool}
    (hrun : createMessageWithRecipients D m ackRequired recipients projectMailbox = .ok D') :
    D'.Consistent := by
  obtain ⟨_, _, hrun⟩ := bind_eq_ok.mp hrun
  split at hrun
  · cases hrun
  · refine h.insertMessageRows ?_ hrun
    cases ackRequired with
    | false => exact Or.inl rfl
    | true => exact Or.inr rfl

/-! ### Reading and acknowledging -/

/-- Between the update and the recount, only the row of one agent may be wrong. -/
structure Touched (agentId : Int) (D : CountedMailbox) : Prop where
  parents : ∀ r ∈ D.mailbox.recipients, r.messageId ∈ D.mailbox.messages.map (·.id)
  keys : (D.stats.map (·.1)).Nodup
  others : ∀ a, a ≠ agentId → Assoc.get? a D.stats = D.mailbox.computeAgentInboxStats a

theorem Touched.updateReceipts (h : Touched agentId D) (messageIds : List Int)
    (readTs ackTs : Option Int) :
    Touched agentId (D.updateReceipts agentId messageIds readTs ackTs) where
  parents r hr := by
    obtain ⟨r', hr', hid⟩ := Mailbox.mem_updateReceipts hr
    rw [← hid]
    exact h.parents r' hr'
  keys := by
    unfold CountedMailbox.updateReceipts
    rw [keys_updateStats]
    exact h.keys
  others a ha := by
    unfold CountedMailbox.updateReceipts
    rw [get?_updateStats, if_neg ha]
    dsimp only
    rw [h.others a ha]
    change _ = Mailbox.countRows ((D.mailbox.updateReceipts agentId messageIds readTs ackTs).inboxRows a)
    rw [Mailbox.inboxRows_updateReceipts ha]
    rfl

theorem CountedMailbox.Consistent.touched (h : D.Consistent) (agentId : Int) : Touched agentId D :=
  ⟨h.parents, h.keys, fun a _ => h.exact a⟩

theorem Touched.rebuild {D' : CountedMailbox} (h : Touched agentId D)
    (hrun : rebuildAgentsInboxStats D [agentId] = .ok D') : D'.Consistent := by
  obtain ⟨D₁, hrebuild, hrecount⟩ := recounted_rebuild h.keys [agentId]
  rw [hrebuild] at hrun
  cases hrun
  refine ⟨?_, hrecount.keys, fun a => ?_⟩
  · rw [hrecount.mailbox_eq]
    exact h.parents
  · rw [hrecount.get, hrecount.mailbox_eq]
    by_cases ha : a = agentId
    · rw [if_pos (by simp [ha])]
    · rw [if_neg (by simpa using ha)]
      exact h.others a ha

theorem CountedMailbox.Consistent.receiveFromProject {D' : CountedMailbox} (h : D.Consistent)
    {messageId : Int} {readTs ackTs : Option Int}
    (hrun : Inbox.receiveFromProject D agentId messageId readTs ackTs = .ok D') :
    D'.Consistent := by
  unfold Inbox.receiveFromProject at hrun
  split at hrun
  · next read ack M hrecord =>
    split at hrun
    · cases hrun
    · cases hrun
      have htables : M.messages = D.mailbox.messages ∧ M.recipients = D.mailbox.recipients := by
        unfold Mailbox.recordProjectMailboxReceipt at hrecord
        obtain ⟨d, _, hrecord⟩ := Option.bind_eq_some_iff.mp hrecord
        obtain ⟨m, _, hrecord⟩ := Option.bind_eq_some_iff.mp hrecord
        obtain ⟨viewer, _, hrecord⟩ := Option.bind_eq_some_iff.mp hrecord
        split at hrecord
        · obtain ⟨r, _, hrecord⟩ := Option.bind_eq_some_iff.mp hrecord
          have hM := (Prod.mk.inj (Option.some.inj hrecord)).2
          rw [← hM]
          exact ⟨rfl, rfl⟩
        · cases hrecord
      refine ⟨?_, h.keys, fun a => ?_⟩
      · dsimp only
        rw [htables.1, htables.2]
        exact h.parents
      · dsimp only
        rw [h.exact, Mailbox.computeAgentInboxStats, Mailbox.computeAgentInboxStats,
          Mailbox.inboxRows_congr htables.2 htables.1]
  · cases hrun

theorem CountedMailbox.Consistent.receiveMessage {D' : CountedMailbox} (h : D.Consistent)
    {messageId : Int} {readTs ackTs : Option Int}
    (hrun : Inbox.receiveMessage D agentId messageId readTs ackTs = .ok D') : D'.Consistent := by
  unfold Inbox.receiveMessage at hrun
  obtain ⟨D₁, hrebuild, hrun⟩ := bind_eq_ok.mp hrun
  have hD₁ := ((h.touched agentId).updateReceipts [messageId] readTs ackTs).rebuild hrebuild
  split at hrun
  · cases hrun
    exact hD₁
  · exact hD₁.receiveFromProject hrun

theorem CountedMailbox.Consistent.receiveBatch {D' : CountedMailbox} (h : D.Consistent)
    {messageIds : List Int} {readTs ackTs : Option Int}
    (hrun : Inbox.receiveBatch D agentId messageIds readTs ackTs = .ok D') : D'.Consistent := by
  unfold Inbox.receiveBatch at hrun
  refine Touched.rebuild ?_ hrun
  have hall (blocks : List (List Int)) (D₀ : CountedMailbox) (h₀ : Touched agentId D₀) :
      Touched agentId (blocks.foldl
        (fun D chunk => D.updateReceipts agentId chunk readTs ackTs) D₀) := by
    induction blocks generalizing D₀ with
    | nil => exact h₀
    | cons chunk blocks ih => exact ih _ (h₀.updateReceipts chunk readTs ackTs)
  exact hall _ D (h.touched agentId)

/-! ### Every run -/

theorem CountedMailbox.Consistent.commit (h : D.Consistent) (tx : Tx) :
    (D.commit tx).Consistent := by
  unfold CountedMailbox.commit
  split
  · next D' hrun =>
    cases tx with
    | send m ackRequired recipients projectMailbox => exact h.send hrun
    | markRead agentId messageId now => exact h.receiveMessage hrun
    | acknowledge agentId messageId now => exact h.receiveMessage hrun
    | markReadBatch agentId messageIds now =>
      change (if messageIds.isEmpty then _ else _) = _ at hrun
      split at hrun
      · cases hrun
        exact h
      · exact h.receiveBatch hrun
    | acknowledgeBatch agentId messageIds now =>
      change (if messageIds.isEmpty then _ else _) = _ at hrun
      split at hrun
      · cases hrun
        exact h
      · exact h.receiveBatch hrun
  · exact h

/-- After every sequence of transactions on a consistent database, the row of every agent in
`inbox_stats` is what a recount would compute. -/
theorem foldl_commit_exact {D : CountedMailbox} (h : D.Consistent) (txs : List Tx) (agentId : Int) :
    Assoc.get? agentId (txs.foldl CountedMailbox.commit D).stats =
      (txs.foldl CountedMailbox.commit D).mailbox.computeAgentInboxStats agentId := by
  have hrun : (txs.foldl CountedMailbox.commit D).Consistent := by
    induction txs generalizing D with
    | nil => exact h
    | cons tx txs ih => exact ih (h.commit tx)
  exact hrun.exact agentId

theorem pairs_nodup_nil : ([] : List (Int × Int)).Nodup := nodup_nil

/-- Two agents without mail. -/
def emptyCountedMailbox : CountedMailbox where
  mailbox := { sampleMailbox with
    messages := [], recipients := [], deliveries := []
    messages_nodup := nodup_nil
    recipients_nodup := pairs_nodup_nil
    deliveries_nodup := nodup_nil }
  deregistered := []
  stats := []
  insertTrigger := none
  markReadTrigger := false
  ackTrigger := false

theorem emptyCountedMailbox_consistent : emptyCountedMailbox.Consistent where
  parents _ hr := nomatch hr
  keys := nodup_nil
  exact _ := rfl

def sampleTxs : List Tx :=
  let m : Message :=
    { id := 1, projectId := 1, senderId := 3, threadId := none, topic := none, replyTo := none,
      subject := "first", bodyMd := "", importance := "normal", ackRequired := 0, createdTs := 20,
      recipientsJson := "", attachments := "[]" }
  [.send m true [(2, "to"), (2, "cc")] false,
    .send { m with id := 2, subject := "second", createdTs := 10 } true [(2, "to")] false,
    .acknowledge 2 1 30]

theorem sampleTxs_exact :
    (sampleTxs.foldl CountedMailbox.commit emptyCountedMailbox).stats = [(2, ⟨2, 1, 1, some 20⟩)] ∧
    Assoc.get? 2 (sampleTxs.foldl CountedMailbox.commit emptyCountedMailbox).stats =
      (sampleTxs.foldl CountedMailbox.commit emptyCountedMailbox).mailbox.computeAgentInboxStats 2 :=
  ⟨by decide +kernel, foldl_commit_exact emptyCountedMailbox_consistent sampleTxs 2⟩

end AgentMail.Inbox
