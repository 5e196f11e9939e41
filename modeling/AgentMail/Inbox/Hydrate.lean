import AgentMail.Inbox.Pages

/-!
# Hydration

`hydrate` turns a window into rows: the messages are looked up in batches, the senders are named
and the rows are sorted again.
-/

namespace AgentMail.Inbox

open Base Lib
open List

/-! ### Hydration -/

section

variable {M : Mailbox} {E : Engine M} {projectId : Int} {options : FetchOptions}

/-- The row of a pick before its sender is named. -/
def rawRow (options : FetchOptions) (m : Message) (receipt : Receipt) : InboxRow :=
  { message := hydrateMessage options m, kind := receipt.kind, senderName := unknownSenderDisplay,
    readTs := receipt.readTs, ackTs := receipt.ackTs }

@[simp] theorem senderId_hydrateMessage (m : Message) :
    (hydrateMessage options m).senderId = m.senderId := by
  unfold hydrateMessage
  cases options.bodyPolicy <;> rfl

theorem key_inboxRow (p : Pick) : (inboxRow M options p.1 p.2).key = p.key := by
  unfold InboxRow.key inboxRow hydrateMessage
  cases options.bodyPolicy <;> rfl

theorem mem_dedup {id : Int} {l : List Int} : id ∈ dedup l ↔ id ∈ l := by
  fun_induction dedup l with
  | case1 a l ih => rw [ih]; simp
  | case2 a b l hne ih => rw [mem_cons, ih, mem_cons (l := b :: l)]
  | case3 l h => rfl

/-- The names looked up are those of the agents. -/
theorem get?_senderNames {rows : List InboxRow} {row : InboxRow} (hrow : row ∈ rows) :
    (Assoc.get? row.message.senderId (senderNames E rows)).getD unknownSenderDisplay =
      M.senderName row.message.senderId := by
  let senders := dedup ((rows.map (·.message.senderId)).mergeSort fun a b => decide (a ≤ b))
  have hsender : row.message.senderId ∈ senders := by
    rw [mem_dedup, (mergeSort_perm ..).mem_iff]
    exact mem_map_of_mem hrow
  have hmem (a : Agent) : a ∈ (chunks pageSize senders).flatMap (lookupAgents E) ↔
      a ∈ M.agents ∧ a.id ∈ senders := by
    rw [mem_flatMap]
    constructor
    · rintro ⟨batch, hbatch, ha⟩
      rw [(lookupAgents_perm E batch).mem_iff, mem_filter, contains_iff_mem] at ha
      refine ⟨ha.1, ?_⟩
      rw [← flatten_chunks pageSize senders]
      exact mem_flatten_of_mem hbatch ha.2
    · rintro ⟨ha, hid⟩
      rw [← flatten_chunks pageSize senders, mem_flatten] at hid
      obtain ⟨batch, hbatch, hid⟩ := hid
      refine ⟨batch, hbatch, ?_⟩
      rw [(lookupAgents_perm E batch).mem_iff, mem_filter, contains_iff_mem]
      exact ⟨ha, hid⟩
  have hunique (a : Agent) (ha : a ∈ M.agents) (b : Agent) (hb : b ∈ M.agents) (hid : a.id = b.id) :
      a = b := inj_on_of_nodup_map M.agents_nodup ha hb hid
  have hget : Assoc.get? row.message.senderId (senderNames E rows) =
      (M.agent? row.message.senderId).map (·.name) := by
    refine (Assoc.get?_foldl_insert ?_ _).trans ?_
    · intro a ha b hb hid
      rw [hunique a ((hmem a).mp ha).1 b ((hmem b).mp hb).1 hid]
    · congr 1
      rw [Mailbox.agent?]
      cases hfind : M.agents.find? (fun a => a.id == row.message.senderId) with
      | none =>
        rw [List.find?_eq_none] at hfind ⊢
        exact fun a ha => hfind a ((hmem a).mp ha).1
      | some a =>
        obtain ⟨ha, hid⟩ := (find?_key_eq_some M.agents_nodup).mp hfind
        rw [← hid] at hsender ⊢
        exact find?_of_unique ((hmem a).mpr ⟨ha, hsender⟩)
          fun b hb heq => hunique b ((hmem b).mp hb).1 a ha heq
  rw [hget, Mailbox.senderName]
  cases M.agent? row.message.senderId <;> rfl

variable {P : List Pick}

/-- Picks with distinct keys are of distinct messages. -/
theorem nodup_id_of_descending (hdesc : Window.Descending Pick.key P)
    (hmem : ∀ p ∈ P, p.1 ∈ M.messages) : (P.map fun p => p.1.id).Nodup := by
  rw [nodup_iff_pairwise_ne, pairwise_map]
  apply List.Pairwise.imp_of_mem ?_ hdesc
  intro p q hp hq hlt heq
  have hsame : p.1 = q.1 := inj_on_of_nodup_map M.messages_nodup (hmem p hp) (hmem q hq) heq
  rw [Pick.key, Pick.key, hsame] at hlt
  exact lt_irrefl _ hlt

/-- What one message row adds to the output. -/
def hydrated (options : FetchOptions) (P : List Pick) (m : Message) : Option InboxRow :=
  (P.find? fun p => p.1.id == m.id).bind fun p => some (rawRow options m p.2)

theorem hydrateRow_eq_ok {front : List Message} {m : Message} {p : Pick} {out : List InboxRow}
    (hp : P.find? (fun p => p.1.id == m.id) = some p) (hpm : p.1 = m) (hproject : m.projectId = projectId)
    (hnew : m.id ∉ front.map (·.id)) :
    hydrateRow projectId options
        ((P.map fun p => (p.1.id, p.1.createdTs, p.2)).filter fun e => !(front.map (·.id)).contains e.1, out) m =
      .ok ((P.map fun p => (p.1.id, p.1.createdTs, p.2)).filter
        fun e => !((front ++ [m]).map (·.id)).contains e.1, out ++ (hydrated options P m).toList) := by
  have hget : Assoc.get? m.id ((P.map fun p => (p.1.id, p.1.createdTs, p.2)).filter
      fun e => !(front.map (·.id)).contains e.1) = some (m.createdTs, p.2) := by
    rw [Assoc.get?_filter (p := fun id => !(front.map (·.id)).contains id)
      (not_contains_of_not_mem hnew), Assoc.get?_map, hp, Option.map_some, hpm]
  have hsame : (m.projectId != projectId || m.createdTs != m.createdTs) = false := by
    rw [hproject, bne_self_eq_false, bne_self_eq_false]
    rfl
  unfold hydrateRow
  dsimp only
  rw [hget]
  dsimp only
  rw [hsame, if_neg Bool.false_ne_true, erase_filter, hydrated, hp]
  rfl

section

variable {rows : List Message} (hid : (P.map fun p => p.1.id).Nodup)
  (hmem : ∀ p ∈ P, p.1 ∈ M.messages ∧ p.1.projectId = projectId)
  (hrows : rows ~ M.messages.filter fun m => (P.map fun p => p.1.id).contains m.id)

include hid hmem hrows

/-- Every looked-up message is that of a pick. -/
theorem foldlM_hydrateRow :
    rows.foldlM (hydrateRow projectId options) (P.map fun p => (p.1.id, p.1.createdTs, p.2), []) =
      .ok ((P.map fun p => (p.1.id, p.1.createdTs, p.2)).filter
        fun e => !(rows.map (·.id)).contains e.1, rows.filterMap (hydrated options P)) := by
  have hnodup : (rows.map (·.id)).Nodup :=
    (hrows.map _).nodup_iff.mpr (M.messages_nodup.sublist (filter_sublist.map _))
  have hfold : ∃ s, rows.foldlM (hydrateRow projectId options)
      (P.map fun p => (p.1.id, p.1.createdTs, p.2), []) = .ok s ∧
      s = ((P.map fun p => (p.1.id, p.1.createdTs, p.2)).filter
        fun e => !(rows.map (·.id)).contains e.1, rows.filterMap (hydrated options P)) := by
    apply foldlM_eq_ok (I := fun front s => s = ((P.map fun p => (p.1.id, p.1.createdTs, p.2)).filter
      fun e => !(front.map (·.id)).contains e.1, front.filterMap (hydrated options P)))
    · intro front m back s hsplit hs
      have hfilter := mem_filter.mp (hrows.mem_iff.mp (by rw [hsplit]; simp : m ∈ rows))
      obtain ⟨p, hp, hpid⟩ := mem_map.mp (contains_iff_mem.mp hfilter.2)
      have hpm : p.1 = m := inj_on_of_nodup_map M.messages_nodup (hmem p hp).1 hfilter.1 hpid
      have hfind := (find?_key_eq_some hid).mpr ⟨hp, hpid⟩
      have hproject : m.projectId = projectId := by
        rw [← hpm]
        exact (hmem p hp).2
      have hnew : m.id ∉ front.map (·.id) := by
        rw [hsplit, map_append, nodup_append] at hnodup
        intro hfront
        exact hnodup.2.2 m.id hfront m.id (by simp) rfl
      refine ⟨_, ?_, rfl⟩
      rw [hs, hydrateRow_eq_ok hfind hpm hproject hnew, filterMap_append, filterMap_cons]
      cases hydrated options P m <;> rfl
    · simp
  obtain ⟨s, hs, rfl⟩ := hfold
  exact hs

theorem hydrated_perm :
    rows.filterMap (hydrated options P) ~ P.map fun p => rawRow options p.1 p.2 :=
  calc rows.filterMap (hydrated options P)
      ~ P.filterMap fun p : Pick => (M.messages.find? fun m : Message => m.id == p.1.id).bind
          fun m => some (rawRow options m p.2) :=
        filterMap_lookup_perm M.messages_nodup hid hrows (fun _ => contains_iff_mem)
          fun m p => some (rawRow options m p.2)
    _ = P.map fun p => rawRow options p.1 p.2 := by
        rw [← filterMap_eq_map]
        apply filterMap_congr
        intro p hp
        rw [(find?_key_eq_some M.messages_nodup).mpr ⟨(hmem p hp).1, rfl⟩]
        rfl

end

/-- Naming the senders and sorting gives the rows of the picks in their order. -/
theorem sort_named (hdesc : Window.Descending Pick.key P) {out : List InboxRow}
    (hout : out ~ P.map fun p => rawRow options p.1 p.2) :
    Window.sort InboxRow.key (out.map fun row => { row with
      senderName := (Assoc.get? row.message.senderId (senderNames E out)).getD row.senderName }) =
        P.map fun p => inboxRow M options p.1 p.2 := by
  have hraw (row : InboxRow) (hrow : row ∈ out) : row.senderName = unknownSenderDisplay := by
    obtain ⟨p, _, rfl⟩ := mem_map.mp (hout.mem_iff.mp hrow)
    rfl
  have hnamed : (out.map fun row => { row with
      senderName := (Assoc.get? row.message.senderId (senderNames E out)).getD row.senderName }) =
        out.map fun row => { row with senderName := M.senderName row.message.senderId } := by
    apply map_congr_left
    intro row hrow
    rw [hraw row hrow, get?_senderNames hrow]
  have hperm : (out.map fun row => { row with senderName := M.senderName row.message.senderId }) ~
      P.map fun p => inboxRow M options p.1 p.2 := by
    refine (hout.map _).trans (List.Perm.of_eq ?_)
    rw [map_map]
    apply map_congr_left
    intro p _
    simp [rawRow, inboxRow]
  have hrows : Window.Descending InboxRow.key (P.map fun p => inboxRow M options p.1 p.2) := by
    rw [Window.Descending, pairwise_map]
    apply hdesc.imp
    intro p q hpq
    rw [key_inboxRow, key_inboxRow]
    exact hpq
  rw [hnamed, ← Window.sort_congr hperm.symm hrows.nodup, Window.sort_of_descending hrows]

/-- Hydration turns a window of picks into their rows. -/
theorem hydrate_eq_ok (hdesc : Window.Descending Pick.key P)
    (hmem : ∀ p ∈ P, p.1 ∈ M.messages ∧ p.1.projectId = projectId) :
    hydrate E projectId options (P.map Pick.candidate) =
      .ok (P.map fun p => inboxRow M options p.1 p.2) := by
  have hid := nodup_id_of_descending hdesc fun p hp => (hmem p hp).1
  have hselected : (P.map Pick.candidate).foldl
      (fun selected c => Assoc.insert c.id (c.createdTs, c.receipt) selected) [] =
        P.map fun p => (p.1.id, p.1.createdTs, p.2) := by
    rw [Assoc.foldl_insert (by rw [map_map]; exact hid), map_map]
    rfl
  have hids : (P.map Pick.candidate).map (·.id) = P.map fun p => p.1.id := by
    rw [map_map]
    rfl
  have hrows := flatMap_chunks_perm (lookupMessages_perm E) hid pageSize
  have hout := @hydrated_perm M projectId options P _ hid hmem hrows
  unfold hydrate
  dsimp only
  rw [hselected, hids, foldlM_flatMap, foldlM_hydrateRow hid hmem hrows]
  dsimp only [bind, Except.bind]
  rw [if_neg, sort_named hdesc hout]
  rw [hout.length_eq, length_map, length_map]
  exact fun hne => hne rfl

end

end AgentMail.Inbox
