import AgentMail.Inbox.AckScan
import AgentMail.Lib.Table
import Mathlib.Data.List.Sort

/-!
# A lap misses and repeats nothing

The pages of a lap are the visits of a lap over the keys of the unacknowledged deliveries, each as
the database is when the page is read.
-/

namespace AgentMail.Inbox

open Base Lib List

/-! ### Overdue deliveries -/

/-- The delivery waits for its acknowledgement: its agent is alive in the project of the message,
and has it directly or through the shared mailbox without having acknowledged it. -/
def AckDatabase.Overdue (D : AckDatabase) (r : UnackedMessageRow) : Prop :=
  ∃ m ∈ D.mailbox.messages, ∃ a ∈ D.mailbox.agents,
    r = ⟨m.id, m.projectId, m.createdTs, a.id⟩ ∧ m.ackRequired = 1 ∧
    a.projectId = m.projectId ∧ a.retiredAt = none ∧ D.registered a.id = true ∧
    ((∃ rc ∈ D.mailbox.recipients, rc.messageId = m.id ∧ rc.agentId = a.id ∧ rc.ackTs = none) ∨
      ∃ d ∈ D.mailbox.deliveries, d.messageId = m.id ∧
        D.mailbox.visibleToViewer a d m = true ∧ D.receiptAck m.id a.id = none)

section

variable {D : AckDatabase} {r : UnackedMessageRow}

theorem directRow?_eq_some_iff {rc : Recipient} :
    D.directRow? rc = some r ↔ ∃ m ∈ D.mailbox.messages, ∃ a ∈ D.mailbox.agents,
      (m.id = rc.messageId ∧ a.id = rc.agentId ∧ r = ⟨m.id, m.projectId, m.createdTs, a.id⟩) ∧
      a.projectId = m.projectId ∧ m.ackRequired = 1 ∧ rc.ackTs = none ∧ a.retiredAt = none ∧
      D.registered a.id = true := by
  simp only [AckDatabase.directRow?, Option.bind_eq_bind, Option.bind_eq_some_iff,
    Option.ite_none_right_eq_some, Option.some.injEq, Bool.and_eq_true, beq_iff_eq,
    Option.isNone_iff_eq_none, Mailbox.message?, Mailbox.agent?,
    find?_key_eq_some D.mailbox.messages_nodup, find?_key_eq_some D.mailbox.agents_nodup]
  constructor
  · rintro ⟨m, ⟨hm, hmid⟩, a, ⟨ha, haid⟩, hasks, rfl⟩
    exact ⟨m, hm, a, ha, ⟨hmid, haid, by rw [haid]⟩, hasks.1.1.1.1, hasks.1.1.1.2, hasks.1.1.2,
      hasks.1.2, hasks.2⟩
  · rintro ⟨m, hm, a, ha, ⟨hmid, haid, rfl⟩, hproject, hack, hopen, halive, hregistered⟩
    exact ⟨m, ⟨hm, hmid⟩, a, ⟨ha, haid⟩, ⟨⟨⟨⟨hproject, hack⟩, hopen⟩, halive⟩, hregistered⟩,
      by rw [haid]⟩

theorem sharedRow?_eq_some_iff {d : Delivery} {m : Message} {viewer : Agent} :
    D.sharedRow? d m viewer = some r ↔
      (viewer.projectId = d.projectId ∧ m.ackRequired = 1 ∧ D.receiptAck d.messageId viewer.id = none ∧
        D.registered viewer.id = true ∧ D.mailbox.visibleToViewer viewer d m = true) ∧
      r = ⟨m.id, m.projectId, m.createdTs, viewer.id⟩ := by
  simp only [AckDatabase.sharedRow?, Option.ite_none_right_eq_some, Option.some.injEq,
    Bool.and_eq_true, beq_iff_eq, Option.isNone_iff_eq_none, and_assoc, @eq_comm _ r]

theorem mem_unacked : r ∈ D.unacked ↔ D.Overdue r := by
  rw [AckDatabase.unacked, mem_append, mem_filterMap, mem_flatMap]
  constructor
  · rintro (⟨rc, hrc, hrow⟩ | ⟨d, hd, hrow⟩)
    · rw [directRow?_eq_some_iff] at hrow
      obtain ⟨m, hm, a, ha, ⟨hmid, haid, hr⟩, hproject, hack, hopen, halive, hregistered⟩ := hrow
      exact ⟨m, hm, a, ha, hr, hack, hproject, halive, hregistered,
        .inl ⟨rc, hrc, hmid.symm, haid.symm, hopen⟩⟩
    · cases hm : D.mailbox.message? d.messageId with
      | none => simp [hm] at hrow
      | some m =>
        rw [hm, mem_filterMap] at hrow
        obtain ⟨viewer, hviewer, hrow⟩ := hrow
        obtain ⟨⟨hproject, hack, hopen, hregistered, hvisible⟩, hr⟩ := sharedRow?_eq_some_iff.mp hrow
        rw [Mailbox.message?, find?_key_eq_some D.mailbox.messages_nodup] at hm
        have hsees := hvisible
        simp only [Mailbox.visibleToViewer, Bool.and_eq_true, beq_iff_eq,
          Option.isNone_iff_eq_none] at hsees
        exact ⟨m, hm.1, viewer, hviewer, hr, hack, hproject.trans hsees.1.1.1.1.1.2.symm,
          hsees.1.1.1.2, hregistered, .inr ⟨d, hd, hm.2.symm, hvisible, hm.2 ▸ hopen⟩⟩
  · rintro ⟨m, hm, a, ha, hr, hack, hproject, halive, hregistered, hdirect | hshared⟩
    · obtain ⟨rc, hrc, hmid, haid, hopen⟩ := hdirect
      exact .inl ⟨rc, hrc, directRow?_eq_some_iff.mpr
        ⟨m, hm, a, ha, ⟨hmid.symm, haid.symm, hr⟩, hproject, hack, hopen, halive, hregistered⟩⟩
    · obtain ⟨d, hd, hmid, hvisible, hopen⟩ := hshared
      refine .inr ⟨d, hd, ?_⟩
      have hfound : D.mailbox.message? d.messageId = some m := by
        rw [Mailbox.message?, find?_key_eq_some D.mailbox.messages_nodup]
        exact ⟨hm, hmid.symm⟩
      have hsees := hvisible
      simp only [Mailbox.visibleToViewer, Bool.and_eq_true, beq_iff_eq] at hsees
      rw [hfound, mem_filterMap]
      exact ⟨a, ha, sharedRow?_eq_some_iff.mpr
        ⟨⟨hsees.1.1.1.1.1.1.symm, hack, hmid ▸ hopen, hregistered, hvisible⟩, hr⟩⟩

theorem unacked_pos (h : r ∈ D.unacked) : 0 < r.messageId ∧ 0 < r.projectId ∧ 0 < r.agentId := by
  obtain ⟨m, hm, a, ha, rfl, -⟩ := mem_unacked.mp h
  exact ⟨(D.messages_pos m hm).1, (D.messages_pos m hm).2, D.agents_pos a ha⟩

/-- The rows of the second branch that come from one delivery. -/
def sharedRows (D : AckDatabase) (d : Delivery) : List UnackedMessageRow :=
  match D.mailbox.message? d.messageId with
  | some m => D.mailbox.agents.filterMap (D.sharedRow? d m)
  | none => []

theorem mem_sharedRows {d : Delivery} (h : r ∈ sharedRows D d) :
    r.messageId = d.messageId ∧ D.mailbox.isRecipient r.messageId r.agentId = false := by
  rw [sharedRows] at h
  cases hm : D.mailbox.message? d.messageId with
  | none => simp [hm] at h
  | some m =>
    rw [hm, mem_filterMap] at h
    obtain ⟨viewer, -, hrow⟩ := h
    obtain ⟨⟨-, -, -, -, hvisible⟩, rfl⟩ := sharedRow?_eq_some_iff.mp hrow
    rw [Mailbox.message?, find?_key_eq_some D.mailbox.messages_nodup] at hm
    simp only [Mailbox.visibleToViewer, Bool.and_eq_true, Bool.not_eq_true'] at hvisible
    exact ⟨hm.2, hm.2.symm ▸ hvisible.2⟩

theorem nodup_sharedRows (d : Delivery) : ((sharedRows D d).map (·.key)).Nodup := by
  rw [sharedRows]
  cases D.mailbox.message? d.messageId with
  | none => exact .nil
  | some m =>
    have hkeys : (D.mailbox.agents.map fun a => toLex (m.id, a.id)).Nodup := by
      have hids := D.mailbox.agents_nodup
      rw [nodup_iff_pairwise_ne, pairwise_map] at hids ⊢
      exact hids.imp fun hne heq => hne (congrArg Prod.snd (toLex.injective heq))
    refine hkeys.sublist (map_filterMap_sublist ?_ _)
    intro viewer row hrow
    rw [(sharedRow?_eq_some_iff.mp hrow).2, UnackedMessageRow.key]

/-- A delivery is listed once: its direct row hides the shared one. -/
theorem nodup_unacked : (D.unacked.map (·.key)).Nodup := by
  have hdirect (rc : Recipient) (row : UnackedMessageRow) (h : D.directRow? rc = some row) :
      row.key = toLex (rc.messageId, rc.agentId) := by
    obtain ⟨m, -, a, -, ⟨hmid, haid, rfl⟩, -⟩ := directRow?_eq_some_iff.mp h
    rw [UnackedMessageRow.key, hmid, haid]
  have hkeys : (D.mailbox.recipients.map fun rc => toLex (rc.messageId, rc.agentId)).Nodup := by
    have hpairs := D.mailbox.recipients_nodup
    rw [nodup_iff_pairwise_ne, pairwise_map] at hpairs ⊢
    exact hpairs.imp fun hne heq => hne (toLex.injective heq)
  show ((_ ++ D.mailbox.deliveries.flatMap (sharedRows D)).map (·.key)).Nodup
  rw [map_append, nodup_append, map_flatMap, nodup_flatMap]
  refine ⟨hkeys.sublist (map_filterMap_sublist hdirect _), ⟨fun d _ => nodup_sharedRows d, ?_⟩, ?_⟩
  · have hids := D.mailbox.deliveries_nodup
    rw [nodup_iff_pairwise_ne, pairwise_map] at hids
    refine hids.imp fun {d d'} hne => ?_
    intro k hk hk'
    obtain ⟨row, hrow, rfl⟩ := mem_map.mp hk
    obtain ⟨row', hrow', heq⟩ := mem_map.mp hk'
    have hsame : row'.messageId = row.messageId := congrArg Prod.fst (toLex.injective heq)
    exact hne ((mem_sharedRows hrow).1.symm.trans (hsame.symm.trans (mem_sharedRows hrow').1))
  · intro k hk k' hk' heq
    obtain ⟨row, hrow, rfl⟩ := mem_map.mp hk
    obtain ⟨d, -, hk'⟩ := mem_flatMap.mp hk'
    obtain ⟨row', hrow', rfl⟩ := mem_map.mp hk'
    obtain ⟨rc, hrc, hrow⟩ := mem_filterMap.mp hrow
    rw [hdirect rc row hrow] at heq
    have hsame := toLex.injective heq
    have hnone := (mem_sharedRows hrow').2
    rw [Mailbox.isRecipient, any_eq_false] at hnone
    apply hnone rc hrc
    rw [show rc.messageId = row'.messageId from congrArg Prod.fst hsame,
      show rc.agentId = row'.agentId from congrArg Prod.snd hsame, beq_self_eq_true,
      beq_self_eq_true, Bool.and_self]

end

/-! ### The listing of a page -/

variable {r : UnackedMessageRow}

section

variable {D : AckDatabase} {w : AckScanCursor}

/-- The rows above the position of the window and below its bounds. -/
def pageRows (D : AckDatabase) (w : AckScanCursor) : List UnackedMessageRow :=
  sortRows (D.unacked.filter w.bounds)

/-- The keys of the rows that are below the bounds. -/
def listing (upperId beforeTs : Int) (D : AckDatabase) : List (Int ×ₗ Int) :=
  (sortRows (D.unacked.filter fun r =>
    decide (r.createdTs ≤ beforeTs) && decide (r.messageId ≤ upperId))).map (·.key)

/-- The position of the window. -/
def AckScanCursor.after (w : AckScanCursor) : Int ×ₗ Int := toLex (w.afterMessage, w.afterAgent)

theorem sortRows_sorted {rows : List UnackedMessageRow} (h : (rows.map (·.key)).Nodup) :
    ((sortRows rows).map (·.key)).Pairwise (· < ·) := by
  have hdistinct : ((sortRows rows).map (·.key)).Nodup :=
    ((mergeSort_perm rows _).map _).nodup_iff.mpr h
  have hsorted : (sortRows rows).Pairwise fun a b => decide (a.key ≤ b.key) = true := by
    apply pairwise_mergeSort
    · intro a b c hab hbc
      rw [decide_eq_true_eq] at hab hbc ⊢
      exact le_trans hab hbc
    · intro a b
      rw [Bool.or_eq_true, decide_eq_true_eq, decide_eq_true_eq]
      exact le_total _ _
  rw [nodup_iff_pairwise_ne, pairwise_map] at hdistinct
  rw [pairwise_map]
  refine (hsorted.and hdistinct).imp fun {a b} hab => ?_
  exact lt_of_le_of_ne (of_decide_eq_true hab.1) hab.2

theorem bounds_iff :
    w.bounds r = true ↔ r.createdTs ≤ w.beforeTs ∧ r.messageId ≤ w.upperId ∧ w.after < r.key := by
  rw [AckScanCursor.bounds, AckScanCursor.after, UnackedMessageRow.key, Prod.Lex.toLex_lt_toLex,
    Bool.and_eq_true, Bool.and_eq_true, Bool.or_eq_true, Bool.and_eq_true, decide_eq_true_eq,
    decide_eq_true_eq, decide_eq_true_eq, decide_eq_true_eq, beq_iff_eq, and_assoc,
    @eq_comm _ r.messageId]

theorem mem_pageRows : r ∈ pageRows D w ↔
    D.Overdue r ∧ r.createdTs ≤ w.beforeTs ∧ r.messageId ≤ w.upperId ∧ w.after < r.key := by
  rw [pageRows, sortRows, mem_mergeSort, mem_filter, mem_unacked, bounds_iff]

theorem pageRows_sorted : ((pageRows D w).map (·.key)).Pairwise (· < ·) :=
  sortRows_sorted (nodup_unacked.sublist (filter_sublist.map _))

theorem listing_sorted {upperId beforeTs : Int} : (listing upperId beforeTs D).Pairwise (· < ·) :=
  sortRows_sorted (nodup_unacked.sublist (filter_sublist.map _))

theorem mem_listing {upperId beforeTs : Int} {k : Int ×ₗ Int} : k ∈ listing upperId beforeTs D ↔
    ∃ r, D.Overdue r ∧ r.key = k ∧ r.messageId ≤ upperId ∧ r.createdTs ≤ beforeTs := by
  rw [listing, mem_map]
  refine exists_congr fun r => ?_
  rw [sortRows, mem_mergeSort, mem_filter, mem_unacked, Bool.and_eq_true,
    decide_eq_true_eq, decide_eq_true_eq]
  tauto

/-- A page shows what the listing has above the position. -/
theorem map_key_pageRows :
    (pageRows D w).map (·.key) = Cursor.above w.after (listing w.upperId w.beforeTs D) := by
  have habove : (Cursor.above w.after (listing w.upperId w.beforeTs D)).Pairwise (· < ·) :=
    listing_sorted.sublist filter_sublist
  refine List.Perm.eq_of_pairwise (fun a b _ _ hab hba => absurd hab (lt_asymm hba))
    pageRows_sorted habove ?_
  rw [perm_ext_iff_of_nodup (pageRows_sorted.imp ne_of_lt) (habove.imp ne_of_lt)]
  intro k
  rw [Cursor.mem_above, mem_listing, mem_map]
  constructor
  · rintro ⟨r, hr, rfl⟩
    obtain ⟨hoverdue, hcreated, hmessage, hafter⟩ := mem_pageRows.mp hr
    exact ⟨⟨r, hoverdue, rfl, hmessage, hcreated⟩, hafter⟩
  · rintro ⟨⟨r, hoverdue, rfl, hmessage, hcreated⟩, hafter⟩
    exact ⟨r, mem_pageRows.mpr ⟨hoverdue, hcreated, hmessage, hafter⟩, rfl⟩

end

/-! ### Pages -/

/-- A stamp that `decode_page` takes. -/
def validGeneration (generation : Option String) : Bool :=
  !generation.any fun value => value.isEmpty || decide (256 < value.utf8ByteSize)

/-- What a cursor of a lap over databases with this stamp looks like. -/
structure AckScanCursor.Fits (w : AckScanCursor) (scope : String) (generation : Option String) :
    Prop where
  scope : w.databaseScope = scope
  generation : w.generationId = generation
  upper : 0 ≤ w.upperId
  message : 0 ≤ w.afterMessage
  agent : 0 ≤ w.afterAgent

/-- The window of the first page. -/
def firstWindow (scope : String) (t : Turn) : AckScanCursor :=
  ⟨scope, t.database.generation, t.database.maxMessageId, t.overdueBeforeTs, 0, 0⟩

section

variable {D : AckDatabase} {w : AckScanCursor} {scope : String} {pageSize : Nat} {t : Turn}

theorem decodeRows_eq {previous : Int ×ₗ Int} {rows : List UnackedMessageRow}
    (hsorted : (rows.map (·.key)).Pairwise (· < ·)) (hprevious : ∀ r ∈ rows, previous < r.key)
    (hrows : ∀ r ∈ rows, (0 < r.messageId ∧ 0 < r.projectId ∧ 0 < r.agentId) ∧
      r.messageId ≤ w.upperId ∧ r.createdTs ≤ w.beforeTs) :
    decodeRows w previous (rows.map .delivery) = .ok rows := by
  induction rows generalizing previous with
  | nil => rfl
  | cons r rows ih =>
    rw [map_cons, pairwise_cons, forall_mem_map] at hsorted
    rw [forall_mem_cons] at hprevious hrows
    obtain ⟨⟨hmessage, hproject, hagent⟩, hupper, hcreated⟩ := hrows.1
    have hfits : ¬ (r.messageId ≤ 0 ∨ r.agentId ≤ 0 ∨ r.projectId ≤ 0 ∨ r.key ≤ previous ∨
        w.upperId < r.messageId ∨ w.beforeTs < r.createdTs) := by
      have hkey := not_le_of_gt hprevious.1
      simp only [hkey, false_or]
      omega
    rw [map_cons, decodeRows, if_neg hfits, ih hsorted.2 hsorted.1 hrows.2]
    rfl

/-- The rows that the statement returns for a window. -/
def windowRows (D : AckDatabase) (w : AckScanCursor) (pageSize : Nat) : List ScanRow :=
  (.metadata D.generation w.upperId w.beforeTs w.afterMessage w.afterAgent ::
    (pageRows D w).map .delivery).take (pageSize + 2)

theorem decodePage_window (hgeneration : validGeneration D.generation = true)
    (hw : w.Fits scope D.generation) :
    decodePage scope (windowRows D w pageSize) pageSize =
      .ok ⟨(pageRows D w).take pageSize, w, decide (pageSize < (pageRows D w).length)⟩ := by
  have hwindow : (⟨scope, D.generation, w.upperId, w.beforeTs, w.afterMessage, w.afterAgent⟩ :
      AckScanCursor) = w := by
    rw [← hw.scope, ← hw.generation]
  have hbounds : ¬ (w.upperId < 0 ∨ w.afterMessage < 0 ∨ w.afterAgent < 0) := by
    have := hw.upper
    have := hw.message
    have := hw.agent
    omega
  have hlength : ¬ pageSize + 2 <
      (ScanRow.metadata D.generation w.upperId w.beforeTs w.afterMessage w.afterAgent ::
        ((pageRows D w).take (pageSize + 1)).map ScanRow.delivery).length := by
    rw [length_cons, length_map, length_take]
    omega
  have hdecoded : decodeRows w w.after (((pageRows D w).take (pageSize + 1)).map .delivery) =
      .ok ((pageRows D w).take (pageSize + 1)) := by
    have hmem (r : UnackedMessageRow) (hr : r ∈ (pageRows D w).take (pageSize + 1)) :=
      mem_pageRows.mp (mem_of_mem_take hr)
    refine decodeRows_eq (pageRows_sorted.sublist ((take_sublist _ _).map _))
      (fun r hr => (hmem r hr).2.2.2) fun r hr => ?_
    exact ⟨unacked_pos (mem_unacked.mpr (hmem r hr).1), (hmem r hr).2.2.1, (hmem r hr).2.1⟩
  rw [windowRows, take_succ_cons, ← map_take, decodePage, if_neg hlength]
  have hstamp : (D.generation.any fun value => value.isEmpty || decide (256 < value.utf8ByteSize)) =
      false := by
    simpa [validGeneration] using hgeneration
  simp only [hstamp, Bool.false_eq_true, if_false, if_neg hbounds, hwindow]
  rw [show toLex (w.afterMessage, w.afterAgent) = w.after from rfl, hdecoded, Except.map]
  have hmore : decide (pageSize < ((pageRows D w).take (pageSize + 1)).length) =
      decide (pageSize < (pageRows D w).length) := by
    rw [length_take, decide_eq_decide]
    omega
  rw [take_take, Nat.min_eq_left (Nat.le_succ _), hmore]

/-- The statement reads the window of a cursor of the same generation. -/
theorem overdueAckPage_resumed (hsize : 1 ≤ pageSize ∧ pageSize ≤ maxAckScanPageSize)
    (hw : w.Fits scope D.generation) (overdueBeforeTs : Int) :
    overdueAckPage D scope (some w) overdueBeforeTs pageSize =
      decodePage scope (windowRows D w pageSize) pageSize := by
  rw [overdueAckPage, pageQuery, if_neg (not_not.mpr hsize)]
  have hscope : (some w).filter (fun c => c.databaseScope == scope) = some w := by
    rw [Option.filter_some, hw.scope, beq_self_eq_true, if_pos rfl]
  simp only [hscope, PageQuery.run, Option.isSome_some, Option.bind_some, hw.generation,
    beq_self_eq_true, Bool.and_self, if_true, Option.elim_some]
  rfl

theorem overdueAckPage_first (hsize : 1 ≤ t.pageSize ∧ t.pageSize ≤ maxAckScanPageSize) :
    overdueAckPage t.database scope none t.overdueBeforeTs t.pageSize =
      decodePage scope (windowRows t.database (firstWindow scope t) t.pageSize) t.pageSize := by
  rw [overdueAckPage, pageQuery, if_neg (not_not.mpr hsize)]
  rfl

theorem maxMessageId_nonneg : 0 ≤ D.maxMessageId := by
  rw [AckDatabase.maxMessageId]
  cases hmax : (D.mailbox.messages.map (·.id)).max? with
  | none => exact Int.le_refl 0
  | some id =>
    obtain ⟨m, hm, rfl⟩ := mem_map.mp (List.max?_mem hmax)
    exact Int.le_of_lt (D.messages_pos m hm).1

theorem firstWindow_fits : (firstWindow scope t).Fits scope t.database.generation where
  scope := rfl
  generation := rfl
  upper := maxMessageId_nonneg
  message := Int.le_refl 0
  agent := Int.le_refl 0

end

/-! ### Laps -/

/-- A page of the lap as a visit to the listing. -/
def Turn.visit (upperId beforeTs : Int) (t : Turn) : Cursor.Visit (Int ×ₗ Int) :=
  ⟨listing upperId beforeTs t.database, t.pageSize, t.handles⟩

/-- A page within one database generation, of an allowed size. -/
structure Turn.Fits (t : Turn) (generation : Option String) : Prop where
  generation : t.database.generation = generation
  size : 1 ≤ t.pageSize ∧ t.pageSize ≤ maxAckScanPageSize

/-- The page that a window shows. -/
def windowPage (w : AckScanCursor) (t : Turn) : AckScanPage :=
  ⟨(pageRows t.database w).take t.pageSize, w, decide (t.pageSize < (pageRows t.database w).length)⟩

section

variable {scope : String} {generation : Option String} {w : AckScanCursor} {t : Turn}
  {ts : List Turn}

theorem map_key_consumed : (Observed.consumed ⟨t, windowPage w t⟩).map (·.key) =
    (t.visit w.upperId w.beforeTs).takes w.after := by
  rw [Observed.consumed, windowPage, map_take, map_take, map_key_pageRows]
  rfl

theorem ends_iff : (t.visit w.upperId w.beforeTs).ends w.after = true ↔
    min t.handles (windowPage w t).rows.length = (windowPage w t).rows.length ∧
      (windowPage w t).hasMore = false := by
  rw [Cursor.Visit.ends, Bool.and_eq_true, decide_eq_true_eq, decide_eq_true_eq,
    Turn.visit, ← map_key_pageRows, ← map_take, length_map, length_map,
    windowPage, decide_eq_false_iff_not]
  dsimp only
  omega

theorem last_consumed {rows : List UnackedMessageRow} {handles : Nat} :
    (if min handles rows.length = 0 then none else rows[min handles rows.length - 1]?) =
      (rows.take handles).getLast? := by
  rw [List.getLast?_eq_getElem?, length_take, List.getElem?_take]
  by_cases hzero : min handles rows.length = 0
  · rw [if_pos hzero, hzero]
    by_cases hnone : handles = 0
    · simp [hnone]
    · have hnil : rows = [] := eq_nil_of_length_eq_zero (by omega)
      simp [hnil]
  · rw [if_neg hzero, if_pos (by omega)]

theorem continuationAfter_ends (h : (t.visit w.upperId w.beforeTs).ends w.after = true) :
    (windowPage w t).continuationAfter (min t.handles (windowPage w t).rows.length) = .ok none := by
  rw [AckScanPage.continuationAfter, if_neg (by omega), if_pos (ends_iff.mp h)]

theorem continuationAfter_next (h : ¬ (t.visit w.upperId w.beforeTs).ends w.after = true)
    (hw : w.Fits scope generation) :
    ∃ w', (windowPage w t).continuationAfter (min t.handles (windowPage w t).rows.length) =
        .ok (some w') ∧ w'.Fits scope generation ∧ w'.upperId = w.upperId ∧
      w'.beforeTs = w.beforeTs ∧
      w'.after = Cursor.next w.after ((t.visit w.upperId w.beforeTs).takes w.after) := by
  rw [AckScanPage.continuationAfter, if_neg (by omega), if_neg (mt ends_iff.mpr h), last_consumed,
    ← map_key_consumed, Cursor.next, List.getLast?_map, Observed.consumed]
  cases hlast : ((windowPage w t).rows.take t.handles).getLast? with
  | none => exact ⟨w, rfl, hw, rfl, rfl, rfl⟩
  | some row =>
    have hmem : row ∈ pageRows t.database w :=
      mem_of_mem_take (mem_of_mem_take (mem_of_getLast? hlast))
    have hpos := unacked_pos (mem_unacked.mpr (mem_pageRows.mp hmem).1)
    exact ⟨_, rfl, ⟨hw.scope, hw.generation, hw.upper, Int.le_of_lt hpos.1, Int.le_of_lt hpos.2.2⟩,
      rfl, rfl, rfl⟩

theorem ackLap_cons (hgeneration : validGeneration generation = true)
    (hw : w.Fits scope generation) (ht : t.Fits generation) (ts : List Turn) :
    ackLap scope (some w) (t :: ts) =
      match (windowPage w t).continuationAfter (min t.handles (windowPage w t).rows.length) with
      | .error error => .error error
      | .ok none => .ok ([⟨t, windowPage w t⟩], true)
      | .ok (some next) =>
        match ackLap scope (some next) ts with
        | .error error => .error error
        | .ok (observed, finished) => .ok (⟨t, windowPage w t⟩ :: observed, finished) := by
  have hw' : w.Fits scope t.database.generation := ht.generation ▸ hw
  rw [ackLap, overdueAckPage_resumed ht.size hw',
    decodePage_window (ht.generation.symm ▸ hgeneration) hw']
  rfl

/-- What the pages show and what the worker takes of them. -/
structure Matches (w : AckScanCursor) (ts : List Turn) (observed : List Observed)
    (visits : List (Cursor.Visit (Int ×ₗ Int) × List (Int ×ₗ Int))) : Prop where
  visits : observed.map (fun o => (o.turn.visit w.upperId w.beforeTs, o.consumed.map (·.key))) = visits
  turns : ∀ o ∈ observed, o.turn ∈ ts
  rows : ∀ o ∈ observed, ∀ r ∈ o.consumed,
    o.turn.database.Overdue r ∧ r.createdTs ≤ w.beforeTs ∧ r.messageId ≤ w.upperId

theorem ackLap_resumed (hgeneration : validGeneration generation = true)
    (hw : w.Fits scope generation) (hts : ∀ t ∈ ts, t.Fits generation) :
    ∃ observed, ackLap scope (some w) ts =
        .ok (observed, (Cursor.lap w.after (ts.map (Turn.visit w.upperId w.beforeTs))).2) ∧
      Matches w ts observed (Cursor.lap w.after (ts.map (Turn.visit w.upperId w.beforeTs))).1 := by
  induction ts generalizing w with
  | nil => exact ⟨[], rfl, rfl, forall_mem_nil _, forall_mem_nil _⟩
  | cons t ts ih =>
    rw [forall_mem_cons] at hts
    have hrows : ∀ r ∈ Observed.consumed ⟨t, windowPage w t⟩,
        t.database.Overdue r ∧ r.createdTs ≤ w.beforeTs ∧ r.messageId ≤ w.upperId := by
      intro r hr
      have hmem := mem_pageRows.mp (mem_of_mem_take (mem_of_mem_take hr))
      exact ⟨hmem.1, hmem.2.1, hmem.2.2.1⟩
    rw [ackLap_cons hgeneration hw hts.1, map_cons]
    by_cases hends : (t.visit w.upperId w.beforeTs).ends w.after = true
    · rw [continuationAfter_ends hends, Cursor.lap_cons_ends hends]
      refine ⟨[⟨t, windowPage w t⟩], rfl, ?_, ?_, ?_⟩
      · rw [map_singleton, map_key_consumed]
      · simp
      · rw [forall_mem_singleton]
        exact hrows
    · obtain ⟨w', hnext, hw', hupper, hbefore, hafter⟩ := continuationAfter_next hends hw
      obtain ⟨observed, hlap, hmatches⟩ := ih hw' hts.2
      rw [hupper, hbefore, hafter] at hlap hmatches
      rw [hnext, Cursor.lap_cons hends]
      dsimp only
      rw [hlap]
      refine ⟨⟨t, windowPage w t⟩ :: observed, rfl, ?_, ?_, ?_⟩
      · have hvisits := hmatches.visits
        rw [hupper, hbefore] at hvisits
        rw [map_cons, map_key_consumed, hvisits]
      · rw [forall_mem_cons]
        exact ⟨mem_cons_self, fun o ho => mem_cons_of_mem _ (hmatches.turns o ho)⟩
      · rw [forall_mem_cons]
        refine ⟨hrows, fun o ho r hr => ?_⟩
        have hrow := hmatches.rows o ho r hr
        rw [hupper, hbefore] at hrow
        exact hrow

end

/-- The laws of a lap that starts with the turn `t`, whose page fixes the bounds. -/
structure LapLaws (t : Turn) (ts : List Turn) (observed : List Observed) (finished : Bool) :
    Prop where
  /-- What is consumed is within the bounds and overdue when its page is read. -/
  consumed : ∀ o ∈ observed, ∀ r ∈ o.consumed, o.turn.database.Overdue r ∧ 1 ≤ r.messageId ∧
    r.messageId ≤ t.database.maxMessageId ∧ r.createdTs ≤ t.overdueBeforeTs
  once : ((observed.flatMap (·.consumed)).map (·.key)).Nodup
  /-- What is overdue within the bounds at every page is consumed when the lap finishes. -/
  complete : finished = true → ∀ k : Int ×ₗ Int,
    (∀ o ∈ observed, ∃ r, o.turn.database.Overdue r ∧ r.key = k ∧
      r.messageId ≤ t.database.maxMessageId ∧ r.createdTs ≤ t.overdueBeforeTs) →
    k ∈ (observed.flatMap (·.consumed)).map (·.key)
  /-- There are no more pages of which something is consumed than pairs of messages and agents. -/
  productive : ∀ agents : List Int, (∀ u ∈ t :: ts, ∀ a ∈ u.database.mailbox.agents, a.id ∈ agents) →
    (observed.filter fun o => !o.consumed.isEmpty).length ≤
      t.database.maxMessageId.toNat * agents.length
  /-- A lap of more pages finishes, if the worker handles something of every page. -/
  finishes : ∀ agents : List Int, (∀ u ∈ t :: ts, ∀ a ∈ u.database.mailbox.agents, a.id ∈ agents) →
    (∀ u ∈ t :: ts, 0 < u.handles) →
    t.database.maxMessageId.toNat * agents.length < (t :: ts).length → finished = true

section

variable {scope : String} {generation : Option String} {t : Turn} {ts : List Turn}
  {agents : List Int}

/-- The pairs of a message up to the bound and an agent. -/
def pairs (upperId : Int) (agents : List Int) : List (Int ×ₗ Int) :=
  (range upperId.toNat).flatMap fun (n : Nat) => agents.map fun a => toLex ((n : Int) + 1, a)

theorem length_pairs (upperId : Int) : (pairs upperId agents).length =
    upperId.toNat * agents.length := by
  simp [pairs, length_flatMap]

theorem mem_pairs_of_overdue {D : AckDatabase} {upperId : Int} (h : D.Overdue r)
    (hupper : r.messageId ≤ upperId) (hagents : ∀ a ∈ D.mailbox.agents, a.id ∈ agents) :
    r.key ∈ pairs upperId agents := by
  have hpos := unacked_pos (mem_unacked.mpr h)
  obtain ⟨m, -, a, ha, rfl, -⟩ := h
  simp only at hpos hupper
  rw [pairs, mem_flatMap]
  have hindex : (m.id - 1).toNat < upperId.toNat := by omega
  refine ⟨(m.id - 1).toNat, List.mem_range.mpr hindex, mem_map.mpr ⟨a.id, hagents a ha, ?_⟩⟩
  have hback : (((m.id - 1).toNat : Nat) : Int) + 1 = m.id := by omega
  rw [hback, UnackedMessageRow.key]

theorem start_lt_key {D : AckDatabase} (h : D.Overdue r) : (firstWindow scope t).after < r.key := by
  have hpos := unacked_pos (mem_unacked.mpr h)
  rw [AckScanCursor.after, UnackedMessageRow.key, Prod.Lex.toLex_lt_toLex]
  exact .inl hpos.1

/-- The lap over the listing that the first page fixes. -/
def firstLap (scope : String) (t : Turn) (ts : List Turn) :
    List (Cursor.Visit (Int ×ₗ Int) × List (Int ×ₗ Int)) × Bool :=
  Cursor.lap (firstWindow scope t).after
    ((t :: ts).map (Turn.visit t.database.maxMessageId t.overdueBeforeTs))

theorem visits_sorted {upperId beforeTs : Int} :
    ∀ v ∈ (t :: ts).map (Turn.visit upperId beforeTs), v.listing.Pairwise (· < ·) := by
  rw [forall_mem_map]
  intro u _
  exact listing_sorted

theorem lapLaws_of_matches {observed : List Observed} (hts : ∀ u ∈ t :: ts, u.Fits generation)
    (h : Matches (firstWindow scope t) (t :: ts) observed (firstLap scope t ts).1) :
    LapLaws t ts observed (firstLap scope t ts).2 := by
  have hkeys : (observed.flatMap (·.consumed)).map (·.key) =
      (firstLap scope t ts).1.flatMap Prod.snd := by
    rw [← h.visits, flatMap_map, map_flatMap]
  have hpairs (agents : List Int)
      (hagents : ∀ u ∈ t :: ts, ∀ a ∈ u.database.mailbox.agents, a.id ∈ agents) :
      ∀ v ∈ (t :: ts).map (Turn.visit t.database.maxMessageId t.overdueBeforeTs),
        ∀ k ∈ v.listing, k ∈ pairs t.database.maxMessageId agents := by
    rw [forall_mem_map]
    intro u hu k hk
    obtain ⟨r, hr, rfl, hupper, -⟩ := mem_listing.mp hk
    exact mem_pairs_of_overdue hr hupper (hagents u hu)
  refine ⟨?_, ?_, ?_, ?_, ?_⟩
  · intro o ho r hr
    obtain ⟨hoverdue, hcreated, hupper⟩ := h.rows o ho r hr
    exact ⟨hoverdue, (unacked_pos (mem_unacked.mpr hoverdue)).1, hupper, hcreated⟩
  · rw [hkeys]
    exact (Cursor.lap_sorted visits_sorted).imp ne_of_lt
  · intro hfinished k hk
    rw [hkeys]
    have hstart : (firstWindow scope t).after < k := by
      have hne : observed ≠ [] := by
        intro hnil
        have hvisits := h.visits
        rw [hnil, map_nil] at hvisits
        exact Cursor.lap_cons_ne_nil hvisits.symm
      obtain ⟨o, ho⟩ := exists_mem_of_ne_nil _ hne
      obtain ⟨r, hr, rfl, -⟩ := hk o ho
      exact start_lt_key hr
    refine Cursor.lap_complete visits_sorted hfinished hstart fun p hp => ?_
    rw [show (Cursor.lap _ _).1 = _ from h.visits.symm] at hp
    obtain ⟨o, ho, rfl⟩ := mem_map.mp hp
    exact mem_listing.mpr (hk o ho)
  · intro agents hagents
    have hsame : (observed.filter fun o => !o.consumed.isEmpty).length =
        ((firstLap scope t ts).1.filter fun p => !p.2.isEmpty).length := by
      rw [← h.visits, filter_map, length_map]
      refine congrArg List.length (filter_congr fun o _ => ?_)
      rw [Function.comp_apply, isEmpty_map]
    rw [hsame, ← length_pairs]
    refine Cursor.productive_le visits_sorted fun k hk => ?_
    obtain ⟨p, hp, hk⟩ := mem_flatMap.mp hk
    obtain ⟨hv, hlisted⟩ := Cursor.mem_of_mem_lap hp
    exact hpairs agents hagents p.1 hv k (hlisted k hk).1
  · intro agents hagents hhandles hmany
    rw [← length_pairs] at hmany
    refine Cursor.lap_ends visits_sorted ?_ (hpairs agents hagents) (by rwa [length_map])
    rw [forall_mem_map]
    exact fun u hu => ⟨(hts u hu).size.1, hhandles u hu⟩

/-- A lap starts as one that resumes at the window of its first page. -/
theorem ackLap_first (ht : t.Fits generation) : ackLap scope none (t :: ts) =
    ackLap scope (some (firstWindow scope t)) (t :: ts) := by
  rw [ackLap, ackLap, overdueAckPage_first ht.size, overdueAckPage_resumed ht.size firstWindow_fits]

/-- Whatever happens to the database between the pages. -/
theorem ackLap_laws (hgeneration : validGeneration generation = true)
    (hts : ∀ u ∈ t :: ts, u.Fits generation) :
    ∃ observed finished, ackLap scope none (t :: ts) = .ok (observed, finished) ∧
      LapLaws t ts observed finished := by
  have ht := (forall_mem_cons.mp hts).1
  have hw : (firstWindow scope t).Fits scope generation := ht.generation ▸ firstWindow_fits
  obtain ⟨observed, hlap, hmatches⟩ := ackLap_resumed hgeneration hw hts
  exact ⟨observed, _, (ackLap_first ht).trans hlap, lapLaws_of_matches hts hmatches⟩

end

def sampleAckDatabase : AckDatabase where
  mailbox :=
    { sampleMailbox with
      messages := sampleMailbox.messages.map fun m => { m with ackRequired := 1 }
      messages_nodup := by decide }
  taskDescription _ := []
  deregistered := []
  generation := some "g1"
  messages_pos := by decide
  agents_pos := by decide

def sampleTurn : Turn := ⟨sampleAckDatabase, 20, 1, 1⟩

theorem ackLap_laws_sample : ∃ observed finished,
    ackLap "db" none [sampleTurn, sampleTurn] = .ok (observed, finished) ∧
      LapLaws sampleTurn [sampleTurn] observed finished := by
  have hfits : sampleTurn.Fits (some "g1") := ⟨rfl, by decide⟩
  have hstamp : validGeneration (some "g1") = true := by decide
  refine ackLap_laws hstamp ?_
  intro u hu
  simp only [mem_cons, not_mem_nil, or_false, or_self] at hu
  rw [hu]
  exact hfits

end AgentMail.Inbox
