import AgentMail.Inbox.Exact
import AgentMail.Inbox.UnackedShared

/-!
# Pending acknowledgements are exact

The shared walk reads the project's headers from the viewer's inception on, and stops when no later
header can enter the window. What it returns is the window of the reference.
-/

namespace AgentMail.Inbox

open Base Lib
open List

/-- Ascending timestamps are descending in the reversed order. -/
def Message.oldestFirst (m : Message) : Intᵒᵈ := OrderDual.toDual m.createdTs

section

variable {M : Mailbox} {E : AckEngine M} {projectId agentId : Int} {limit : Nat}
  {beforeTs : Option Int} {inception : Int} {read rows rest : List Message}

/-! ### A page of headers -/

/-- The headers that the walk can read. -/
def pageable (E : AckEngine M) (projectId : Int) (beforeTs : Option Int) (inception : Int) :
    List Message :=
  (E.oldest projectId).filter fun m => decide (inception ≤ m.createdTs) && beforeCutoff beforeTs m

/-- The position of the walk. -/
def ackMark (inception : Int) (read : List Message) : Mark Intᵒᵈ :=
  markFrom (OrderDual.toDual inception) Message.oldestFirst read

/-- The timestamp of the last header read, the inception before the first one. -/
def lastTs (inception : Int) (read : List Message) : Int :=
  (read.getLast?.map (·.createdTs)).getD inception

theorem ceiling_ackMark :
    (ackMark inception read).ceiling = some (OrderDual.toDual (lastTs inception read)) := by
  rw [ackMark, ceiling_markFrom, lastTs]
  cases read.getLast? <;> rfl

theorem ackMark_eq : ackMark inception read =
    { ceiling := some (OrderDual.toDual (lastTs inception read)),
      skip := (ackMark inception read).skip } := by
  rw [← ceiling_ackMark]

variable {m : Message}

theorem skip_ackMark_concat : (ackMark inception (read ++ [m])).skip =
    if m.createdTs = lastTs inception read then (ackMark inception read).skip + 1 else 1 := by
  have hstep : ackMark inception (read ++ [m]) =
      (ackMark inception read).advance Message.oldestFirst m := markFrom_append
  have hiff : (ackMark inception read).ceiling = some m.oldestFirst ↔
      m.createdTs = lastTs inception read := by
    rw [ceiling_ackMark, Option.some.injEq]
    exact eq_comm
  rw [hstep, Mark.advance]
  simp only [hiff]
  split <;> rfl

theorem lastTs_le (h : (read ++ rest).Pairwise fun a b => a.createdTs ≤ b.createdTs)
    (hinception : ∀ m ∈ rest, inception ≤ m.createdTs) (hm : m ∈ rest) :
    lastTs inception read ≤ m.createdTs := by
  rw [lastTs]
  cases hlast : read.getLast? with
  | none => exact hinception m hm
  | some last => exact (pairwise_append.mp h).2.2 last (mem_of_getLast? hlast) m hm

section

variable (E projectId beforeTs inception)

theorem pageable_sublist : (pageable E projectId beforeTs inception).Sublist (E.oldest projectId) :=
  filter_sublist

theorem pageable_sorted :
    (pageable E projectId beforeTs inception).Pairwise fun a b => a.createdTs ≤ b.createdTs :=
  (E.oldest_sorted projectId).sublist filter_sublist

theorem nodup_pageable : ((pageable E projectId beforeTs inception).map (·.id)).Nodup := by
  have hnodup : ((E.oldest projectId).map (·.id)).Nodup :=
    ((E.oldest_perm projectId).map _).nodup_iff.mpr
      (M.messages_nodup.sublist (filter_sublist.map _))
  exact hnodup.sublist (filter_sublist.map _)

theorem length_pageable : ((pageable E projectId beforeTs inception).length : Int) ≤ i64Max := by
  have hsub : (pageable E projectId beforeTs inception).length ≤ (E.oldest projectId).length :=
    length_filter_le ..
  have hle : (E.oldest projectId).length ≤ M.messages.length := by
    rw [(E.oldest_perm projectId).length_eq]
    exact length_filter_le ..
  have := E.capacity
  omega

variable {E projectId beforeTs inception}

theorem of_mem_pageable (h : m ∈ pageable E projectId beforeTs inception) :
    m.projectId = projectId ∧ inception ≤ m.createdTs ∧ beforeCutoff beforeTs m = true := by
  rw [pageable, mem_filter, Bool.and_eq_true, decide_eq_true_eq] at h
  have hmem := (E.oldest_perm projectId).mem_iff.mp h.1
  exact ⟨beq_iff_eq.mp (mem_filter.mp hmem).2, h.2⟩

/-- What is left of the pageable headers at a position not before the inception. -/
theorem remaining_pageable {floor : Int} (hfloor : inception ≤ floor) (skip : Nat) :
    remaining Message.oldestFirst (pageable E projectId beforeTs inception)
        { ceiling := some (OrderDual.toDual floor), skip := skip } =
      ((E.oldest projectId).filter fun m =>
        decide (floor ≤ m.createdTs) && beforeCutoff beforeTs m).drop skip := by
  rw [remaining, pageable, filter_filter]
  congr 1
  apply filter_congr
  intro m _
  have hle : decide (m.oldestFirst ≤ OrderDual.toDual floor) = decide (floor ≤ m.createdTs) := rfl
  rw [Option.all_some, hle, Bool.eq_iff_iff]
  simp only [Bool.and_eq_true, decide_eq_true_eq]
  constructor
  · rintro ⟨habove, -, hcutoff⟩
    exact ⟨habove, hcutoff⟩
  · rintro ⟨habove, hcutoff⟩
    exact ⟨habove, by omega, hcutoff⟩

/-- After the headers read, the others are left. -/
theorem remaining_ackMark (h : pageable E projectId beforeTs inception = read ++ rest) :
    remaining Message.oldestFirst (pageable E projectId beforeTs inception)
      (ackMark inception read) = rest := by
  have hsorted := pageable_sorted E projectId beforeTs inception
  have hbelow (m : Message) (hm : m ∈ pageable E projectId beforeTs inception) :
      m.oldestFirst ≤ OrderDual.toDual inception := (of_mem_pageable hm).2.1
  rw [h] at hsorted hbelow ⊢
  exact remaining_markFrom hsorted hbelow

theorem oldestPage_eq (h : pageable E projectId beforeTs inception = read ++ rest) :
    oldestPage E projectId beforeTs (lastTs inception read) (ackMark inception read).skip =
      rest.take 128 := by
  have hfloor : inception ≤ lastTs inception read := by
    rw [lastTs]
    cases hlast : read.getLast? with
    | none => exact Int.le_refl _
    | some last =>
      have hmem : last ∈ pageable E projectId beforeTs inception := by
        rw [h]
        exact mem_append_left _ (mem_of_getLast? hlast)
      exact (of_mem_pageable hmem).2.1
  rw [oldestPage, ← remaining_pageable hfloor, ← ackMark_eq, remaining_ackMark h]

end

/-- The headers of a page whose deliveries are looked up. -/
def wantedHeader (agentId : Int) (limit : Nat) (window : OldestWindow) (m : Message) : Bool :=
  m.senderId != agentId && m.ackRequired == 1 && admits limit window (toLex (m.createdTs, m.id))

/-- The loop over a page, after `rows` of it. -/
def pageAfter (agentId : Int) (limit : Nat) (inception : Int) (window : OldestWindow)
    (read rows : List Message) : AckPage where
  last := lastTs inception (read ++ rows)
  trailing := (ackMark inception (read ++ rows)).skip
  seen := rows.map (·.id)
  headers := (rows.filter (wantedHeader agentId limit window)).map fun m => (m.id, m.createdTs)

theorem sharedRow_eq_ok {window : OldestWindow}
    (hsub : (read ++ rows ++ [m]).Sublist (pageable E projectId beforeTs inception)) :
    sharedRow projectId agentId limit beforeTs window
        (pageAfter agentId limit inception window read rows) m =
      .ok (pageAfter agentId limit inception window read (rows ++ [m])) := by
  have hmem : m ∈ pageable E projectId beforeTs inception := hsub.subset (by simp)
  obtain ⟨hproject, habove, hcutoff⟩ := of_mem_pageable hmem
  have hsorted := (pageable_sorted E projectId beforeTs inception).sublist hsub
  have hlast : ¬ m.createdTs < lastTs inception (read ++ rows) := by
    refine Int.not_lt.mpr (lastTs_le hsorted ?_ (mem_singleton_self m))
    intro x hx
    rw [mem_singleton.mp hx]
    exact habove
  have hnew : m.id ∉ rows.map (·.id) := by
    have hnodup := (nodup_pageable E projectId beforeTs inception).sublist (hsub.map _)
    rw [map_append, map_append, nodup_append] at hnodup
    intro hin
    exact hnodup.2.2 m.id (mem_append_right _ hin) m.id (by simp) rfl
  have hroom : ¬ i64Max < (ackMark inception (read ++ rows)).skip + 1 := by
    have hskip : (ackMark inception (read ++ rows)).skip ≤ (read ++ rows).length :=
      skip_markFrom_le (pairwise_append.mp hsorted).1
    have hlength := hsub.length_le
    rw [length_append, length_singleton] at hlength
    have := length_pageable E projectId beforeTs inception
    omega
  have hentries : m.id ∉ ((rows.filter (wantedHeader agentId limit window)).map
      fun m => (m.id, m.createdTs)).map (·.1) := by
    rw [map_map]
    intro hin
    obtain ⟨x, hx, hid⟩ := mem_map.mp hin
    exact hnew (mem_map.mpr ⟨x, (mem_filter.mp hx).1, hid⟩)
  have hseen : (rows.map (·.id)).contains m.id = false := by
    rw [← Bool.not_eq_true, contains_iff_mem]
    exact hnew
  have hforeign : (m.projectId != projectId) = false := by
    rw [hproject]
    exact bne_self_eq_false _
  have hwanted : (m.senderId != agentId && m.ackRequired == 1 &&
      admits limit window (toLex (m.createdTs, m.id))) = wantedHeader agentId limit window m := rfl
  unfold sharedRow pageAfter
  dsimp only
  rw [decide_eq_false hlast, hcutoff, hforeign, hseen, Bool.not_true, Bool.or_false, Bool.or_false,
    Bool.or_false, if_neg Bool.false_ne_true, if_neg fun h => hroom h.2, Assoc.insert_of_new hentries, hwanted,
    ← append_assoc, skip_ackMark_concat, filter_append, map_append, map_append]
  have hts : lastTs inception (read ++ rows ++ [m]) = m.createdTs := by
    rw [lastTs, List.getLast?_concat]
    rfl
  rw [hts]
  cases hkeep : wantedHeader agentId limit window m <;> simp [hkeep]

/-- A page of headers is read without an error. -/
theorem sharedRows_eq_ok {window : OldestWindow}
    (hsub : (read ++ rows).Sublist (pageable E projectId beforeTs inception)) :
    rows.foldlM (sharedRow projectId agentId limit beforeTs window)
        { last := lastTs inception read, trailing := (ackMark inception read).skip, seen := [],
          headers := [] } = .ok (pageAfter agentId limit inception window read rows) := by
  have hstart : pageAfter agentId limit inception window read [] =
      { last := lastTs inception read, trailing := (ackMark inception read).skip, seen := [],
        headers := [] } := by
    rw [pageAfter, append_nil]
    rfl
  have hfold : ∃ page, rows.foldlM (sharedRow projectId agentId limit beforeTs window)
      (pageAfter agentId limit inception window read []) = .ok page ∧
      page = pageAfter agentId limit inception window read rows := by
    apply foldlM_eq_ok (I := fun front s => s = pageAfter agentId limit inception window read front)
    · intro front m back s hsplit hs
      refine ⟨_, ?_, rfl⟩
      rw [hs]
      refine sharedRow_eq_ok (List.Sublist.trans ?_ hsub)
      rw [hsplit, append_assoc]
      refine (List.Sublist.refl read).append ((List.Sublist.refl front).append ?_)
      exact singleton_sublist.mpr (mem_cons_self ..)
    · rfl
  obtain ⟨page, hpage, rfl⟩ := hfold
  rw [← hstart]
  exact hpage

/-! ### The rows of the reference -/

theorem id_of_directAck {c : AckEntry} (h : directAck M projectId agentId beforeTs m = some c) :
    c.id = m.id ∧ M.isRecipient m.id agentId = true := by
  rw [directAck, Option.bind_eq_some_iff] at h
  obtain ⟨r, hr, h⟩ := h
  rw [isRecipient_eq, hr]
  split at h
  · cases h
    exact ⟨rfl, rfl⟩
  · cases h

/-- The shared rows by the steps of the walk. -/
theorem sharedAck_eq {viewer : Agent} (h : CanView M projectId agentId viewer)
    (hm : m ∈ pageable E projectId beforeTs viewer.inceptionTs) :
    sharedAck M projectId agentId beforeTs m = if m.senderId != agentId && m.ackRequired == 1 &&
          (delivered M projectId m.id && !M.isRecipient m.id agentId) then
        deliveryEntry M agentId (m.id, m.createdTs)
      else none := by
  obtain ⟨hproject, habove, hcutoff⟩ := of_mem_pageable hm
  rw [sharedAck, delivered, deliveryEntry, h.found]
  cases hd : M.delivery? m.id with
  | none => simp
  | some d =>
    rw [Mailbox.delivery?, find?_key_eq_some M.deliveries_nodup] at hd
    have hvisible := visibleToViewer_of_canView h hproject hd.2
    rw [decide_eq_true habove] at hvisible
    have hsteps (ackTs : Option Int) : (d.projectId == projectId && m.ackRequired == 1 &&
        ackTs.isNone && M.visibleToViewer viewer d m && beforeCutoff beforeTs m) =
        ((m.senderId != agentId && m.ackRequired == 1 &&
          (d.projectId == projectId && !M.isRecipient m.id agentId)) && ackTs.isNone) := by
      rw [hcutoff]
      grind
    simp only [Option.bind_some, Option.any_some, hsteps]
    cases (M.mailboxReceipt? agentId m.id).bind (·.ackTs) <;>
      cases m.senderId != agentId && m.ackRequired == 1 &&
        (d.projectId == projectId && !M.isRecipient m.id agentId) <;> rfl

/-- Every shared row is of a visible delivery, which the viewer does not have directly. -/
theorem of_sharedAck {c : AckEntry} (h : sharedAck M projectId agentId beforeTs m = some c) :
    c.id = m.id ∧ M.isRecipient m.id agentId = false ∧ m.projectId = projectId ∧
      beforeCutoff beforeTs m = true ∧
      ∃ viewer d, M.agent? agentId = some viewer ∧ M.delivery? m.id = some d ∧
        d.projectId = projectId ∧ M.visibleToViewer viewer d m = true := by
  rw [sharedAck, Option.bind_eq_some_iff] at h
  obtain ⟨d, hd, h⟩ := h
  rw [Option.bind_eq_some_iff] at h
  obtain ⟨viewer, hviewer, h⟩ := h
  dsimp only at h
  split at h
  · next hrow =>
    cases h
    simp only [Bool.and_eq_true, beq_iff_eq] at hrow
    have hvisible := hrow.1.2
    have hdid : d.messageId = m.id := ((find?_key_eq_some M.deliveries_nodup).mp hd).2
    have hvid : viewer.id = agentId := ((find?_key_eq_some M.agents_nodup).mp hviewer).2
    have hdproject := hrow.1.1.1.1
    rw [Mailbox.visibleToViewer, hdid, hvid] at hvisible
    simp only [Bool.and_eq_true, beq_iff_eq, Bool.not_eq_true'] at hvisible
    refine ⟨rfl, hvisible.2, ?_, hrow.2, viewer, d, hviewer, hd, hdproject, hrow.1.2⟩
    exact hvisible.1.1.1.1.1.2.trans hdproject
  · cases h

/-- No message is pending both directly and from the shared mailbox. -/
theorem nodup_pendingAcks : ((pendingAcks M projectId agentId beforeTs).map (·.id)).Nodup := by
  have hdirect : ((M.messages.filterMap (directAck M projectId agentId beforeTs)).map (·.id)).Sublist
      (M.messages.map (·.id)) := map_filterMap_sublist (fun _ _ h => (id_of_directAck h).1) _
  have hshared : ((M.messages.filterMap (sharedAck M projectId agentId beforeTs)).map (·.id)).Sublist
      (M.messages.map (·.id)) := map_filterMap_sublist (fun _ _ h => (of_sharedAck h).1) _
  rw [pendingAcks, map_append, nodup_append]
  refine ⟨M.messages_nodup.sublist hdirect, M.messages_nodup.sublist hshared, ?_⟩
  intro i hi j hj hij
  obtain ⟨c, hc, rfl⟩ := mem_map.mp hi
  obtain ⟨c', hc', rfl⟩ := mem_map.mp hj
  obtain ⟨m, -, hm⟩ := mem_filterMap.mp hc
  obtain ⟨m', -, hm'⟩ := mem_filterMap.mp hc'
  have hrecipient := (id_of_directAck hm).2
  have hnone := (of_sharedAck hm').2.1
  rw [← (id_of_directAck hm).1, hij, (of_sharedAck hm').1, hnone] at hrecipient
  cases hrecipient

/-! ### The walk -/

section

variable {viewer : Agent}

/-- The shared rows are of pageable headers. -/
theorem sharedAck_pageable (h : CanView M projectId agentId viewer) :
    (pageable E projectId beforeTs viewer.inceptionTs).filterMap
        (sharedAck M projectId agentId beforeTs) ~
      M.messages.filterMap (sharedAck M projectId agentId beforeTs) := by
  have hlisting : pageable E projectId beforeTs viewer.inceptionTs ~
      M.messages.filter fun m => (decide (viewer.inceptionTs ≤ m.createdTs) &&
        beforeCutoff beforeTs m) && m.projectId == projectId := by
    rw [← filter_filter]
    exact (E.oldest_perm projectId).filter _
  refine (hlisting.filterMap _).trans (List.Perm.of_eq ?_)
  rw [filterMap_filter]
  apply filterMap_congr
  intro m _
  split
  · rfl
  · next hout =>
    cases hrow : sharedAck M projectId agentId beforeTs m with
    | none => rfl
    | some c =>
      obtain ⟨-, -, hproject, hcutoff, found, d, hfound, -, -, hvisible⟩ := of_sharedAck hrow
      rw [h.found, Option.some.injEq] at hfound
      rw [← hfound, Mailbox.visibleToViewer] at hvisible
      simp only [Bool.and_eq_true, decide_eq_true_eq] at hvisible
      rw [hcutoff, hproject, decide_eq_true hvisible.1.1.2] at hout
      simp at hout

/-- What the walk has collected after `read`. -/
def collected (M : Mailbox) (projectId agentId : Int) (beforeTs : Option Int) (read : List Message) :
    List AckEntry :=
  M.messages.filterMap (directAck M projectId agentId beforeTs) ++
    read.filterMap (sharedAck M projectId agentId beforeTs)

theorem collected_append : collected M projectId agentId beforeTs (read ++ rows) =
    collected M projectId agentId beforeTs read ++
      rows.filterMap (sharedAck M projectId agentId beforeTs) := by
  rw [collected, collected, filterMap_append, append_assoc]

section

variable (h : CanView M projectId agentId viewer)
include h

theorem nodup_collected
    (hsub : read.Sublist (pageable E projectId beforeTs viewer.inceptionTs)) :
    ((collected M projectId agentId beforeTs read).map AckEntry.oldestFirst).Nodup := by
  apply nodup_oldestFirst
  have hall : ((collected M projectId agentId beforeTs
      (pageable E projectId beforeTs viewer.inceptionTs)).map (·.id)).Nodup :=
    (((sharedAck_pageable h).append_left _).map _).nodup_iff.mpr nodup_pendingAcks
  exact hall.sublist (((List.Sublist.refl _).append (hsub.filterMap _)).map _)

/-- The deliveries that a page looks up are its shared rows, but for those that cannot enter. -/
theorem deliveryEntry_wanted
    (hrows : ∀ m ∈ rows, m ∈ pageable E projectId beforeTs viewer.inceptionTs)
    (window : OldestWindow) :
    (((rows.filter (wantedHeader agentId limit window)).map fun m => (m.id, m.createdTs)).filter
        fun e => delivered M projectId e.1 && !M.isRecipient e.1 agentId).filterMap
          (deliveryEntry M agentId) =
      (rows.filterMap (sharedAck M projectId agentId beforeTs)).filter
        fun c => admits limit window c.key := by
  rw [filter_map, filterMap_map, filter_filter, filterMap_filter, filter_filterMap]
  apply filterMap_congr
  intro m hm
  rw [sharedAck_eq h (hrows m hm)]
  show (if ((delivered M projectId m.id && !M.isRecipient m.id agentId) &&
      (m.senderId != agentId && m.ackRequired == 1 &&
        admits limit window (toLex (m.createdTs, m.id)))) = true then
      deliveryEntry M agentId (m.id, m.createdTs) else none) = Option.filter _ _
  have hkey (c : AckEntry) (hc : deliveryEntry M agentId (m.id, m.createdTs) = some c) :
      c.key = toLex (m.createdTs, m.id) := by
    rw [deliveryEntry] at hc
    split at hc
    · cases hc
    · cases hc
      rfl
  cases hentry : deliveryEntry M agentId (m.id, m.createdTs) with
  | none => simp
  | some c =>
    by_cases hrow : (m.senderId != agentId && m.ackRequired == 1 &&
        (delivered M projectId m.id && !M.isRecipient m.id agentId)) = true
    · rw [if_pos hrow, Option.filter_some, hkey c hentry]
      rw [Bool.and_eq_true] at hrow
      rw [hrow.1, hrow.2, Bool.true_and, Bool.true_and]
    · rw [if_neg hrow, Option.filter_none, if_neg]
      intro hall
      simp only [Bool.and_eq_true] at hall hrow
      exact hrow ⟨hall.2.1, hall.1⟩

/-- A page adds the shared rows of its headers to the window. -/
theorem sharedPageHeaders_eq_ok
    (hsub : (read ++ rows).Sublist (pageable E projectId beforeTs viewer.inceptionTs)) :
    sharedHeaders E projectId agentId limit
        (pageAfter agentId limit viewer.inceptionTs
          (oldestTop limit (collected M projectId agentId beforeTs read)) read rows).headers
        (oldestTop limit (collected M projectId agentId beforeTs read)) =
      .ok (oldestTop limit (collected M projectId agentId beforeTs (read ++ rows))) := by
  have hkeys := nodup_collected h hsub
  rw [collected_append] at hkeys ⊢
  have hrows (m : Message) (hm : m ∈ rows) :
      m ∈ pageable E projectId beforeTs viewer.inceptionTs :=
    hsub.subset (mem_append_right _ hm)
  generalize collected M projectId agentId beforeTs read = old at hkeys ⊢
  have hwanted := @deliveryEntry_wanted M E projectId agentId limit beforeTs rows viewer h hrows
    (oldestTop limit old)
  have hheaders : ((pageAfter agentId limit viewer.inceptionTs (oldestTop limit old) read
      rows).headers.map (·.1)).Nodup := by
    have hids := (nodup_pageable E projectId beforeTs viewer.inceptionTs).sublist (hsub.map _)
    rw [map_append] at hids
    rw [pageAfter, map_map]
    exact hids.of_append_right.sublist (filter_sublist.map _)
  have hkept : ((old ++ (rows.filterMap (sharedAck M projectId agentId beforeTs)).filter
      fun c => admits limit (oldestTop limit old) c.key).map AckEntry.oldestFirst).Nodup :=
    hkeys.sublist ((filter_sublist.append_left old).map _)
  rw [← hwanted] at hkept
  refine (sharedHeaders_eq_ok hheaders hkept).trans (congrArg Except.ok ?_)
  rw [pageAfter, hwanted]
  apply Window.top_append_filter limit hkeys
  intro c hc hout
  rw [admits_eq] at hout
  refine Window.older_of_not_offered ?_ hout
  have hperm : old ++ rows.filterMap (sharedAck M projectId agentId beforeTs) ~
      rows.filterMap (sharedAck M projectId agentId beforeTs) ++ old := perm_append_comm
  have hcomm := (hperm.map AckEntry.oldestFirst).nodup_iff.mp hkeys
  exact hcomm.sublist (((singleton_sublist.mpr hc).append_right old).map _)

/-- A full window before the last header read admits nothing later. -/
theorem oldestTop_of_complete
    (hlisting : pageable E projectId beforeTs viewer.inceptionTs = read ++ rest)
    (hfull : (oldestTop limit (collected M projectId agentId beforeTs read)).length = limit)
    (hlast : (oldestTop limit (collected M projectId agentId beforeTs read)).getLast?.any
      (fun old => decide (old.createdTs < lastTs viewer.inceptionTs read)) = true) :
    oldestTop limit (collected M projectId agentId beforeTs (read ++ rest)) =
      oldestTop limit (collected M projectId agentId beforeTs read) := by
  have hkeys := nodup_collected h (List.Sublist.refl (pageable E projectId beforeTs viewer.inceptionTs))
  have hsorted := pageable_sorted E projectId beforeTs viewer.inceptionTs
  rw [hlisting] at hsorted hkeys
  rw [collected_append] at hkeys ⊢
  apply Window.top_append_of_older hkeys hfull
  intro later hlater entry hmem
  have hentry : entry ∈ oldestTop limit (collected M projectId agentId beforeTs read) := hmem
  obtain ⟨m, hm, hrow⟩ := mem_filterMap.mp hlater
  have hmem : m ∈ pageable E projectId beforeTs viewer.inceptionTs := by
    rw [hlisting]
    exact mem_append_right _ hm
  have habove (x : Message) (hx : x ∈ rest) : viewer.inceptionTs ≤ x.createdTs := by
    have hmem : x ∈ pageable E projectId beforeTs viewer.inceptionTs := by
      rw [hlisting]
      exact mem_append_right _ hx
    exact (of_mem_pageable hmem).2.1
  have hts : later.createdTs = m.createdTs := by
    rw [sharedAck_eq h hmem] at hrow
    split at hrow
    · rw [deliveryEntry] at hrow
      split at hrow
      · cases hrow
      · cases hrow
        rfl
    · cases hrow
  have hbelow := lastTs_le hsorted habove hm
  rw [Option.any_eq_true] at hlast
  obtain ⟨old, hold, hlt⟩ := hlast
  rw [decide_eq_true_eq] at hlt
  have hentryTs : entry.createdTs ≤ old.createdTs := by
    rw [map_append] at hkeys
    have hdesc : Window.Descending AckEntry.oldestFirst
        (oldestTop limit (collected M projectId agentId beforeTs read)) :=
      Window.descending_top limit hkeys.of_append_left
    obtain ⟨front, hfront⟩ := List.getLast?_eq_some_iff.mp hold
    rw [hfront] at hdesc hentry
    rcases mem_append.mp hentry with hfrontmem | hback
    · have hlt := (pairwise_append.mp hdesc).2.2 entry hfrontmem old (mem_singleton_self _)
      have hkey : entry.key < old.key := hlt
      exact Prod.Lex.monotone_fst _ _ (le_of_lt hkey)
    · rw [mem_singleton.mp hback]
  show entry.key < later.key
  rw [AckEntry.key, AckEntry.key, Prod.Lex.toLex_lt_toLex]
  left
  show entry.createdTs < later.createdTs
  omega

/-- The shared walk collects the shared rows of all headers. -/
theorem ackWalk_eq_ok :
    iterate (ackStep E projectId agentId limit beforeTs) .outOfFuel
        ((E.oldest projectId).length + 1)
        { floor := viewer.inceptionTs, skipAtFloor := 0, window := oldestTop limit
            (M.messages.filterMap (directAck M projectId agentId beforeTs)) } =
      .ok (oldestTop limit (pendingAcks M projectId agentId beforeTs)) := by
  have hresult : oldestTop limit (collected M projectId agentId beforeTs
      (pageable E projectId beforeTs viewer.inceptionTs)) =
      oldestTop limit (pendingAcks M projectId agentId beforeTs) :=
    Window.top_congr limit ((sharedAck_pageable h).append_left _)
      (nodup_collected h (List.Sublist.refl _))
  let walk (read : List Message) : AckWalk :=
    { floor := lastTs viewer.inceptionTs read
      skipAtFloor := (ackMark viewer.inceptionTs read).skip
      window := oldestTop limit (collected M projectId agentId beforeTs read) }
  obtain ⟨window, hok, rfl⟩ : ∃ window, iterate (ackStep E projectId agentId limit beforeTs)
      .outOfFuel ((E.oldest projectId).length + 1) (walk []) = .ok window ∧
      window = oldestTop limit (pendingAcks M projectId agentId beforeTs) := by
    apply iterate_eq_ok (I := fun s => ∃ read rest,
        pageable E projectId beforeTs viewer.inceptionTs = read ++ rest ∧ s = walk read)
      fun s => (remaining Message.oldestFirst (pageable E projectId beforeTs viewer.inceptionTs)
        { ceiling := some (OrderDual.toDual s.floor), skip := s.skipAtFloor }).length
    · rintro s ⟨read, rest, hlisting, rfl⟩
      have hsplit : pageable E projectId beforeTs viewer.inceptionTs =
          (read ++ rest.take 128) ++ rest.drop 128 := by
        rw [hlisting, append_assoc, take_append_drop]
      have hsub : (read ++ rest.take 128).Sublist
          (pageable E projectId beforeTs viewer.inceptionTs) :=
        hsplit ▸ sublist_append_left ..
      have hnow := remaining_ackMark hlisting
      have hnext := remaining_ackMark hsplit
      rw [ackMark_eq] at hnow hnext
      simp only [walk]
      unfold ackStep
      dsimp only
      rw [oldestPage_eq hlisting, if_neg (by rw [length_take, sharedPageSize]; omega),
        sharedRows_eq_ok hsub]
      dsimp only [bind, Except.bind]
      rw [sharedPageHeaders_eq_ok h hsub]
      dsimp only
      split
      · next hstop =>
        left
        refine ⟨_, rfl, ?_⟩
        rw [← hresult, hsplit]
        rw [Bool.or_eq_true, decide_eq_true_eq, Bool.and_eq_true, beq_iff_eq] at hstop
        rcases hstop with hshort | ⟨hfull, hlast⟩
        · have hdone : rest.drop 128 = [] := by
            rw [length_take, sharedPageSize] at hshort
            exact drop_eq_nil_of_le (by omega)
          rw [hdone, append_nil]
        · exact (oldestTop_of_complete h hsplit hfull hlast).symm
      · next hmore =>
        right
        have hlong : 128 ≤ rest.length := by
          rw [Bool.or_eq_true, decide_eq_true_eq, not_or] at hmore
          have hlength := hmore.1
          rw [length_take, sharedPageSize] at hlength
          omega
        have hshrinks := congrArg List.length hnext
        rw [length_drop, ← congrArg List.length hnow] at hshrinks
        have hleft := congrArg List.length hnow
        rw [if_neg]
        · refine ⟨_, rfl, ⟨_, _, hsplit, rfl⟩, Nat.lt_of_le_of_lt (Nat.le_of_eq hshrinks) ?_⟩
          show _ < (remaining Message.oldestFirst (pageable E projectId beforeTs viewer.inceptionTs)
            _).length
          omega
        · -- At the same position as before, no less would be left than before the page.
          rintro ⟨hsame, hskip⟩
          have hfloor : lastTs viewer.inceptionTs (read ++ rest.take 128) =
              lastTs viewer.inceptionTs read := hsame
          have hnoless : (ackMark viewer.inceptionTs (read ++ rest.take 128)).skip ≤
              (ackMark viewer.inceptionTs read).skip := hskip
          rw [hfloor, remaining, remaining, length_drop, length_drop] at hshrinks
          rw [remaining, length_drop] at hleft
          dsimp only at hshrinks hleft
          omega
    · have hle : (remaining Message.oldestFirst (pageable E projectId beforeTs viewer.inceptionTs)
          { ceiling := some (OrderDual.toDual (walk []).floor),
            skip := (walk []).skipAtFloor }).length ≤ (E.oldest projectId).length := by
        rw [remaining, length_drop]
        refine (Nat.sub_le _ _).trans ((length_filter_le ..).trans ?_)
        exact (pageable_sublist E projectId beforeTs viewer.inceptionTs).length_le
      exact Nat.lt_succ_of_le hle
    · exact ⟨[], _, rfl, rfl⟩
  have hstart : walk [] = {
      floor := viewer.inceptionTs, skipAtFloor := 0, window := oldestTop limit
          (M.messages.filterMap (directAck M projectId agentId beforeTs)) } := by
    simp only [walk, collected, filterMap_nil, append_nil]
    rfl
  rw [← hstart]
  exact hok

end

end

/-- Without a shared row, the direct window is that of the reference. -/
theorem pendingAcks_of_none (h : ∀ m, sharedAck M projectId agentId beforeTs m = none) :
    pendingAcks M projectId agentId beforeTs =
      M.messages.filterMap (directAck M projectId agentId beforeTs) := by
  have hnone : M.messages.filterMap (sharedAck M projectId agentId beforeTs) = [] := by
    rw [filterMap_eq_nil_iff]
    exact fun m _ => h m
  rw [pendingAcks, hnone, append_nil]

/-- The window of pending acknowledgements is that of the relational query, with each message
once. -/
theorem unackedWindow_exact :
    unackedWindow E projectId agentId limit beforeTs =
        .ok (selectionQuery M projectId agentId beforeTs limit) ∧
      ((selectionQuery M projectId agentId beforeTs limit).map (·.id)).Nodup := by
  have hwindow : selectionQuery M projectId agentId beforeTs limit =
      oldestTop limit (pendingAcks M projectId agentId beforeTs) := rfl
  constructor
  · rw [hwindow]
    unfold unackedWindow
    rw [directWindow_eq_ok]
    dsimp only [bind, Except.bind]
    split
    · unfold extendSharedWindow
      cases hfound : M.agent? agentId with
      | none =>
        rw [pendingAcks_of_none]
        intro m
        rw [sharedAck, hfound]
        cases M.delivery? m.id <;> rfl
      | some viewer =>
        dsimp only
        split
        · next hblocked =>
          rw [pendingAcks_of_none]
          intro m
          cases hrow : sharedAck M projectId agentId beforeTs m with
          | none => rfl
          | some c =>
            obtain ⟨-, -, -, -, found, d, hagent, -, hdproject, hvisible⟩ := of_sharedAck hrow
            rw [hfound, Option.some.injEq] at hagent
            have hhidden := not_visible_of_blocked (M := M) hblocked d m
            rw [hagent, hvisible, hdproject, BEq.rfl] at hhidden
            cases hhidden
        · next hview =>
          rw [Bool.or_eq_true, Bool.or_eq_true, bne_iff_ne, not_or, not_or, not_not] at hview
          exact ackWalk_eq_ok
            ⟨hfound, hview.1.1, by simpa using hview.1.2, by simpa using hview.2⟩
    · next hany =>
      rw [pendingAcks_of_none]
      intro m
      cases hrow : sharedAck M projectId agentId beforeTs m with
      | none => rfl
      | some c =>
        obtain ⟨-, -, -, -, -, d, -, hd, hdproject, -⟩ := of_sharedAck hrow
        exact absurd (any_eq_true.mpr ⟨d, mem_of_find?_eq_some hd, by
          rw [hdproject, BEq.rfl]⟩) hany
  · rw [hwindow]
    have hsorted := (@Window.sort_perm _ _ _ AckEntry.oldestFirst
      (pendingAcks M projectId agentId beforeTs)).map (·.id)
    exact (hsorted.nodup_iff.mpr nodup_pendingAcks).sublist ((take_sublist ..).map _)

end

/-! ### An engine without choices -/

/-- Messages sorted by their creation time, ties in table order. -/
def plainAckEngine (M : Mailbox) (capacity : (M.messages.length : Int) ≤ i64Max) : AckEngine M where
  toEngine := plainEngine M (fun _ => none) capacity
  oldest projectId := (M.messages.filter (·.projectId == projectId)).mergeSort
    fun a b => decide (a.createdTs ≤ b.createdTs)
  oldest_perm projectId := mergeSort_perm ..
  oldest_sorted projectId := by
    have htrans (a b c : Message) (hab : decide (a.createdTs ≤ b.createdTs) = true)
        (hbc : decide (b.createdTs ≤ c.createdTs) = true) : decide (a.createdTs ≤ c.createdTs) = true := by
      rw [decide_eq_true_eq] at *
      omega
    have htotal (a b : Message) :
        (decide (a.createdTs ≤ b.createdTs) || decide (b.createdTs ≤ a.createdTs)) = true := by
      rw [Bool.or_eq_true, decide_eq_true_eq, decide_eq_true_eq]
      omega
    exact (pairwise_mergeSort htrans htotal _).imp fun h => of_decide_eq_true h

theorem unackedWindow_exact_sample :
    unackedWindow (plainAckEngine sampleMailbox (by decide)) 1 2 5 none =
      .ok (selectionQuery sampleMailbox 1 2 none 5) :=
  unackedWindow_exact.1

end AgentMail.Inbox
