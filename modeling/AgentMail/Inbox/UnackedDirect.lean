import AgentMail.Inbox.ReceiptScan
import AgentMail.Inbox.UnackedInbox

/-!
# The direct window of pending acknowledgements

`direct_window` returns the oldest direct rows of the reference.
-/

namespace AgentMail.Inbox

open Base Lib
open List

/-! ### Keeping the oldest -/

/-- Ascending keys are descending in the reversed order. -/
def AckEntry.oldestFirst (c : AckEntry) : (Int ×ₗ Int)ᵒᵈ := OrderDual.toDual c.key

/-- The oldest `limit` of some entries. -/
abbrev oldestTop (limit : Nat) (l : List AckEntry) : OldestWindow :=
  Window.top AckEntry.oldestFirst limit l

theorem admits_eq (limit : Nat) (window : OldestWindow) (c : AckEntry) :
    admits limit window c.key = (window.length < limit || window.getLast?.any fun old =>
      decide (old.oldestFirst < c.oldestFirst)) := rfl

theorem keepOldest_top {limit : Nat} {l : List AckEntry} {c : AckEntry}
    (h : ((c :: l).map AckEntry.oldestFirst).Nodup) :
    keepOldest limit (oldestTop limit l) c = oldestTop limit (c :: l) := by
  rw [oldestTop, oldestTop, ← Window.offer_top limit h]
  -- The key is not in the map, so the insertion replaces nothing.
  have hnew : (Window.top AckEntry.oldestFirst limit l).filter
      (fun old => decide (old.key ≠ c.key)) = Window.top AckEntry.oldestFirst limit l := by
    rw [filter_eq_self]
    intro old hold
    rw [decide_eq_true_eq]
    intro heq
    rw [map_cons, nodup_cons] at h
    have hsame : old.oldestFirst = c.oldestFirst := heq
    exact h.1 (hsame ▸ mem_map_of_mem (Window.mem_of_mem_top hold))
  unfold keepOldest
  rw [hnew, admits_eq]
  rfl

/-- Entries with new keys enter the window in any order. -/
theorem foldl_keepOldest {limit : Nat} {old new new' : List AckEntry} (hp : new'.Perm new)
    (h : ((old ++ new).map AckEntry.oldestFirst).Nodup) :
    new'.foldl (keepOldest limit) (oldestTop limit old) = oldestTop limit (old ++ new) := by
  have hperm : (old ++ new').Perm (old ++ new) := hp.append_left old
  have h' : ((old ++ new').map AckEntry.oldestFirst).Nodup := (hperm.map _).nodup_iff.mpr h
  rw [oldestTop, Window.foldl_top (fun _ _ hx => keepOldest_top hx) h',
    Window.top_congr limit hperm h']

/-- An entry that may be missing. -/
def keepSome (limit : Nat) (window : OldestWindow) : Option AckEntry → OldestWindow
  | some c => keepOldest limit window c
  | none => window

theorem foldl_keepSome {α : Type} (limit : Nat) (f : α → Option AckEntry) (l : List α)
    (window : OldestWindow) :
    l.foldl (fun window x => keepSome limit window (f x)) window =
      (l.filterMap f).foldl (keepOldest limit) window := by
  induction l generalizing window with
  | nil => rfl
  | cons x l ih =>
    rw [foldl_cons, ih, filterMap_cons]
    cases f x <;> rfl

theorem nodup_oldestFirst {l : List AckEntry} (h : (l.map (·.id)).Nodup) :
    (l.map AckEntry.oldestFirst).Nodup := by
  rw [nodup_iff_pairwise_ne, pairwise_map] at h ⊢
  refine h.imp ?_
  intro a b hne heq
  have hkey : a.key = b.key := heq
  exact hne (congrArg (fun k => (ofLex k).2) hkey)

/-! ### A page of receipts -/

section

variable {M : Mailbox} {E : AckEngine M} {projectId agentId : Int} {limit : Nat}
  {beforeTs : Option Int}

/-- The receipts of a page whose headers are looked up. -/
def pendingRows (rows : List Recipient) : List (Int × AckReceipt) :=
  (rows.filter (·.ackTs.isNone)).map fun r => (r.messageId, ⟨r.kind, r.readTs⟩)

theorem keys_pendingRows (rows : List Recipient) :
    ((pendingRows rows).map (·.1)).Sublist (rows.map (·.messageId)) := by
  rw [pendingRows, map_map]
  exact filter_sublist.map _

theorem pendingRows_append (rows more : List Recipient) :
    pendingRows (rows ++ more) = pendingRows rows ++ pendingRows more := by
  rw [pendingRows, filter_append, map_append]
  rfl

theorem directRows_eq_ok {read rows : List Recipient}
    (hsorted : (read ++ rows).Pairwise fun a b => a.messageId < b.messageId) :
    rows.foldlM directRow { after := read.getLast?.map (·.messageId), pending := [] } =
      .ok { after := (read ++ rows).getLast?.map (·.messageId), pending := pendingRows rows } := by
  obtain ⟨s, hs, rfl⟩ := foldlM_eq_ok (f := directRow) (l := rows)
    (I := fun front s => s =
      { after := (read ++ front).getLast?.map (·.messageId), pending := pendingRows front })
    (s := { after := read.getLast?.map (·.messageId), pending := [] })
    (by
      intro front r back s hrows hs
      refine ⟨_, ?_, rfl⟩
      rw [hrows, ← append_assoc, append_cons] at hsorted
      have hprefix := (pairwise_append.mp hsorted).1
      have hadvance : ((read ++ front).getLast?.map (·.messageId)).any
          (fun previous => decide (r.messageId ≤ previous)) = false := by
        cases hlast : (read ++ front).getLast? with
        | none => rfl
        | some last =>
          have hlt := (pairwise_append.mp hprefix).2.2 last (mem_of_getLast? hlast) r
            (mem_singleton_self r)
          rw [Option.map_some, Option.any_some, decide_eq_false_iff_not]
          omega
      have hnew : r.messageId ∉ (pendingRows front).map (·.1) := by
        intro hmem
        obtain ⟨x, hx, heq⟩ := mem_map.mp ((keys_pendingRows front).subset hmem)
        have hlt := (pairwise_append.mp hprefix).2.2 x (mem_append_right _ hx) r
          (mem_singleton_self r)
        omega
      rw [hs, directRow, hadvance, if_neg Bool.false_ne_true, ← append_assoc,
        List.getLast?_concat, pendingRows_append]
      cases hack : r.ackTs with
      | none =>
        have hone : pendingRows [r] = [(r.messageId, ⟨r.kind, r.readTs⟩)] := by
          simp [pendingRows, hack]
        simp [Assoc.insert_of_new hnew, hone]
      | some ts => simp [pendingRows, hack])
    (by rw [append_nil]; rfl)
  exact hs

/-- The entry of a pending receipt under its header. -/
def headerEntry (projectId : Int) (beforeTs : Option Int) (m : Message) (receipt : AckReceipt) :
    Option AckEntry :=
  if m.projectId == projectId && m.ackRequired == 1 && beforeCutoff beforeTs m then
    some ⟨m.createdTs, m.id, receipt⟩
  else none

/-- The entry of a pending receipt, if its header is there and wanted. -/
def pendingEntry (M : Mailbox) (projectId : Int) (beforeTs : Option Int) (e : Int × AckReceipt) :
    Option AckEntry :=
  (M.messages.find? fun m => m.id == e.1).bind fun m => headerEntry projectId beforeTs m e.2

variable (M projectId beforeTs) in
theorem nodup_pendingEntry {entries : List (Int × AckReceipt)} (h : (entries.map (·.1)).Nodup) :
    ((entries.filterMap (pendingEntry M projectId beforeTs)).map AckEntry.oldestFirst).Nodup := by
  apply nodup_oldestFirst
  refine h.sublist (map_filterMap_sublist ?_ _)
  intro e c hc
  rw [pendingEntry, Option.bind_eq_some_iff] at hc
  obtain ⟨m, hm, hc⟩ := hc
  rw [headerEntry] at hc
  split at hc
  · cases hc
    exact ((find?_key_eq_some M.messages_nodup).mp hm).2
  · cases hc

/-- Looking the pending receipts of a page up adds their entries. -/
theorem directHeaders_eq_ok {done pending : List (Int × AckReceipt)}
    (h : ((done ++ pending).map (·.1)).Nodup) :
    directHeaders E projectId limit beforeTs pending
        (oldestTop limit (done.filterMap (pendingEntry M projectId beforeTs))) =
      .ok (oldestTop limit ((done ++ pending).filterMap (pendingEntry M projectId beforeTs))) := by
  have hpending : (pending.map (·.1)).Nodup := by
    rw [map_append] at h
    exact h.of_append_right
  have hkeys := nodup_pendingEntry M projectId beforeTs h
  rw [filterMap_append] at hkeys ⊢
  generalize done.filterMap (pendingEntry M projectId beforeTs) = old at hkeys ⊢
  unfold directHeaders
  by_cases hempty : pending.isEmpty = true
  · rw [if_pos hempty, List.isEmpty_iff.mp hempty, filterMap_nil, append_nil]
  rw [if_neg hempty]
  have hrows := lookupMessages_perm E.toEngine (pending.map (·.1))
  have hbound : (lookupMessages E.toEngine (pending.map (·.1))).length ≤
      (pending.map (·.1)).length := by
    rw [hrows.length_eq]
    exact length_filter_contains_le M.messages_nodup _
  dsimp only
  rw [if_neg (Nat.not_lt.mpr hbound)]
  generalize lookupMessages E.toEngine (pending.map (·.1)) = rows at hrows ⊢
  have hcontains (m : Message) : (pending.map (·.1)).contains m.id = Assoc.contains m.id pending := by
    rw [Bool.eq_iff_iff, contains_iff_mem, Assoc.contains_iff]
  simp only [hcontains] at hrows
  have hnodup : (rows.map (·.id)).Nodup :=
    (hrows.map _).nodup_iff.mpr (M.messages_nodup.sublist (filter_sublist.map _))
  let keep (w : OldestWindow) (p : Message × AckReceipt) : OldestWindow :=
    keepSome limit w (headerEntry projectId beforeTs p.1 p.2)
  have hstep (entries : List (Int × AckReceipt)) (w : OldestWindow) (m : Message)
      (receipt : AckReceipt) (hreceipt : Assoc.get? m.id entries = some receipt) :
      directHeader projectId limit beforeTs (entries, w) m =
        .ok (Assoc.erase m.id entries, keep w (m, receipt)) := by
    rw [directHeader, hreceipt]
    simp only [keep, headerEntry]
    split
    · rfl
    · rfl
  obtain ⟨left, hfold⟩ := Assoc.foldlM_take hstep hnodup
    (fun m hm => (mem_filter.mp (hrows.mem_iff.mp hm)).2) (oldestTop limit old)
  rw [hfold]
  have hflat (w : OldestWindow) (l : List (Message × AckReceipt)) : l.foldl keep w =
      (l.filterMap fun p => headerEntry projectId beforeTs p.1 p.2).foldl (keepOldest limit) w :=
    foldl_keepSome limit _ l w
  refine congrArg Except.ok ((hflat _ _).trans (foldl_keepOldest ?_ hkeys))
  rw [filterMap_filterMap]
  refine List.Perm.trans (List.Perm.of_eq ?_) (filterMap_lookup_perm M.messages_nodup hpending hrows
    (fun _ => Assoc.contains_iff) fun m e => headerEntry projectId beforeTs m e.2)
  apply filterMap_congr
  intro m _
  rw [Assoc.get?]
  cases pending.find? (fun e => e.1 == m.id) <;> rfl

/-! ### The scan -/

/-- The pending receipts with a wanted header are the direct rows of the reference. -/
theorem pendingEntry_perm :
    (pendingRows (receiptOrder M agentId)).filterMap (pendingEntry M projectId beforeTs) ~
      M.messages.filterMap (directAck M projectId agentId beforeTs) := by
  let pick (r : Recipient) (m : Message) : Option AckEntry :=
    if r.ackTs.isNone then headerEntry projectId beforeTs m ⟨r.kind, r.readTs⟩ else none
  calc (pendingRows (receiptOrder M agentId)).filterMap (pendingEntry M projectId beforeTs)
      = (receiptOrder M agentId).filterMap fun r =>
          (M.messages.find? fun m => m.id == r.messageId).bind (pick r) := by
        rw [pendingRows, filterMap_map, filterMap_filter]
        apply filterMap_congr
        intro r _
        simp only [Function.comp_apply, pendingEntry, pick]
        cases r.ackTs with
        | none => rfl
        | some ts => cases M.messages.find? (fun m => m.id == r.messageId) <;> rfl
    _ ~ M.messages.filterMap fun m =>
          ((M.recipientsOf agentId).find? fun r => r.messageId == m.id).bind fun r => pick r m :=
        filterMap_receiptOrder pick
    _ = M.messages.filterMap (directAck M projectId agentId beforeTs) := by
        apply filterMap_congr
        intro m _
        rw [directAck, Mailbox.recipient?]
        congr 1
        funext r
        simp only [pick, headerEntry]
        cases r.ackTs with
        | none => simp
        | some ts => simp

/-- `direct_window` returns the oldest direct rows. -/
theorem directWindow_eq_ok : directWindow E projectId agentId limit beforeTs =
    .ok (oldestTop limit (M.messages.filterMap (directAck M projectId agentId beforeTs))) := by
  have hids : ((receiptOrder M agentId).map (·.messageId)).Nodup :=
    (receiptOrder_perm.map _).nodup_iff.mpr nodup_recipientsOf
  have hpending {rows : List Recipient} (hsub : rows.Sublist (receiptOrder M agentId)) :
      ((pendingRows rows).map (·.1)).Nodup :=
    hids.sublist ((keys_pendingRows rows).trans (hsub.map _))
  obtain ⟨window, hok, rfl⟩ : ∃ window, directWindow E projectId agentId limit beforeTs = .ok window ∧
      window = oldestTop limit (M.messages.filterMap (directAck M projectId agentId beforeTs)) := by
    unfold directWindow
    apply iterate_eq_ok (I := fun s => ∃ read rest, receiptOrder M agentId = read ++ rest ∧
        s = { after := read.getLast?.map (·.messageId), window := oldestTop limit
                ((pendingRows read).filterMap (pendingEntry M projectId beforeTs)) })
      fun s => (recipientsAfter M agentId s.after).length
    · rintro s ⟨read, rest, horder, rfl⟩
      have hsplit : receiptOrder M agentId = (read ++ rest.take pageSize) ++ rest.drop pageSize := by
        rw [horder, append_assoc, take_append_drop]
      have hsub : (read ++ rest.take pageSize).Sublist (receiptOrder M agentId) :=
        hsplit ▸ sublist_append_left ..
      have hheaders := @directHeaders_eq_ok M E projectId limit beforeTs _ _
        (pendingRows_append read (rest.take pageSize) ▸ hpending hsub)
      unfold directStep
      dsimp only
      rw [recipientPageOrdered_eq horder, if_neg (by rw [length_take]; omega),
        directRows_eq_ok (receiptOrder_ascending.sublist hsub)]
      dsimp only [bind, Except.bind]
      rw [hheaders, ← pendingRows_append]
      dsimp only
      split
      · next hshort =>
        left
        have hall : read ++ rest.take pageSize = receiptOrder M agentId := by
          rw [length_take] at hshort
          rw [horder, take_of_length_le (by omega)]
        rw [hall]
        exact ⟨_, rfl, Window.top_congr limit pendingEntry_perm
          (nodup_pendingEntry M projectId beforeTs (hpending (List.Sublist.refl _)))⟩
      · next hmore =>
        right
        refine ⟨_, rfl, ⟨_, _, hsplit, rfl⟩, ?_⟩
        rw [(recipientsAfter_perm hsplit).length_eq, (recipientsAfter_perm horder).length_eq,
          length_drop]
        rw [length_take] at hmore
        have : 0 < pageSize := by decide
        omega
    · exact Nat.lt_succ_of_le (length_filter_le ..)
    · refine ⟨[], receiptOrder M agentId, rfl, ?_⟩
      simp [Window.top, Window.sort, pendingRows]
  exact hok

end

end AgentMail.Inbox
