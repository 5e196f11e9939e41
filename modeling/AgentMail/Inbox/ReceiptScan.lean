import AgentMail.Inbox.Pages

/-!
# The receipt scan

`receipt_window` reads all recipient rows of the agent in the order of their message ids, and the
headers of those that pass the receipt filters.
-/

namespace AgentMail.Inbox

open Base Lib
open List

/-! ### A page of the receipt scan -/

section

variable {M : Mailbox} {E : Engine M} {projectId agentId : Int} {sinceTs : Option Int} {limit : Nat}
  {options : FetchOptions}

/-- Ascending ids are descending in the reversed order. -/
def ascending (r : Recipient) : Intᵒᵈ := OrderDual.toDual r.messageId

theorem sortByMessageId_eq (rows : List Recipient) :
    sortByMessageId rows = Window.sort ascending rows := rfl

theorem nodup_ascending {rows : List Recipient} (h : (rows.map (·.messageId)).Nodup) :
    (rows.map ascending).Nodup := by
  rw [nodup_iff_pairwise_ne, pairwise_map] at h ⊢
  exact h

/-- The agent's recipient rows in the order of the scan. -/
def receiptOrder (M : Mailbox) (agentId : Int) : List Recipient := sortByMessageId (M.recipientsOf agentId)

theorem receiptOrder_perm : receiptOrder M agentId ~ M.recipientsOf agentId :=
  @Window.sort_perm _ _ _ ascending _

/-- What the scan picks from its rows and their messages. -/
theorem filterMap_receiptOrder {α : Type} (pick : Recipient → Message → Option α) :
    ((receiptOrder M agentId).filterMap fun r =>
      (M.messages.find? fun m => m.id == r.messageId).bind (pick r)) ~
    M.messages.filterMap fun m =>
      ((M.recipientsOf agentId).find? fun r => r.messageId == m.id).bind fun r => pick r m :=
  (receiptOrder_perm.filterMap _).trans
    (filterMap_find?_comm nodup_recipientsOf M.messages_nodup pick)

theorem receiptOrder_ascending :
    (receiptOrder M agentId).Pairwise fun a b => a.messageId < b.messageId :=
  Window.descending_sort (nodup_ascending nodup_recipientsOf)

section

variable {read rest : List Recipient} (h : receiptOrder M agentId = read ++ rest)

include h

theorem recipientsAfter_perm :
    recipientsAfter M agentId (read.getLast?.map (·.messageId)) ~ rest := by
  have hsorted := @receiptOrder_ascending M agentId
  rw [h, pairwise_append] at hsorted
  have hrest : (read ++ rest).filter
      (fun r => (read.getLast?.map (·.messageId)).all (· < r.messageId)) = rest := by
    cases hlast : read.getLast? with
    | none =>
      rw [List.getLast?_eq_none_iff.mp hlast, nil_append]
      exact filter_eq_self.mpr fun _ _ => rfl
    | some last =>
      rw [Option.map_some]
      have hread : read.filter (fun r => (some last.messageId).all (· < r.messageId)) = [] := by
        obtain ⟨front, rfl⟩ := List.getLast?_eq_some_iff.mp hlast
        rw [filter_eq_nil_iff]
        intro r hr
        rw [Option.all_some, decide_eq_true_eq]
        rcases mem_append.mp hr with hfront | hback
        · have := (pairwise_append.mp hsorted.1).2.2 r hfront last (mem_singleton_self _)
          omega
        · rw [mem_singleton.mp hback]
          omega
      have hleft : rest.filter (fun r => (some last.messageId).all (· < r.messageId)) = rest := by
        rw [filter_eq_self]
        intro r hr
        rw [Option.all_some, decide_eq_true_eq]
        exact hsorted.2.2 last (mem_of_getLast? hlast) r hr
      rw [filter_append, hread, hleft, nil_append]
  have hafter : recipientsAfter M agentId (read.getLast?.map (·.messageId)) =
      (M.recipientsOf agentId).filter
        fun r => (read.getLast?.map (·.messageId)).all (· < r.messageId) := by
    rw [recipientsAfter, Mailbox.recipientsOf, filter_filter]
    apply filter_congr
    intro r _
    exact Bool.and_comm ..
  rw [hafter, ← hrest, ← h]
  exact receiptOrder_perm.symm.filter _

/-- The sorted rows after the cursor are the rest of the scan. -/
theorem sort_eq_of_perm {rows part : List Recipient} (hpart : part.Sublist rest)
    (hperm : rows ~ part) : sortByMessageId rows = part := by
  have hsorted := @receiptOrder_ascending M agentId
  rw [h, pairwise_append] at hsorted
  have hdesc : Window.Descending ascending part := hsorted.2.1.sublist hpart
  rw [sortByMessageId_eq, ← Window.sort_congr hperm.symm hdesc.nodup, Window.sort_of_descending hdesc]

/-- The ordered page is the lowest ids that are left. -/
theorem recipientPageOrdered_eq :
    recipientPageOrdered M agentId (read.getLast?.map (·.messageId)) = rest.take pageSize := by
  rw [recipientPageOrdered, sort_eq_of_perm h (List.Sublist.refl rest) (recipientsAfter_perm h)]

/-- A page that is as large as the number of rows up to its last id is the beginning of the rest. -/
theorem sort_of_count {page : List Recipient} (hsub : page <+~ rest)
    (hne : sortByMessageId page ≠ [])
    (hcount : (rest.filter fun r =>
      decide (r.messageId ≤ ((sortByMessageId page).getLast hne).messageId)).length = page.length) :
    sortByMessageId page = rest.take page.length := by
  have hsorted := @receiptOrder_ascending M agentId
  rw [h, pairwise_append] at hsorted
  have hnodup : (page.map ascending).Nodup := by
    obtain ⟨part, hpart, hsubl⟩ := hsub
    have hdesc : Window.Descending ascending part := hsorted.2.1.sublist hsubl
    exact (hpart.map ascending).nodup_iff.mp hdesc.nodup
  have hlast (r : Recipient) (hr : r ∈ page) :
      r.messageId ≤ ((sortByMessageId page).getLast hne).messageId := by
    have hdesc : Window.Descending ascending (sortByMessageId page) := Window.descending_sort hnodup
    have hmem : r ∈ sortByMessageId page := (mergeSort_perm page _).mem_iff.mpr hr
    have hsplit := dropLast_append_getLast hne
    rw [← hsplit] at hmem
    rw [Window.Descending, ← hsplit, pairwise_append] at hdesc
    rcases mem_append.mp hmem with hfront | hback
    · exact le_of_lt (hdesc.2.2 r hfront _ (mem_singleton_self _))
    · rw [mem_singleton.mp hback]
  generalize ((sortByMessageId page).getLast hne).messageId = last at hcount hlast
  have hperm : page ~ rest.filter fun r => decide (r.messageId ≤ last) := by
    have hself : page.filter (fun r => decide (r.messageId ≤ last)) = page :=
      filter_eq_self.mpr fun r hr => decide_eq_true (hlast r hr)
    have hfilter := hsub.filter fun r => decide (r.messageId ≤ last)
    rw [hself] at hfilter
    exact hfilter.perm_of_length_le (Nat.le_of_eq hcount)
  have hstarts : rest.filter (fun r => decide (r.messageId ≤ last)) = rest.take page.length := by
    rw [← hcount]
    apply filter_eq_take
    apply hsorted.2.1.imp
    intro a b hab hb
    rw [decide_eq_true_eq] at hb ⊢
    omega
  rw [hstarts] at hperm
  exact sort_eq_of_perm h (take_sublist ..) hperm

/-- A page of the scan holds the next receipts: an unordered page is used only when it does. -/
theorem receiptPage_eq_ok :
    receiptPage E agentId (read.getLast?.map (·.messageId)) = .ok (rest.take pageSize) := by
  have hafter := recipientsAfter_perm h
  have hordered := recipientPageOrdered_eq h
  generalize read.getLast?.map (·.messageId) = after at hafter hordered ⊢
  have hpage : recipientPage E agentId after =
      (E.order .recipientPage (agentId :: after.toList) (recipientsAfter M agentId after)).take pageSize :=
    rfl
  have hlength : (recipientPage E agentId after).length = min pageSize rest.length := by
    rw [hpage, length_take, (E.order_perm ..).length_eq, hafter.length_eq]
  have hkeyed (rows : List Recipient) (hrows : rows.length ≤ pageSize) :
      keyedByMessageId rows = .ok (sortByMessageId rows) := if_neg (Nat.not_lt.mpr hrows)
  have hsortlen (rows : List Recipient) : (sortByMessageId rows).length = rows.length :=
    length_mergeSort rows
  unfold receiptPage
  rw [hkeyed _ (by omega)]
  dsimp only [bind, Except.bind]
  rw [hsortlen]
  by_cases hfull : (recipientPage E agentId after).length = pageSize
  · have hne : sortByMessageId (recipientPage E agentId after) ≠ [] := by
      rw [← length_pos_iff, hsortlen, hfull]
      decide
    rw [if_pos hfull, List.getLast?_eq_some_getLast hne]
    dsimp only
    split
    · next hcount =>
      rw [(hafter.filter _).length_eq] at hcount
      have hsub : recipientPage E agentId after <+~ rest := by
        rw [hpage]
        exact (take_sublist ..).subperm.trans ((E.order_perm ..).trans hafter).subperm
      rw [sort_of_count h hsub hne hcount, hfull]
    · rw [hordered, hkeyed _ (by rw [length_take]; omega),
        sort_eq_of_perm h (take_sublist ..) (List.Perm.refl _)]
  · -- A short page is everything that is left.
    have hall : recipientPage E agentId after ~ rest := by
      rw [hpage, take_of_length_le (by rw [(E.order_perm ..).length_eq, hafter.length_eq]; omega)]
      exact (E.order_perm ..).trans hafter
    rw [if_neg hfull, sort_eq_of_perm h (List.Sublist.refl rest) hall, take_of_length_le (by omega)]

end

/-- The header filters of `admit_headers`. -/
def wanted (projectId : Int) (sinceTs : Option Int) (options : FetchOptions) (m : Message) : Bool :=
  m.projectId == projectId && !(missesUrgent options m || missesAck options m ||
    missesSince sinceTs m || missesTopic options m)

/-- The candidate of a pending receipt, if its header is there and wanted. -/
def headerCandidate (M : Mailbox) (projectId : Int) (sinceTs : Option Int) (options : FetchOptions)
    (e : Int × Receipt) : Option Candidate :=
  (M.messages.find? fun m => m.id == e.1).bind fun m =>
    if wanted projectId sinceTs options m then
      some { createdTs := m.createdTs, id := m.id, receipt := e.2 }
    else none

theorem nodup_headerCandidate {entries : List (Int × Receipt)} (h : (entries.map (·.1)).Nodup) :
    ((entries.filterMap (headerCandidate M projectId sinceTs options)).map Candidate.key).Nodup := by
  have hid : ((entries.filterMap (headerCandidate M projectId sinceTs options)).map (·.id)).Nodup := by
    refine h.sublist (map_filterMap_sublist ?_ _)
    intro e c hc
    rw [headerCandidate, Option.bind_eq_some_iff] at hc
    obtain ⟨m, hm, hc⟩ := hc
    split at hc
    · cases hc
      exact ((find?_key_eq_some M.messages_nodup).mp hm).2
    · cases hc
  rw [nodup_iff_pairwise_ne, pairwise_map] at hid ⊢
  apply hid.imp
  intro c c' hne heq
  exact hne (congrArg (fun k => (ofLex k).2) heq)

/-- What one looked-up header adds. -/
def lookedUp (projectId : Int) (sinceTs : Option Int) (options : FetchOptions)
    (pending : List (Int × Receipt)) (m : Message) : Option Candidate :=
  (pending.find? fun e => e.1 == m.id).bind fun e =>
    if wanted projectId sinceTs options m then
      some { createdTs := m.createdTs, id := m.id, receipt := e.2 }
    else none

theorem admitHeader_eq_ok {pending : List (Int × Receipt)} {front : List Message} {m : Message}
    {newest : NewestWindow} (hm : Assoc.contains m.id pending = true) (hnew : m.id ∉ front.map (·.id)) :
    admitHeader projectId sinceTs limit options
        (pending.filter fun e => !(front.map (·.id)).contains e.1, newest) m =
      .ok (pending.filter fun e => !((front ++ [m]).map (·.id)).contains e.1,
        ((lookedUp projectId sinceTs options pending m).toList).foldl (admitCandidate limit) newest) := by
  rw [← Assoc.get?_isSome, Option.isSome_iff_exists] at hm
  obtain ⟨receipt, hreceipt⟩ := hm
  unfold admitHeader
  dsimp only
  rw [Assoc.get?_filter (p := fun id => !(front.map (·.id)).contains id) (not_contains_of_not_mem hnew),
    hreceipt, erase_filter]
  rw [Assoc.get?, Option.map_eq_some_iff] at hreceipt
  obtain ⟨e, he, rfl⟩ := hreceipt
  rw [lookedUp, he, Option.bind_some, wanted]
  by_cases hproject : m.projectId = projectId
  · rw [bne_eq_false_iff_eq.mpr hproject, beq_iff_eq.mpr hproject, Bool.true_and]
    cases missesUrgent options m || missesAck options m || missesSince sinceTs m ||
      missesTopic options m <;> rfl
  · rw [bne_iff_ne.mpr hproject, beq_eq_false_iff_ne.mpr hproject]
    rfl

/-- Looking the pending receipts up admits their candidates. -/
theorem admitHeaders_eq_ok {done pending : List (Int × Receipt)}
    (h : ((done ++ pending).map (·.1)).Nodup) :
    admitHeaders E projectId sinceTs limit options pending
        (Window.top Candidate.key limit (done.filterMap (headerCandidate M projectId sinceTs options))) =
      .ok (Window.top Candidate.key limit
        ((done ++ pending).filterMap (headerCandidate M projectId sinceTs options))) := by
  have hpending : (pending.map (·.1)).Nodup := by
    rw [map_append] at h
    exact h.of_append_right
  have hkeys := @nodup_headerCandidate M projectId sinceTs options _ h
  rw [filterMap_append] at hkeys ⊢
  generalize done.filterMap (headerCandidate M projectId sinceTs options) = old at hkeys ⊢
  unfold admitHeaders
  by_cases hempty : pending.isEmpty = true
  · rw [if_pos hempty, List.isEmpty_iff.mp hempty, filterMap_nil, append_nil]
  rw [if_neg hempty]
  have hrows := lookupMessages_perm E (mapKeys E pending)
  generalize lookupMessages E (mapKeys E pending) = rows at hrows ⊢
  simp only [contains_mapKeys] at hrows
  have hnodup : (rows.map (·.id)).Nodup :=
    (hrows.map _).nodup_iff.mpr (M.messages_nodup.sublist (filter_sublist.map _))
  have hfold : ∃ s, rows.foldlM (admitHeader projectId sinceTs limit options)
      (pending, Window.top Candidate.key limit old) = .ok s ∧
      s = (pending.filter fun e => !(rows.map (·.id)).contains e.1,
        (rows.filterMap (lookedUp projectId sinceTs options pending)).foldl (admitCandidate limit)
          (Window.top Candidate.key limit old)) := by
    apply foldlM_eq_ok (I := fun front s => s = (pending.filter fun e => !(front.map (·.id)).contains e.1,
      (front.filterMap (lookedUp projectId sinceTs options pending)).foldl (admitCandidate limit)
        (Window.top Candidate.key limit old)))
    · intro front m back s hsplit hs
      have hmem : Assoc.contains m.id pending = true := by
        have hm : m ∈ rows := by
          rw [hsplit]
          simp
        exact (mem_filter.mp (hrows.mem_iff.mp hm)).2
      have hnew : m.id ∉ front.map (·.id) := by
        rw [hsplit, map_append, nodup_append] at hnodup
        intro hfront
        exact hnodup.2.2 m.id hfront m.id (by simp) rfl
      refine ⟨_, ?_, rfl⟩
      rw [hs, admitHeader_eq_ok hmem hnew, filterMap_append, foldl_append, filterMap_cons]
      cases lookedUp projectId sinceTs options pending m <;> rfl
    · simp
  obtain ⟨s, hs, rfl⟩ := hfold
  rw [hs]
  refine congrArg Except.ok (foldl_admitCandidate_perm ?_ hkeys)
  exact filterMap_lookup_perm M.messages_nodup hpending hrows (fun _ => Assoc.contains_iff) _

/-! ### The scan -/

/-- The receipts of the scan that pass the receipt filters. -/
def passing (options : FetchOptions) (rows : List Recipient) : List (Int × Receipt) :=
  (rows.filter fun r => !missesReceipt options r.readTs r.ackTs).map fun r => (r.messageId, r.receipt)

/-- The state of the scan after `read`: some passing receipts have been looked up, the others
are pending. -/
def Scanned (M : Mailbox) (projectId : Int) (sinceTs : Option Int) (limit : Nat)
    (options : FetchOptions) (read : List Recipient) (s : ReceiptScan) : Prop :=
  s.after = read.getLast?.map (·.messageId) ∧ ∃ done, passing options read = done ++ s.pending ∧
      s.newest = Window.top Candidate.key limit
        (done.filterMap (headerCandidate M projectId sinceTs options))

theorem nodup_passing {rows : List Recipient} (h : rows.Sublist (receiptOrder M agentId)) :
    ((passing options rows).map (·.1)).Nodup := by
  have hids : ((receiptOrder M agentId).map (·.messageId)).Nodup :=
    (receiptOrder_perm.map _).nodup_iff.mpr nodup_recipientsOf
  rw [passing, map_map]
  exact hids.sublist ((filter_sublist.trans h).map _)

theorem receiptRow_eq_ok {read : List Recipient} {r : Recipient} {s : ReceiptScan}
    (hread : (read ++ [r]).Sublist (receiptOrder M agentId))
    (hs : Scanned M projectId sinceTs limit options read s) :
    ∃ s', receiptRow E projectId sinceTs limit options s r = .ok s' ∧
      Scanned M projectId sinceTs limit options (read ++ [r]) s' := by
  obtain ⟨hafter, done, hdone, hnewest⟩ := hs
  have hadvance : s.after.any (fun previous => decide (r.messageId ≤ previous)) = false := by
    rw [hafter]
    cases hlast : read.getLast? with
    | none => rfl
    | some last =>
      have hsorted := receiptOrder_ascending.sublist hread
      have hlt := (pairwise_append.mp hsorted).2.2 last (mem_of_getLast? hlast) r
        (mem_singleton_self r)
      rw [Option.map_some, Option.any_some, decide_eq_false_iff_not]
      omega
  have hlast : some r.messageId = (read ++ [r]).getLast?.map (·.messageId) := by
    rw [List.getLast?_concat, Option.map_some]
  unfold receiptRow
  rw [hadvance, if_neg Bool.false_ne_true]
  cases hmiss : missesReceipt options r.readTs r.ackTs with
  | true =>
    have hpassing : passing options (read ++ [r]) = passing options read := by
      rw [passing, filter_append]
      simp [hmiss, passing]
    exact ⟨_, rfl, hlast, done, hpassing.trans hdone, hnewest⟩
  | false =>
    have hpassing : passing options (read ++ [r]) = done ++ (s.pending ++ [(r.messageId, r.receipt)]) := by
      rw [← append_assoc, ← hdone, passing, filter_append, map_append]
      simp [hmiss, passing]
    have hnodup := @nodup_passing M agentId options _ hread
    rw [hpassing] at hnodup
    have hnew : r.messageId ∉ s.pending.map (·.1) := by
      rw [map_append] at hnodup
      have hright := hnodup.of_append_right
      rw [map_append, nodup_append] at hright
      intro hmem
      exact hright.2.2 r.messageId hmem r.messageId (by simp) rfl
    rw [if_neg Bool.false_ne_true, Assoc.insert_of_new hnew]
    dsimp only
    split
    · rw [hnewest, admitHeaders_eq_ok hnodup]
      exact ⟨_, rfl, hlast, _, by rw [hpassing, append_nil], rfl⟩
    · exact ⟨_, rfl, hlast, done, hpassing, hnewest⟩

/-- A page of rows keeps the state of the scan. -/
theorem scanReceipts_eq_ok {read rows : List Recipient} {s : ReceiptScan}
    (hread : (read ++ rows).Sublist (receiptOrder M agentId))
    (hs : Scanned M projectId sinceTs limit options read s) :
    ∃ s', rows.foldlM (receiptRow E projectId sinceTs limit options) s = .ok s' ∧
      Scanned M projectId sinceTs limit options (read ++ rows) s' := by
  apply foldlM_eq_ok (I := fun front s => Scanned M projectId sinceTs limit options (read ++ front) s)
  · intro front r back t hrows ht
    rw [← append_assoc]
    refine receiptRow_eq_ok (List.Sublist.trans ?_ hread) ht
    rw [hrows, ← append_assoc]
    exact (List.Sublist.refl _).append (singleton_sublist.mpr (mem_cons_self ..))
  · rw [append_nil]
    exact hs

/-- The receipts that pass and have a wanted header are the direct picks. -/
theorem headerCandidate_perm :
    (passing options (receiptOrder M agentId)).filterMap (headerCandidate M projectId sinceTs options) ~
      candidates (directReceipt M projectId agentId sinceTs options) M.messages := by
  let pick (r : Recipient) (m : Message) : Option Candidate :=
    if !missesReceipt options r.readTs r.ackTs && wanted projectId sinceTs options m then
      some { createdTs := m.createdTs, id := m.id, receipt := r.receipt }
    else none
  calc (passing options (receiptOrder M agentId)).filterMap (headerCandidate M projectId sinceTs options)
      = (receiptOrder M agentId).filterMap fun r =>
          (M.messages.find? fun m => m.id == r.messageId).bind (pick r) := by
        rw [passing, filterMap_map, filterMap_filter]
        apply filterMap_congr
        intro r _
        simp only [Function.comp_apply, headerCandidate, pick]
        cases missesReceipt options r.readTs r.ackTs with
        | true => cases M.messages.find? (fun m => m.id == r.messageId) <;> rfl
        | false => rfl
    _ ~ M.messages.filterMap fun m =>
          ((M.recipientsOf agentId).find? fun r => r.messageId == m.id).bind fun r => pick r m :=
        filterMap_receiptOrder pick
    _ = candidates (directReceipt M projectId agentId sinceTs options) M.messages := by
        rw [candidates_eq_filterMap]
        apply filterMap_congr
        intro m _
        rw [directReceipt, Mailbox.recipient?]
        cases (M.recipientsOf agentId).find? (fun r => r.messageId == m.id) with
        | none => rfl
        | some r =>
          have hfilters : (!missesReceipt options r.readTs r.ackTs && wanted projectId sinceTs options m) =
              (m.projectId == projectId && satisfies sinceTs options m r.readTs r.ackTs) := by
            rw [satisfies_eq, wanted]
            grind
          simp only [Option.bind_some, pick, hfilters]
          cases m.projectId == projectId && satisfies sinceTs options m r.readTs r.ackTs <;> rfl

/-- `receipt_window` returns the newest direct picks. -/
theorem receiptWindow_eq_ok :
    receiptWindow E projectId agentId sinceTs limit options = .ok (Window.top Candidate.key limit
        (candidates (directReceipt M projectId agentId sinceTs options) M.messages)) := by
  obtain ⟨newest, hok, rfl⟩ : ∃ newest,
      receiptWindow E projectId agentId sinceTs limit options = .ok newest ∧
      newest = Window.top Candidate.key limit
        (candidates (directReceipt M projectId agentId sinceTs options) M.messages) := by
    unfold receiptWindow
    apply iterate_eq_ok (I := fun s => ∃ read rest, receiptOrder M agentId = read ++ rest ∧
        Scanned M projectId sinceTs limit options read s)
      fun s => (recipientsAfter M agentId s.after).length
    · rintro s ⟨read, rest, horder, hs⟩
      have hsplit : receiptOrder M agentId = (read ++ rest.take pageSize) ++ rest.drop pageSize := by
        rw [horder, append_assoc, take_append_drop]
      obtain ⟨s', hfold, hs'⟩ := scanReceipts_eq_ok (E := E)
        (hsplit ▸ sublist_append_left ..) hs
      unfold receiptStep
      rw [hs.1, receiptPage_eq_ok horder]
      dsimp only [bind, Except.bind]
      rw [hfold]
      dsimp only
      split
      · next hshort =>
        left
        have hall : read ++ rest.take pageSize = receiptOrder M agentId := by
          rw [length_take] at hshort
          rw [horder, take_of_length_le (by omega)]
        obtain ⟨-, done, hdone, hnewest⟩ := hs'
        rw [hall] at hdone
        have hnodup := @nodup_passing M agentId options _ (List.Sublist.refl _)
        rw [hdone] at hnodup
        rw [hnewest, admitHeaders_eq_ok hnodup, ← hdone]
        refine ⟨_, rfl, Window.top_congr limit headerCandidate_perm ?_⟩
        rw [← hdone] at hnodup
        exact nodup_headerCandidate hnodup
      · next hmore =>
        right
        refine ⟨s', rfl, ⟨_, _, hsplit, hs'⟩, ?_⟩
        rw [hs'.1, (recipientsAfter_perm hsplit).length_eq, (recipientsAfter_perm horder).length_eq,
          length_drop]
        rw [length_take] at hmore
        have : 0 < pageSize := by decide
        omega
    · exact Nat.lt_succ_of_le (length_filter_le ..)
    · refine ⟨[], receiptOrder M agentId, rfl, rfl, [], rfl, ?_⟩
      simp [Window.top, Window.sort]
  exact hok

end

end AgentMail.Inbox
