import AgentMail.Inbox.Pages

/-!
# The walks over headers

`newest_first_window` and `fetch_shared` read the project's headers from the newest on. A page adds
the picks of its messages, and a walk may stop when no later message can enter the window.
-/

namespace AgentMail.Inbox

open Base Lib
open List hiding foldlM_eq_foldl

/-! ### A page of the newest-first walk -/

section

variable {M : Mailbox} {E : Engine M} {projectId agentId : Int} {sinceTs : Option Int} {limit : Nat}
  {options : FetchOptions}

/-- A range read below its limit is complete. -/
theorem recipientRange_perm {low high : Int}
    (h : (recipientRange E agentId low high).length < 256) :
    (recipientRange E agentId low high).Perm
      ((M.recipientsOf agentId).filter fun r => low ≤ r.messageId && r.messageId ≤ high) := by
  unfold recipientRange at h ⊢
  rw [length_take] at h
  rw [take_of_length_le (by omega), Mailbox.recipientsOf, filter_filter]
  refine (E.order_perm ..).trans (List.Perm.of_eq ?_)
  apply filter_congr
  intro r _
  exact Bool.and_comm ..

/-- The receipts of a page are the agent's receipts of its candidates, by either read. -/
theorem pageReceipts_eq_ok {entries : List (Int × Int)} (hnodup : (entries.map (·.1)).Nodup) :
    ∃ receipts read, pageReceipts E agentId entries = .ok (receipts, read) ∧
      receipts.Perm (((M.recipientsOf agentId).filter fun r => Assoc.contains r.messageId entries).map
        fun r => (r.messageId, r.receipt)) := by
  have hkeys : (mapKeys E entries).Nodup := (mapKeys_perm E entries).nodup_iff.mpr hnodup
  unfold pageReceipts
  cases hlow : (mapKeys E entries).min? with
  | none =>
    rw [List.min?_eq_none_iff] at hlow
    refine ⟨[], 0, rfl, List.Perm.of_eq ?_⟩
    have hnone : (M.recipientsOf agentId).filter (fun r => Assoc.contains r.messageId entries) = [] := by
      rw [filter_eq_nil_iff]
      intro r _
      rw [← contains_mapKeys E, hlow]
      exact Bool.false_ne_true
    rw [hnone]
    rfl
  | some low =>
    cases hhigh : (mapKeys E entries).max? with
    | none =>
      rw [List.max?_eq_none_iff] at hhigh
      rw [hhigh] at hlow
      cases hlow
    | some high =>
      have hrange (r : Recipient) (hr : Assoc.contains r.messageId entries = true) :
          (decide (low ≤ r.messageId) && decide (r.messageId ≤ high)) = true := by
        rw [← contains_mapKeys E, contains_iff_mem] at hr
        rw [Bool.and_eq_true, decide_eq_true_eq, decide_eq_true_eq]
        exact ⟨(List.min?_eq_some_iff.mp hlow).2 _ hr, (List.max?_eq_some_iff.mp hhigh).2 _ hr⟩
      dsimp only
      by_cases hfull : (recipientRange E agentId low high).length ≥ recipientRangeLimit
      · obtain ⟨rows, hrows, hperm⟩ := sharedReceiptRows_eq_ok nodup_recipientsOf
          (lookupRecipients_perm E agentId) hkeys
        rw [if_pos hfull, hrows]
        refine ⟨_, _, rfl, ?_⟩
        rw [filterMap_ite]
        apply List.Perm.map
        refine (hperm.filter _).trans (List.Perm.of_eq ?_)
        rw [filter_filter]
        apply filter_congr
        intro r _
        rw [contains_mapKeys, Bool.and_self]
      · rw [if_neg hfull]
        refine ⟨_, _, rfl, ?_⟩
        rw [filterMap_ite]
        apply List.Perm.map
        refine ((recipientRange_perm (Nat.lt_of_not_ge hfull)).filter _).trans (List.Perm.of_eq ?_)
        rw [filter_filter]
        apply filter_congr
        intro r _
        cases hr : Assoc.contains r.messageId entries with
        | false => rfl
        | true => rw [hrange r hr, Bool.and_self]

theorem admitReceipts_eq_ok {entries : List (Int × Int)} {receipts : List (Int × Receipt)}
    (h : ∀ e ∈ receipts, Assoc.contains e.1 entries = true) (newest : NewestWindow) :
    admitReceipts limit entries receipts newest =
      .ok ((receipts.filterMap fun e => (Assoc.get? e.1 entries).map fun created =>
        { createdTs := created, id := e.1, receipt := e.2 }).foldl (admitCandidate limit) newest) := by
  unfold admitReceipts
  induction receipts generalizing newest with
  | nil => rfl
  | cons e receipts ih =>
    have he := h e (mem_cons_self ..)
    rw [← Assoc.get?_isSome, Option.isSome_iff_exists] at he
    obtain ⟨created, hcreated⟩ := he
    rw [foldlM_cons, filterMap_cons, hcreated]
    exact ih (fun e' he' => h e' (mem_cons_of_mem _ he')) _

/-- Without a filter on the receipt, the direct picks are the recipients of wanted headers. -/
theorem directReceipt_eq (hstate : hasStateFilter options = false) {m : Message}
    (hproject : m.projectId = projectId) :
    directReceipt M projectId agentId sinceTs options m =
      if !missesSince sinceTs m && !(missesUrgent options m || missesTopic options m) then
        (M.recipient? agentId m.id).map (·.receipt)
      else none := by
  unfold hasStateFilter at hstate
  rw [Bool.or_eq_false_iff, Bool.or_eq_false_iff] at hstate
  have hack : missesAck options m = false := by
    have hnone : options.ackOverdueBefore = none := by simpa using hstate.2
    rw [missesAck, hstate.1.2, hnone]
    rfl
  have hreceipt (readTs ackTs : Option Int) : missesReceipt options readTs ackTs = false := by
    rw [missesReceipt, hstate.1.1, hstate.1.2, hstate.2]
    rfl
  have hsatisfies (readTs ackTs : Option Int) : satisfies sinceTs options m readTs ackTs =
      (!missesSince sinceTs m && !(missesUrgent options m || missesTopic options m)) := by
    rw [satisfies_eq, hack, hreceipt]
    cases missesSince sinceTs m <;> cases missesUrgent options m <;> cases missesTopic options m <;> rfl
  unfold directReceipt
  simp only [hsatisfies, hproject, BEq.rfl, Bool.true_and]
  cases M.recipient? agentId m.id with
  | none => simp
  | some r => simp

/-- A page of the walk adds the direct picks of its messages to the window. -/
theorem directPage_eq_ok (hstate : hasStateFilter options = false) {read rows : List Message}
    (hproject : ∀ m ∈ rows, m.projectId = projectId) (hnodup : (rows.map (·.id)).Nodup)
    {old : List Candidate}
    (hkeys : ((old ++ candidates (directReceipt M projectId agentId sinceTs options) rows).map
      Candidate.key).Nodup) :
    ∃ receipts work, pageReceipts E agentId (scanned (missesSince sinceTs)
        (fun m => missesUrgent options m || missesTopic options m) read rows).candidates =
          .ok (receipts, work) ∧ admitReceipts limit (scanned (missesSince sinceTs)
        (fun m => missesUrgent options m || missesTopic options m) read rows).candidates receipts
        (Window.top Candidate.key limit old) = .ok (Window.top Candidate.key limit
            (old ++ candidates (directReceipt M projectId agentId sinceTs options) rows)) := by
  let keep (m : Message) : Bool :=
    !missesSince sinceTs m && !(missesUrgent options m || missesTopic options m)
  let entries := (rows.filter keep).map fun m => (m.id, m.createdTs)
  have hentries : (entries.map (·.1)).Nodup := by
    rw [map_map]
    exact hnodup.sublist (filter_sublist.map _)
  obtain ⟨receipts, work, hpage, hperm⟩ := @pageReceipts_eq_ok M E agentId entries hentries
  refine ⟨receipts, work, hpage, ?_⟩
  have hcontains : ∀ e ∈ receipts, Assoc.contains e.1 entries = true := by
    intro e he
    obtain ⟨r, hr, rfl⟩ := mem_map.mp (hperm.mem_iff.mp he)
    exact (mem_filter.mp hr).2
  refine (admitReceipts_eq_ok hcontains _).trans (congrArg _ (foldl_admitCandidate_perm ?_ hkeys))
  calc receipts.filterMap (fun e => (Assoc.get? e.1 entries).map fun created =>
        { createdTs := created, id := e.1, receipt := e.2 : Candidate })
      ~ (((M.recipientsOf agentId).filter fun r => Assoc.contains r.messageId entries).map
          fun r => (r.messageId, r.receipt)).filterMap fun e => (Assoc.get? e.1 entries).map fun created =>
            { createdTs := created, id := e.1, receipt := e.2 : Candidate } := hperm.filterMap _
    _ = ((M.recipientsOf agentId).filter fun r => Assoc.contains r.messageId entries).filterMap fun r =>
          (entries.find? fun e => e.1 == r.messageId).bind fun e =>
            some { createdTs := e.2, id := r.messageId, receipt := r.receipt : Candidate } := by
        rw [filterMap_map]
        apply filterMap_congr
        intro r _
        rw [Function.comp_apply, Assoc.get?]
        cases entries.find? (fun e => e.1 == r.messageId) <;> rfl
    _ ~ entries.filterMap fun e => ((M.recipientsOf agentId).find? fun r => r.messageId == e.1).bind
          fun r => some { createdTs := e.2, id := r.messageId, receipt := r.receipt : Candidate } :=
        filterMap_lookup_perm nodup_recipientsOf hentries (List.Perm.refl _)
          (fun _ => Assoc.contains_iff) _
    _ = candidates (directReceipt M projectId agentId sinceTs options) (rows.filter keep) := by
        rw [filterMap_map, candidates_eq_filterMap]
        apply filterMap_congr
        intro m hm
        rw [mem_filter] at hm
        rw [directReceipt_eq hstate (hproject m hm.1), if_pos hm.2, Mailbox.recipient?]
        cases hr : (M.recipientsOf agentId).find? (fun r => r.messageId == m.id) with
        | none => simp [hr]
        | some r => simp [hr, ((find?_key_eq_some nodup_recipientsOf).mp hr).2]
    _ = candidates (directReceipt M projectId agentId sinceTs options) rows := by
        apply candidates_filter
        intro m hm hkeep
        rw [directReceipt_eq hstate (hproject m hm)]
        exact if_neg (ne_true_of_eq_false hkeep)

end

/-! ### A page of the shared mailbox -/

section

variable {M : Mailbox} {E : Engine M} {projectId agentId : Int} {sinceTs : Option Int} {limit : Nat}
  {options : FetchOptions}

/-- The message has a delivery in the project. -/
def delivered (M : Mailbox) (projectId messageId : Int) : Bool :=
  (M.delivery? messageId).any (·.projectId == projectId)

/-- The candidate of a shared message under its stored receipt. -/
def sharedCandidate (M : Mailbox) (agentId : Int) (options : FetchOptions) (e : Int × Int) :
    Option Candidate :=
  let readTs := (M.mailboxReceipt? agentId e.1).bind (·.readTs)
  let ackTs := (M.mailboxReceipt? agentId e.1).bind (·.ackTs)
  if missesReceipt options readTs ackTs then none
  else some { createdTs := e.2, id := e.1,
              receipt := { kind := projectMailboxKind, readTs := readTs, ackTs := ackTs } }

/-- The headers with a delivery in the project, found from the deliveries. -/
theorem delivered_perm {headers : List (Int × Int)} (hnodup : (headers.map (·.1)).Nodup)
    {rows : List Delivery}
    (hrows : rows ~ M.deliveries.filter fun d => Assoc.contains d.messageId headers) :
    (rows.filterMap fun d => (headers.find? fun e => e.1 == d.messageId).bind fun e =>
      if d.projectId == projectId then some (d.messageId, e.2) else none) ~
        headers.filter fun e => delivered M projectId e.1 :=
  calc _ ~ headers.filterMap fun e => (M.deliveries.find? fun d => d.messageId == e.1).bind
          fun d => if d.projectId == projectId then some (d.messageId, e.2) else none :=
        filterMap_lookup_perm M.deliveries_nodup hnodup hrows (fun _ => Assoc.contains_iff)
          fun d e => if d.projectId == projectId then some (d.messageId, e.2) else none
    _ = headers.filter fun e => delivered M projectId e.1 := by
        rw [← filterMap_eq_filter]
        apply filterMap_congr
        intro e _
        have hdelivered : delivered M projectId e.1 =
            (M.deliveries.find? fun d => d.messageId == e.1).any (·.projectId == projectId) := rfl
        rw [Option.guard, hdelivered]
        cases hd : M.deliveries.find? (fun d => d.messageId == e.1) with
        | none => rfl
        | some d =>
          have hid := ((find?_key_eq_some M.deliveries_nodup).mp hd).2
          rw [Option.bind_some, Option.any_some, hid]

/-- Deliveries of messages that the agent has directly are hidden. -/
theorem undirected_perm {deliveries headers : List (Int × Int)}
    (h : deliveries ~ headers.filter fun e => delivered M projectId e.1) :
    (deliveries.filter fun e => !M.isRecipient e.1 agentId) ~
      headers.filter fun e => delivered M projectId e.1 && !M.isRecipient e.1 agentId := by
  refine (h.filter _).trans (List.Perm.of_eq ?_)
  rw [filter_filter]
  exact filter_congr fun e _ => Bool.and_comm ..

/-- The deliveries among the candidate headers. -/
theorem deliveries_eq_ok {headers : List (Int × Int)} (hnodup : (headers.map (·.1)).Nodup) :
    ∃ deliveries, (lookupDeliveries E (mapKeys E headers)).foldlM (deliveryRow projectId headers) [] =
        .ok deliveries ∧ deliveries ~ headers.filter fun e => delivered M projectId e.1 := by
  let entry (d : Delivery) : Option (Int × Int) := (headers.find? fun e => e.1 == d.messageId).bind
    fun e => if d.projectId == projectId then some (d.messageId, e.2) else none
  have hentry (d : Delivery) (e : Int × Int) (he : entry d = some e) : e.1 = d.messageId := by
    simp only [entry, Option.bind_eq_some_iff] at he
    obtain ⟨e', _, he⟩ := he
    split at he
    · cases he
      rfl
    · cases he
  have hrows := lookupDeliveries_perm E (mapKeys E headers)
  generalize lookupDeliveries E (mapKeys E headers) = rows at hrows ⊢
  simp only [contains_mapKeys] at hrows
  have hids : (rows.map (·.messageId)).Nodup :=
    (hrows.map _).nodup_iff.mpr (M.deliveries_nodup.sublist (filter_sublist.map _))
  have hfold : ∃ deliveries, rows.foldlM (deliveryRow projectId headers) [] = .ok deliveries ∧
      deliveries = rows.filterMap entry := by
    apply foldlM_eq_ok (I := fun front deliveries => deliveries = front.filterMap entry)
    · intro front d back deliveries hsplit hdeliveries
      have hd : d ∈ rows := by
        rw [hsplit]
        simp
      have hcontains : Assoc.contains d.messageId headers = true :=
        (mem_filter.mp (hrows.mem_iff.mp hd)).2
      rw [← Assoc.get?_isSome, Option.isSome_iff_exists] at hcontains
      obtain ⟨created, hcreated⟩ := hcontains
      have hnew : d.messageId ∉ (front.filterMap entry).map (·.1) := by
        rw [hsplit, map_append, nodup_append] at hids
        intro hmem
        have hfront := (map_filterMap_sublist hentry front).subset hmem
        exact hids.2.2 d.messageId hfront d.messageId (by simp) rfl
      refine ⟨_, ?_, rfl⟩
      rw [hdeliveries, deliveryRow, hcreated]
      rw [Assoc.get?, Option.map_eq_some_iff] at hcreated
      obtain ⟨e, he, rfl⟩ := hcreated
      dsimp only
      rw [filterMap_append, filterMap_cons, filterMap_nil, Assoc.insert_of_new hnew]
      simp only [entry, he, Option.bind_some]
      cases d.projectId == projectId <;> simp
    · rfl
  obtain ⟨deliveries, hok, rfl⟩ := hfold
  exact ⟨_, hok, delivered_perm hnodup hrows⟩

theorem isRecipient_eq (messageId : Int) :
    M.isRecipient messageId agentId = (M.recipient? agentId messageId).isSome := by
  rw [Bool.eq_iff_iff, Mailbox.recipient?, List.find?_isSome, Mailbox.isRecipient, any_eq_true]
  simp only [Mailbox.recipientsOf, mem_filter, Bool.and_eq_true, beq_iff_eq]
  constructor
  · rintro ⟨r, hr, hid, hagent⟩
    exact ⟨r, ⟨hr, hagent⟩, hid⟩
  · rintro ⟨r, ⟨hr, hagent⟩, hid⟩
    exact ⟨r, hr, hid, hagent⟩

/-- Deliveries of messages that the agent has directly are taken out. -/
theorem excludeDirect_eq_ok {deliveries : List (Int × Int)}
    (hnodup : (deliveries.map (·.1)).Nodup) :
    ∃ direct, sharedReceiptRows (lookupRecipients E agentId) (mapKeys E deliveries) = .ok direct ∧
      direct.foldl (fun deliveries r => Assoc.erase r.messageId deliveries) deliveries =
        deliveries.filter fun e => !M.isRecipient e.1 agentId := by
  have hkeys : (mapKeys E deliveries).Nodup := (mapKeys_perm E deliveries).nodup_iff.mpr hnodup
  obtain ⟨direct, hdirect, hperm⟩ := sharedReceiptRows_eq_ok nodup_recipientsOf
    (lookupRecipients_perm E agentId) hkeys
  refine ⟨direct, hdirect, ?_⟩
  rw [← foldl_map (f := Recipient.messageId) (g := fun m k => Assoc.erase k m), Assoc.foldl_erase]
  apply filter_congr
  intro e he
  congr 1
  rw [isRecipient_eq, Bool.eq_iff_iff, contains_iff_mem, (hperm.map _).mem_iff,
    Mailbox.recipient?, List.find?_isSome, mem_map]
  constructor
  · rintro ⟨r, hr, hid⟩
    exact ⟨r, (mem_filter.mp hr).1, beq_iff_eq.mpr hid⟩
  · rintro ⟨r, hr, hid⟩
    rw [beq_iff_eq] at hid
    refine ⟨r, mem_filter.mpr ⟨hr, ?_⟩, hid⟩
    rw [contains_mapKeys, Assoc.contains_iff, hid]
    exact mem_map_of_mem he

/-- The stored receipts of the deliveries that are left. -/
theorem receipts_eq_ok {deliveries : List (Int × Int)} (hnodup : (deliveries.map (·.1)).Nodup) :
    ∃ rows receipts, sharedReceiptRows (lookupReceipts E agentId) (mapKeys E deliveries) = .ok rows ∧
      rows.foldlM (sharedReceiptRow deliveries) [] = .ok receipts ∧
      ∀ e ∈ deliveries, Assoc.get? e.1 receipts =
        (M.mailboxReceipt? agentId e.1).map fun r => (r.readTs, r.ackTs) := by
  have hkeys : (mapKeys E deliveries).Nodup := (mapKeys_perm E deliveries).nodup_iff.mpr hnodup
  obtain ⟨rows, hrows, hperm⟩ := sharedReceiptRows_eq_ok nodup_receiptsOf
    (lookupReceipts_perm E agentId) hkeys
  simp only [contains_mapKeys] at hperm
  have hids : (rows.map (·.messageId)).Nodup :=
    (hperm.map _).nodup_iff.mpr (nodup_receiptsOf.sublist (filter_sublist.map _))
  have hfold : rows.foldlM (sharedReceiptRow deliveries) [] =
      .ok (rows.foldl (fun m r => Assoc.insert r.messageId (r.readTs, r.ackTs) m) []) := by
    apply foldlM_eq_foldl
    intro receipts r hr
    exact if_pos (mem_filter.mp (hperm.mem_iff.mp hr)).2
  refine ⟨rows, _, hrows, hfold, ?_⟩
  intro e he
  rw [Assoc.get?_foldl_insert]
  · congr 1
    apply Option.ext
    intro r
    rw [find?_key_eq_some hids, Mailbox.mailboxReceipt?, find?_key_eq_some nodup_receiptsOf,
      hperm.mem_iff, mem_filter, Assoc.contains_iff]
    constructor
    · rintro ⟨⟨hr, _⟩, hid⟩
      exact ⟨hr, hid⟩
    · rintro ⟨hr, hid⟩
      exact ⟨⟨hr, hid ▸ mem_map_of_mem he⟩, hid⟩
  · intro a ha b hb hid
    rw [inj_on_of_nodup_map hids ha hb hid]

/-- Every delivery enters with its own receipt, though the receipts are taken out one by one. -/
theorem foldl_admitDelivery {entries : List (Int × Int)} (hnodup : (entries.map (·.1)).Nodup)
    {receipts : List (Int × Option Int × Option Int)} (h : ∀ e ∈ entries, Assoc.get? e.1 receipts =
      (M.mailboxReceipt? agentId e.1).map fun r => (r.readTs, r.ackTs)) (newest : NewestWindow) :
    (entries.foldl (admitDelivery limit options) (receipts, newest)).2 =
      (entries.filterMap (sharedCandidate M agentId options)).foldl (admitCandidate limit) newest := by
  induction entries generalizing receipts newest with
  | nil => rfl
  | cons e entries ih =>
    rw [map_cons, nodup_cons] at hnodup
    have hrest : ∀ e' ∈ entries, Assoc.get? e'.1 (Assoc.erase e.1 receipts) =
        (M.mailboxReceipt? agentId e'.1).map fun r => (r.readTs, r.ackTs) := by
      intro e' he'
      have hne : (e'.1 != e.1) = true := by
        rw [bne_iff_ne]
        intro heq
        exact hnodup.1 (heq ▸ mem_map_of_mem he')
      rw [Assoc.erase, Assoc.get?_filter (p := fun k => k != e.1) hne, h e' (mem_cons_of_mem _ he')]
    have hreceipt := h e (mem_cons_self ..)
    rw [foldl_cons, filterMap_cons, sharedCandidate, admitDelivery]
    dsimp only
    rw [hreceipt]
    cases hr : M.mailboxReceipt? agentId e.1 with
    | none =>
      simp only [Option.map_none, Option.getD_none, Option.bind_none]
      split
      · exact ih hnodup.2 hrest newest
      · exact ih hnodup.2 hrest _
    | some r =>
      simp only [Option.map_some, Option.getD_some, Option.bind_some]
      split
      · exact ih hnodup.2 hrest newest
      · exact ih hnodup.2 hrest _

/-- The viewer passes the checks at the start of `fetch_shared`. -/
structure CanView (M : Mailbox) (projectId agentId : Int) (viewer : Agent) : Prop where
  found : M.agent? agentId = some viewer
  member : viewer.projectId = projectId
  active : viewer.retiredAt = none
  open_ : viewer.contactPolicy.any (eqIgnoreAsciiCase · "block_all".toList) = false

/-- The rows that the scan of a shared page is too old for. -/
def sharedTooOld (viewer : Agent) (sinceTs : Option Int) (m : Message) : Bool :=
  decide (m.createdTs < viewer.inceptionTs) || missesSince sinceTs m

/-- The rows that the scan of a shared page skips. -/
def sharedSkips (agentId : Int) (options : FetchOptions) (m : Message) : Bool :=
  m.senderId == agentId || (missesUrgent options m || missesAck options m || missesTopic options m)

variable {viewer : Agent}

theorem acceptsContact_of_canView (h : CanView M projectId agentId viewer) :
    Mailbox.acceptsContact viewer = true := by
  have hopen := h.open_
  unfold Mailbox.acceptsContact
  cases hpolicy : viewer.contactPolicy with
  | none => decide
  | some policy =>
    rw [hpolicy, Option.any_some] at hopen
    rw [Option.getD_some, hopen]
    rfl

/-- A viewer that fails the checks sees no delivery to the project. -/
theorem not_visible_of_blocked (h : (viewer.projectId != projectId || viewer.retiredAt.isSome ||
      viewer.contactPolicy.any (eqIgnoreAsciiCase · "block_all".toList)) = true) (d : Delivery)
    (m : Message) : (d.projectId == projectId && M.visibleToViewer viewer d m) = false := by
  by_cases hd : d.projectId = projectId
  · rw [Bool.or_eq_true, Bool.or_eq_true, bne_iff_ne] at h
    rcases h with (hproject | hretired) | hcontact
    · have hother : (d.projectId == viewer.projectId) = false := by
        rw [hd]
        exact beq_eq_false_iff_ne.mpr (Ne.symm hproject)
      simp [Mailbox.visibleToViewer, hother]
    · have hnone : viewer.retiredAt.isNone = false := by
        rw [← Option.not_isSome, hretired]
        rfl
      simp [Mailbox.visibleToViewer, hnone]
    · have hblocked : Mailbox.acceptsContact viewer = false := by
        unfold Mailbox.acceptsContact
        cases hpolicy : viewer.contactPolicy with
        | none =>
          rw [hpolicy] at hcontact
          cases hcontact
        | some policy =>
          rw [hpolicy, Option.any_some] at hcontact
          rw [Option.getD_some, hcontact]
          rfl
      simp [Mailbox.visibleToViewer, hblocked]
  · rw [beq_eq_false_iff_ne.mpr hd, Bool.false_and]

section

variable (h : CanView M projectId agentId viewer)
include h

/-- What a viewer that passes the checks sees of a delivery to the project. -/
theorem visibleToViewer_of_canView {m : Message}
    (hproject : m.projectId = projectId) {d : Delivery} (hd : d.messageId = m.id) :
    (d.projectId == projectId && M.visibleToViewer viewer d m) =
      (d.projectId == projectId && (m.senderId != agentId &&
        decide (viewer.inceptionTs ≤ m.createdTs) && !M.isRecipient m.id agentId)) := by
  have hid : viewer.id = agentId := by
    have hfound := h.found
    rw [Mailbox.agent?, find?_key_eq_some M.agents_nodup] at hfound
    exact hfound.2
  by_cases hp : d.projectId = projectId
  · rw [Mailbox.visibleToViewer, acceptsContact_of_canView h, h.active, h.member, hid, hd, hp,
      hproject]
    simp
  · rw [beq_eq_false_iff_ne.mpr hp, Bool.false_and, Bool.false_and]

/-- The shared picks by the steps of the walk. -/
theorem sharedReceipt_eq {m : Message}
    (hproject : m.projectId = projectId) :
    (sharedReceipt M projectId agentId sinceTs options m).map
        (fun r => { createdTs := m.createdTs, id := m.id, receipt := r : Candidate }) =
      if (!sharedTooOld viewer sinceTs m && !sharedSkips agentId options m) &&
          (delivered M projectId m.id && !M.isRecipient m.id agentId) then
        sharedCandidate M agentId options (m.id, m.createdTs)
      else none := by
  unfold sharedReceipt delivered sharedCandidate
  rw [h.found]
  cases hd : M.delivery? m.id with
  | none => simp
  | some d =>
    rw [Mailbox.delivery?, find?_key_eq_some M.deliveries_nodup] at hd
    have hvisible := visibleToViewer_of_canView h hproject hd.2
    have hinception : decide (viewer.inceptionTs ≤ m.createdTs) =
        !decide (m.createdTs < viewer.inceptionTs) := by
      rw [← decide_not, decide_eq_decide]
      omega
    have hsteps (readTs ackTs : Option Int) : (d.projectId == projectId &&
        M.visibleToViewer viewer d m && satisfies sinceTs options m readTs ackTs) =
        ((!sharedTooOld viewer sinceTs m && !sharedSkips agentId options m &&
          (d.projectId == projectId && !M.isRecipient m.id agentId)) &&
          !missesReceipt options readTs ackTs) := by
      rw [hvisible, satisfies_eq, hinception, sharedTooOld, sharedSkips, bne]
      grind
    simp only [Option.bind_some, Option.any_some, hsteps]
    cases missesReceipt options ((M.mailboxReceipt? agentId m.id).bind (·.readTs))
      ((M.mailboxReceipt? agentId m.id).bind (·.ackTs)) <;>
      cases !sharedTooOld viewer sinceTs m && !sharedSkips agentId options m &&
        (d.projectId == projectId && !M.isRecipient m.id agentId) <;> rfl

/-- The shared candidates of a page, from its candidate headers. -/
theorem candidates_sharedReceipt {rows : List Message}
    (hproject : ∀ m ∈ rows, m.projectId = projectId) :
    candidates (sharedReceipt M projectId agentId sinceTs options) rows =
      (((rows.filter fun m => !sharedTooOld viewer sinceTs m && !sharedSkips agentId options m).map
        fun m => (m.id, m.createdTs)).filter
          fun e => delivered M projectId e.1 && !M.isRecipient e.1 agentId).filterMap
            (sharedCandidate M agentId options) := by
  rw [candidates_eq_filterMap, filter_map, filterMap_map, filter_filter, filterMap_filter]
  apply filterMap_congr
  intro m hm
  rw [sharedReceipt_eq h (hproject m hm), Bool.and_comm]
  rfl

/-- A page of the shared walk adds the shared picks of its messages to the window. -/
theorem sharedPage_eq_ok {read rows : List Message}
    (hproject : ∀ m ∈ rows, m.projectId = projectId) (hnodup : (rows.map (·.id)).Nodup)
    {old : List Candidate}
    (hkeys : ((old ++ candidates (sharedReceipt M projectId agentId sinceTs options) rows).map
      Candidate.key).Nodup) :
    admitShared E projectId agentId limit options
        (scanned (sharedTooOld viewer sinceTs) (sharedSkips agentId options) read rows).candidates
        (Window.top Candidate.key limit old) = .ok (Window.top Candidate.key limit
        (old ++ candidates (sharedReceipt M projectId agentId sinceTs options) rows)) := by
  have hheaders : (((rows.filter fun m => !sharedTooOld viewer sinceTs m &&
      !sharedSkips agentId options m).map fun m => (m.id, m.createdTs)).map (·.1)).Nodup := by
    rw [map_map]
    exact hnodup.sublist (filter_sublist.map _)
  rw [candidates_sharedReceipt h hproject] at hkeys ⊢
  rw [scanned]
  dsimp only
  generalize ((rows.filter fun m => !sharedTooOld viewer sinceTs m &&
    !sharedSkips agentId options m).map fun m => (m.id, m.createdTs)) = headers at hheaders hkeys ⊢
  unfold admitShared
  by_cases hnone : headers.isEmpty = true
  · rw [if_pos hnone, List.isEmpty_iff.mp hnone, filter_nil, filterMap_nil, append_nil]
  obtain ⟨deliveries, hdeliveries, hperm⟩ := @deliveries_eq_ok M E projectId headers hheaders
  rw [if_neg hnone, hdeliveries]
  have hids : (deliveries.map (·.1)).Nodup :=
    (hperm.map _).nodup_iff.mpr (hheaders.sublist (filter_sublist.map _))
  obtain ⟨direct, hdirect, hleft⟩ := @excludeDirect_eq_ok M E agentId deliveries hids
  have hperm' := @undirected_perm M projectId agentId _ _ hperm
  dsimp only [bind, Except.bind]
  by_cases hempty : deliveries.isEmpty = true
  · rw [List.isEmpty_iff.mp hempty, filter_nil] at hperm'
    rw [if_pos hempty, nil_perm.mp hperm', filterMap_nil, append_nil]
  rw [if_neg hempty, hdirect]
  dsimp only
  rw [hleft]
  have hids' : ((deliveries.filter fun e => !M.isRecipient e.1 agentId).map (·.1)).Nodup :=
    hids.sublist (filter_sublist.map _)
  generalize (deliveries.filter fun e => !M.isRecipient e.1 agentId) = left at hids' hperm' ⊢
  by_cases hempty' : left.isEmpty = true
  · rw [List.isEmpty_iff.mp hempty'] at hperm'
    rw [if_pos hempty', nil_perm.mp hperm', filterMap_nil, append_nil]
  obtain ⟨stored, receipts, hstored, hreceipts, hget⟩ := @receipts_eq_ok M E agentId left hids'
  rw [if_neg hempty', hstored]
  dsimp only
  rw [hreceipts]
  have horder : E.order .hashMap [] left ~ left := E.order_perm ..
  have hgets : ∀ e ∈ E.order .hashMap [] left, Assoc.get? e.1 receipts =
      (M.mailboxReceipt? agentId e.1).map fun r => (r.readTs, r.ackTs) :=
    fun e he => hget e (horder.mem_iff.mp he)
  dsimp only
  rw [foldl_admitDelivery ((horder.map _).nodup_iff.mpr hids') hgets]
  exact congrArg _ (foldl_admitCandidate_perm ((horder.trans hperm').filterMap _) hkeys)

end

end

/-! ### Walking the listing -/

section

variable {M : Mailbox} {E : Engine M} {projectId agentId : Int} {sinceTs : Option Int} {limit : Nat}
  {options : FetchOptions} {receipt : Message → Option Receipt} {tooOld : Message → Bool}
  {read rows rest : List Message}

theorem nodup_listing : ((E.listing projectId).map (·.id)).Nodup :=
  ((E.listing_perm projectId).map _).nodup_iff.mpr
    (M.messages_nodup.sublist (filter_sublist.map _))

theorem project_of_mem_listing {m : Message} (h : m ∈ E.listing projectId) : m.projectId = projectId :=
  beq_iff_eq.mp (mem_filter.mp ((E.listing_perm projectId).mem_iff.mp h)).2

theorem length_listing : ((E.listing projectId).length : Int) ≤ i64Max := by
  have hle : (E.listing projectId).length ≤ M.messages.length := by
    rw [(E.listing_perm projectId).length_eq]
    exact length_filter_le ..
  have := E.capacity
  omega

/-- A full window whose oldest entry is newer than the last row read admits nothing later. -/
theorem older_of_windowComplete (hsorted : (read ++ rest).Pairwise fun a b => b.createdTs ≤ a.createdTs)
    (hnodup : ((read ++ rest).map (·.id)).Nodup)
    (h : windowComplete limit (Window.top Candidate.key limit (candidates receipt read))
      (markAfter Message.createdTs read) = true) :
    Window.top Candidate.key limit (candidates receipt (read ++ rest)) =
      Window.top Candidate.key limit (candidates receipt read) := by
  have hkeys := @nodup_key_candidates receipt _ hnodup
  rw [candidates_append] at hkeys ⊢
  rw [windowComplete, Bool.and_eq_true, beq_iff_eq, Option.any_eq_true, ceiling_markAfter] at h
  obtain ⟨hfull, oldest, holdest, hlast⟩ := h
  rw [Option.any_eq_true] at hlast
  obtain ⟨last, hmark, hlt⟩ := hlast
  rw [Option.map_eq_some_iff] at hmark
  obtain ⟨message, hmessage, rfl⟩ := hmark
  rw [decide_eq_true_eq] at hlt
  apply Window.top_append_of_older hkeys hfull
  intro later hlater entry hentry
  have hcreated : later.createdTs ≤ message.createdTs := by
    rw [candidates, mem_map] at hlater
    obtain ⟨p, hp, rfl⟩ := hlater
    exact (pairwise_append.mp hsorted).2.2 message (mem_of_getLast? hmessage) p.1
      (mem_picks.mp hp).1
  have holder : oldest.key ≤ entry.key := by
    rw [map_append] at hkeys
    have hdesc := Window.descending_top limit hkeys.of_append_left
    obtain ⟨front, hfront⟩ := List.getLast?_eq_some_iff.mp holdest
    rw [hfront] at hdesc hentry
    rcases mem_append.mp hentry with hmem | hmem
    · exact le_of_lt ((pairwise_append.mp hdesc).2.2 entry hmem oldest (mem_singleton_self _))
    · rw [mem_singleton.mp hmem]
  have hentryTs : oldest.createdTs ≤ entry.createdTs := Prod.Lex.monotone_fst _ _ holder
  rw [Candidate.key, Candidate.key, Prod.Lex.toLex_lt_toLex]
  left
  show later.createdTs < entry.createdTs
  omega

/-- When a walk stops, its window is that of the whole listing. -/
theorem top_of_done (hlisting : E.listing projectId = read ++ rows ++ rest)
    (hold : ∀ a b, tooOld a = true → b.createdTs ≤ a.createdTs → tooOld b = true)
    (hnone : ∀ m ∈ E.listing projectId, tooOld m = true → receipt m = none)
    (hdone : rest = [] ∨ rows.any tooOld = true ∨
      windowComplete limit (Window.top Candidate.key limit (candidates receipt (read ++ rows)))
        (markAfter Message.createdTs (read ++ rows)) = true) :
    Window.top Candidate.key limit (candidates receipt (read ++ rows)) =
      Window.top Candidate.key limit (candidates receipt (E.listing projectId)) := by
  have hsorted := E.listing_sorted projectId
  rw [hlisting] at hsorted hnone ⊢
  rcases hdone with hempty | hbound | hcomplete
  · rw [hempty, append_nil]
  · obtain ⟨m, hm, hmold⟩ := any_eq_true.mp hbound
    have hrest : candidates receipt rest = [] := by
      rw [candidates, map_eq_nil_iff, eq_nil_iff_forall_not_mem]
      intro p hp
      rw [mem_picks] at hp
      have hbelow := (pairwise_append.mp hsorted).2.2 m (mem_append_right _ hm) p.1 hp.1
      rw [hnone p.1 (mem_append_right _ hp.1) (hold m p.1 hmold hbelow)] at hp
      cases hp.2
    rw [@candidates_append receipt (read ++ rows), hrest, append_nil]
  · have hnodup := @nodup_listing M E projectId
    rw [hlisting] at hnodup
    exact (older_of_windowComplete hsorted hnodup hcomplete).symm

theorem sharedPageQuery_eq (hlisting : E.listing projectId = read ++ rest) :
    sharedPageQuery E projectId (markAfter Message.createdTs read) = rest.take sharedPageSize := by
  have hsorted := E.listing_sorted projectId
  rw [hlisting] at hsorted
  rw [sharedPageQuery, hlisting, remaining_markAfter hsorted]

/-- A page is scanned without an error, and its picks are new. -/
theorem page_facts (hlisting : E.listing projectId = read ++ rest) (receipt : Message → Option Receipt)
    (label : String) (tooOld skips : Message → Bool) :
    (∀ m ∈ rest.take sharedPageSize, m.projectId = projectId) ∧
      ((rest.take sharedPageSize).map (·.id)).Nodup ∧
      ((candidates receipt read ++ candidates receipt (rest.take sharedPageSize)).map
        Candidate.key).Nodup ∧
      scanPage label projectId tooOld skips (markAfter Message.createdTs read)
        (rest.take sharedPageSize) = .ok (scanned tooOld skips read (rest.take sharedPageSize)) := by
  have hsub : (read ++ rest.take sharedPageSize).Sublist (E.listing projectId) := by
    rw [hlisting]
    exact (List.Sublist.refl read).append (take_sublist ..)
  have hproject : ∀ m ∈ rest.take sharedPageSize, m.projectId = projectId :=
    fun m hm => project_of_mem_listing (hsub.subset (mem_append_right _ hm))
  have hnodup : ((read ++ rest.take sharedPageSize).map (·.id)).Nodup :=
    nodup_listing.sublist (hsub.map _)
  have hrows : ((rest.take sharedPageSize).map (·.id)).Nodup := by
    rw [map_append] at hnodup
    exact hnodup.of_append_right
  refine ⟨hproject, hrows, ?_, ?_⟩
  · rw [← candidates_append]
    exact nodup_key_candidates hnodup
  · apply scanPage_eq_ok ((E.listing_sorted projectId).sublist hsub) hproject hrows
    have := hsub.length_le
    have := @length_listing M E projectId
    omega

/-- A walk has read a beginning of the listing. -/
def Walked (E : Engine M) (projectId : Int) (limit : Nat) (receipt : Message → Option Receipt)
    (newest : NewestWindow) (mark : Mark Int) : Prop :=
  ∃ read rest, E.listing projectId = read ++ rest ∧ mark = markAfter Message.createdTs read ∧
    newest = Window.top Candidate.key limit (candidates receipt read)

theorem walked_start : Walked E projectId limit receipt [] { ceiling := none, skip := 0 } :=
  ⟨[], E.listing projectId, rfl, rfl, by simp [candidates, picks, Window.top, Window.sort]⟩

/-- A page that does not finish the listing takes a full page off what is left. -/
theorem walked_next (hlisting : E.listing projectId = read ++ rest)
    (hmore : ¬ (rest.take sharedPageSize).length < sharedPageSize) :
    Walked E projectId limit receipt
        (Window.top Candidate.key limit (candidates receipt (read ++ rest.take sharedPageSize)))
        (markAfter Message.createdTs (read ++ rest.take sharedPageSize)) ∧
      (remaining Message.createdTs (E.listing projectId)
        (markAfter Message.createdTs (read ++ rest.take sharedPageSize))).length <
      (remaining Message.createdTs (E.listing projectId) (markAfter Message.createdTs read)).length := by
  have hsorted := E.listing_sorted projectId
  have hsplit : E.listing projectId = read ++ rest.take sharedPageSize ++ rest.drop sharedPageSize := by
    rw [hlisting, append_assoc, take_append_drop]
  refine ⟨⟨_, _, hsplit, rfl, rfl⟩, ?_⟩
  rw [hsplit] at hsorted
  have hnext := remaining_markAfter hsorted
  rw [← hsplit] at hnext hsorted
  rw [hlisting] at hsorted
  have hnow := remaining_markAfter hsorted
  rw [← hlisting] at hnow
  rw [hnext, hnow, length_drop]
  rw [length_take] at hmore
  have : 0 < sharedPageSize := by decide
  omega

theorem missesSince_antitone {a b : Message} (h : missesSince sinceTs a = true)
    (hle : b.createdTs ≤ a.createdTs) : missesSince sinceTs b = true := by
  unfold missesSince at h ⊢
  cases sinceTs with
  | none => cases h
  | some ts =>
    rw [Option.any_some, decide_eq_true_eq] at h ⊢
    omega

/-- Picks come from the project, so the whole table has the window of the listing. -/
theorem top_listing (hforeign : ∀ m ∈ M.messages, m.projectId ≠ projectId → receipt m = none) :
    Window.top Candidate.key limit (candidates receipt (E.listing projectId)) =
      Window.top Candidate.key limit (candidates receipt M.messages) := by
  rw [Window.top_congr limit (candidates_perm (E.listing_perm projectId))
    (nodup_key_candidates nodup_listing), candidates_filter]
  intro m hm hproject
  exact hforeign m hm (beq_eq_false_iff_ne.mp hproject)

/-- When the test at the end of a page stops a walk, its window is that of all messages. -/
theorem top_of_stop {skips : Message → Bool} (hlisting : E.listing projectId = read ++ rest)
    (hold : ∀ a b, tooOld a = true → b.createdTs ≤ a.createdTs → tooOld b = true)
    (hnone : ∀ m ∈ E.listing projectId, tooOld m = true → receipt m = none)
    (hforeign : ∀ m ∈ M.messages, m.projectId ≠ projectId → receipt m = none)
    (hstop : (decide ((rest.take sharedPageSize).length < sharedPageSize) ||
      (scanned tooOld skips read (rest.take sharedPageSize)).lowerBoundReached ||
      windowComplete limit
        (Window.top Candidate.key limit (candidates receipt (read ++ rest.take sharedPageSize)))
        (scanned tooOld skips read (rest.take sharedPageSize)).mark) = true) :
    Window.top Candidate.key limit (candidates receipt (read ++ rest.take sharedPageSize)) =
      Window.top Candidate.key limit (candidates receipt M.messages) := by
  have hsplit : E.listing projectId = read ++ rest.take sharedPageSize ++ rest.drop sharedPageSize := by
    rw [hlisting, append_assoc, take_append_drop]
  rw [← top_listing hforeign]
  apply top_of_done hsplit hold hnone
  rw [Bool.or_eq_true, Bool.or_eq_true, decide_eq_true_eq] at hstop
  rcases hstop with (hshort | hbound) | hcomplete
  · left
    rw [length_take] at hshort
    rw [drop_eq_nil_iff]
    omega
  · exact .inr (.inl hbound)
  · exact .inr (.inr hcomplete)

theorem length_remaining_lt :
    (remaining Message.createdTs (E.listing projectId) { ceiling := none, skip := 0 }).length <
      (E.listing projectId).length + 1 := by
  rw [remaining, length_drop]
  exact Nat.lt_succ_of_le (le_trans (Nat.sub_le ..) (length_filter_le ..))

theorem directReceipt_foreign {m : Message} (h : m.projectId ≠ projectId) :
    directReceipt M projectId agentId sinceTs options m = none := by
  rw [directReceipt, beq_eq_false_iff_ne.mpr h]
  simp

theorem directReceipt_missesSince {m : Message} (h : missesSince sinceTs m = true) :
    directReceipt M projectId agentId sinceTs options m = none := by
  simp [directReceipt, satisfies_eq, h]

/-- `newest_first_window` gives up or returns the newest direct picks. -/
theorem newestFirstWindow_eq_ok (hstate : hasStateFilter options = false) (budget : Nat) :
    ∃ walked, newestFirstWindow E projectId agentId sinceTs limit options budget = .ok walked ∧
      (walked = none ∨ walked = some (Window.top Candidate.key limit
        (candidates (directReceipt M projectId agentId sinceTs options) M.messages))) := by
  unfold newestFirstWindow
  rw [if_neg (ne_true_of_eq_false hstate)]
  apply iterate_eq_ok (I := fun w : Walk => Walked E projectId limit
    (directReceipt M projectId agentId sinceTs options) w.newest w.mark)
    fun w => (remaining Message.createdTs (E.listing projectId) w.mark).length
  · rintro w ⟨read, rest, hlisting, hmark, hnewest⟩
    obtain ⟨hproject, hrows, hkeys, hscan⟩ := page_facts hlisting
      (directReceipt M projectId agentId sinceTs options) "direct" (missesSince sinceTs)
      (fun m => missesUrgent options m || missesTopic options m)
    obtain ⟨receipts, work, hreceipts, hadmitted⟩ := @directPage_eq_ok M E projectId agentId sinceTs limit
      options hstate read _ hproject hrows _ hkeys
    unfold newestFirstStep
    rw [hmark, sharedPageQuery_eq hlisting]
    dsimp only
    rw [if_neg (by rw [length_take]; omega), hscan]
    dsimp only [bind, Except.bind]
    rw [hreceipts]
    dsimp only
    rw [hnewest, hadmitted, ← candidates_append]
    dsimp only
    split
    · next hstop =>
      refine .inl ⟨_, rfl, .inr (congrArg some ?_)⟩
      exact top_of_stop hlisting (fun a b => missesSince_antitone)
        (fun m _ hm => directReceipt_missesSince hm) (fun m _ hm => directReceipt_foreign hm) hstop
    · next hmore =>
      split
      · exact .inl ⟨_, rfl, .inl rfl⟩
      · rw [Bool.or_eq_true, Bool.or_eq_true, decide_eq_true_eq, not_or, not_or] at hmore
        exact .inr ⟨_, rfl, walked_next hlisting hmore.1.1⟩
  · exact length_remaining_lt
  · exact walked_start

theorem sharedReceipt_foreign {m : Message} (h : m.projectId ≠ projectId) :
    sharedReceipt M projectId agentId sinceTs options m = none := by
  unfold sharedReceipt
  cases M.delivery? m.id with
  | none => rfl
  | some d =>
    cases M.agent? agentId with
    | none => rfl
    | some viewer =>
      have hhidden : (d.projectId == projectId && M.visibleToViewer viewer d m) = false := by
        by_cases hd : d.projectId = projectId
        · have hm : (m.projectId == d.projectId) = false := by
            rw [hd]
            exact beq_eq_false_iff_ne.mpr h
          simp [Mailbox.visibleToViewer, hm]
        · rw [beq_eq_false_iff_ne.mpr hd, Bool.false_and]
      simp only [Option.bind_some, hhidden, Bool.false_and]
      rfl

theorem sharedReceipt_tooOld {viewer : Agent} (h : CanView M projectId agentId viewer)
    {m : Message} (hproject : m.projectId = projectId) (hold : sharedTooOld viewer sinceTs m = true) :
    sharedReceipt M projectId agentId sinceTs options m = none := by
  have hnone := @sharedReceipt_eq M projectId agentId sinceTs options viewer h m hproject
  rw [hold] at hnone
  rw [← Option.map_eq_none_iff, hnone]
  rfl

/-- The walk of `fetch_shared` returns the newest shared picks. -/
theorem sharedWindow_eq_ok {viewer : Agent} (h : CanView M projectId agentId viewer) :
    iterate (sharedStep E projectId agentId sinceTs limit options viewer.inceptionTs) .outOfFuel
        ((E.listing projectId).length + 1)
        { newest := [], mark := { ceiling := none, skip := 0 } } =
      .ok (Window.top Candidate.key limit
        (candidates (sharedReceipt M projectId agentId sinceTs options) M.messages)) := by
  obtain ⟨newest, hok, rfl⟩ : ∃ newest, iterate
      (sharedStep E projectId agentId sinceTs limit options viewer.inceptionTs) .outOfFuel
      ((E.listing projectId).length + 1)
      { newest := [], mark := { ceiling := none, skip := 0 } } = .ok newest ∧
      newest = Window.top Candidate.key limit
        (candidates (sharedReceipt M projectId agentId sinceTs options) M.messages) := by
    apply iterate_eq_ok (I := fun w : SharedWalk => Walked E projectId limit
      (sharedReceipt M projectId agentId sinceTs options) w.newest w.mark)
      fun w => (remaining Message.createdTs (E.listing projectId) w.mark).length
    · rintro w ⟨read, rest, hlisting, hmark, hnewest⟩
      obtain ⟨hproject, hrows, hkeys, hscan⟩ := page_facts hlisting
        (sharedReceipt M projectId agentId sinceTs options) "shared" (sharedTooOld viewer sinceTs)
        (sharedSkips agentId options)
      have hadmitted := @sharedPage_eq_ok M E projectId agentId sinceTs limit options viewer h read _
        hproject hrows _ hkeys
      unfold sharedStep
      rw [hmark, sharedPageQuery_eq hlisting]
      dsimp only
      have hscan' : scanPage "shared" projectId
          (fun m => decide (m.createdTs < viewer.inceptionTs) || missesSince sinceTs m)
          (fun m => m.senderId == agentId || (missesUrgent options m || missesAck options m ||
            missesTopic options m)) _ _ = _ := hscan
      rw [if_neg (by rw [length_take]; omega), hscan']
      dsimp only [bind, Except.bind]
      rw [hnewest, hadmitted, ← candidates_append]
      dsimp only
      split
      · next hstop =>
        refine .inl ⟨_, rfl, ?_⟩
        refine top_of_stop hlisting ?_ ?_ (fun m _ hm => sharedReceipt_foreign hm) hstop
        · intro a b ha hle
          rw [sharedTooOld, Bool.or_eq_true, decide_eq_true_eq] at ha ⊢
          rcases ha with hinception | hsince
          · exact .inl (by omega)
          · exact .inr (missesSince_antitone hsince hle)
        · exact fun m hm hold => sharedReceipt_tooOld h (project_of_mem_listing hm) hold
      · next hmore =>
        rw [Bool.or_eq_true, Bool.or_eq_true, decide_eq_true_eq, not_or, not_or] at hmore
        exact .inr ⟨_, rfl, walked_next hlisting hmore.1.1⟩
    · exact length_remaining_lt
    · exact walked_start
  exact hok

end

end AgentMail.Inbox
