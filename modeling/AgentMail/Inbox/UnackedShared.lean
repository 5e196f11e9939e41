import AgentMail.Inbox.UnackedDirect
import AgentMail.Inbox.Walks

/-!
# The shared window of pending acknowledgements

A page of `extend_shared_window` adds the shared rows of its messages to the window.
-/

namespace AgentMail.Inbox

open Base Lib
open List

/-! ### Keyed receipts -/

theorem inKeyOrder_perm {β : Type} (entries : List (Int × β)) : inKeyOrder entries ~ entries :=
  mergeSort_perm ..

/-- The receipts of some ids, whatever order the engine chooses. -/
theorem keyedReceipts_eq_ok {α : Type} {l : List α} {f : α → Int} {lookup : List Int → List α}
    (hl : (l.map f).Nodup) (h : ∀ ids, (lookup ids).Perm (l.filter fun x => ids.contains (f x)))
    {ids : List Int} (hids : ids.Nodup) :
    ∃ out, keyedReceipts lookup f ids = .ok out ∧
      ∀ id, Assoc.get? id out = if ids.contains id then l.find? fun x => f x == id else none := by
  have hrows := flatMap_chunks_perm h hids 8
  have hnodup : (((chunks 8 ids).flatMap lookup).map f).Nodup :=
    (hrows.map f).nodup_iff.mpr (hl.sublist (filter_sublist.map f))
  have hfold : ∃ out, keyedReceipts lookup f ids = .ok out ∧
      out = ((chunks 8 ids).flatMap lookup).map fun x => (f x, x) := by
    apply foldlM_eq_ok (I := fun (front : List (List Int)) (out : List (Int × α)) =>
      out = (front.flatMap lookup).map fun x => (f x, x))
    · intro front batch back out hsplit hout
      have hbatch : (lookup batch).length ≤ batch.length := by
        rw [(h batch).length_eq]
        exact length_filter_contains_le hl batch
      have height : batch.length ≤ 8 := by
        apply length_le_of_mem_chunks (l := ids) (by decide)
        rw [hsplit]
        simp
      have htake : (lookup batch).take 9 = lookup batch := take_of_length_le (by omega)
      dsimp only
      rw [htake, if_neg (Nat.not_lt.mpr hbatch), flatMap_append, map_append, flatMap_singleton]
      apply foldlM_eq_ok (I := fun (read : List α) (out : List (Int × α)) =>
        out = ((front.flatMap lookup).map fun x => (f x, x)) ++ read.map fun x => (f x, x))
      · intro read x rest out hread hout
        have hmem : batch.contains (f x) = true := by
          have hx : x ∈ lookup batch := by
            rw [hread]
            simp
          exact (mem_filter.mp ((h batch).mem_iff.mp hx)).2
        have hnew : f x ∉ out.map (·.1) := by
          rw [hsplit, flatMap_append, flatMap_cons, hread, append_assoc,
            ← append_assoc, cons_append, map_append, nodup_append] at hnodup
          rw [hout, ← map_append, map_map]
          intro hin
          exact hnodup.2.2 (f x) hin (f x) (by simp) rfl
        have hcontains : Assoc.contains (f x) out = false := by
          rw [← Bool.not_eq_true, Assoc.contains_iff]
          exact hnew
        refine ⟨_, ?_, rfl⟩
        rw [keyedRow, hmem, hcontains, Assoc.insert_of_new hnew, hout, map_append, ← append_assoc]
        rfl
      · rw [hout, map_nil, append_nil]
    · rfl
  obtain ⟨out, hout, rfl⟩ := hfold
  refine ⟨_, hout, ?_⟩
  intro id
  have hget : Assoc.get? id (((chunks 8 ids).flatMap lookup).map fun x => (f x, x)) =
      ((chunks 8 ids).flatMap lookup).find? fun x => f x == id := by
    rw [Assoc.get?_map]
    cases ((chunks 8 ids).flatMap lookup).find? (fun x => f x == id) <;> rfl
  rw [hget]
  apply Option.ext
  intro x
  rw [find?_key_eq_some hnodup, hrows.mem_iff, mem_filter]
  constructor
  · rintro ⟨⟨hx, hin⟩, rfl⟩
    rw [if_pos hin, find?_key_eq_some hl]
    exact ⟨hx, rfl⟩
  · intro hsome
    split at hsome
    · next hin =>
      obtain ⟨hx, rfl⟩ := (find?_key_eq_some hl).mp hsome
      exact ⟨⟨hx, hin⟩, rfl⟩
    · cases hsome

/-! ### The candidates of a page -/

section

variable {M : Mailbox} {E : AckEngine M} {projectId agentId : Int} {limit : Nat}

/-- The entry of a shared delivery, unless its receipt is acknowledged. -/
def deliveryEntry (M : Mailbox) (agentId : Int) (e : Int × Int) : Option AckEntry :=
  if ((M.mailboxReceipt? agentId e.1).bind (·.ackTs)).isSome then none
  else some ⟨e.2, e.1, projectMailboxKind, (M.mailboxReceipt? agentId e.1).bind (·.readTs)⟩

/-- The deliveries to the project among the candidate headers. -/
theorem ackDeliveries_eq_ok {headers : List (Int × Int)} (hnodup : (headers.map (·.1)).Nodup) :
    ∃ left deliveries, (lookupDeliveries E.toEngine ((inKeyOrder headers).map (·.1))).foldlM
        (ackDelivery projectId) (headers, []) = .ok (left, deliveries) ∧
      deliveries ~ headers.filter fun e => delivered M projectId e.1 := by
  have hkeys : (inKeyOrder headers).map (·.1) ~ headers.map (·.1) := (inKeyOrder_perm headers).map _
  have hrows := lookupDeliveries_perm E.toEngine ((inKeyOrder headers).map (·.1))
  generalize lookupDeliveries E.toEngine ((inKeyOrder headers).map (·.1)) = rows at hrows ⊢
  have hcontains (d : Delivery) : ((inKeyOrder headers).map (·.1)).contains d.messageId =
      Assoc.contains d.messageId headers := by
    rw [Bool.eq_iff_iff, contains_iff_mem, hkeys.mem_iff, Assoc.contains_iff]
  simp only [hcontains] at hrows
  have hids : (rows.map (·.messageId)).Nodup :=
    (hrows.map _).nodup_iff.mpr (M.deliveries_nodup.sublist (filter_sublist.map _))
  let collect (deliveries : List (Int × Int)) (p : Delivery × Int) : List (Int × Int) :=
    if p.1.projectId == projectId then Assoc.insert p.1.messageId p.2 deliveries else deliveries
  have hstep (entries deliveries : List (Int × Int)) (d : Delivery) (created : Int)
      (hcreated : Assoc.get? d.messageId entries = some created) :
      ackDelivery projectId (entries, deliveries) d =
        .ok (Assoc.erase d.messageId entries, collect deliveries (d, created)) := by
    rw [ackDelivery, hcreated]
  obtain ⟨left, hfold⟩ := Assoc.foldlM_take hstep hids
    (fun d hd => (mem_filter.mp (hrows.mem_iff.mp hd)).2) []
  refine ⟨left, _, hfold, ?_⟩
  have hcollect (l : List (Delivery × Int)) (hl : (l.map (·.1.messageId)).Nodup) :
      l.foldl collect [] =
        (l.filter fun p => p.1.projectId == projectId).map fun p => (p.1.messageId, p.2) := by
    have hfilter : ((l.filter fun p => p.1.projectId == projectId).map (·.1.messageId)).Nodup :=
      hl.sublist (filter_sublist.map _)
    rw [← Assoc.foldl_insert hfilter, foldl_filter]
  have hpairs : ((rows.filterMap fun d => (Assoc.get? d.messageId headers).map (d, ·)).map
      (·.1.messageId)).Nodup := by
    refine hids.sublist (map_filterMap_sublist ?_ _)
    intro d p hp
    rw [Option.map_eq_some_iff] at hp
    obtain ⟨created, -, rfl⟩ := hp
    rfl
  rw [hcollect _ hpairs]
  refine (List.Perm.of_eq ?_).trans (delivered_perm hnodup hrows)
  rw [filter_filterMap, map_filterMap]
  apply filterMap_congr
  intro d _
  rw [Assoc.get?]
  cases headers.find? (fun e => e.1 == d.messageId) with
  | none => rfl
  | some e =>
    simp only [Option.map_some, Option.bind_some, Option.filter]
    split
    · rfl
    · rfl

/-- Every delivery enters with its own receipt, though the receipts are taken out one by one. -/
theorem foldl_keepDelivery {entries : List (Int × Int)} (hnodup : (entries.map (·.1)).Nodup)
    {receipts : List (Int × MailboxReceipt)}
    (h : ∀ e ∈ entries, Assoc.get? e.1 receipts = M.mailboxReceipt? agentId e.1)
    (window : OldestWindow) :
    (entries.foldl (keepDelivery limit) (receipts, window)).2 =
      (entries.filterMap (deliveryEntry M agentId)).foldl (keepOldest limit) window := by
  induction entries generalizing receipts window with
  | nil => rfl
  | cons e entries ih =>
    rw [map_cons, nodup_cons] at hnodup
    have hrest : ∀ e' ∈ entries, Assoc.get? e'.1 (Assoc.erase e.1 receipts) =
        M.mailboxReceipt? agentId e'.1 := by
      intro e' he'
      rw [Assoc.get?_erase, if_neg, h e' (mem_cons_of_mem _ he')]
      intro heq
      exact hnodup.1 (heq ▸ mem_map_of_mem he')
    have hreceipt := h e (mem_cons_self ..)
    rw [foldl_cons, filterMap_cons, deliveryEntry, keepDelivery]
    dsimp only
    rw [hreceipt]
    cases M.mailboxReceipt? agentId e.1 with
    | none => exact ih hnodup.2 hrest _
    | some r =>
      simp only [Option.bind_some]
      split
      · exact ih hnodup.2 hrest window
      · exact ih hnodup.2 hrest _

/-- The candidates of a page add the entries of their deliveries. -/
theorem sharedHeaders_eq_ok {headers : List (Int × Int)} (hnodup : (headers.map (·.1)).Nodup)
    {old : List AckEntry} (hkeys : ((old ++ (headers.filter fun e => delivered M projectId e.1 &&
      !M.isRecipient e.1 agentId).filterMap (deliveryEntry M agentId)).map
        AckEntry.oldestFirst).Nodup) :
    sharedHeaders E projectId agentId limit headers (oldestTop limit old) =
      .ok (oldestTop limit (old ++ (headers.filter fun e => delivered M projectId e.1 &&
        !M.isRecipient e.1 agentId).filterMap (deliveryEntry M agentId))) := by
  unfold sharedHeaders
  by_cases hnone : headers.isEmpty = true
  · rw [if_pos hnone, List.isEmpty_iff.mp hnone, filter_nil, filterMap_nil, append_nil]
  have hbound : (lookupDeliveries E.toEngine ((inKeyOrder headers).map (·.1))).length ≤
      headers.length := by
    rw [(lookupDeliveries_perm E.toEngine _).length_eq]
    have hle := length_filter_contains_le M.deliveries_nodup ((inKeyOrder headers).map (·.1))
    rwa [length_map, (inKeyOrder_perm headers).length_eq] at hle
  obtain ⟨left, deliveries, hdeliveries, hperm⟩ :=
    @ackDeliveries_eq_ok M E projectId headers hnodup
  rw [if_neg hnone]
  dsimp only
  rw [if_neg (Nat.not_lt.mpr hbound), hdeliveries]
  have hids : (deliveries.map (·.1)).Nodup :=
    (hperm.map _).nodup_iff.mpr (hnodup.sublist (filter_sublist.map _))
  obtain ⟨direct, hdirect, hdirectGet⟩ := keyedReceipts_eq_ok (f := fun r : Recipient => r.messageId)
    nodup_recipientsOf (lookupRecipients_perm E.toEngine agentId)
    (((inKeyOrder_perm deliveries).map _).nodup_iff.mpr hids)
  dsimp only [bind, Except.bind]
  rw [hdirect]
  dsimp only
  rw [Assoc.foldl_erase]
  -- A direct row hides the shared one, acknowledged or not.
  have hleft : (deliveries.filter fun e => !(direct.map (·.1)).contains e.1) =
      deliveries.filter fun e => !M.isRecipient e.1 agentId := by
    apply filter_congr
    intro e he
    have hin : ((inKeyOrder deliveries).map (·.1)).contains e.1 = true := by
      rw [contains_iff_mem, ((inKeyOrder_perm deliveries).map _).mem_iff]
      exact mem_map_of_mem he
    have hget := hdirectGet e.1
    rw [if_pos hin] at hget
    have hsome : (direct.map (·.1)).contains e.1 = (Assoc.get? e.1 direct).isSome := by
      rw [Assoc.get?_isSome, Bool.eq_iff_iff, contains_iff_mem, Assoc.contains_iff]
    rw [hsome, hget, isRecipient_eq]
    rfl
  rw [hleft]
  have hperm' := @undirected_perm M projectId agentId _ _ hperm
  have hids' : ((deliveries.filter fun e => !M.isRecipient e.1 agentId).map (·.1)).Nodup :=
    hids.sublist (filter_sublist.map _)
  generalize (deliveries.filter fun e => !M.isRecipient e.1 agentId) = wanted at hids' hperm' ⊢
  have horder := inKeyOrder_perm wanted
  have hnodup' : ((inKeyOrder wanted).map (·.1)).Nodup := (horder.map _).nodup_iff.mpr hids'
  obtain ⟨receipts, hreceipts, hget⟩ := keyedReceipts_eq_ok
    (f := fun r : MailboxReceipt => r.messageId) nodup_receiptsOf
    (lookupReceipts_perm E.toEngine agentId) hnodup'
  rw [hreceipts]
  have hgets : ∀ e ∈ inKeyOrder wanted, Assoc.get? e.1 receipts = M.mailboxReceipt? agentId e.1 := by
    intro e he
    rw [hget, if_pos (contains_iff_mem.mpr (mem_map_of_mem he))]
    rfl
  dsimp only
  rw [foldl_keepDelivery hnodup' hgets]
  exact congrArg Except.ok (foldl_keepOldest ((horder.trans hperm').filterMap _) hkeys)

end

end AgentMail.Inbox
