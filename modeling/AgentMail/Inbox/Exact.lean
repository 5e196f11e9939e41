import AgentMail.Inbox.Hydrate
import AgentMail.Inbox.ReceiptScan
import AgentMail.Inbox.Walks

/-!
# Inbox reads are exact

Whatever plan the statistics select and whatever order the engine chooses, an inbox read returns
the newest rows of the reference inbox.
-/

namespace AgentMail.Inbox

open Base Lib List InboxRow

section

variable {M : Mailbox} {E : Engine M} {projectId agentId : Int} {sinceTs : Option Int} {limit : Nat}
  {options : FetchOptions} {receipt : Message → Option Receipt}

/-- The rows of the picks. -/
def rowsOf (M : Mailbox) (options : FetchOptions) (receipt : Message → Option Receipt) :
    List InboxRow :=
  (picks receipt M.messages).map fun p => inboxRow M options p.1 p.2

theorem rowsOf_eq : rowsOf M options receipt =
    M.messages.filterMap fun m => (receipt m).map (inboxRow M options m) := by
  rw [rowsOf, picks, map_filterMap]
  congr 1
  funext m
  cases receipt m <;> rfl

/-- Hydrating the newest picks gives the newest rows. -/
theorem hydrate_top (hforeign : ∀ m : Message, m.projectId ≠ projectId → receipt m = none) :
    hydrate E projectId options (Window.top Candidate.key limit (candidates receipt M.messages)) =
      .ok (Window.top key limit (rowsOf M options receipt)) := by
  have hnodup := @nodup_key_picks receipt _ M.messages_nodup
  have hwindow : Window.top Candidate.key limit (candidates receipt M.messages) =
      (Window.top Pick.key limit (picks receipt M.messages)).map Pick.candidate :=
    Window.top_map (fun _ => rfl) limit hnodup
  have hrows : Window.top key limit (rowsOf M options receipt) =
      (Window.top Pick.key limit (picks receipt M.messages)).map fun p => inboxRow M options p.1 p.2 :=
    Window.top_map key_inboxRow limit hnodup
  rw [hwindow, hrows]
  apply hydrate_eq_ok (Window.descending_top limit hnodup)
  intro p hp
  have hpick := mem_picks.mp (Window.mem_of_mem_top hp)
  refine ⟨hpick.1, ?_⟩
  by_contra hne
  rw [hforeign p.1 hne] at hpick
  cases hpick.2

/-- Both plans of the direct inbox return its newest rows. -/
theorem fetchDirect_eq_ok (hlimit : (limit : Int) ≤ i64Max) :
    fetchDirect E projectId agentId sinceTs limit options = .ok (Window.top key limit
        (rowsOf M options (directReceipt M projectId agentId sinceTs options))) := by
  unfold fetchDirect
  rw [if_neg (not_lt_of_ge hlimit)]
  by_cases hzero : limit = 0
  · rw [if_pos hzero, hzero]
    rfl
  rw [if_neg hzero]
  have hhydrate := @hydrate_top M E projectId limit options _ fun m hm =>
    @directReceipt_foreign M projectId agentId sinceTs options m hm
  cases hbudget : newestFirstBudget E agentId limit options with
  | none =>
    dsimp only [bind, Except.bind]
    rw [receiptWindow_eq_ok]
    exact hhydrate
  | some budget =>
    have hstate : hasStateFilter options = false := by
      rw [newestFirstBudget] at hbudget
      cases hfilter : hasStateFilter options with
      | true =>
        rw [hfilter] at hbudget
        cases hbudget
      | false => rfl
    obtain ⟨walked, hwalked, hresult⟩ := @newestFirstWindow_eq_ok M E projectId agentId sinceTs limit
      options hstate budget
    dsimp only [bind, Except.bind]
    rw [hwalked]
    rcases hresult with rfl | rfl
    · dsimp only
      rw [receiptWindow_eq_ok]
      exact hhydrate
    · exact hhydrate

/-- A viewer that fails the checks sees nothing. -/
theorem sharedReceipt_of_blocked {viewer : Agent} (hfound : M.agent? agentId = some viewer)
    (h : (viewer.projectId != projectId || viewer.retiredAt.isSome ||
      viewer.contactPolicy.any (eqIgnoreAsciiCase · "block_all".toList)) = true) (m : Message) :
    sharedReceipt M projectId agentId sinceTs options m = none := by
  unfold sharedReceipt
  rw [hfound]
  cases M.delivery? m.id with
  | none => rfl
  | some d =>
    have hhidden := not_visible_of_blocked (M := M) h d m
    simp only [Option.bind_some, hhidden, Bool.false_and]
    rfl

theorem rowsOf_eq_nil (h : ∀ m ∈ M.messages, receipt m = none) : rowsOf M options receipt = [] := by
  rw [rowsOf_eq, filterMap_eq_nil_iff]
  intro m hm
  rw [h m hm]
  rfl

theorem top_nil : Window.top key limit [] = [] := by
  simp [Window.top, Window.sort]

/-- The shared mailbox returns its newest visible rows. -/
theorem fetchProjectMailboxRows_eq_ok (hlimit : (limit : Int) ≤ i64Max) :
    fetchProjectMailboxRows E projectId agentId sinceTs limit options = .ok (Window.top key limit
        (rowsOf M options (sharedReceipt M projectId agentId sinceTs options))) := by
  unfold fetchProjectMailboxRows
  rw [if_neg (not_lt_of_ge hlimit)]
  by_cases hany : M.deliveries.any (·.projectId == projectId) = true
  · rw [hany, Bool.not_true, if_neg Bool.false_ne_true]
    unfold fetchShared
    by_cases hzero : limit = 0
    · rw [if_pos hzero, hzero]
      rfl
    rw [if_neg hzero]
    cases hfound : M.agent? agentId with
    | none =>
      rw [rowsOf_eq_nil, top_nil]
      intro m _
      rw [sharedReceipt, hfound]
      cases M.delivery? m.id <;> rfl
    | some viewer =>
      dsimp only
      split
      · next hblocked =>
        rw [rowsOf_eq_nil fun m _ => sharedReceipt_of_blocked hfound hblocked m, top_nil]
      · next hview =>
        rw [Bool.or_eq_true, Bool.or_eq_true, bne_iff_ne, not_or, not_or, not_not] at hview
        have hcan : CanView M projectId agentId viewer :=
          ⟨hfound, hview.1.1, by simpa using hview.1.2, by simpa using hview.2⟩
        rw [sharedWindow_eq_ok hcan]
        exact hydrate_top fun m hm => sharedReceipt_foreign hm
  · rw [Bool.not_eq_true] at hany
    rw [hany, Bool.not_false, if_pos rfl, rowsOf_eq_nil, top_nil]
    intro m _
    rw [sharedReceipt]
    cases hd : M.delivery? m.id with
    | none => rfl
    | some d =>
      have hmem := mem_of_find?_eq_some hd
      have hforeign : (d.projectId == projectId) = false := by
        rw [any_eq_false] at hany
        exact Bool.not_eq_true _ ▸ hany d hmem
      rw [Option.bind_some]
      cases M.agent? agentId with
      | none => rfl
      | some viewer => simp [hforeign]

/-- No message is read both directly and from the shared mailbox. -/
theorem nodup_key_rows :
    ((rowsOf M options (directReceipt M projectId agentId sinceTs options) ++
      rowsOf M options (sharedReceipt M projectId agentId sinceTs options)).map key).Nodup := by
  have hkeys (receipt : Message → Option Receipt) :
      (rowsOf M options receipt).map key = (picks receipt M.messages).map Pick.key := by
    rw [rowsOf, map_map]
    exact map_congr_left fun p _ => key_inboxRow p
  rw [map_append, hkeys, hkeys, nodup_append]
  refine ⟨nodup_key_picks M.messages_nodup, nodup_key_picks M.messages_nodup, ?_⟩
  intro k hk k' hk' heq
  obtain ⟨p, hp, rfl⟩ := mem_map.mp hk
  obtain ⟨q, hq, rfl⟩ := mem_map.mp hk'
  have hp := mem_picks.mp hp
  have hq := mem_picks.mp hq
  have hid : p.1.id = q.1.id := congrArg (fun k => (ofLex k).2) heq
  have hsame : p.1 = q.1 := inj_on_of_nodup_map M.messages_nodup hp.1 hq.1 hid
  -- A direct recipient is not shown the shared delivery.
  have hrecipient : M.isRecipient p.1.id agentId = true := by
    rw [isRecipient_eq]
    cases hr : M.recipient? agentId p.1.id with
    | none =>
      rw [directReceipt, hr] at hp
      cases hp.2
    | some r => rfl
  have hshared : sharedReceipt M projectId agentId sinceTs options q.1 = none := by
    unfold sharedReceipt
    cases hd : M.delivery? q.1.id with
    | none => rfl
    | some d =>
      cases hfound : M.agent? agentId with
      | none => rfl
      | some viewer =>
        have hdid : d.messageId = q.1.id := ((find?_key_eq_some M.deliveries_nodup).mp hd).2
        have hvid : viewer.id = agentId := ((find?_key_eq_some M.agents_nodup).mp hfound).2
        have hhidden : M.visibleToViewer viewer d q.1 = false := by
          rw [Mailbox.visibleToViewer, hdid, hvid, ← hsame, hrecipient, Bool.not_true, Bool.and_false]
        simp only [Option.bind_some, hhidden, Bool.and_false, Bool.false_and]
        rfl
  rw [hshared] at hq
  cases hq.2

/-- Every plan reads the newest rows of the reference inbox. -/
theorem fetchInboxRows_eq_reference (hlimit : (limit : Int) ≤ i64Max) :
    fetchInboxRows E projectId agentId sinceTs limit options = .ok ((Window.sort key
        (referenceRows M projectId agentId sinceTs options)).take limit) := by
  have hreference : referenceRows M projectId agentId sinceTs options =
      rowsOf M options (directReceipt M projectId agentId sinceTs options) ++
        rowsOf M options (sharedReceipt M projectId agentId sinceTs options) := by
    rw [referenceRows, rowsOf_eq, rowsOf_eq]
  have hkeys := @nodup_key_rows M projectId agentId sinceTs options
  unfold fetchInboxRows
  rw [fetchDirect_eq_ok hlimit, fetchProjectMailboxRows_eq_ok hlimit, hreference]
  generalize rowsOf M options (directReceipt M projectId agentId sinceTs options) = direct at hkeys ⊢
  generalize rowsOf M options (sharedReceipt M projectId agentId sinceTs options) = shared at hkeys ⊢
  refine congrArg Except.ok (Eq.trans ?_ (Window.top_append_top limit hkeys))
  unfold mergeInboxRows
  split
  · next hempty =>
    rw [List.isEmpty_iff.mp hempty, append_nil]
    have hdesc : Window.Descending key (Window.top key limit direct) := by
      rw [map_append] at hkeys
      exact Window.descending_top limit hkeys.of_append_left
    rw [Window.top_of_descending limit hdesc, take_of_length_le]
    rw [Window.length_top]
    exact Nat.min_le_left ..
  · rfl

end

/-! ### An engine without choices -/

/-- Rows in table order, and messages sorted by their creation time. -/
def plainEngine (M : Mailbox) (inboxStats : Int → Option Int)
    (capacity : (M.messages.length : Int) ≤ i64Max) : Engine M where
  listing projectId := (M.messages.filter (·.projectId == projectId)).mergeSort
    fun a b => decide (b.createdTs ≤ a.createdTs)
  order _ _ rows := rows
  inboxStats := inboxStats
  listing_perm projectId := mergeSort_perm ..
  listing_sorted projectId := by
    have htrans (a b c : Message) (hab : decide (b.createdTs ≤ a.createdTs) = true)
        (hbc : decide (c.createdTs ≤ b.createdTs) = true) : decide (c.createdTs ≤ a.createdTs) = true := by
      rw [decide_eq_true_eq] at *
      omega
    have htotal (a b : Message) :
        (decide (b.createdTs ≤ a.createdTs) || decide (a.createdTs ≤ b.createdTs)) = true := by
      rw [Bool.or_eq_true, decide_eq_true_eq, decide_eq_true_eq]
      omega
    exact (pairwise_mergeSort htrans htotal _).imp fun h => of_decide_eq_true h
  order_perm _ _ rows := List.Perm.refl rows
  capacity := capacity

/-- No filters, whole bodies. -/
def plainOptions : FetchOptions :=
  { urgentOnly := false, unreadOnly := false, ackRequiredOnly := false, ackOverdueBefore := none,
    topic := none, bodyPolicy := .full }

theorem fetchInboxRows_sample :
    (referenceRows sampleMailbox 1 2 none plainOptions).map (·.message.id) = [2, 1] ∧
    fetchInboxRows (plainEngine sampleMailbox (fun _ => some 4096) (by decide)) 1 2 none 5 plainOptions =
      .ok ((Window.sort key (referenceRows sampleMailbox 1 2 none plainOptions)).take 5) :=
  ⟨by decide +kernel, fetchInboxRows_eq_reference (by decide)⟩

/-- A limit above `i64::MAX` is refused. -/
theorem fetchInboxRows_large_limit :
    fetchInboxRows (plainEngine sampleMailbox (fun _ => none) (by decide)) 1 2 none (2 ^ 63) plainOptions =
      .error (.database (.invalidArgument "limit" "limit exceeds i64::MAX")) := by
  have hlarge : i64Max < ((2 ^ 63 : Nat) : Int) := by decide
  unfold fetchInboxRows fetchDirect
  rw [if_pos hlarge]
  rfl

end AgentMail.Inbox
