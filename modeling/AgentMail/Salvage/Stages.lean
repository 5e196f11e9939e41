import AgentMail.Lib.Loop
import AgentMail.Salvage.Merge

/-!
# The stages of a merge

What each loop of the merge does: which rows it adds, which rows the maps lead to, and what stays as
it was.
-/

namespace AgentMail.Salvage

open Base Lib Rebuild List

/-! ### A merge that succeeds -/

theorem readMessages_eq (D : Database) : D.readMessages = D.messages :=
  readBatches_all (by decide) D.messages_ascending

/-- The loops of a merge that succeeds. -/
structure Stages (Q : QueryOrder) (R : Readers) (C : Candidate) (D : Database) (M : Merged)
    (I : Identities) (S : Carry) : Prop where
  identities : mergeIdentities Q C D = .ok I
  reservations : D.reservations.foldlM (mergeReservation I) (C.leases.rows, []) =
    .ok (M.leases, M.reservationIdMap)
  messages : carryMessages Q R C I D.messages = .ok S
  recipients : D.recipients.foldlM
    (mergeRecipient S.directory.agents (S.linked C) I.agentIdMap S.messageIdMap) S.recipients =
      .ok M.recipients
  verified : verifyOwnership M = .ok ()
  merged : M = {
    projects := I.projects
    agents := S.directory.agents
    leases := M.leases
    releases := D.releases.foldl (mergeRelease M.reservationIdMap M.leases) []
    messages := S.linked C
    recipients := M.recipients
    deliveries := S.deliveries
    events := S.events
    receipts := D.receipts.foldl
      (mergeReceipt S.directory.agents S.deliveries I.agentIdMap S.messageIdMap) []
    projectIdMap := I.projectIdMap
    agentIdMap := I.agentIdMap
    reservationIdMap := M.reservationIdMap
    messageIdMap := S.messageIdMap
    carried := S.carried }

variable {Q : QueryOrder} {R : Readers}

theorem exists_stages {C : Candidate} {D : Database} {M : Merged}
    (h : mergeSalvagedDatabase Q R C D = .ok M) : ∃ I S, Stages Q R C D M I S := by
  unfold mergeSalvagedDatabase at h
  obtain ⟨I, hI, h⟩ := bind_eq_ok.mp h
  obtain ⟨⟨leases, reservationIdMap⟩, hleases, h⟩ := bind_eq_ok.mp h
  obtain ⟨S, hS, h⟩ := bind_eq_ok.mp h
  obtain ⟨recipients, hrecipients, h⟩ := bind_eq_ok.mp h
  obtain ⟨_, hverified, h⟩ := bind_eq_ok.mp h
  rw [readMessages_eq] at hS
  cases h
  exact ⟨I, S, hI, hleases, hS, hrecipients, hverified, rfl⟩

/-! ### Maps -/

/-- Every entry of a map leads to a row. -/
def Leads {β : Type} (map : IdMap) (L : Ledger β) : Prop := ∀ e ∈ map, e.2 ∈ L.numbers

theorem Leads.insert {β : Type} {map : IdMap} {L L' : Ledger β} (h : Leads map L)
    (hsubset : ∀ n ∈ L.numbers, n ∈ L'.numbers) {k n : Int} (hn : n ∈ L'.numbers) :
    Leads (Assoc.insert k n map) L' := by
  intro e he
  rw [Assoc.insert, mem_append, mem_singleton] at he
  rcases he with he | rfl
  · exact hsubset _ (h e (mem_of_mem_filter he))
  · exact hn

variable {projectId : Int}

theorem agentProjectId_eq_some {agents : Ledger AgentRow} {id : Int} :
    agentProjectId agents id = some projectId ↔
      ∃ a, (id, a) ∈ agents.rows ∧ a.projectId = projectId := by
  rw [agentProjectId, Option.map_eq_some_iff]
  simp only [Ledger.get?_eq_some]

/-- An agent keeps its project while agents are added. -/
theorem agentProjectId_mono {agents agents' : Ledger AgentRow}
    (h : agents.rows <+: agents'.rows) {id : Int} (hid : id ∈ agents.numbers) :
    agentProjectId agents' id = agentProjectId agents id := by
  obtain ⟨a, ha⟩ := Ledger.mem_numbers.mp hid
  rw [agentProjectId_eq_some.mpr ⟨a, ha, rfl⟩, agentProjectId_eq_some.mpr ⟨a, h.subset ha, rfl⟩]

theorem mergeAgent_cases {map : IdMap} {S S' : Ledger AgentRow × IdMap} {a : SalvagedAgent}
    (h : mergeAgent Q map S a = .ok S') :
    S' = S ∨ ∃ projectId id, Assoc.get? a.projectId map = some projectId ∧
      S' = (insertOrIgnoreAgent S.1 ⟨projectId, trim a.name⟩, Assoc.insert a.id id S.2) ∧
      ∃ row, (id, row) ∈ S'.1.rows ∧ row.projectId = projectId ∧
        eqIgnoreAsciiCase row.name (trim a.name) = true := by
  unfold mergeAgent at h
  split at h
  · cases h
  · cases hproject : Assoc.get? a.projectId map with
    | none =>
      simp only [hproject, Except.ok.injEq] at h
      exact Or.inl h.symm
    | some projectId =>
      simp only [hproject] at h
      split at h
      · cases h
      · right
        cases h
        obtain ⟨row, hrow, hmatch⟩ := queryAgentId_eq_some (Option.some_get
          (queryAgentId_isSome Q.agents S.1 ⟨projectId, trim a.name⟩)).symm
        simp only [matchesName, Bool.and_eq_true, beq_iff_eq] at hmatch
        exact ⟨projectId, _, rfl, rfl, row, hrow, hmatch.1, hmatch.2⟩

variable {I : Identities}

/-- Agents are added, and the map of agents leads to them. -/
theorem agents_of_identities {C : Candidate} {D : Database} (h : mergeIdentities Q C D = .ok I) :
    C.names.agents.rows <+: I.agents.rows ∧ Leads I.agentIdMap I.agents := by
  unfold mergeIdentities at h
  obtain ⟨⟨projects, projectIdMap⟩, _, h⟩ := bind_eq_ok.mp h
  obtain ⟨⟨agents, agentIdMap⟩, hagents, h⟩ := bind_eq_ok.mp h
  cases h
  refine foldlM_invariant (I := fun _ (S : Ledger AgentRow × IdMap) =>
    C.names.agents.rows <+: S.1.rows ∧ Leads S.2 S.1) ?_ ⟨prefix_refl _, by simp [Leads]⟩ hagents
  intro front a back S S' _ hS hstep
  rcases mergeAgent_cases hstep with rfl | ⟨projectId, id, _, rfl, row, hrow, _⟩
  · exact hS
  · have hext := rows_insertOrIgnoreAgent S.1 ⟨projectId, trim a.name⟩
    refine ⟨hS.1.trans hext, hS.2.insert ?_ (Ledger.mem_numbers.mpr ⟨row, hrow⟩)⟩
    intro n hn
    obtain ⟨b, hb⟩ := Ledger.mem_numbers.mp hn
    exact Ledger.mem_numbers.mpr ⟨b, hext.subset hb⟩

/-! ### The message loop -/

/-- The states differ at most in who receives what. -/
structure Carry.SameMessages (S S' : Carry) : Prop where
  messages : S'.messages = S.messages
  messageIdMap : S'.messageIdMap = S.messageIdMap
  carried : S'.carried = S.carried
  agents : S.directory.agents.rows <+: S'.directory.agents.rows

theorem Carry.SameMessages.trans {S S' S'' : Carry} (h : S.SameMessages S')
    (h' : S'.SameMessages S'') : S.SameMessages S'' where
  messages := h'.messages.trans h.messages
  messageIdMap := h'.messageIdMap.trans h.messageIdMap
  carried := h'.carried.trans h.carried
  agents := h.agents.trans h'.agents

theorem carryRecipient_sameMessages (Q : QueryOrder) (slug : Option Text)
    (projectId messageId created : Int) (S : Carry) (r : Text × Kind) :
    S.SameMessages (carryRecipient Q slug projectId messageId created S r) := by
  unfold carryRecipient
  split
  · split
    · exact ⟨rfl, rfl, rfl, prefix_refl _⟩
    · exact ⟨rfl, rfl, rfl, prefix_refl _⟩
  · exact ⟨rfl, rfl, rfl, ensureAgentExists_extends Q.agents S.directory.recipients projectId r.1⟩

theorem foldl_carryRecipient_sameMessages (Q : QueryOrder) (slug : Option Text)
    (projectId messageId created : Int) (named : List (Text × Kind)) (S : Carry) :
    S.SameMessages (named.foldl (carryRecipient Q slug projectId messageId created) S) := by
  induction named generalizing S with
  | nil => exact ⟨rfl, rfl, rfl, prefix_refl _⟩
  | cons r named ih =>
    exact (carryRecipient_sameMessages Q slug projectId messageId created S r).trans (ih _)

/-- The message goes into a project, and its sender is in it or unknown. -/
def Eligible (I : Identities) (m : SalvagedMessage) (projectId : Int) : Prop :=
  Assoc.get? m.projectId I.projectIdMap = some projectId ∧
    ∀ mapped, Assoc.get? m.senderId I.agentIdMap = some mapped →
      agentProjectId I.agents mapped = some projectId

variable {m : SalvagedMessage}

theorem messageSender_eq_none {T : Directory} (hext : I.agents.rows <+: T.agents.rows)
    (hleads : Leads I.agentIdMap I.agents) (h : messageSender Q I.agentIdMap T projectId m = none) :
    ¬ Eligible I m projectId := by
  unfold messageSender at h
  cases hsender : Assoc.get? m.senderId I.agentIdMap with
  | none => simp [hsender] at h
  | some mapped =>
    simp only [hsender] at h
    rw [agentProjectId_mono hext (hleads _ (Assoc.mem_of_get? hsender))] at h
    rintro ⟨_, heligible⟩
    rw [heligible mapped hsender] at h
    simp at h

theorem messageSender_eq_some {T : Directory} (hext : I.agents.rows <+: T.agents.rows)
    (hleads : Leads I.agentIdMap I.agents) {sender : Int × Directory}
    (hproject : Assoc.get? m.projectId I.projectIdMap = some projectId)
    (h : messageSender Q I.agentIdMap T projectId m = some sender) :
    Eligible I m projectId ∧ T.agents.rows <+: sender.2.agents.rows ∧
      agentProjectId sender.2.agents sender.1 = some projectId := by
  unfold messageSender at h
  cases hsender : Assoc.get? m.senderId I.agentIdMap with
  | none =>
    simp only [hsender, Option.some.injEq] at h
    refine ⟨⟨hproject, by simp [hsender]⟩, ?_, ?_⟩
    · rw [← h]
      exact ensureAgentExists_extends Q.agents T.senders projectId _
    · rw [← h]
      obtain ⟨a, ha, hmatch⟩ := ensureAgentExists_isAgent Q.agents T.senders projectId
        ("unknown-agent-".toList ++ Artifact.intText m.senderId)
      simp only [matchesName, Bool.and_eq_true, beq_iff_eq] at hmatch
      exact agentProjectId_eq_some.mpr ⟨a, ha, hmatch.1⟩
  | some mapped =>
    simp only [hsender] at h
    split at h
    · cases h
    · next hown =>
      rw [not_not] at hown
      cases h
      refine ⟨⟨hproject, ?_⟩, prefix_refl _, hown⟩
      intro other hother
      rw [hsender, Option.some.injEq] at hother
      subst hother
      rw [← hown]
      exact (agentProjectId_mono hext (hleads _ (Assoc.mem_of_get? hsender))).symm

/-- A salvaged message becomes a row. -/
structure Inserted (R : Readers) (I : Identities) (S S' : Carry) (m : SalvagedMessage)
    (projectId target senderId : Int) : Prop where
  eligible : Eligible I m projectId
  new : ∀ r ∈ S.messages.rows, r.2.identity ≠ m.identity projectId
  own : m.id ∉ S.messages.numbers → target = m.id
  free : target ∉ S.messages.numbers
  rows : S'.messages.rows = S.messages.rows ++ [(target, m.row R projectId senderId)]
  messageIdMap : S'.messageIdMap = Assoc.insert m.id target S.messageIdMap
  carried : S'.carried = S.carried ++ [(target, m)]
  agents : S.directory.agents.rows <+: S'.directory.agents.rows
  sender : agentProjectId S'.directory.agents senderId = some projectId

theorem insertMessage_inserted {S : Carry} {sender : Int × Directory}
    (heligible : Eligible I m projectId)
    (hnew : ∀ r ∈ S.messages.rows, r.2.identity ≠ m.identity projectId)
    (hext : S.directory.agents.rows <+: sender.2.agents.rows)
    (hsender : agentProjectId sender.2.agents sender.1 = some projectId) :
    ∃ target, Inserted R I S (insertMessage Q R I.projects S m projectId sender.1 sender.2) m
      projectId target sender.1 := by
  have hkeep (agents : Ledger AgentRow) (hagents : sender.2.agents.rows <+: agents.rows) :
      agentProjectId agents sender.1 = some projectId := by
    obtain ⟨a, ha, hp⟩ := agentProjectId_eq_some.mp hsender
    exact agentProjectId_eq_some.mpr ⟨a, hagents.subset ha, hp⟩
  unfold insertMessage
  by_cases htaken : m.id ∈ S.messages.numbers
  · have hsome : (S.messages.get? m.id).isSome = true := by
      obtain ⟨row, hrow⟩ := Ledger.mem_numbers.mp htaken
      rw [Ledger.get?_eq_some.mpr hrow]
      rfl
    simp only [hsome, if_true]
    have hsame := foldl_carryRecipient_sameMessages Q
      (mailboxSlug I.projects projectId (namedRecipients (m.row R projectId sender.1).recipients))
      projectId (S.messages.top + 1) m.created
      (namedRecipients (m.row R projectId sender.1).recipients)
      (Carry.link { S with
        messages := S.messages.issue (m.row R projectId sender.1)
        directory := sender.2
        carried := S.carried ++ [(S.messages.top + 1, m)] } m projectId (S.messages.top + 1))
    exact ⟨S.messages.top + 1, heligible, hnew, fun h => absurd htaken h,
      S.messages.top_succ_notMem_numbers, by rw [hsame.messages]; rfl, hsame.messageIdMap,
      hsame.carried, hext.trans hsame.agents, hkeep _ hsame.agents⟩
  · have hnone : (S.messages.get? m.id).isSome = false := by
      rw [Ledger.get?_eq_none.mpr htaken]
      rfl
    simp only [hnone]
    have hsame := foldl_carryRecipient_sameMessages Q
      (mailboxSlug I.projects projectId (namedRecipients (m.row R projectId sender.1).recipients))
      projectId m.id m.created (namedRecipients (m.row R projectId sender.1).recipients)
      (Carry.link { S with
        messages := S.messages.insertAt m.id (m.row R projectId sender.1)
        directory := sender.2
        carried := S.carried ++ [(m.id, m)] } m projectId m.id)
    exact ⟨m.id, heligible, hnew, fun _ => rfl, htaken,
      by rw [if_neg (by simp), hsame.messages]; exact Ledger.rows_insertAt htaken _,
      hsame.messageIdMap, hsame.carried, hext.trans hsame.agents, hkeep _ hsame.agents⟩

/-- Everything that a turn of the message loop can do. -/
theorem mergeMessage_cases {S S' : Carry} (hext : I.agents.rows <+: S.directory.agents.rows)
    (hleads : Leads I.agentIdMap I.agents) (h : mergeMessage Q R I S m = .ok S') :
    (S' = S ∧ ∀ projectId, ¬ Eligible I m projectId) ∨
    (∃ projectId target row, Assoc.get? m.projectId I.projectIdMap = some projectId ∧
      (target, row) ∈ S.messages.rows ∧ row.identity = m.identity projectId ∧
      S' = S.link m projectId target) ∨
    ∃ projectId target senderId, Inserted R I S S' m projectId target senderId := by
  unfold mergeMessage at h
  split at h
  · cases h
  · cases hproject : Assoc.get? m.projectId I.projectIdMap with
    | none =>
      simp only [hproject, Except.ok.injEq] at h
      left
      refine ⟨h.symm, ?_⟩
      rintro projectId ⟨hmapped, _⟩
      rw [hproject] at hmapped
      cases hmapped
    | some projectId =>
      simp only [hproject] at h
      split at h
      · next hheld =>
        rw [Option.any_eq_true] at hheld
        obtain ⟨row, hrow, hid⟩ := hheld
        cases h
        exact Or.inr (Or.inl ⟨projectId, m.id, row, rfl, Ledger.get?_eq_some.mp hrow,
          of_decide_eq_true hid, rfl⟩)
      · split at h
        · next existing hfirst =>
          have hmem := mem_filter.mp (Q.messages.first_mem _ _ _ hfirst)
          cases h
          exact Or.inr (Or.inl ⟨projectId, existing.1, existing.2, rfl, hmem.1,
            of_decide_eq_true hmem.2, rfl⟩)
        · next hfirst =>
          have hnew : ∀ r ∈ S.messages.rows, r.2.identity ≠ m.identity projectId := by
            intro r hr hid
            have hne : S.messages.rows.filter
                (fun r => r.2.identity = m.identity projectId) ≠ [] := by
              apply ne_nil_of_mem (a := r)
              exact mem_filter.mpr ⟨hr, decide_eq_true hid⟩
            have hsome := Q.messages.first_isSome (m.identity projectId) _ hne
            rw [hfirst] at hsome
            cases hsome
          split at h
          · next hsender =>
            cases h
            left
            refine ⟨rfl, ?_⟩
            rintro other ⟨hmapped, hagent⟩
            rw [hproject, Option.some.injEq] at hmapped
            subst hmapped
            exact messageSender_eq_none hext hleads hsender ⟨hproject, hagent⟩
          · next sender hsender =>
            obtain ⟨heligible, hagents, hown⟩ :=
              messageSender_eq_some hext hleads hproject hsender
            cases h
            obtain ⟨target, hinserted⟩ := insertMessage_inserted (Q := Q) (R := R) heligible hnew
              hagents hown
            exact Or.inr (Or.inr ⟨projectId, target, sender.1, hinserted⟩)

/-- A row that was carried over, with its message. -/
def CarriedRow (R : Readers) (I : Identities) (agents : Ledger AgentRow) (r : Int × MessageRow)
    (b : Int × SalvagedMessage) : Prop :=
  r.1 = b.1 ∧ ∃ projectId, Eligible I b.2 projectId ∧ r.2 = b.2.row R projectId r.2.senderId ∧
    agentProjectId agents r.2.senderId = some projectId

theorem CarriedRow.mono {agents agents' : Ledger AgentRow} {r : Int × MessageRow}
    {b : Int × SalvagedMessage} (h : CarriedRow R I agents r b)
    (hext : agents.rows <+: agents'.rows) : CarriedRow R I agents' r b := by
  obtain ⟨hid, projectId, heligible, hrow, hsender⟩ := h
  obtain ⟨a, ha, hp⟩ := agentProjectId_eq_some.mp hsender
  exact ⟨hid, projectId, heligible, hrow, agentProjectId_eq_some.mpr ⟨a, hext.subset ha, hp⟩⟩

/-- The state of the message loop after some messages. -/
structure CarriedOver (R : Readers) (I : Identities) (start : Carry)
    (messages : List SalvagedMessage) (S : Carry) : Prop where
  agents : I.agents.rows <+: S.directory.agents.rows
  rows : ∃ added, S.messages.rows = start.messages.rows ++ added ∧
    Forall₂ (CarriedRow R I S.directory.agents) added S.carried
  origin : ∀ b ∈ S.carried, b.2 ∈ messages
  mapped : ∀ e ∈ S.messageIdMap, ∃ m ∈ messages, m.id = e.1 ∧ ∃ projectId row,
    Assoc.get? m.projectId I.projectIdMap = some projectId ∧ (e.2, row) ∈ S.messages.rows ∧
    row.identity = m.identity projectId
  complete : ∀ m ∈ messages, ∀ projectId, Eligible I m projectId →
    ∃ target, Assoc.get? m.id S.messageIdMap = some target

theorem get?_insert_isSome {k k' v v' : Int} {map : IdMap} (h : Assoc.get? k map = some v) :
    ∃ w, Assoc.get? k (Assoc.insert k' v' map) = some w := by
  rw [Assoc.get?_insert]
  split
  · exact ⟨v', rfl⟩
  · exact ⟨v, h⟩

namespace CarriedOver

variable {R : Readers} {I : Identities} {start S S' : Carry} {messages : List SalvagedMessage}
  {m : SalvagedMessage}

/-- The entries of the maps when a message leads to a row. -/
theorem mapped_insert (h : CarriedOver R I start messages S) (S' : Carry)
    (hrows : S.messages.rows <+: S'.messages.rows) {target : Int} (row : MessageRow)
    (hproject : Assoc.get? m.projectId I.projectIdMap = some projectId)
    (hrow : (target, row) ∈ S'.messages.rows) (hid : row.identity = m.identity projectId) :
    ∀ e ∈ Assoc.insert m.id target S.messageIdMap, ∃ n ∈ messages ++ [m], n.id = e.1 ∧
      ∃ projectId row, Assoc.get? n.projectId I.projectIdMap = some projectId ∧
        (e.2, row) ∈ S'.messages.rows ∧ row.identity = n.identity projectId := by
  intro e he
  rw [Assoc.insert, mem_append, mem_singleton] at he
  rcases he with he | rfl
  · obtain ⟨n, hn, hne, p, r, hp, hr, hrid⟩ := h.mapped e (mem_of_mem_filter he)
    exact ⟨n, mem_append_left _ hn, hne, p, r, hp, hrows.subset hr, hrid⟩
  · exact ⟨m, by simp, rfl, projectId, row, hproject, hrow, hid⟩

theorem complete_insert (h : CarriedOver R I start messages S) (target : Int) :
    ∀ n ∈ messages ++ [m], ∀ projectId, Eligible I n projectId →
      ∃ t, Assoc.get? n.id (Assoc.insert m.id target S.messageIdMap) = some t := by
  intro n hn projectId heligible
  rw [mem_append, mem_singleton] at hn
  rcases hn with hn | rfl
  · obtain ⟨t, ht⟩ := h.complete n hn projectId heligible
    exact get?_insert_isSome ht
  · exact ⟨target, by rw [Assoc.get?_insert, if_pos rfl]⟩

theorem mergeMessage (h : CarriedOver R I start messages S) (hleads : Leads I.agentIdMap I.agents)
    (hstep : Salvage.mergeMessage Q R I S m = .ok S') :
    CarriedOver R I start (messages ++ [m]) S' := by
  rcases mergeMessage_cases h.agents hleads hstep with ⟨rfl, hskip⟩ |
    ⟨projectId, target, row, hproject, hrow, hid, rfl⟩ | ⟨projectId, target, senderId, hins⟩
  · refine ⟨h.agents, h.rows, ?_, ?_, ?_⟩
    · intro b hb
      exact mem_append_left _ (h.origin b hb)
    · intro e he
      obtain ⟨n, hn, rest⟩ := h.mapped e he
      exact ⟨n, mem_append_left _ hn, rest⟩
    · intro n hn projectId heligible
      rw [mem_append, mem_singleton] at hn
      rcases hn with hn | rfl
      · exact h.complete n hn projectId heligible
      · exact absurd heligible (hskip projectId)
  · refine ⟨h.agents, h.rows, ?_, ?_, ?_⟩
    · intro b hb
      exact mem_append_left _ (h.origin b hb)
    · exact h.mapped_insert (S.link m projectId target) (prefix_refl _) _ hproject hrow hid
    · exact h.complete_insert target
  · have hprefix : S.messages.rows <+: S'.messages.rows := by
      rw [hins.rows]
      exact prefix_append _ _
    refine ⟨h.agents.trans hins.agents, ?_, ?_, ?_, ?_⟩
    · obtain ⟨added, hrows, hforall⟩ := h.rows
      refine ⟨added ++ [(target, m.row R projectId senderId)], ?_, ?_⟩
      · rw [hins.rows, hrows, append_assoc]
      · rw [hins.carried]
        apply rel_append
        · exact hforall.imp fun _ _ hrow => hrow.mono hins.agents
        · exact List.Forall₂.cons ⟨rfl, projectId, hins.eligible, rfl, hins.sender⟩
            List.Forall₂.nil
    · intro b hb
      rw [hins.carried, mem_append, mem_singleton] at hb
      rcases hb with hb | rfl
      · exact mem_append_left _ (h.origin b hb)
      · simp
    · rw [hins.messageIdMap]
      apply h.mapped_insert _ hprefix (m.row R projectId senderId) hins.eligible.1
      · rw [hins.rows]
        simp
      · rfl
    · rw [hins.messageIdMap]
      exact h.complete_insert target

end CarriedOver

theorem carriedOver_of_ok {C : Candidate} {messages : List SalvagedMessage} {S : Carry}
    (hleads : Leads I.agentIdMap I.agents) (h : carryMessages Q R C I messages = .ok S) :
    CarriedOver R I (Carry.start C I.agents) messages S := by
  refine foldlM_invariant (I := fun front S => CarriedOver R I (Carry.start C I.agents) front S)
    ?_ ?_ h
  · intro front m back S S' _ hS hstep
    exact hS.mergeMessage hleads hstep
  · exact ⟨prefix_refl _, ⟨[], by simp [Carry.start], List.Forall₂.nil⟩,
      by simp [Carry.start], by simp [Carry.start], by simp⟩

/-- From a state on, rows are added, and what is carried comes from the messages that follow. -/
theorem carry_extends {messages : List SalvagedMessage} {S S' : Carry}
    (hleads : Leads I.agentIdMap I.agents) (hext : I.agents.rows <+: S.directory.agents.rows)
    (h : messages.foldlM (mergeMessage Q R I) S = .ok S') :
    S.messages.rows <+: S'.messages.rows ∧ ∀ b ∈ S'.carried, b ∈ S.carried ∨ b.2 ∈ messages := by
  have hrun := foldlM_invariant (I := fun front (T : Carry) =>
    I.agents.rows <+: T.directory.agents.rows ∧ S.messages.rows <+: T.messages.rows ∧
      ∀ b ∈ T.carried, b ∈ S.carried ∨ b.2 ∈ front) ?_ ⟨hext, prefix_refl _, by simp⟩ h
  · exact hrun.2
  · rintro front m back T T' _ ⟨hagents, hrows, hcarried⟩ hstep
    have hold : ∀ b ∈ T.carried, b ∈ S.carried ∨ b.2 ∈ front ++ [m] := fun b hb =>
      (hcarried b hb).imp_right (mem_append_left _)
    rcases mergeMessage_cases hagents hleads hstep with ⟨rfl, _⟩ | ⟨_, _, _, _, _, _, rfl⟩ |
      ⟨projectId, target, senderId, hins⟩
    · exact ⟨hagents, hrows, hold⟩
    · exact ⟨hagents, hrows, hold⟩
    · refine ⟨hagents.trans hins.agents, hrows.trans ?_, ?_⟩
      · rw [hins.rows]
        exact prefix_append _ _
      · intro b hb
        rw [hins.carried, mem_append, mem_singleton] at hb
        rcases hb with hb | rfl
        · exact hold b hb
        · exact Or.inr (by simp)

end AgentMail.Salvage
