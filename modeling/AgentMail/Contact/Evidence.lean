import AgentMail.Contact.SharedScope
import Mathlib.Data.List.Dedup
import Mathlib.Data.List.Sort

/-!
# Contact evidence, gathered when it is needed

The contact policy of a send: `contact_policy_decision`, `gather_contact_evidence` and the check in
`send_message` (`crates/mcp-agent-mail-tools/src/messaging.rs:571–641`, `667–837`, `3584–3658`).
What the four sources answer is a parameter, and so is the lower case of a policy. Warnings and
metrics are left out.
-/

namespace AgentMail.Contact

open Base Pattern List

inductive ContactPolicyDecision where
  | allow
  | requireApproval
  | blockAll

/-- The four known policies. -/
inductive ContactPolicy where
  | openToAll
  | contactsOnly
  | blockAll
  | auto
deriving DecidableEq

/-- `normalized_contact_policy`, over `str::to_lowercase`. -/
def normalizedContactPolicy (toLowercase : Text → Text) (policyRaw : Text) : ContactPolicy :=
  let policy := toLowercase policyRaw
  if policy = "open".toList then .openToAll
  else if policy = "contacts_only".toList then .contactsOnly
  else if policy = "block_all".toList then .blockAll
  else .auto

def contactPolicyDecision (toLowercase : Text → Text) (senderName recipientName policyRaw : Text)
    (recentOk approved : Bool) : ContactPolicyDecision :=
  if recipientName = senderName then .allow
  else
    let policy := normalizedContactPolicy toLowercase policyRaw
    if policy = .blockAll then .blockAll
    else if policy = .openToAll then .allow
    else if policy = .auto && recentOk then .allow
    else if approved then .allow
    else .requireApproval

/-- The columns of an agent that contact enforcement reads. -/
structure AgentRow where
  id : Option Int
  name : Text
  contactPolicy : Text

/-- The sources of evidence; one that fails is `none`. A source that is asked about ids answers each
of them for itself. -/
structure Sources where
  /-- `list_approved_contact_ids`. -/
  approved : Option (Int → Bool)
  /-- `list_recent_contact_agent_ids`. -/
  recent : Option (Int → Bool)
  /-- `list_thread_participant_names`. -/
  participants : Text → Option (List Text)
  /-- `get_active_reservations`: the agents and the patterns they have reserved. -/
  reservations : Option (List (Int × Text))

/-- `contact_ids_or_fail_open`. -/
def contactIdsOrFailOpen (lookup : Option (List Int)) (candidateIds : List Int) : List Int :=
  lookup.getD candidateIds

/-- What a source returns when it is asked about some ids. -/
def lookup (source : Option (Int → Bool)) (ids : List Int) : Option (List Int) :=
  source.map fun answer => ids.filter answer

/-- `ContactEvidence`. -/
structure ContactEvidence where
  autoOkNames : List Text
  recentIds : List Int
  approvedIds : List Int

/-- Who sends, in which build of the program, and in which thread. -/
structure Send where
  platform : Platform
  toLowercase : Text → Text
  sources : Sources
  senderId : Int
  senderName : Text
  threadId : Text

namespace Send

variable (s : Send)

def policyOf (agent : AgentRow) : ContactPolicy :=
  normalizedContactPolicy s.toLowercase agent.contactPolicy

/-- `ids_of`. -/
def idsOf (agents : List AgentRow) : List Int :=
  (((agents.filterMap AgentRow.id).filter fun id => id != s.senderId).insertionSort (· ≤ ·)).dedup

/-- The patterns that an agent has reserved. -/
def patternsOf (reservations : List (Int × Text)) (id : Int) : List CompiledPattern :=
  (reservations.filter fun res => res.1 == id).map fun res => CompiledPattern.new s.platform res.2

/-- Sender and recipient share reserved paths. -/
def shares (agent : AgentRow) : Bool :=
  let reservations := s.sources.reservations.getD []
  agent.id.any fun recId => reservationsProveSharedScopeForContact s.platform.caseInsensitive
    (s.patternsOf reservations s.senderId) (s.patternsOf reservations recId)

/-- The recipients whose policy asks for evidence. -/
def waiting (recipients : List AgentRow) : List AgentRow :=
  (recipients.filter fun agent => agent.name != s.senderName).filter fun agent =>
    s.policyOf agent == .auto || s.policyOf agent == .contactsOnly

/-- `gather_contact_evidence`. -/
def gatherContactEvidence (recipients : List AgentRow) : ContactEvidence :=
  let waiting := s.waiting recipients
  let candidateIds := s.idsOf waiting
  if candidateIds.isEmpty then ⟨[], [], []⟩
  else
    let approvedIds := contactIdsOrFailOpen (lookup s.sources.approved candidateIds) candidateIds
    let autoWaiting := (waiting.filter fun agent => s.policyOf agent == .auto).filter fun agent =>
      !agent.id.any fun id => approvedIds.contains id
    let autoIds := s.idsOf autoWaiting
    if autoIds.isEmpty then ⟨[], [], approvedIds⟩
    else
      let recentIds := contactIdsOrFailOpen (lookup s.sources.recent autoIds) autoIds
      let autoWaiting := autoWaiting.filter fun agent => !agent.id.any fun id => recentIds.contains id
      let participants :=
        if !autoWaiting.isEmpty && !s.threadId.isEmpty then
          (s.sources.participants s.threadId).getD []
        else []
      let autoWaiting := autoWaiting.filter fun agent => !participants.contains agent.name
      ⟨participants ++ (autoWaiting.filter s.shares).map AgentRow.name, recentIds, approvedIds⟩

/-- Every source is asked about every recipient. -/
def eagerContactEvidence (recipients : List AgentRow) : ContactEvidence :=
  let ids := s.idsOf recipients
  let participants :=
    if s.threadId.isEmpty then [] else (s.sources.participants s.threadId).getD []
  ⟨participants ++ (recipients.filter s.shares).map AgentRow.name,
    contactIdsOrFailOpen (lookup s.sources.recent ids) ids,
    contactIdsOrFailOpen (lookup s.sources.approved ids) ids⟩

/-- `check_policy`. -/
def checkPolicy (evidence : ContactEvidence) (agent : AgentRow) : ContactPolicyDecision :=
  let recId := agent.id.getD 0
  let recentOk := evidence.autoOkNames.contains agent.name || evidence.recentIds.contains recId
  contactPolicyDecision s.toLowercase s.senderName agent.name agent.contactPolicy recentOk
    (evidence.approvedIds.contains recId)

/-- The recipients are rows of agents: ids identify them, and their names differ. -/
structure RecipientRows (recipients : List AgentRow) : Prop where
  names : (recipients.map AgentRow.name).Nodup
  ids : ∀ agent ∈ recipients, agent.id.isSome = true
  sender : ∀ agent ∈ recipients, agent.id = some s.senderId → agent.name = s.senderName

/-! ### What is known of one recipient -/

/-- The answer of a source about one id; a failure counts for it. -/
def answer (source : Option (Int → Bool)) (id : Int) : Bool := source.elim true fun answer => answer id

/-- The agent takes part in the thread. -/
def inThread (agent : AgentRow) : Bool :=
  !s.threadId.isEmpty && ((s.sources.participants s.threadId).getD []).contains agent.name

/-- The decision about one recipient, from what the sources say about it. -/
def decisionAbout (agent : AgentRow) (id : Int) : ContactPolicyDecision :=
  contactPolicyDecision s.toLowercase s.senderName agent.name agent.contactPolicy
    (answer s.sources.recent id || s.inThread agent || s.shares agent)
    (answer s.sources.approved id)

variable {s} {recipients : List AgentRow} {agent : AgentRow} {id : Int}

theorem mem_idsOf {agents : List AgentRow} :
    id ∈ s.idsOf agents ↔ id ≠ s.senderId ∧ ∃ agent ∈ agents, agent.id = some id := by
  rw [idsOf, List.mem_dedup, mem_insertionSort, mem_filter, mem_filterMap, bne_iff_ne, and_comm]

theorem mem_contactIdsOrFailOpen {source : Option (Int → Bool)} {ids : List Int} :
    id ∈ contactIdsOrFailOpen (lookup source ids) ids ↔ id ∈ ids ∧ answer source id = true := by
  cases source with
  | none => simp [contactIdsOrFailOpen, lookup, answer]
  | some a => simp [contactIdsOrFailOpen, lookup, answer]

end Send

end AgentMail.Contact

/-!
## Lazy contact evidence decides as the eager one

Both decisions about a recipient come down to what the sources say about that recipient alone.
-/

namespace AgentMail.Contact.Send

open Base Pattern List

variable {s : Send} {recipients : List AgentRow} {agent : AgentRow} {id : Int}

/-! ### What a decision depends on -/

/-- A decision looks at an approval only under `auto` and `contacts_only`, and at recency only under
`auto` and without an approval. -/
theorem contactPolicyDecision_congr {lower : Text → Text} {sender name policy : Text}
    {recent recent' approved approved' : Bool}
    (happroved : name ≠ sender → normalizedContactPolicy lower policy = .auto ∨
      normalizedContactPolicy lower policy = .contactsOnly → approved = approved')
    (hrecent : name ≠ sender → normalizedContactPolicy lower policy = .auto → approved = false →
      recent = recent') :
    contactPolicyDecision lower sender name policy recent approved =
      contactPolicyDecision lower sender name policy recent' approved' := by
  unfold contactPolicyDecision
  split
  · rfl
  · next hname =>
    dsimp only
    cases hpolicy : normalizedContactPolicy lower policy with
    | blockAll => rfl
    | openToAll => rfl
    | contactsOnly =>
      rw [happroved hname (Or.inr hpolicy)]
      rfl
    | auto =>
      have hsame := happroved hname (Or.inl hpolicy)
      cases happ : approved with
      | true =>
        rw [← hsame, happ]
        cases recent <;> cases recent' <;> rfl
      | false =>
        rw [← hsame, happ, hrecent hname hpolicy happ]

/-- Nothing lets a message through to someone else who blocks all. -/
theorem checkPolicy_blockAll (evidence : ContactEvidence) (hname : agent.name ≠ s.senderName)
    (hpolicy : s.policyOf agent = .blockAll) : s.checkPolicy evidence agent = .blockAll := by
  have hnormal : normalizedContactPolicy s.toLowercase agent.contactPolicy = .blockAll := hpolicy
  unfold checkPolicy contactPolicyDecision
  dsimp only
  rw [if_neg hname, if_pos hnormal]

/-! ### Names -/

/-- The name of a recipient is on a list of names just if it comes from that recipient. -/
theorem contains_name (h : (recipients.map AgentRow.name).Nodup) {some : List AgentRow}
    (hsome : ∀ b ∈ some, b ∈ recipients) (hagent : agent ∈ recipients) :
    agent.name ∈ some.map AgentRow.name ↔ agent ∈ some := by
  rw [mem_map]
  constructor
  · rintro ⟨b, hb, hname⟩
    rwa [← inj_on_of_nodup_map h (hsome b hb) hagent hname]
  · exact fun hmem => ⟨agent, hmem, rfl⟩

/-! ### The eager evidence -/

theorem ne_senderId (h : s.RecipientRows recipients) (hagent : agent ∈ recipients)
    (hid : agent.id = some id) (hname : agent.name ≠ s.senderName) : id ≠ s.senderId := by
  rintro rfl
  exact hname (h.sender agent hagent hid)

theorem contains_of_asked (source : Option (Int → Bool)) {ids : List Int} (h : id ∈ ids) :
    (contactIdsOrFailOpen (lookup source ids) ids).contains id = answer source id := by
  rw [Bool.eq_iff_iff, contains_iff_mem, mem_contactIdsOrFailOpen]
  exact and_iff_right h

theorem eager_decision (h : s.RecipientRows recipients) (hagent : agent ∈ recipients)
    (hid : agent.id = some id) :
    s.checkPolicy (s.eagerContactEvidence recipients) agent = s.decisionAbout agent id := by
  unfold checkPolicy decisionAbout eagerContactEvidence
  dsimp only
  rw [hid, Option.getD_some]
  have hasked (hname : agent.name ≠ s.senderName) : id ∈ s.idsOf recipients :=
    mem_idsOf.mpr ⟨ne_senderId h hagent hid hname, agent, hagent, hid⟩
  apply contactPolicyDecision_congr
  · intro hname _
    exact contains_of_asked _ (hasked hname)
  · intro hname _ _
    have hshares : agent.name ∈ (recipients.filter s.shares).map AgentRow.name ↔
        s.shares agent = true := by
      rw [contains_name h.names (fun b hb => mem_of_mem_filter hb) hagent, mem_filter]
      exact and_iff_right hagent
    rw [contains_of_asked _ (hasked hname), Bool.eq_iff_iff]
    simp only [Bool.or_eq_true, contains_iff_mem, mem_append, hshares, inThread]
    cases s.threadId.isEmpty with
    | true => simp [or_comm]
    | false =>
      simp only [Bool.false_eq_true, if_false, Bool.not_false, Bool.true_and, contains_iff_mem]
      tauto

/-! ### The lazy evidence -/

theorem mem_waiting (hagent : agent ∈ recipients) (hname : agent.name ≠ s.senderName)
    (hpolicy : s.policyOf agent = .auto ∨ s.policyOf agent = .contactsOnly) :
    agent ∈ s.waiting recipients := by
  simp only [waiting, mem_filter, bne_iff_ne, Bool.or_eq_true, beq_iff_eq]
  exact ⟨⟨hagent, hname⟩, hpolicy⟩

theorem mem_of_mem_waiting (h : agent ∈ s.waiting recipients) : agent ∈ recipients :=
  mem_of_mem_filter (mem_of_mem_filter h)

theorem idsOf_ne_nil {agents : List AgentRow} (h : id ∈ s.idsOf agents) :
    (s.idsOf agents).isEmpty = false :=
  isEmpty_eq_false_iff_exists_mem.mpr ⟨id, h⟩

/-- The approvals of the lazy evidence for a recipient that waits. -/
theorem lazy_approved (h : s.RecipientRows recipients) (hagent : agent ∈ recipients)
    (hid : agent.id = some id) (hname : agent.name ≠ s.senderName)
    (hpolicy : s.policyOf agent = .auto ∨ s.policyOf agent = .contactsOnly) :
    (s.gatherContactEvidence recipients).approvedIds.contains id = answer s.sources.approved id := by
  have hasked : id ∈ s.idsOf (s.waiting recipients) :=
    mem_idsOf.mpr ⟨ne_senderId h hagent hid hname, agent, mem_waiting hagent hname hpolicy, hid⟩
  unfold gatherContactEvidence
  dsimp only
  rw [idsOf_ne_nil hasked, if_neg Bool.false_ne_true]
  split
  · exact contains_of_asked _ hasked
  · exact contains_of_asked _ hasked

/-- What else the lazy evidence has for a recipient that waits under `auto` without an approval. -/
theorem lazy_recent (h : s.RecipientRows recipients) (hagent : agent ∈ recipients)
    (hid : agent.id = some id) (hname : agent.name ≠ s.senderName) (hpolicy : s.policyOf agent = .auto)
    (hnot : answer s.sources.approved id = false) :
    ((s.gatherContactEvidence recipients).autoOkNames.contains agent.name ||
      (s.gatherContactEvidence recipients).recentIds.contains id) =
        (answer s.sources.recent id || s.inThread agent || s.shares agent) := by
  have hne := ne_senderId h hagent hid hname
  have hwaits := mem_waiting hagent hname (Or.inl hpolicy)
  have hasked : id ∈ s.idsOf (s.waiting recipients) := mem_idsOf.mpr ⟨hne, agent, hwaits, hid⟩
  unfold gatherContactEvidence
  dsimp only
  rw [idsOf_ne_nil hasked, if_neg Bool.false_ne_true]
  have happroved := contains_of_asked s.sources.approved hasked
  rw [hnot] at happroved
  generalize contactIdsOrFailOpen (lookup s.sources.approved (s.idsOf (s.waiting recipients)))
    (s.idsOf (s.waiting recipients)) = approvedIds at happroved ⊢
  -- the recipients that wait on under `auto`
  have hauto : agent ∈ ((s.waiting recipients).filter fun agent => s.policyOf agent == .auto).filter
      fun agent => !agent.id.any fun id => approvedIds.contains id := by
    simp only [mem_filter, beq_iff_eq, hid, Option.any_some, happroved, Bool.not_false]
    exact ⟨⟨hwaits, hpolicy⟩, trivial⟩
  have hknown : ∀ b ∈ ((s.waiting recipients).filter fun agent => s.policyOf agent == .auto).filter
      fun agent => !agent.id.any fun id => approvedIds.contains id, b ∈ recipients :=
    fun b hb => mem_of_mem_waiting (mem_of_mem_filter (mem_of_mem_filter hb))
  generalize ((s.waiting recipients).filter fun agent => s.policyOf agent == .auto).filter
    (fun agent => !agent.id.any fun id => approvedIds.contains id) = autoWaiting at hauto hknown ⊢
  have hauto' : id ∈ s.idsOf autoWaiting := mem_idsOf.mpr ⟨hne, agent, hauto, hid⟩
  rw [idsOf_ne_nil hauto', if_neg Bool.false_ne_true]
  dsimp only
  have hrecent := contains_of_asked s.sources.recent hauto'
  generalize contactIdsOrFailOpen (lookup s.sources.recent (s.idsOf autoWaiting))
    (s.idsOf autoWaiting) = recentIds at hrecent ⊢
  rw [hrecent]
  cases hanswer : answer s.sources.recent id with
  | true => simp
  | false =>
    rw [hanswer] at hrecent
    have hlater : agent ∈ autoWaiting.filter fun agent =>
        !agent.id.any fun id => recentIds.contains id := by
      simp only [mem_filter, hid, Option.any_some, hrecent, Bool.not_false]
      exact ⟨hauto, trivial⟩
    have hknown' : ∀ b ∈ autoWaiting.filter fun agent =>
        !agent.id.any fun id => recentIds.contains id, b ∈ recipients :=
      fun b hb => hknown b (mem_of_mem_filter hb)
    generalize (autoWaiting.filter fun agent => !agent.id.any fun id => recentIds.contains id) =
      stillWaiting at hlater hknown' ⊢
    have hsome : stillWaiting.isEmpty = false :=
      isEmpty_eq_false_iff_exists_mem.mpr ⟨agent, hlater⟩
    rw [hsome, Bool.or_false, Bool.false_or, Bool.eq_iff_iff]
    have hthread : agent.name ∈ (if (!false && !s.threadId.isEmpty) = true then
        (s.sources.participants s.threadId).getD [] else []) ↔ s.inThread agent = true := by
      rw [inThread]
      cases s.threadId.isEmpty <;> simp
    generalize (if (!false && !s.threadId.isEmpty) = true then
      (s.sources.participants s.threadId).getD [] else []) = participants at hthread ⊢
    have hshares : agent.name ∈ ((stillWaiting.filter fun agent =>
        !participants.contains agent.name).filter s.shares).map AgentRow.name ↔
          agent.name ∉ participants ∧ s.shares agent = true := by
      rw [contains_name h.names (fun b hb =>
        hknown' b (mem_of_mem_filter (mem_of_mem_filter hb))) hagent]
      simp only [mem_filter, contains_eq_mem, Bool.not_eq_true', decide_eq_false_iff_not]
      tauto
    rw [contains_iff_mem, mem_append, hshares, Bool.or_eq_true, ← hthread]
    by_cases hin : agent.name ∈ participants <;> simp [hin]

theorem lazy_decision (h : s.RecipientRows recipients) (hagent : agent ∈ recipients)
    (hid : agent.id = some id) :
    s.checkPolicy (s.gatherContactEvidence recipients) agent = s.decisionAbout agent id := by
  unfold checkPolicy decisionAbout
  dsimp only
  rw [hid, Option.getD_some]
  apply contactPolicyDecision_congr
  · exact fun hname hpolicy => lazy_approved h hagent hid hname hpolicy
  · intro hname hpolicy hnot
    rw [lazy_approved h hagent hid hname (Or.inl hpolicy)] at hnot
    exact lazy_recent h hagent hid hname hpolicy hnot

/-- The lazy evidence decides about every recipient as the eager one does, whoever else is written
to, and no evidence opens the inbox of someone else who blocks all. -/
theorem lazy_decides_as_eager (s : Send) (recipients : List AgentRow)
    (h : s.RecipientRows recipients) :
    (∀ agent ∈ recipients, s.checkPolicy (s.gatherContactEvidence recipients) agent =
      s.checkPolicy (s.eagerContactEvidence recipients) agent) ∧
    (∀ agent ∈ recipients, agent.name ≠ s.senderName → s.policyOf agent = .blockAll →
      s.checkPolicy (s.gatherContactEvidence recipients) agent = .blockAll) ∧
    ∀ others, s.RecipientRows others → ∀ agent ∈ recipients, agent ∈ others →
      s.checkPolicy (s.gatherContactEvidence others) agent =
        s.checkPolicy (s.gatherContactEvidence recipients) agent := by
  refine ⟨?_, fun agent _ hname hpolicy => checkPolicy_blockAll _ hname hpolicy, ?_⟩
  · intro agent hagent
    obtain ⟨id, hid⟩ := Option.isSome_iff_exists.mp (h.ids agent hagent)
    rw [lazy_decision h hagent hid, eager_decision h hagent hid]
  · intro others hothers agent hagent hother
    obtain ⟨id, hid⟩ := Option.isSome_iff_exists.mp (h.ids agent hagent)
    rw [lazy_decision hothers hother hid, lazy_decision h hagent hid]

/-! ### A send to three -/

def sampleSend : Send where
  platform := exactPlatform
  toLowercase t := t.map Char.toLower
  sources := ⟨none, some (· == 4), fun _ => some ["Lake".toList], none⟩
  senderId := 1
  senderName := "Hill".toList
  threadId := "t".toList

def sampleRecipients : List AgentRow :=
  [⟨some 2, "Lake".toList, "Auto".toList⟩, ⟨some 3, "Cave".toList, "BLOCK_ALL".toList⟩,
    ⟨some 1, "Hill".toList, "contacts_only".toList⟩]

theorem recipientRows_sample : sampleSend.RecipientRows sampleRecipients where
  names := by decide
  ids := by decide
  sender := by decide

theorem lazy_decides_as_eager_sample :
    (∀ agent ∈ sampleRecipients,
      sampleSend.checkPolicy (sampleSend.gatherContactEvidence sampleRecipients) agent =
        sampleSend.checkPolicy (sampleSend.eagerContactEvidence sampleRecipients) agent) ∧
    (∀ agent ∈ sampleRecipients, agent.name ≠ sampleSend.senderName →
      sampleSend.policyOf agent = .blockAll →
        sampleSend.checkPolicy (sampleSend.gatherContactEvidence sampleRecipients) agent =
          .blockAll) ∧
    ∀ others, sampleSend.RecipientRows others → ∀ agent ∈ sampleRecipients, agent ∈ others →
      sampleSend.checkPolicy (sampleSend.gatherContactEvidence others) agent =
        sampleSend.checkPolicy (sampleSend.gatherContactEvidence sampleRecipients) agent :=
  lazy_decides_as_eager sampleSend sampleRecipients recipientRows_sample

end AgentMail.Contact.Send
