import AgentMail.Rebuild.Replies

/-!
# Who receives a recovered message

The recipients of a stored file, row by row. A name is resolved by an insertion that compares
exactly and a lookup that ignores case, so two spellings of one name can become two agents; and
the second pass does not know the slug of the project, so it does not recognise the project's own
mailbox.
-/

namespace AgentMail.Rebuild

open Base Lib Artifact List

/-! ### What a file asks for -/

/-- The name is not the address of a project mailbox. -/
def namesAgent (r : Text × Kind) : Bool := (parseProjectMailboxAddress r.1).isNone

def sameName (a b : Text × Kind) : Bool := eqIgnoreAsciiCase a.1 b.1

/-- The agents that are named, each with the kind of its first occurrence. -/
def addresseesIn (named : List (Text × Kind)) : List (Text × Kind) :=
  keepNew sameName (named.filter namesAgent)

def addressees (f : Located) : List (Text × Kind) := addresseesIn f.message.named

/-- The entry addresses the mailbox of the project with the slug, as `to` or `cc`. -/
def addressesMailbox (slug : Text) (r : Text × Kind) : Bool :=
  parseProjectMailboxAddress r.1 = some slug && (r.2 = .to || r.2 = .cc)

def mailboxKindIn (slug : Text) (named : List (Text × Kind)) : Option Kind :=
  (named.find? (addressesMailbox slug)).map Prod.snd

/-- The kind with which a file addresses the mailbox of the project with the slug. -/
def mailboxKind (slug : Text) (f : Located) : Option Kind := mailboxKindIn slug f.message.named

/-- No name of an agent is repeated in another spelling. -/
def SpelledOnce (named : List (Text × Kind)) : Prop :=
  ∀ a ∈ named.filter namesAgent, ∀ b ∈ named.filter namesAgent, sameName a b = true → a.1 = b.1

/-! ### The rows of one message -/

/-- What the tables hold about a message. -/
structure Post where
  recipients : List RecipientRow
  deliveries : List DeliveryRow
  events : List ProjectEvent

def Post.empty : Post := ⟨[], [], []⟩

def Mail.post (M : Mail) (id : Int) : Post where
  recipients := M.recipients.filter fun r => r.messageId = id
  deliveries := M.deliveries.filter fun d => d.messageId = id
  events := M.events.filter fun e => e.messageId = id

theorem filter_insertRecipient (recipients : List RecipientRow) (r : RecipientRow) (id : Int) :
    (insertRecipient recipients r).filter (fun s => s.messageId = id) =
      if decide (r.messageId = id) = true ∧ ((recipients.filter fun s => s.messageId = id).any fun s =>
          s.messageId == r.messageId && s.agentId == r.agentId) = false then
        recipients.filter (fun s => s.messageId = id) ++ [r]
      else recipients.filter fun s => s.messageId = id := by
  unfold insertRecipient
  apply filter_insertNew
  intro s hsame hid
  simp only [Bool.and_eq_true, beq_iff_eq, decide_eq_true_eq] at hsame hid ⊢
  rw [hsame.1, hid]

theorem filter_insertDelivery (deliveries : List DeliveryRow) (d : DeliveryRow) (id : Int) :
    (insertDelivery deliveries d).filter (fun e => e.messageId = id) =
      if decide (d.messageId = id) = true ∧ ((deliveries.filter fun e => e.messageId = id).any fun e =>
          e.messageId == d.messageId) = false then
        deliveries.filter (fun e => e.messageId = id) ++ [d]
      else deliveries.filter fun e => e.messageId = id := by
  unfold insertDelivery
  apply filter_insertNew
  intro e hsame hid
  simp only [beq_iff_eq, decide_eq_true_eq] at hsame hid ⊢
  rw [hsame, hid]

theorem filter_insertEvent (events : List ProjectEvent) (e : ProjectEvent) (id : Int) :
    (insertEvent events e).filter (fun d => d.messageId = id) =
      if decide (e.messageId = id) = true ∧ ((events.filter fun d => d.messageId = id).any fun d =>
          d.projectId == e.projectId && d.messageId == e.messageId) = false then
        events.filter (fun d => d.messageId = id) ++ [e]
      else events.filter fun d => d.messageId = id := by
  unfold insertEvent
  apply filter_insertNew
  intro d hsame hid
  simp only [Bool.and_eq_true, beq_iff_eq, decide_eq_true_eq] at hsame hid ⊢
  rw [hsame.2, hid]

/-- The recipients of a message leave the other messages alone. -/
theorem post_addRecipient_of_ne (Q : RowOrder) (slug : Text) (f : Located) {messageId id : Int}
    (h : messageId ≠ id) (S : Names × Mail) (r : Text × Kind) :
    (addRecipient Q slug f messageId S r).2.post id = S.2.post id := by
  unfold addRecipient
  split
  · unfold addMailboxRecipient
    split
    · simp only [Mail.post, filter_insertDelivery, filter_insertEvent]
      simp [h]
    · rfl
  · simp only [Mail.post, filter_insertRecipient]
    simp [h]

theorem post_addRecipients_of_ne (Q : RowOrder) (slug : Text) (f : Located) {messageId id : Int}
    (h : messageId ≠ id) (S : Names × Mail) :
    (addRecipients Q slug f messageId S).2.post id = S.2.post id :=
  addRecipients_rel (P := fun S S' => S'.2.post id = S.2.post id) (fun _ => rfl)
    (fun _ _ _ hfirst hsecond => hsecond.trans hfirst) Q slug f messageId
    (fun S r _ => post_addRecipient_of_ne Q slug f h S r) S

/-! ### The loop over the recipients -/

/-- What the loop has done after some recipients. -/
structure Posting (slug : Text) (f : Located) (id : Int) (named : List (Text × Kind))
    (S : Names × Mail) : Prop where
  recipient : ∀ a ∈ named.filter namesAgent, ∃ r ∈ (S.2.post id).recipients,
    Assoc.get? (f.projectId, a.1) S.1.agentIds = some r.agentId
  recipients : SpelledOnce named → Forall₂ (fun r a => r.messageId = id ∧ r.kind = a.2 ∧
    Assoc.get? (f.projectId, a.1) S.1.agentIds = some r.agentId)
      (S.2.post id).recipients (addresseesIn named)
  deliveries : (S.2.post id).deliveries = (mailboxKindIn slug named).toList.map fun kind =>
    ⟨id, f.projectId, kind, f.message.createdTs⟩
  events : (S.2.post id).events = (mailboxKindIn slug named).toList.map fun _ =>
    ⟨f.projectId, id, f.message.createdTs⟩

theorem mailboxKindIn_concat (slug : Text) (named : List (Text × Kind)) (r : Text × Kind) :
    mailboxKindIn slug (named ++ [r]) = (mailboxKindIn slug named).or
      (if addressesMailbox slug r then some r.2 else none) := by
  rw [mailboxKindIn, mailboxKindIn, List.find?_append, Option.map_or]
  by_cases h : addressesMailbox slug r = true
  · simp [h]
  · simp [h]

variable {r : Text × Kind} {slug : Text}

theorem mailboxKindIn_concat_of_neg (h : addressesMailbox slug r = false)
    (named : List (Text × Kind)) :
    mailboxKindIn slug (named ++ [r]) = mailboxKindIn slug named := by
  rw [mailboxKindIn_concat, h]
  simp

theorem SpelledOnce.front {named : List (Text × Kind)} (h : SpelledOnce (named ++ [r])) :
    SpelledOnce named := by
  intro a ha b hb
  rw [SpelledOnce, filter_append] at h
  exact h a (mem_append_left _ ha) b (mem_append_left _ hb)

namespace Posting

variable {slug : Text} {f : Located} {id : Int} {named : List (Text × Kind)} {S : Names × Mail}

/-- An address: at most the mailbox of the project receives the message. -/
theorem address (h : Posting slug f id named S) (Q : RowOrder) {ident : Text}
    (hr : parseProjectMailboxAddress r.1 = some ident) :
    Posting slug f id (named ++ [r]) (addRecipient Q slug f id S r) := by
  have hagent : (named ++ [r]).filter namesAgent = named.filter namesAgent := by
    rw [filter_append, filter_cons_of_neg (by simp [namesAgent, hr]), filter_nil, append_nil]
  have hstep : addRecipient Q slug f id S r =
      (S.1, addMailboxRecipient slug f id S.2 ident r.2) := by
    unfold addRecipient
    simp only [hr]
  have hrecipients : ((addMailboxRecipient slug f id S.2 ident r.2).post id).recipients =
      (S.2.post id).recipients := by
    unfold addMailboxRecipient
    split <;> rfl
  have hspelled : SpelledOnce (named ++ [r]) → SpelledOnce named := SpelledOnce.front
  rw [hstep]
  refine ⟨?_, ?_, ?_, ?_⟩
  · rw [hagent, hrecipients]
    exact h.recipient
  · intro honce
    rw [hrecipients, addresseesIn, hagent]
    exact h.recipients (hspelled honce)
  all_goals
    unfold addMailboxRecipient
    by_cases hown : ident = slug ∧ (r.2 = .to ∨ r.2 = .cc)
    · have haddress : addressesMailbox slug r = true := by
        simp [addressesMailbox, hr, hown]
      rw [if_pos hown, mailboxKindIn_concat, haddress]
      simp only [Mail.post, filter_insertDelivery, filter_insertEvent]
      have hdeliveries := h.deliveries
      have hevents := h.events
      simp only [Mail.post] at hdeliveries hevents
      simp only [hdeliveries, hevents]
      cases mailboxKindIn slug named with
      | none => simp
      | some kind => simp
    · have haddress : addressesMailbox slug r = false := by
        simpa [addressesMailbox, hr] using hown
      rw [if_neg hown, mailboxKindIn_concat_of_neg haddress]
      first
      | exact h.deliveries
      | exact h.events

/-- The rows of the message after an agent is added. -/
theorem recipients_addRecipient (Q : RowOrder) (slug : Text) (f : Located) (id : Int)
    (S : Names × Mail) (hr : parseProjectMailboxAddress r.1 = none) {aid : Int} {N : Names}
    (hensure : ensureAgentExists Q S.1 f.projectId r.1 = (aid, N)) :
    addRecipient Q slug f id S r =
        (N, { S.2 with recipients := insertRecipient S.2.recipients ⟨id, aid, r.2⟩ }) ∧
      (({ S.2 with recipients := insertRecipient S.2.recipients ⟨id, aid, r.2⟩ } : Mail).post
        id).recipients =
      if (∃ s ∈ (S.2.post id).recipients, s.agentId = aid) then (S.2.post id).recipients
      else (S.2.post id).recipients ++ [⟨id, aid, r.2⟩] := by
  constructor
  · unfold addRecipient
    simp only [hr, hensure]
  · have hpost : (({ S.2 with recipients := insertRecipient S.2.recipients ⟨id, aid, r.2⟩ } :
        Mail).post id).recipients =
          (insertRecipient S.2.recipients ⟨id, aid, r.2⟩).filter fun s => s.messageId = id := rfl
    have hfilter : S.2.recipients.filter (fun s => s.messageId = id) = (S.2.post id).recipients := rfl
    rw [hpost, filter_insertRecipient, hfilter]
    by_cases h : ∃ s ∈ (S.2.post id).recipients, s.agentId = aid
    · rw [if_pos h, if_neg]
      rintro ⟨_, hany⟩
      obtain ⟨s, hs, haid⟩ := h
      have hs' := (mem_filter.mp hs).2
      have hfalse := any_eq_false.mp hany s hs
      simp [haid, of_decide_eq_true hs'] at hfalse
    · rw [if_neg h, if_pos]
      refine ⟨by simp, ?_⟩
      rw [any_eq_false]
      intro s hs hsame
      simp only [Bool.and_eq_true, beq_iff_eq] at hsame
      exact h ⟨s, hs, hsame.2⟩

/-- A name: the agent receives the message, unless it does so already. -/
theorem agent (h : Posting slug f id named S) (Q : RowOrder)
    (hr : parseProjectMailboxAddress r.1 = none) :
    Posting slug f id (named ++ [r]) (addRecipient Q slug f id S r) := by
  have hagents : (named ++ [r]).filter namesAgent = named.filter namesAgent ++ [r] := by
    rw [filter_append, filter_cons_of_pos (by simp [namesAgent, hr]), filter_nil]
  have haddress : addressesMailbox slug r = false := by simp [addressesMailbox, hr]
  have hmemo := get?_ensureAgentExists Q S.1 f.projectId r.1
  have hkeep (k : Int × Text) (n : Int) (hk : Assoc.get? k S.1.agentIds = some n) :=
    get?_ensureAgentExists_of_some Q hk f.projectId r.1
  have hext := ensureAgentExists_extends Q S.1 f.projectId r.1
  have hisAgent := ensureAgentExists_isAgent Q S.1 f.projectId r.1
  rcases hensure : ensureAgentExists Q S.1 f.projectId r.1 with ⟨aid, N⟩
  rw [hensure] at hmemo hext hisAgent
  simp only [hensure] at hkeep
  obtain ⟨hstep, hrows⟩ := recipients_addRecipient Q slug f id S hr hensure
  rw [hstep]
  refine ⟨?_, ?_, ?_, ?_⟩
  · intro a ha
    rw [hagents, mem_append, mem_singleton] at ha
    rw [hrows]
    rcases ha with ha | rfl
    · obtain ⟨s, hs, hid⟩ := h.recipient a ha
      refine ⟨s, ?_, hkeep _ _ hid⟩
      split
      · exact hs
      · exact mem_append_left _ hs
    · split
      · next hsome =>
        obtain ⟨s, hs, rfl⟩ := hsome
        exact ⟨s, hs, hmemo⟩
      · exact ⟨_, mem_append_right _ (mem_singleton_self _), hmemo⟩
  · intro honce
    have hrest := h.recipients honce.front
    rw [hrows, addresseesIn, hagents, keepNew_concat]
    by_cases hrepeat :
        ((keepNew sameName (named.filter namesAgent)).any fun b => sameName b r) = true
    · -- the name was remembered when it first came
      obtain ⟨a, ha, hsame⟩ := any_eq_true.mp hrepeat
      obtain ⟨s, hs, _, _, hid⟩ := exists_of_forall₂_right hrest ha
      have hname : a.1 = r.1 := by
        rw [SpelledOnce, hagents] at honce
        exact honce a (mem_append_left _ (keepNew_subset ha)) r (by simp) hsame
      rw [hname] at hid
      rw [ensureAgentExists_of_some Q hid] at hensure
      obtain ⟨rfl, rfl⟩ := Prod.mk.inj hensure
      rw [if_pos ⟨s, hs, rfl⟩, if_pos hrepeat]
      exact hrest
    · have hnone : ¬ ∃ s ∈ (S.2.post id).recipients, s.agentId = aid := by
        rintro ⟨s, hs, rfl⟩
        obtain ⟨a, ha, _, _, hid⟩ := exists_of_forall₂_left hrest hs
        have ha' : S.1.IsAgent s.agentId f.projectId a.1 := S.1.resolves _ (Assoc.mem_of_get? hid)
        exact hrepeat (any_eq_true.mpr ⟨a, ha, (ha'.mono hext).name_eq hisAgent⟩)
      rw [if_neg hnone, if_neg hrepeat]
      apply rel_append
      · exact hrest.imp fun s a hsa => ⟨hsa.1, hsa.2.1, hkeep _ _ hsa.2.2⟩
      · exact List.Forall₂.cons ⟨rfl, rfl, hmemo⟩ List.Forall₂.nil
  · rw [mailboxKindIn_concat_of_neg haddress]
    exact h.deliveries
  · rw [mailboxKindIn_concat_of_neg haddress]
    exact h.events

/-- The whole loop, for a message of which the tables hold nothing yet. -/
theorem loop (Q : RowOrder) (slug : Text) (f : Located) (id : Int) (S : Names × Mail)
    (hS : S.2.post id = Post.empty) :
    Posting slug f id f.message.named (addRecipients Q slug f id S) := by
  unfold addRecipients
  induction f.message.named using reverseRecOn with
  | nil =>
    refine ⟨by simp, fun _ => ?_, ?_, ?_⟩
    all_goals
      simp only [foldl_nil, hS]
    · exact List.Forall₂.nil
    · rfl
    · rfl
  | append_singleton named r ih =>
    rw [foldl_append, foldl_cons, foldl_nil]
    cases hr : parseProjectMailboxAddress r.1 with
    | none => exact ih.agent Q hr
    | some ident => exact ih.address Q hr

end Posting

/-! ### The agents over the whole run -/

/-- An order of rows in which an exact match comes first. -/
def exactOrder : RowOrder where
  first := fun name rows => (rows.find? fun r => r.2.name == name).or rows.head?
  first_mem := fun name rows r h => by
    rw [Option.or_eq_some_iff] at h
    rcases h with h | ⟨_, h⟩
    · exact mem_of_find?_eq_some h
    · exact mem_of_head? h
  first_isSome := fun name rows h => by
    cases rows with
    | nil => exact absurd rfl h
    | cons r rows => simp

theorem queryAgentId_exactOrder {agents : Ledger AgentRow} {a : AgentRow} {id : Int}
    (h : queryAgentId exactOrder (insertOrIgnoreAgent agents a) a.projectId a.name = some id) :
    (id, a) ∈ (insertOrIgnoreAgent agents a).rows := by
  obtain ⟨own, hown⟩ := exists_row_insertOrIgnoreAgent agents a
  obtain ⟨⟨id', b⟩, hfirst, rfl⟩ := Option.map_eq_some_iff.mp h
  have hmem := mem_filter.mp (exactOrder.first_mem _ _ _ hfirst)
  have hsome : (((insertOrIgnoreAgent agents a).rows.filter (matchesName a.projectId a.name)).find?
      fun r => r.2.name == a.name).isSome = true := by
    rw [List.find?_isSome]
    exact ⟨(own, a), mem_filter.mpr ⟨hown, matchesName_self own a⟩, by simp⟩
  obtain ⟨r, hr⟩ := Option.isSome_iff_exists.mp hsome
  have hname := List.find?_some hr
  have heq : r = (id', b) := by
    simpa only [exactOrder, hr, Option.some_or, Option.some.injEq] using hfirst
  have hproject : b.projectId = a.projectId := by
    have hmatch := hmem.2
    simp only [matchesName, Bool.and_eq_true, beq_iff_eq] at hmatch
    exact hmatch.1
  rw [heq, beq_iff_eq] at hname
  have hb : b = a := by
    rcases a with ⟨p, n⟩
    rcases b with ⟨p', n'⟩
    simp only at hname hproject
    rw [hname, hproject]
  exact hb ▸ hmem.1

/-- The agents are allowed ones. Where an exact match comes first, the memo has the agent of
exactly that name. -/
structure Names.Sound (Q : RowOrder) (allowed : AgentRow → Prop) (N : Names) : Prop where
  rows : ∀ r ∈ N.agents.rows, allowed r.2
  exact : Q = exactOrder → ∀ e ∈ N.agentIds, (e.2, (⟨e.1.1, e.1.2⟩ : AgentRow)) ∈ N.agents.rows

variable {projectId : Int} {S : Names × Mail}

namespace Names.Sound

variable {Q : RowOrder} {allowed : AgentRow → Prop} {N : Names}

theorem registerAgent (h : N.Sound Q allowed) {name : Text} (hname : allowed ⟨projectId, name⟩) :
    (Rebuild.registerAgent Q N projectId name).2.Sound Q allowed where
  rows := by
    intro r hr
    simp only [Rebuild.registerAgent, insertOrIgnoreAgent] at hr
    split at hr
    · exact h.rows r hr
    · rcases Ledger.mem_rows_issue.mp hr with hr | ⟨_, heq⟩
      · exact h.rows r hr
      · rw [heq]
        exact hname
  exact := by
    intro hQ e he
    subst hQ
    simp only [Rebuild.registerAgent, Assoc.insert, mem_append, mem_singleton] at he
    rcases he with he | rfl
    · exact (rows_insertOrIgnoreAgent N.agents _).subset
        (h.exact rfl e (mem_of_mem_filter he))
    · exact queryAgentId_exactOrder (Option.some_get _).symm

theorem ensureAgentExists (h : N.Sound Q allowed) {name : Text}
    (hname : allowed ⟨projectId, name⟩) :
    (Rebuild.ensureAgentExists Q N projectId name).2.Sound Q allowed := by
  unfold Rebuild.ensureAgentExists
  split
  · exact h
  · exact h.registerAgent hname

theorem discoverAgents (h : N.Sound Q allowed) (R : Readers) {dirs : List AgentDir}
    (hnames : ∀ name ∈ dirs.filterMap fun d => (profileAgent R d).1, allowed ⟨projectId, name⟩) :
    (Rebuild.discoverAgents Q R projectId N dirs).Sound Q allowed := by
  unfold Rebuild.discoverAgents
  generalize dirs.filterMap (fun d => (profileAgent R d).1) = names at hnames
  induction names generalizing N with
  | nil => exact h
  | cons name names ih =>
    exact ih (h.registerAgent (hnames name mem_cons_self))
      fun n hn => hnames n (mem_cons_of_mem _ hn)

theorem holders (h : N.Sound Q allowed) {reservations : List ArchivedFileReservation}
    (hnames : ∀ r ∈ reservations, allowed ⟨projectId, r.agentName⟩) :
    (Rebuild.holders Q projectId N reservations).1.Sound Q allowed := by
  induction reservations using reverseRecOn with
  | nil => exact h
  | append_singleton reservations r ih =>
    rw [holders_concat]
    have hrest := ih fun s hs => hnames s (mem_append_left _ hs)
    exact hrest.ensureAgentExists (hnames r (by simp))

theorem addRecipients (h : S.1.Sound Q allowed)
    (hallowed : ∀ a : AgentRow, parseProjectMailboxAddress a.name = none → allowed a)
    (slug : Text) (f : Located) (id : Int) :
    (Rebuild.addRecipients Q slug f id S).1.Sound Q allowed := by
  refine addRecipients_rel (P := fun S S' => S.1.Sound Q allowed → S'.1.Sound Q allowed)
    (fun _ h => h) (fun _ _ _ hfirst hsecond h => hsecond (hfirst h)) Q slug f id ?_ S h
  intro S r _ hS
  unfold addRecipient
  cases hr : parseProjectMailboxAddress r.1 with
  | some ident => exact hS
  | none => exact hS.ensureAgentExists (hallowed ⟨f.projectId, r.1⟩ hr)

end Names.Sound

/-! ### Recipients over the whole run -/

/-- A recipient row is that of a named agent. -/
def Addressed (N : Names) (id projectId : Int) (r : RecipientRow) (a : Text × Kind) : Prop :=
  r.messageId = id ∧ r.kind = a.2 ∧ N.IsAgent r.agentId projectId a.1

/-- What is known of the rows of a stored file. -/
structure Settled (Q : RowOrder) (N : Names) (post : Post) (b : Int × Located) (slug : Text) :
    Prop where
  recipients : SpelledOnce b.2.message.named →
    Forall₂ (Addressed N b.1 b.2.projectId) post.recipients (addressees b.2)
  deliveries : post.deliveries = (mailboxKind slug b.2).toList.map fun kind =>
    ⟨b.1, b.2.projectId, kind, b.2.message.createdTs⟩
  events : post.events = (mailboxKind slug b.2).toList.map fun _ =>
    ⟨b.2.projectId, b.1, b.2.message.createdTs⟩
  spelling : Q = exactOrder → ∀ a ∈ b.2.message.named.filter namesAgent, ∃ r ∈ post.recipients,
    (r.agentId, (⟨b.2.projectId, a.1⟩ : AgentRow)) ∈ N.agents.rows

theorem Settled.mono {Q : RowOrder} {N N' : Names} {post : Post} {b : Int × Located}
    (h : Settled Q N post b slug) (hext : N.Extends N') : Settled Q N' post b slug where
  recipients := fun honce =>
    (h.recipients honce).imp fun _ _ hrow => ⟨hrow.1, hrow.2.1, hrow.2.2.mono hext⟩
  deliveries := h.deliveries
  events := h.events
  spelling := fun hQ a ha => by
    obtain ⟨r, hr, hrow⟩ := h.spelling hQ a ha
    exact ⟨r, hr, hext.subset hrow⟩

variable {f : Located}

theorem Posting.settled {Q : RowOrder} {allowed : AgentRow → Prop} {id : Int}
    (h : Posting slug f id f.message.named S) (hsound : S.1.Sound Q allowed) :
    Settled Q S.1 (S.2.post id) (id, f) slug where
  recipients := fun honce => (h.recipients honce).imp fun _ _ hrow =>
    ⟨hrow.1, hrow.2.1, S.1.resolves _ (Assoc.mem_of_get? hrow.2.2)⟩
  deliveries := h.deliveries
  events := h.events
  spelling := fun hQ a ha => by
    obtain ⟨r, hr, hid⟩ := h.recipient a ha
    exact ⟨r, hr, hsound.exact hQ _ (Assoc.mem_of_get? hid)⟩

/-- Every stored file has its rows, and nothing else has any. `slugs` says for which slug a file was
stored. -/
structure Posted (Q : RowOrder) (allowed : AgentRow → Prop) (slugs : Int × Located → Text → Prop)
    (S : Names × Mail) : Prop where
  sound : S.1.Sound Q allowed
  absent : ∀ id, id ∉ S.2.messages.numbers → S.2.post id = Post.empty
  stored : ∀ b ∈ S.2.built, b.1 ∈ S.2.messages.numbers
  settled : ∀ b ∈ S.2.built, ∃ slug, slugs b slug ∧ Settled Q S.1 (S.2.post b.1) b slug

namespace Posted

variable {Q : RowOrder} {allowed : AgentRow → Prop} {slugs : Int × Located → Text → Prop}
  {S : Names × Mail}

theorem empty (Q : RowOrder) (allowed : AgentRow → Prop) (slugs : Int × Located → Text → Prop) :
    Posted Q allowed slugs (Names.empty, Mail.empty) where
  sound := ⟨by simp [Names.empty], by simp [Names.empty]⟩
  absent := fun _ _ => rfl
  stored := by simp [Mail.empty]
  settled := by simp [Mail.empty]

/-- Agents are added, and the tables stay. -/
theorem frame (h : Posted Q allowed slugs S) {N : Names} {M : Mail} (hext : S.1.Extends N)
    (hsound : N.Sound Q allowed) (hmessages : M.messages = S.2.messages)
    (hbuilt : M.built = S.2.built) (hpost : ∀ id, M.post id = S.2.post id) :
    Posted Q allowed slugs (N, M) where
  sound := hsound
  absent := fun id hid => (hpost id).trans (h.absent id (hmessages ▸ hid))
  stored := by
    simp only [hmessages, hbuilt]
    exact h.stored
  settled := by
    simp only [hbuilt, hpost]
    intro b hb
    obtain ⟨slug, hslug, hsettled⟩ := h.settled b hb
    exact ⟨slug, hslug, hsettled.mono hext⟩

theorem store (h : Posted Q allowed slugs S)
    (hallowed : ∀ a : AgentRow, parseProjectMailboxAddress a.name = none → allowed a)
    {id senderId : Int} {messages : Ledger MessageRow} (hslug : slugs (id, f) slug)
    (hfree : id ∉ S.2.messages.numbers)
    (hrows : messages.rows = S.2.messages.rows ++ [(id, messageRow f senderId)]) :
    Posted Q allowed slugs
      (addRecipients Q slug f id (S.1, recordMessage S.2 f id messages)) := by
  have hsame := addRecipients_sameMessages Q slug f id (S.1, recordMessage S.2 f id messages)
  have hext := addRecipients_extends Q slug f id (S.1, recordMessage S.2 f id messages)
  have hother (m : Int) (hm : id ≠ m) :
      (addRecipients Q slug f id (S.1, recordMessage S.2 f id messages)).2.post m = S.2.post m :=
    post_addRecipients_of_ne Q slug f hm (S.1, recordMessage S.2 f id messages)
  have hsound : (addRecipients Q slug f id (S.1, recordMessage S.2 f id messages)).1.Sound Q
      allowed :=
    Names.Sound.addRecipients (S := (S.1, recordMessage S.2 f id messages)) h.sound hallowed slug f id
  have hloop := Posting.loop Q slug f id (S.1, recordMessage S.2 f id messages) (h.absent id hfree)
  have hnumbers : messages.numbers = S.2.messages.numbers ++ [id] := by
    simp [Ledger.numbers, hrows]
  generalize addRecipients Q slug f id (S.1, recordMessage S.2 f id messages) = S' at *
  have hmessages : S'.2.messages = messages := hsame.messages
  have hbuilt : S'.2.built = S.2.built ++ [(id, f)] := hsame.built
  have hne (m : Int) (hm : m ∈ S.2.messages.numbers) : id ≠ m := by
    rintro rfl
    exact hfree hm
  refine ⟨hsound, ?_, ?_, ?_⟩
  · intro m hm
    rw [hmessages, hnumbers, mem_append, mem_singleton, not_or] at hm
    rw [hother m (Ne.symm hm.2)]
    exact h.absent m hm.1
  · intro b hb
    rw [hmessages, hnumbers, mem_append, mem_singleton]
    rw [hbuilt, mem_append, mem_singleton] at hb
    rcases hb with hb | rfl
    · exact Or.inl (h.stored b hb)
    · exact Or.inr rfl
  · intro b hb
    rw [hbuilt, mem_append, mem_singleton] at hb
    rcases hb with hb | rfl
    · obtain ⟨s, hs, hsettled⟩ := h.settled b hb
      rw [hother b.1 (hne _ (h.stored b hb))]
      exact ⟨s, hs, hsettled.mono hext⟩
    · exact ⟨slug, hslug, hloop.settled hsound⟩

theorem parseAndInsertMessage (h : Posted Q allowed slugs S)
    (hallowed : ∀ a : AgentRow, parseProjectMailboxAddress a.name = none → allowed a)
    (pass : Pass) (slug : Text) (hsender : allowed ⟨f.projectId, f.message.senderName⟩)
    (hslug : ∀ id, id ∉ S.2.messages.numbers → slugs (id, f) slug) :
    Posted Q allowed slugs (Rebuild.parseAndInsertMessage Q pass slug S f) := by
  rcases S with ⟨N, M⟩
  have hext := ensureAgentExists_extends Q N f.projectId f.message.senderName
  have hsound := h.sound.ensureAgentExists hsender
  rcases hensure : ensureAgentExists Q N f.projectId f.message.senderName with ⟨senderId, N'⟩
  rw [hensure] at hext hsound
  rw [parseAndInsertMessage_eq Q pass slug N M f hensure]
  have h' : Posted Q allowed slugs (N', M) := h.frame hext hsound rfl rfl fun _ => rfl
  cases hslot : settleId pass M.messages f with
  | skip => exact h'
  | wait => exact h'.frame (Names.Extends.refl _) hsound rfl rfl fun _ => rfl
  | own cid =>
    have hfree := settleId_own_free hslot
    exact h'.store hallowed (hslug cid hfree) hfree (Ledger.rows_insertAt hfree _)
  | generated =>
    have hfree := M.messages.top_succ_notMem_numbers
    exact h'.store hallowed (hslug _ hfree) hfree rfl

/-- The first pass stores the files of a project for the slug of its directory. -/
theorem insertMessages (h : Posted Q allowed (fun b slug => slug = b.2.projectSlug) S)
    (hallowed : ∀ a : AgentRow, parseProjectMailboxAddress a.name = none → allowed a)
    {files : List Located} (hsender : ∀ f ∈ files, allowed ⟨f.projectId, f.message.senderName⟩) :
    Posted Q allowed (fun b slug => slug = b.2.projectSlug) (Rebuild.insertMessages Q S files) := by
  unfold Rebuild.insertMessages
  induction files generalizing S with
  | nil => exact h
  | cons f files ih =>
    have hstep := h.parseAndInsertMessage hallowed .canonical f.projectSlug
      (hsender f mem_cons_self) fun _ _ => rfl
    exact ih hstep fun g hg => hsender g (mem_cons_of_mem _ hg)

end Posted

/-- The slug for which a file is stored, where the first pass has stored the given ones. -/
def slugAfter (first : List (Int × Located)) (b : Int × Located) (slug : Text) : Prop :=
  b ∈ first ∧ slug = b.2.projectSlug ∨ b ∉ first ∧ slug = []

theorem stable_built (first : List (Int × Located)) :
    Mail.Stable fun M => ∀ b ∈ first, b ∈ M.built where
  same := fun _ _ hsame h b hb => hsame.built ▸ h b hb
  wait := fun _ _ h => h
  store := fun _ _ _ _ _ h _ _ b hb => mem_append_left _ (h b hb)

/-- The second pass stores its files for the empty slug. -/
theorem Posted.foldl_deferred {Q : RowOrder} {allowed : AgentRow → Prop}
    {first : List (Int × Located)} (h : Posted Q allowed (slugAfter first) S)
    (hallowed : ∀ a : AgentRow, parseProjectMailboxAddress a.name = none → allowed a)
    (hfirst : ∀ b ∈ first, b ∈ S.2.built) {files : List Located}
    (hsender : ∀ f ∈ files, allowed ⟨f.projectId, f.message.senderName⟩) :
    Posted Q allowed (slugAfter first)
      (files.foldl (fun S f => Rebuild.parseAndInsertMessage Q .deferred [] S f) S) := by
  induction files generalizing S with
  | nil => exact h
  | cons f files ih =>
    have hstep := h.parseAndInsertMessage hallowed .deferred [] (hsender f mem_cons_self)
      fun id hid => Or.inr ⟨fun hb => hid (h.stored (id, f) (hfirst _ hb)), rfl⟩
    have hbuilt := (stable_built first).parseAndInsertMessage Q .deferred [] S f hfirst
    exact ih hstep hbuilt fun g hg => hsender g (mem_cons_of_mem _ hg)

theorem Posted.insertDeferred {Q : RowOrder} {allowed : AgentRow → Prop}
    (h : Posted Q allowed (fun b slug => slug = b.2.projectSlug) S)
    (hallowed : ∀ a : AgentRow, parseProjectMailboxAddress a.name = none → allowed a)
    (hsender : ∀ f ∈ S.2.deferred, allowed ⟨f.projectId, f.message.senderName⟩) :
    Posted Q allowed (slugAfter S.2.built) (Rebuild.insertDeferred Q S) := by
  have hstart : Posted Q allowed (slugAfter S.2.built) S := by
    refine ⟨h.sound, h.absent, h.stored, ?_⟩
    intro b hb
    obtain ⟨slug, hslug, hsettled⟩ := h.settled b hb
    exact ⟨slug, Or.inl ⟨hb, hslug⟩, hsettled⟩
  exact hstart.foldl_deferred hallowed (fun _ hb => hb) hsender

/-! ### The walk -/

/-- The agents that a directory names other than as recipients. -/
def ProjectDir.introduced (R : Readers) (projectId : Int) (d : ProjectDir) : List AgentRow :=
  ((d.agents.filterMap fun a => (profileAgent R a).1) ++
    (d.sortedReservations.filterMap (parseArchivedFileReservation R)).map
      ArchivedFileReservation.agentName ++
    (d.located R projectId).map fun f => f.message.senderName).map (⟨projectId, ·⟩)

def introducedIn (R : Readers) (dirs : List ProjectDir) : List AgentRow :=
  (dirs.zipIdx 1).flatMap fun d => d.1.introduced R d.2

theorem introducedIn_concat (R : Readers) (dirs : List ProjectDir) (d : ProjectDir) :
    introducedIn R (dirs ++ [d]) = introducedIn R dirs ++ d.introduced R (dirs.length + 1) := by
  rw [introducedIn, zipIdx_append, flatMap_append]
  simp [introducedIn, add_comm]

theorem projectId_of_located {R : Readers} {d : ProjectDir} (h : f ∈ d.located R projectId) :
    f.projectId = projectId := by
  obtain ⟨_, _, rfl⟩ := mem_map.mp h
  rfl

theorem posted_walk (R : Readers) (Q : RowOrder) (allowed : AgentRow → Prop)
    (hallowed : ∀ a : AgentRow, parseProjectMailboxAddress a.name = none → allowed a)
    {dirs : List ProjectDir} (hnodup : (dirs.map ProjectDir.name).Nodup)
    (hintroduced : ∀ a ∈ introducedIn R dirs, allowed a) :
    Posted Q allowed (fun b slug => slug = b.2.projectSlug)
      ((dirs.foldl (rebuildProject R Q) Candidate.empty).names,
        (dirs.foldl (rebuildProject R Q) Candidate.empty).mail) := by
  induction dirs using reverseRecOn with
  | nil => exact Posted.empty Q allowed _
  | append_singleton dirs d ih =>
    rw [map_append, nodup_append] at hnodup
    rw [introducedIn_concat] at hintroduced
    have hrest := ih hnodup.1 fun a ha => hintroduced a (mem_append_left _ ha)
    have hwalk := walked_foldl R Q hnodup.1
    have hnew : d.name ∉ dirs.map ProjectDir.name := fun hmem =>
      hnodup.2.2 _ hmem d.name (by simp) rfl
    have hhere (name : Text) (hname : name ∈ (d.agents.filterMap fun a => (profileAgent R a).1) ++
        (d.sortedReservations.filterMap (parseArchivedFileReservation R)).map
          ArchivedFileReservation.agentName ++
        (d.located R (dirs.length + 1)).map fun f => f.message.senderName) :
        allowed ⟨dirs.length + 1, name⟩ :=
      hintroduced _ (mem_append_right _ (mem_map_of_mem hname))
    rw [foldl_append, foldl_cons, foldl_nil]
    generalize dirs.foldl (rebuildProject R Q) Candidate.empty = C at hrest hwalk
    unfold rebuildProject
    rw [hwalk.ensureProject_eq hnew]
    simp only [insertReservations_eq]
    have hagents : (discoverAgents Q R (dirs.length + 1) C.names d.agents).Sound Q allowed :=
      hrest.sound.discoverAgents R fun name hname => hhere name (by simp [hname])
    have hext := discoverAgents_extends Q R (dirs.length + 1) C.names d.agents
    generalize discoverAgents Q R (dirs.length + 1) C.names d.agents = N at hagents hext
    have hholders : (holders Q (dirs.length + 1) N
        (d.sortedReservations.filterMap (parseArchivedFileReservation R))).1.Sound Q allowed :=
      hagents.holders fun r hr => hhere r.agentName
        (mem_append_left _ (mem_append_right _ (mem_map_of_mem hr)))
    have hext' := hext.trans (holders_extends Q (dirs.length + 1) N
      (d.sortedReservations.filterMap (parseArchivedFileReservation R)))
    have hframe := hrest.frame hext' hholders rfl rfl fun _ => rfl
    apply hframe.insertMessages hallowed
    intro f hf
    rw [projectId_of_located hf]
    exact hhere _ (mem_append_right _ (mem_map_of_mem hf))

/-- The files that the first pass has stored. -/
def storedFirst (R : Readers) (A : Archive) : List (Int × Located) :=
  (Intake.firstPass Located.number Located.identity (A.located R)).ledger.rows

/-- The agents that the archive names other than as recipients. -/
def Archive.introduced (R : Readers) (A : Archive) : List AgentRow := introducedIn R A.sorted

theorem sender_introduced {R : Readers} {A : Archive} (hf : f ∈ A.located R) :
    ⟨f.projectId, f.message.senderName⟩ ∈ A.introduced R := by
  obtain ⟨d, hd, hf⟩ := mem_flatMap.mp hf
  refine mem_flatMap.mpr ⟨d, hd, ?_⟩
  rw [projectId_of_located hf]
  exact mem_map_of_mem (mem_append_right _ (mem_map_of_mem hf))

theorem posted_reconstruct (R : Readers) (Q : RowOrder) (A : Archive) :
    Posted Q (fun a => parseProjectMailboxAddress a.name = none ∨ a ∈ A.introduced R)
      (slugAfter (storedFirst R A)) ((reconstruct R Q A).names, beforeEdges R Q A) := by
  have hwalk := walked_foldl R Q A.nodup_sorted
  have hposted := posted_walk R Q
    (fun a => parseProjectMailboxAddress a.name = none ∨ a ∈ A.introduced R)
    (fun _ h => Or.inl h) A.nodup_sorted fun _ h => Or.inr h
  have hdeferred := hposted.insertDeferred (fun _ h => Or.inl h) ?_
  · rw [hwalk.tracks.built] at hdeferred
    exact hdeferred
  · intro f hf
    rw [hwalk.waiting, Intake.waiting_firstPass] at hf
    exact Or.inr (sender_introduced (mem_of_mem_filter hf))

/-! ### When everyone is reached -/

/-- Every rebuilt row has a recipient row for each agent that its file names, with the kind of the
first occurrence, and a delivery with its event exactly if the file addresses the mailbox of the
project. No agent has the address of a mailbox only because a file addresses it. -/
structure RecipientsExact (R : Readers) (A : Archive) (C : Candidate) : Prop where
  rows : ∀ m row, (m, row) ∈ C.mail.messages.rows → ∃ f, (m, f) ∈ C.mail.built ∧
    Shows C.names row f ∧
    Forall₂ (Addressed C.names m f.projectId) (C.mail.post m).recipients (addressees f) ∧
    (C.mail.post m).deliveries = (mailboxKind f.projectSlug f).toList.map (fun kind =>
      ⟨m, f.projectId, kind, f.message.createdTs⟩) ∧
    (C.mail.post m).events = (mailboxKind f.projectSlug f).toList.map fun _ =>
      ⟨f.projectId, m, f.message.createdTs⟩
  agents : ∀ r ∈ C.names.agents.rows, parseProjectMailboxAddress r.2.name ≠ none →
    r.2 ∈ A.introduced R

/-- The file gets its row in the second pass. -/
def StoredLate (files : List Located) (f : Located) : Prop :=
  ∃ front back, files = front ++ f :: back ∧
    Intake.Late Located.number Located.identity files front f

/-- A stored file spells each name in one way, and one that is stored in the second pass addresses
no mailbox. More exactly, the mailbox of its project is addressed as the empty slug is. -/
structure Deliverable (files : List Located) : Prop where
  spelled : ∀ f, Stored files f → SpelledOnce f.message.named
  mailbox : ∀ f, StoredLate files f → mailboxKind [] f = mailboxKind f.projectSlug f

theorem recipientsExact_of_deliverable {R : Readers} {A : Archive}
    (h : Deliverable (A.located R)) (Q : RowOrder) : RecipientsExact R A (reconstruct R Q A) := by
  have hposted := posted_reconstruct R Q A
  obtain ⟨hbuilt, hrows⟩ := reconstruct_rows R Q A
  constructor
  · intro m row hrow
    obtain ⟨⟨m', f⟩, hf, hm, hshows⟩ := exists_of_forall₂_left hrows hrow
    obtain rfl : m = m' := hm
    obtain ⟨slug, hslug, hsettled⟩ := hposted.settled (m, f) hf
    have hkind : mailboxKind slug f = mailboxKind f.projectSlug f := by
      rcases hslug with ⟨_, rfl⟩ | ⟨hlate, rfl⟩
      · rfl
      · apply h.mailbox f
        rw [hbuilt] at hf
        exact Intake.late_of_mem_file Located.number Located.identity hf hlate
    have hdeliveries := hsettled.deliveries
    have hevents := hsettled.events
    rw [hkind] at hdeliveries hevents
    exact ⟨f, hf, hshows, hsettled.recipients (h.spelled f (stored_iff_built.mpr ⟨m, hf⟩)),
      hdeliveries, hevents⟩
  · intro r hr haddress
    rcases hposted.sound.rows r hr with hnone | hintroduced
    · exact absurd hnone haddress
    · exact hintroduced

theorem isAgent_of_row {N : Names} {id : Int} {a : AgentRow} (h : (id, a) ∈ N.agents.rows) :
    N.IsAgent id a.projectId a.name :=
  ⟨a, h, matchesName_self id a⟩

theorem sameName_trans {a b c : Text × Kind} (h : sameName a b = true) (h' : sameName b c = true) :
    sameName a c = true := by
  simp only [sameName, eqIgnoreAsciiCase, beq_iff_eq] at h h' ⊢
  rw [h, h']

theorem sameName_symm {a b : Text × Kind} (h : sameName a b = true) : sameName b a = true := by
  simp only [sameName, eqIgnoreAsciiCase, beq_iff_eq] at h ⊢
  rw [h]

/-- If the rows are those of the addressees, the agents of two spellings are one. -/
theorem spelledOnce_of_forall₂ {N : Names} {post : Post} {b : Int × Located}
    (hsettled : Settled exactOrder N post b slug)
    (hrows : Forall₂ (Addressed N b.1 b.2.projectId) post.recipients (addressees b.2)) :
    SpelledOnce b.2.message.named := by
  intro x hx y hy hxy
  obtain ⟨r, hr, hagent⟩ := hsettled.spelling rfl x hx
  obtain ⟨s, hs, hagent'⟩ := hsettled.spelling rfl y hy
  have heq : r = s := by
    apply eq_of_forall₂ hrows (pairwise_keepNew sameName _) hr hs
    intro c _ d _ hrc hsd
    have hcx : sameName c x = true := hrc.2.2.name_eq (isAgent_of_row hagent)
    have hdy : sameName d y = true := hsd.2.2.name_eq (isAgent_of_row hagent')
    have hcd : sameName c d = true :=
      sameName_trans (sameName_trans hcx hxy) (sameName_symm hdy)
    exact ⟨hcd, sameName_symm hcd⟩
  rw [← heq] at hagent'
  exact congrArg AgentRow.name (Ledger.eq_of_mem hagent hagent')

theorem deliverable_of_recipientsExact {R : Readers} {A : Archive}
    (h : ∀ Q, RecipientsExact R A (reconstruct R Q A)) : Deliverable (A.located R) := by
  have hposted := posted_reconstruct R exactOrder A
  obtain ⟨hbuilt, hrows⟩ := reconstruct_rows R exactOrder A
  have hnodup : ((reconstruct R exactOrder A).mail.built.map Prod.fst).Nodup := by
    rw [hbuilt]
    exact Ledger.nodup _
  -- the row of a stored file is described by that file
  have hfile (n : Int) (f : Located) (hf : (n, f) ∈ (reconstruct R exactOrder A).mail.built) :
      Forall₂ (Addressed (reconstruct R exactOrder A).names n f.projectId)
        ((beforeEdges R exactOrder A).post n).recipients (addressees f) ∧
      ((beforeEdges R exactOrder A).post n).deliveries =
        (mailboxKind f.projectSlug f).toList.map fun kind =>
          ⟨n, f.projectId, kind, f.message.createdTs⟩ := by
    obtain ⟨⟨n', row⟩, hrow, hn, _⟩ := exists_of_forall₂_right hrows hf
    obtain rfl : n' = n := hn
    obtain ⟨g, hg, _, hforall, hdeliveries, _⟩ := (h exactOrder).rows n' row hrow
    have heq := inj_on_of_nodup_map hnodup hf hg rfl
    obtain rfl : f = g := congrArg Prod.snd heq
    exact ⟨hforall, hdeliveries⟩
  constructor
  · intro f hstored
    obtain ⟨n, hf⟩ := (stored_iff_built (Q := exactOrder)).mp hstored
    obtain ⟨slug, _, hsettled⟩ := hposted.settled (n, f) hf
    exact spelledOnce_of_forall₂ hsettled (hfile n f hf).1
  · rintro f ⟨front, back, hsplit, hlate⟩
    obtain ⟨n, hf⟩ := (stored_iff_built (Q := exactOrder)).mp ⟨front, back, hsplit, Or.inr hlate⟩
    obtain ⟨slug, hslug, hsettled⟩ := hposted.settled (n, f) hf
    have hempty : slug = [] := by
      rcases hslug with ⟨hfirst, _⟩ | ⟨_, rfl⟩
      · exact absurd hfirst
          (Intake.notMem_firstPass_of_late Located.number Located.identity hsplit hlate n)
      · rfl
    have hdeliveries := hsettled.deliveries
    rw [hempty, (hfile n f hf).2] at hdeliveries
    cases hown : mailboxKind f.projectSlug f with
    | none =>
      cases hnone : mailboxKind [] f with
      | none => rfl
      | some kind => simp [hown, hnone] at hdeliveries
    | some own =>
      cases hnone : mailboxKind [] f with
      | none => simp [hown, hnone] at hdeliveries
      | some kind =>
        have hkind : own = kind := by simpa [hown, hnone] using hdeliveries
        rw [hkind]

/-- Recovered mail reaches everyone, in whatever order the database returns agents, exactly when no
stored file spells one name in two ways and none that is stored in the second pass addresses the
mailbox of its project. -/
theorem reconstruct_recipientsExact_iff (R : Readers) (A : Archive) :
    (∀ Q, RecipientsExact R A (reconstruct R Q A)) ↔ Deliverable (A.located R) :=
  ⟨deliverable_of_recipientsExact, recipientsExact_of_deliverable⟩

/-- Two messages with the id 1 in one project; the second one is for the mailbox of the project. -/
def mailboxArchive : Archive where
  dirs := [messagesDir "alpha" [
    frontmatterFile "a.md" "\x7b\"id\":1,\"created_ts\":1,\"subject\":\"start\"\x7d\n",
    frontmatterFile "b.md"
      "\x7b\"id\":1,\"created_ts\":2,\"subject\":\"status\",\"to\":[\"project:alpha\"]\x7d\n"]]
  nodup := by simp

def mailboxReaders : Readers := tableReaders [
  ("\x7b\"id\":1,\"created_ts\":1,\"subject\":\"start\"\x7d\n", .obj [("id".toList, .int 1),
    ("created_ts".toList, .int 1), ("subject".toList, .str "start".toList)]),
  ("\x7b\"id\":1,\"created_ts\":2,\"subject\":\"status\",\"to\":[\"project:alpha\"]\x7d\n",
    .obj [("id".toList, .int 1), ("created_ts".toList, .int 2),
      ("subject".toList, .str "status".toList), ("to".toList, .arr [.str "project:alpha".toList])])]

theorem mailbox_built :
    (reconstruct mailboxReaders scanOrder mailboxArchive).mail.built.map
      (fun b => (b.1, mailboxKind b.2.projectSlug b.2)) = [(1, none), (2, some .to)] := by
  simp (disch := rfl) only [mailboxReaders, mailboxArchive, tableReaders, messagesDir,
    frontmatterFile, find?_cons, toList_lit]
  decide +kernel

theorem mailbox_deliveries :
    (reconstruct mailboxReaders scanOrder mailboxArchive).mail.deliveries = [] := by
  simp (disch := rfl) only [mailboxReaders, mailboxArchive, tableReaders, messagesDir,
    frontmatterFile, find?_cons, toList_lit]
  decide +kernel

theorem mailbox_rows :
    (reconstruct mailboxReaders scanOrder mailboxArchive).mail.messages.rows.map Prod.fst =
      [1, 2] := by
  simp (disch := rfl) only [mailboxReaders, mailboxArchive, tableReaders, messagesDir,
    frontmatterFile, find?_cons, toList_lit]
  decide +kernel

/-- The message for the mailbox of the project is stored, and no delivery with it. -/
theorem mailbox_delivery_lost :
    ¬ RecipientsExact mailboxReaders mailboxArchive
      (reconstruct mailboxReaders scanOrder mailboxArchive) := by
  intro h
  have hmem : (2 : Int) ∈
      (reconstruct mailboxReaders scanOrder mailboxArchive).mail.messages.rows.map Prod.fst := by
    rw [mailbox_rows]
    decide
  obtain ⟨⟨m, row⟩, hrow, rfl⟩ := mem_map.mp hmem
  obtain ⟨f, hf, _, _, hdeliveries, _⟩ := h.rows 2 row hrow
  have hkind : ((2 : Int), mailboxKind f.projectSlug f) ∈
      (reconstruct mailboxReaders scanOrder mailboxArchive).mail.built.map fun b =>
        (b.1, mailboxKind b.2.projectSlug b.2) :=
    mem_map_of_mem (f := fun b : Int × Located => (b.1, mailboxKind b.2.projectSlug b.2)) hf
  rw [mailbox_built] at hkind
  have hto : mailboxKind f.projectSlug f = some .to := by simpa using hkind
  rw [hto, Mail.post, mailbox_deliveries] at hdeliveries
  simp at hdeliveries

end AgentMail.Rebuild
