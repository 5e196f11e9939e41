import AgentMail.Search.SearchScope

/-!
# The scope clause and the scope evaluator

Both are compared with the routes by which the tables give access to a message: having sent it,
having received it, a link with its sender, and a permissive sender in a shared project. They read
the last two differently.
-/

namespace AgentMail.Search

open Base Lib Lib.Placeholders List

/-! ### Contexts filled from the tables -/

/-- The other end of a link of an agent: its project column and its agent. -/
def AgentLink.others (agent : I64) (l : AgentLink) : List (I64 × I64) :=
  (if l.aAgentId = agent then [(l.bProjectId, l.bAgentId)] else []) ++
    (if l.bAgentId = agent then [(l.aProjectId, l.aAgentId)] else [])

/-- The approved contacts of an agent, by unexpired links in either direction. -/
def Tables.contacts (D : Tables) (now : Int) (agent : I64) : List (I64 × I64) :=
  (D.agentLinks.filter (AgentLink.live now)).flatMap (AgentLink.others agent)

/-- The sender of every message is an agent of the message's project. -/
def Tables.SendersLocal (D : Tables) : Prop :=
  ∀ m ∈ D.messages, ∃ a ∈ D.agents, a.id = m.senderId ∧ a.projectId = m.projectId

/-- The sets of a context are those of the tables, in any order. -/
structure Faithful (D : Tables) (now : Int) (ctx : ScopeContext) : Prop where
  recipients : ∀ messageId agentId,
    (∃ entry ∈ ctx.recipientMap, entry.messageId = messageId ∧ agentId ∈ entry.agentIds) ↔
      ⟨messageId, agentId⟩ ∈ D.messageRecipients
  contacts : ∀ viewer, ctx.viewer = some viewer →
    ∀ c, c ∈ ctx.approvedContacts ↔ c ∈ D.contacts now viewer.agentId
  policies : ∀ sp, sp ∈ ctx.senderPolicies ↔
    ∃ a ∈ D.agents, sp = ⟨a.projectId, a.id, ContactPolicyKind.parse a.contactPolicy⟩

/-- A context filled from the tables. -/
def Tables.context (D : Tables) (now : Int) (viewer : ViewerIdentity)
    (viewerProjectIds : List I64) : ScopeContext where
  viewer := some viewer
  approvedContacts := D.contacts now viewer.agentId
  viewerProjectIds := viewerProjectIds
  senderPolicies := D.agents.map fun a =>
    ⟨a.projectId, a.id, ContactPolicyKind.parse a.contactPolicy⟩
  recipientMap := D.messageRecipients.map fun r => ⟨r.messageId, [r.agentId]⟩

theorem faithful_context (D : Tables) (now : Int) (viewer : ViewerIdentity)
    (viewerProjectIds : List I64) : Faithful D now (D.context now viewer viewerProjectIds) where
  recipients := by
    intro messageId agentId
    simp only [Tables.context, mem_map]
    constructor
    · rintro ⟨entry, ⟨r, hr, rfl⟩, rfl, hagent⟩
      rw [mem_singleton.mp hagent]
      exact hr
    · intro h
      exact ⟨_, ⟨_, h, rfl⟩, rfl, mem_singleton_self _⟩
  contacts := by
    intro viewer' h c
    cases h
    rfl
  policies := by
    intro sp
    simp only [Tables.context, mem_map, eq_comm]

/-- The search result of a message, as far as the evaluator reads it. -/
def messageResult (D : Tables) (m : Message) : SearchResult :=
  { SearchResult.default .message m.id with
    projectId := some m.projectId
    fromAgentId := (D.agent? m.senderId).map (·.id) }

/-! ### Routes -/

section

variable {D : Tables} {now : Int} {ctx : ScopeContext} {viewer : ViewerIdentity} {m : Message}

/-- A policy that the evaluator takes as permissive. -/
def Permissive (policy : Text) : Prop :=
  ContactPolicyKind.parse policy = .open ∨ ContactPolicyKind.parse policy = .auto

instance (policy : Text) : Decidable (Permissive policy) := inferInstanceAs (Decidable (_ ∨ _))

/-- A policy that the clause takes as permissive. -/
def PermissiveText (policy : Text) : Prop := policy = "open".toList ∨ policy = "auto".toList

instance (policy : Text) : Decidable (PermissiveText policy) := inferInstanceAs (Decidable (_ ∨ _))

theorem permissive_of_text {policy : Text} (h : PermissiveText policy) : Permissive policy := by
  rcases h with rfl | rfl
  · exact .inl rfl
  · exact .inr rfl

/-- The sender of a message has a policy. -/
def SenderPolicyIs (D : Tables) (m : Message) (p : Text → Prop) : Prop :=
  ∃ a ∈ D.agents, a.id = m.senderId ∧ p a.contactPolicy

theorem mem_contacts {agent : I64} {c : I64 × I64} : c ∈ D.contacts now agent ↔
    ∃ l ∈ D.agentLinks, l.live now = true ∧ (l.aAgentId = agent ∧ c = (l.bProjectId, l.bAgentId) ∨
      l.bAgentId = agent ∧ c = (l.aProjectId, l.aAgentId)) := by
  rw [Tables.contacts, mem_flatMap]
  simp only [mem_filter, AgentLink.others, mem_append, mem_ite_nil_right, mem_singleton, and_assoc]

theorem linked_iff : (ScopeTest.linked.test D now
      [.int viewer.agentId, .int viewer.agentId, .timestampNow] m = true) ↔
    ∃ p, (p, m.senderId) ∈ D.contacts now viewer.agentId := by
  simp only [ScopeTest.test, ScopeSqlParam.value, any_eq_true, Bool.and_eq_true,
    Bool.or_eq_true, decide_eq_true_eq, mem_contacts, Prod.mk.injEq, Subtype.val_inj]
  constructor
  · rintro ⟨l, hl, (⟨ha, hb⟩ | ⟨hb, ha⟩), hlive⟩
    · exact ⟨l.bProjectId, l, hl, hlive, .inl ⟨ha, rfl, hb.symm⟩⟩
    · exact ⟨l.aProjectId, l, hl, hlive, .inr ⟨hb, rfl, ha.symm⟩⟩
  · rintro ⟨p, l, hl, hlive, (⟨ha, -, hb⟩ | ⟨hb, -, ha⟩)⟩
    · exact ⟨l, hl, .inl ⟨ha, hb.symm⟩, hlive⟩
    · exact ⟨l, hl, .inr ⟨hb, ha.symm⟩, hlive⟩

/-- What the clause lets through for a viewer. -/
theorem scopeSqlHolds_iff (hviewer : ctx.viewer = some viewer) :
    scopeSqlHolds D now ctx m = true ↔
      m.senderId = viewer.agentId ∨ ⟨m.id, viewer.agentId⟩ ∈ D.messageRecipients ∨
        (m.projectId ∈ ctx.viewerProjectIds ∧ SenderPolicyIs D m PermissiveText) ∨
        ∃ p, (p, m.senderId) ∈ D.contacts now viewer.agentId := by
  have hrecipient : (ScopeTest.recipientIs.test D now [.int viewer.agentId] m = true) ↔
      ⟨m.id, viewer.agentId⟩ ∈ D.messageRecipients := by
    simp only [ScopeTest.test, ScopeSqlParam.value, any_eq_true, mem_singleton,
      exists_eq_left, Bool.and_eq_true, decide_eq_true_eq, Subtype.val_inj]
    constructor
    · rintro ⟨r, hr, hagent, hmessage⟩
      rw [← hagent, ← hmessage]
      exact hr
    · intro h
      exact ⟨_, h, rfl, rfl⟩
  have hpolicy : ((D.agent? m.senderId).any fun a => decide (a.contactPolicy = "open".toList) ||
      decide (a.contactPolicy = "auto".toList)) = true ↔ SenderPolicyIs D m PermissiveText := by
    rw [Option.any_eq_true]
    simp only [Tables.agent?_eq_some, Bool.or_eq_true, decide_eq_true_eq, SenderPolicyIs,
      PermissiveText, and_assoc]
  have hpermissive : (permissivePart ctx.viewerProjectIds).holds (ScopeTest.test D now) m = true ↔
      m.projectId ∈ ctx.viewerProjectIds ∧ SenderPolicyIs D m PermissiveText := by
    unfold permissivePart
    by_cases hempty : ctx.viewerProjectIds.isEmpty
    · rw [if_pos hempty, Pushed.holds_const, List.isEmpty_iff.mp hempty]
      simp
    · rw [if_neg hempty, Pushed.holds_atom]
      change ((ctx.viewerProjectIds.map ScopeSqlParam.int).any _ && _) = true ↔ _
      rw [Bool.and_eq_true, hpolicy, any_map, any_eq_true]
      simp only [Function.comp_apply, ScopeSqlParam.value, decide_eq_true_eq, Subtype.val_inj,
        exists_eq_right']
  have hsender : (ScopeTest.senderIs.test D now [.int viewer.agentId] m = true) ↔
      m.senderId = viewer.agentId := by
    simp [ScopeTest.test, ScopeSqlParam.value, Subtype.val_inj]
  have hclause : scopeSqlHolds D now ctx m =
      (Pushed.any (scopeOrParts viewer ctx.viewerProjectIds)).holds (ScopeTest.test D now) m := by
    rw [scopeSqlHolds, buildScopeSqlClauses, hviewer]
    simp only [Cond.all, Cond.eval, Bool.and_true]
    rfl
  rw [hclause, Pushed.holds_any, scopeOrParts]
  simp only [any_cons, any_nil, Bool.or_false, Bool.or_eq_true, Pushed.holds_atom,
    hpermissive, hsender, hrecipient, linked_iff]

/-- The prefetched policies name the policy of the sender. -/
theorem lookupSenderPolicy_eq (hfaithful : Faithful D now ctx) (hlocal : D.SendersLocal)
    (hm : m ∈ D.messages) : ∃ a ∈ D.agents, a.id = m.senderId ∧ (messageResult D m).fromAgentId =
      some m.senderId ∧
        lookupSenderPolicy (messageResult D m) ctx = some (.parse a.contactPolicy) := by
  obtain ⟨a, ha, hid, hproject⟩ := hlocal m hm
  have hagent : D.agent? m.senderId = some a := Tables.agent?_eq_some.mpr ⟨ha, hid⟩
  have hfrom : (messageResult D m).fromAgentId = some m.senderId := by
    change (D.agent? m.senderId).map (·.id) = _
    rw [hagent, Option.map_some, hid]
  refine ⟨a, ha, hid, hfrom, ?_⟩
  have hproj : (messageResult D m).projectId = some m.projectId := rfl
  have hentry : (⟨a.projectId, a.id, .parse a.contactPolicy⟩ : SenderPolicy) ∈ ctx.senderPolicies :=
    (hfaithful.policies _).mpr ⟨a, ha, rfl⟩
  unfold lookupSenderPolicy
  rw [hproj, hfrom]
  dsimp only
  cases hfind : ctx.senderPolicies.find? fun sp =>
      decide (sp.projectId = m.projectId) && decide (sp.agentId = m.senderId) with
  | none =>
    rw [List.find?_eq_none] at hfind
    exact absurd (by simp [hid, hproject]) (hfind _ hentry)
  | some sp =>
    -- any entry of the sender was made from the sender's row
    obtain ⟨b, hb, rfl⟩ := (hfaithful.policies sp).mp (mem_of_find?_eq_some hfind)
    have hsame := List.find?_some hfind
    simp only [Bool.and_eq_true, decide_eq_true_eq] at hsame
    have hba : b = a :=
      inj_on_of_nodup_map D.agents_nodup hb ha (hsame.2.trans hid.symm)
    rw [hba, Option.map_some]

/-- What the evaluator lets through for a viewer. -/
theorem evaluateScope_allow_iff (hfaithful : Faithful D now ctx) (hlocal : D.SendersLocal)
    (hm : m ∈ D.messages) (hviewer : ctx.viewer = some viewer) :
    (evaluateScope (messageResult D m) ctx).verdict = .allow ↔
      (m.senderId = viewer.agentId ∧ m.projectId = viewer.projectId) ∨
        ⟨m.id, viewer.agentId⟩ ∈ D.messageRecipients ∨
        (m.projectId ∈ ctx.viewerProjectIds ∧ SenderPolicyIs D m Permissive) ∨
        (m.projectId, m.senderId) ∈ D.contacts now viewer.agentId := by
  obtain ⟨a, ha, hid, hfrom, hlookup⟩ := lookupSenderPolicy_eq hfaithful hlocal hm
  have hsender : isSender (messageResult D m) viewer = true ↔
      m.senderId = viewer.agentId ∧ m.projectId = viewer.projectId := by
    rw [isSender, hfrom, Bool.and_eq_true, decide_eq_true_eq, decide_eq_true_eq, Option.some_inj]
    exact and_congr_right fun _ => Option.some_inj
  have hrecipient : isRecipient (messageResult D m) viewer ctx = true ↔
      ⟨m.id, viewer.agentId⟩ ∈ D.messageRecipients := by
    rw [← hfaithful.recipients]
    simp only [isRecipient, any_eq_true, Bool.and_eq_true, decide_eq_true_eq]
    rfl
  have hcontact : hasApprovedContact (messageResult D m) ctx = true ↔
      (m.projectId, m.senderId) ∈ D.contacts now viewer.agentId := by
    rw [← hfaithful.contacts viewer hviewer, hasApprovedContact, hfrom]
    exact decide_eq_true_iff
  have hpolicy : SenderPolicyIs D m Permissive ↔ Permissive a.contactPolicy := by
    constructor
    · rintro ⟨b, hb, hbid, hp⟩
      rwa [← inj_on_of_nodup_map D.agents_nodup hb ha (hbid.trans hid.symm)]
    · intro hp
      exact ⟨a, ha, hid, hp⟩
  have hshared : decide (orZero (messageResult D m).projectId ∈ ctx.viewerProjectIds) =
      decide (m.projectId ∈ ctx.viewerProjectIds) := rfl
  rw [← hsender, ← hrecipient, ← hcontact, hpolicy]
  have hkind : ¬ ((messageResult D m).docKind = .agent ∨ (messageResult D m).docKind = .project) := by
    rintro (h | h) <;> cases h
  rw [evaluateScope, if_neg hkind, hviewer]
  dsimp only
  rw [hshared, hlookup]
  -- the cascade, one route after the other
  by_cases hs : isSender (messageResult D m) viewer
  · simp [hs]
  by_cases hr : isRecipient (messageResult D m) viewer ctx
  · simp [hs, hr]
  by_cases hc : hasApprovedContact (messageResult D m) ctx
  · simp [hs, hr, hc]
  by_cases hp : m.projectId ∈ ctx.viewerProjectIds
  · simp only [hs, hr, hc, hp, Permissive]
    cases ContactPolicyKind.parse a.contactPolicy <;> simp
  · simp [hs, hr, hc, hp]

end

/-! ### Where the two decide differently -/

/-- The only route to the message is a policy that is permissive up to letter case, but not as it is
written. The evaluator allows it and the clause does not. -/
structure OnlyByUnfoldedPolicy (D : Tables) (now : Int) (ctx : ScopeContext) (viewer : ViewerIdentity)
    (m : Message) : Prop where
  shared : m.projectId ∈ ctx.viewerProjectIds
  permissive : SenderPolicyIs D m fun policy => Permissive policy ∧ ¬ PermissiveText policy
  notSender : m.senderId ≠ viewer.agentId
  notRecipient : ⟨m.id, viewer.agentId⟩ ∉ D.messageRecipients
  notContact : ∀ p, (p, m.senderId) ∉ D.contacts now viewer.agentId

/-- The only route to the message is by agent ids whose projects do not agree: the viewer's agent
sent it from another project than the viewer's, or a link names its sender with another project. The
clause admits it and the evaluator does not. -/
structure OnlyAcrossProjects (D : Tables) (now : Int) (ctx : ScopeContext) (viewer : ViewerIdentity)
    (m : Message) : Prop where
  byAgent : m.senderId = viewer.agentId ∨ ∃ p, (p, m.senderId) ∈ D.contacts now viewer.agentId
  notSender : m.senderId = viewer.agentId → m.projectId ≠ viewer.projectId
  notRecipient : ⟨m.id, viewer.agentId⟩ ∉ D.messageRecipients
  notContact : (m.projectId, m.senderId) ∉ D.contacts now viewer.agentId
  notPermissive : m.projectId ∈ ctx.viewerProjectIds → ¬ SenderPolicyIs D m Permissive

/-- The two unions of routes: `t` and `L` are the clause's readings of policy and link, `p` and `l`
the evaluator's. -/
theorem routes_agree {s sp r v t p l L : Prop} (ht : t → p) (hl : l → L) :
    ((s ∨ r ∨ (v ∧ t) ∨ L) ↔ ((s ∧ sp) ∨ r ∨ (v ∧ p) ∨ l)) ↔ ¬ (v ∧ (p ∧ ¬ t) ∧ ¬ s ∧ ¬ r ∧ ¬ L) ∧
        ¬ ((s ∨ L) ∧ (s → ¬ sp) ∧ ¬ r ∧ ¬ l ∧ (v → ¬ p)) := by
  grind

/-- The clause and the evaluator agree on a message exactly if it is not reached by one of the two
routes alone. -/
theorem scopes_agree_iff {D : Tables} {now : Int} {ctx : ScopeContext} (hlocal : D.SendersLocal)
    (hfaithful : Faithful D now ctx) {m : Message} (hm : m ∈ D.messages) :
    (scopeSqlHolds D now ctx m = true ↔ (evaluateScope (messageResult D m) ctx).verdict = .allow) ↔
      ∀ viewer, ctx.viewer = some viewer →
        ¬ OnlyByUnfoldedPolicy D now ctx viewer m ∧ ¬ OnlyAcrossProjects D now ctx viewer m := by
  cases hviewer : ctx.viewer with
  | none =>
    have hsql : scopeSqlHolds D now ctx m = true := by
      rw [scopeSqlHolds, buildScopeSqlClauses, hviewer]
      rfl
    have hallow : (evaluateScope (messageResult D m) ctx).verdict = .allow := by
      rw [evaluateScope, hviewer]
      split <;> rfl
    simp [hsql, hallow]
  | some viewer =>
    rw [scopeSqlHolds_iff hviewer, evaluateScope_allow_iff hfaithful hlocal hm hviewer]
    obtain ⟨a, ha, hid, -⟩ := hlocal m hm
    have hpolicy (p : Text → Prop) : SenderPolicyIs D m p ↔ p a.contactPolicy := by
      constructor
      · rintro ⟨b, hb, hbid, hp⟩
        rwa [← inj_on_of_nodup_map D.agents_nodup hb ha (hbid.trans hid.symm)]
      · intro hp
        exact ⟨a, ha, hid, hp⟩
    have hunfolded : OnlyByUnfoldedPolicy D now ctx viewer m ↔
        m.projectId ∈ ctx.viewerProjectIds ∧ (Permissive a.contactPolicy ∧
          ¬ PermissiveText a.contactPolicy) ∧ m.senderId ≠ viewer.agentId ∧
          ⟨m.id, viewer.agentId⟩ ∉ D.messageRecipients ∧
          ¬ ∃ p, (p, m.senderId) ∈ D.contacts now viewer.agentId := by
      rw [← hpolicy fun policy => Permissive policy ∧ ¬ PermissiveText policy, not_exists]
      exact ⟨fun h => ⟨h.1, h.2, h.3, h.4, h.5⟩, fun ⟨h1, h2, h3, h4, h5⟩ => ⟨h1, h2, h3, h4, h5⟩⟩
    have hacross : OnlyAcrossProjects D now ctx viewer m ↔
        (m.senderId = viewer.agentId ∨ ∃ p, (p, m.senderId) ∈ D.contacts now viewer.agentId) ∧
          (m.senderId = viewer.agentId → m.projectId ≠ viewer.projectId) ∧
          ⟨m.id, viewer.agentId⟩ ∉ D.messageRecipients ∧
          (m.projectId, m.senderId) ∉ D.contacts now viewer.agentId ∧
          (m.projectId ∈ ctx.viewerProjectIds → ¬ Permissive a.contactPolicy) := by
      rw [← hpolicy Permissive]
      exact ⟨fun h => ⟨h.1, h.2, h.3, h.4, h.5⟩, fun ⟨h1, h2, h3, h4, h5⟩ => ⟨h1, h2, h3, h4, h5⟩⟩
    have htext : PermissiveText a.contactPolicy → Permissive a.contactPolicy := permissive_of_text
    have hcontact : (m.projectId, m.senderId) ∈ D.contacts now viewer.agentId →
        ∃ p, (p, m.senderId) ∈ D.contacts now viewer.agentId := fun h => ⟨_, h⟩
    simp only [Option.some_inj, forall_eq', hunfolded, hacross, hpolicy]
    exact routes_agree htext hcontact

theorem oneTwo_nodup : List.Nodup [(⟨1, isI64_one⟩ : I64), ⟨2, isI64_two⟩] := by decide

def policySample (policy : Text) : Tables :=
  { oneMessage with
    agents := [⟨⟨1, isI64_one⟩, ⟨1, isI64_one⟩, "BlueLake".toList, [], policy⟩,
      ⟨⟨2, isI64_two⟩, ⟨1, isI64_one⟩, "RedFox".toList, [], "auto".toList⟩]
    agents_nodup := oneTwo_nodup }

theorem policySample_local (policy : Text) : (policySample policy).SendersLocal := by
  intro m hm
  rw [mem_singleton.mp hm]
  exact ⟨_, mem_cons_self, rfl, rfl⟩

/-- The agent that looks. -/
def policyViewer : ViewerIdentity := ⟨⟨1, isI64_one⟩, ⟨2, isI64_two⟩⟩

theorem scopes_agree_iff_sample :
    ((policySample "open".toList).SendersLocal ∧ Faithful (policySample "open".toList) 0
      ((policySample "open".toList).context 0 policyViewer [⟨1, by decide⟩])) ∧
    ∀ m ∈ (policySample "open".toList).messages, ((scopeSqlHolds (policySample "open".toList) 0
        ((policySample "open".toList).context 0 policyViewer [⟨1, by decide⟩]) m = true ↔
        (evaluateScope (messageResult (policySample "open".toList) m)
          ((policySample "open".toList).context 0 policyViewer [⟨1, by decide⟩])).verdict = .allow) ↔
      ∀ viewer, ((policySample "open".toList).context 0 policyViewer [⟨1, by decide⟩]).viewer =
          some viewer → ¬ OnlyByUnfoldedPolicy (policySample "open".toList) 0
            ((policySample "open".toList).context 0 policyViewer [⟨1, by decide⟩]) viewer m ∧
          ¬ OnlyAcrossProjects (policySample "open".toList) 0
            ((policySample "open".toList).context 0 policyViewer [⟨1, by decide⟩]) viewer m) :=
  ⟨⟨policySample_local _, faithful_context _ _ _ _⟩, fun _ hm =>
    scopes_agree_iff (policySample_local _) (faithful_context _ _ _ _) hm⟩

/-- A sender whose policy is written `Open` is open for the evaluator and closed for the clause. -/
theorem scopes_disagree_on_case : ¬ ∀ (D : Tables) (now : Int) (ctx : ScopeContext),
    D.SendersLocal → Faithful D now ctx → ∀ m ∈ D.messages, (scopeSqlHolds D now ctx m = true ↔
        (evaluateScope (messageResult D m) ctx).verdict = .allow) := by
  intro h
  have hm := h (policySample "Open".toList) 0
    ((policySample "Open".toList).context 0 policyViewer [⟨1, by decide⟩])
    (policySample_local _) (faithful_context _ _ _ _) _ mem_cons_self
  have hallow : (evaluateScope (messageResult (policySample "Open".toList)
      ((policySample "Open".toList).messages.head (by decide)))
      ((policySample "Open".toList).context 0 policyViewer [⟨1, by decide⟩])).verdict = .allow := by
    decide
  have hsql := hm.mpr hallow
  revert hsql
  decide

end AgentMail.Search
