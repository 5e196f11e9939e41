import AgentMail.Lib.Placeholders
import AgentMail.Lib.Table
import AgentMail.Search.SearchQuery

/-!
# The tables that searches read

The columns that the search planner and the search scope read (`crates/mcp-agent-mail-db/src/
schema.rs`). Every column is `NOT NULL` except those of type `Option`. Primary keys and unique
constraints are fields.
-/

namespace AgentMail.Search

open Base

/-- A row of `messages`. -/
structure Message where
  id : I64
  projectId : I64
  senderId : I64
  threadId : Option Text
  topic : Option Text
  subject : Text
  bodyMd : Text
  importance : Text
  ackRequired : I64
  createdTs : I64
  recipientsJson : Text
deriving DecidableEq

/-- A row of `agents`. -/
structure Agent where
  id : I64
  projectId : I64
  name : Text
  taskDescription : Text
  contactPolicy : Text
deriving DecidableEq

/-- A row of `projects`. -/
structure Project where
  id : I64
  slug : Text
  humanKey : Text
deriving DecidableEq

/-- A row of `product_project_links`. -/
structure ProductProjectLink where
  productId : I64
  projectId : I64
deriving DecidableEq

/-- A row of `message_recipients`. -/
structure MessageRecipient where
  messageId : I64
  agentId : I64

/-- A row of `agent_links`. The schema does not tie a project column to the project of the agent
beside it. -/
structure AgentLink where
  aProjectId : I64
  aAgentId : I64
  bProjectId : I64
  bAgentId : I64
  status : Text
  expiresTs : Option Int

/-- The tables. -/
structure Tables where
  messages : List Message
  agents : List Agent
  projects : List Project
  productProjectLinks : List ProductProjectLink
  messageRecipients : List MessageRecipient
  agentLinks : List AgentLink
  messages_nodup : (messages.map (·.id)).Nodup
  agents_nodup : (agents.map (·.id)).Nodup
  projects_nodup : (projects.map (·.id)).Nodup
  productProjectLinks_nodup : productProjectLinks.Nodup

theorem isI64_ten : i64Min ≤ 10 ∧ 10 ≤ i64Max := by decide

theorem isI64_thousand : i64Min ≤ 1000 ∧ 1000 ≤ i64Max := by decide

/-- One agent and one message of it. -/
def oneMessage : Tables where
  messages := [⟨⟨10, isI64_ten⟩, ⟨1, isI64_one⟩, ⟨1, isI64_one⟩, none, none, "plan".toList,
    "notes".toList, "normal".toList, ⟨0, isI64_zero⟩, ⟨1000, isI64_thousand⟩, "\x7b\x7d".toList⟩]
  agents := [⟨⟨1, isI64_one⟩, ⟨1, isI64_one⟩, "BlueLake".toList, [], "open".toList⟩]
  projects := [⟨⟨1, isI64_one⟩, "demo".toList, "/demo".toList⟩]
  productProjectLinks := []
  messageRecipients := []
  agentLinks := []
  messages_nodup := by decide
  agents_nodup := by decide
  projects_nodup := by decide
  productProjectLinks_nodup := by decide

namespace Tables

/-- The agent with an id. -/
def agent? (D : Tables) (id : I64) : Option Agent := D.agents.find? fun a => decide (a.id = id)

theorem agent?_eq_some {D : Tables} {id : I64} {a : Agent} :
    D.agent? id = some a ↔ a ∈ D.agents ∧ a.id = id :=
  Lib.find?_key_eq_some D.agents_nodup

end Tables

end AgentMail.Search

/-!
## Who may see a search result

Visibility of messages is decided twice in `crates/mcp-agent-mail-db/src/search_scope.rs`: for each
result, from sets that were fetched beforehand (`evaluate_scope`), and inside the query
(`build_scope_sql_clauses`).
-/

namespace AgentMail.Search

open Base Lib Lib.Placeholders

/-- `ContactPolicyKind`. -/
inductive ContactPolicyKind where
  | «open» | auto | contactsOnly | blockAll
deriving DecidableEq

/-- `ContactPolicyKind::parse`: letter case does not matter, and what is unknown blocks all. -/
def ContactPolicyKind.parse (s : Text) : ContactPolicyKind :=
  if fold true s = "open".toList then .open
  else if fold true s = "auto".toList then .auto
  else if fold true s = "contacts_only".toList then .contactsOnly
  else .blockAll

/-- `ViewerIdentity`. -/
structure ViewerIdentity where
  projectId : I64
  agentId : I64
deriving DecidableEq

/-- `SenderPolicy`. -/
structure SenderPolicy where
  projectId : I64
  agentId : I64
  policy : ContactPolicyKind
deriving DecidableEq

/-- `RecipientEntry`. -/
structure RecipientEntry where
  messageId : I64
  agentIds : List I64
deriving DecidableEq

/-- `ScopeContext`. -/
structure ScopeContext where
  viewer : Option ViewerIdentity
  approvedContacts : List (I64 × I64)
  viewerProjectIds : List I64
  senderPolicies : List SenderPolicy
  recipientMap : List RecipientEntry
deriving DecidableEq

/-- `ScopeVerdict`. -/
inductive ScopeVerdict where
  | allow | redact | deny
deriving DecidableEq

/-- `ScopeReason`. -/
inductive ScopeReason where
  | isSender | isRecipient | approvedContact | openPolicy | autoPolicy | contactsOnlyDenied
  | blockAllDenied | senderPolicyUnavailable | crossProjectDenied | operatorMode | nonMessageEntity
deriving DecidableEq

/-- `ScopeDecision`. -/
structure ScopeDecision where
  verdict : ScopeVerdict
  reason : ScopeReason
deriving DecidableEq

/-! ### The evaluator -/

/-- `is_sender`. -/
def isSender (result : SearchResult) (viewer : ViewerIdentity) : Bool :=
  decide (result.fromAgentId = some viewer.agentId) &&
    decide (result.projectId = some viewer.projectId)

/-- `is_recipient`. -/
def isRecipient (result : SearchResult) (viewer : ViewerIdentity) (ctx : ScopeContext) : Bool :=
  ctx.recipientMap.any fun entry =>
    decide (entry.messageId = result.id) && decide (viewer.agentId ∈ entry.agentIds)

/-- `unwrap_or(0)`. -/
def orZero (id : Option I64) : I64 := id.getD ⟨0, isI64_zero⟩

/-- `has_approved_contact`. -/
def hasApprovedContact (result : SearchResult) (ctx : ScopeContext) : Bool :=
  match result.fromAgentId with
  | some senderId => decide ((orZero result.projectId, senderId) ∈ ctx.approvedContacts)
  | none => false

/-- `lookup_sender_policy`: the first entry of the sender. -/
def lookupSenderPolicy (result : SearchResult) (ctx : ScopeContext) : Option ContactPolicyKind :=
  match result.projectId, result.fromAgentId with
  | some projectId, some senderId =>
    (ctx.senderPolicies.find? fun sp =>
      decide (sp.projectId = projectId) && decide (sp.agentId = senderId)).map (·.policy)
  | _, _ => none

/-- `evaluate_scope`. -/
def evaluateScope (result : SearchResult) (ctx : ScopeContext) : ScopeDecision :=
  if result.docKind = .agent ∨ result.docKind = .project then ⟨.allow, .nonMessageEntity⟩
  else match ctx.viewer with
    | none => ⟨.allow, .operatorMode⟩
    | some viewer =>
      if isSender result viewer then ⟨.allow, .isSender⟩
      else if isRecipient result viewer ctx then ⟨.allow, .isRecipient⟩
      else
        let inSameProject := decide (orZero result.projectId ∈ ctx.viewerProjectIds)
        if !inSameProject && !hasApprovedContact result ctx then ⟨.deny, .crossProjectDenied⟩
        else if hasApprovedContact result ctx then ⟨.allow, .approvedContact⟩
        else match lookupSenderPolicy result ctx with
          | none => ⟨.deny, .senderPolicyUnavailable⟩
          | some .open => ⟨.allow, .openPolicy⟩
          | some .auto => ⟨.allow, .autoPolicy⟩
          | some .contactsOnly => ⟨.deny, .contactsOnlyDenied⟩
          | some .blockAll => ⟨.deny, .blockAllDenied⟩

/-! ### The clause -/

/-- `ScopeSqlParam`. -/
inductive ScopeSqlParam where
  | int (n : I64)
  | timestampNow

/-- The tests of the scope clause, as their texts read. -/
inductive ScopeTest where
  /-- `m.sender_id = ?` -/
  | senderIs
  /-- `m.id IN (SELECT mr.message_id FROM message_recipients mr WHERE mr.agent_id = ?)` -/
  | recipientIs
  /-- `(m.project_id IN (?, …) AND (SELECT a2.contact_policy FROM agents a2 WHERE a2.id =
  m.sender_id) IN ('open', 'auto'))` -/
  | permissiveIn (projects : Nat)
  /-- `EXISTS (SELECT 1 FROM agent_links al WHERE ((al.a_agent_id = ? AND al.b_agent_id =
  m.sender_id) OR (al.b_agent_id = ? AND al.a_agent_id = m.sender_id)) AND al.status = 'approved'
  AND (al.expires_ts IS NULL OR al.expires_ts > ?))` -/
  | linked

@[reducible] def ScopeTest.arity : ScopeTest → Nat
  | senderIs => 1
  | recipientIs => 1
  | permissiveIn projects => projects
  | linked => 3

/-- The value that is bound for a parameter. -/
def ScopeSqlParam.value (now : Int) : ScopeSqlParam → Int
  | int n => n.1
  | timestampNow => now

/-- An approved link that has not expired. -/
def AgentLink.live (now : Int) (l : AgentLink) : Bool :=
  decide (l.status = "approved".toList) && l.expiresTs.all fun t => decide (now < t)

/-- The tests on a row of `messages`. -/
def ScopeTest.test (D : Tables) (now : Int) : ScopeTest → List ScopeSqlParam → Message → Bool
  | senderIs, params, m => params.any fun p => decide (m.senderId.1 = p.value now)
  | recipientIs, params, m => params.any fun p => D.messageRecipients.any fun r =>
      decide (r.agentId.1 = p.value now) && decide (r.messageId = m.id)
  | permissiveIn _, params, m => (params.any fun p => decide (m.projectId.1 = p.value now)) &&
      (D.agent? m.senderId).any fun a =>
        decide (a.contactPolicy = "open".toList) || decide (a.contactPolicy = "auto".toList)
  | linked, [p, p', t], m => D.agentLinks.any fun l =>
      (decide (l.aAgentId.1 = p.value now) && decide (l.bAgentId = m.senderId) ||
        decide (l.bAgentId.1 = p'.value now) && decide (l.aAgentId = m.senderId)) &&
      l.live (t.value now)
  | linked, _, _ => false

/-- The disjunct for permissive senders; without projects it reads `0 = 1`. -/
def permissivePart (viewerProjectIds : List I64) : Pushed ScopeTest.arity ScopeSqlParam :=
  if viewerProjectIds.isEmpty then .const false
  else .atom (.permissiveIn viewerProjectIds.length) (viewerProjectIds.map .int)
    (List.length_map _)

/-- `or_parts`. -/
def scopeOrParts (viewer : ViewerIdentity) (viewerProjectIds : List I64) :
    List (Pushed ScopeTest.arity ScopeSqlParam) :=
  [.atom .senderIs [.int viewer.agentId] rfl, .atom .recipientIs [.int viewer.agentId] rfl,
    permissivePart viewerProjectIds,
    .atom .linked [.int viewer.agentId, .int viewer.agentId, .timestampNow] rfl]

/-- `build_scope_sql_clauses`. -/
def buildScopeSqlClauses (ctx : ScopeContext) : List (Cond ScopeTest) × List ScopeSqlParam :=
  match ctx.viewer with
  | none => ([], [])
  | some viewer =>
    let combined := Pushed.any (scopeOrParts viewer ctx.viewerProjectIds)
    ([combined.clause], combined.params)

/-- The clauses on a row, as a part of a `WHERE`. -/
def scopeSqlHolds (D : Tables) (now : Int) (ctx : ScopeContext) (m : Message) : Bool :=
  (Cond.all (buildScopeSqlClauses ctx).1).eval ScopeTest.arity (ScopeTest.test D now)
    (buildScopeSqlClauses ctx).2 m

end AgentMail.Search
