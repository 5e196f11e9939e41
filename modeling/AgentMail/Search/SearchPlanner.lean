import AgentMail.Search.LikeText
import AgentMail.Search.SearchCursor
import AgentMail.Search.SearchScope
import Mathlib.Data.List.Sort

/-!
# The search planner

`plan_search` of `crates/mcp-agent-mail-db/src/search_planner.rs` with its three planners, and the
execution of the statements that they assemble. A statement is kept as data: where its rows come
from, the conditions of its `WHERE` and its order; the parameters are one flat list, as the database
receives them. The selected columns are not modelled.
-/

namespace AgentMail.Search

open Base Lib Lib.Placeholders

/-! ### Statements -/

/-- `PlanParam`. -/
inductive PlanParam where
  | int (n : I64)
  | text (t : Text)
  | float (x : Binary64)

/-- The columns that the planners name. `aName` is the sender's name in a message search. -/
inductive Column where
  | mId | mProjectId | mSubject | mBodyMd | mImportance | mThreadId | mAckRequired | mCreatedTs
  | mRecipientsJson | aName | pplProductId | aProjectId | aTaskDescription | pId | pSlug | pHumanKey

/-- The value of a column. -/
inductive SqlValue where
  | null
  | int (n : I64)
  | text (t : Text)

/-- A row of `messages m LEFT JOIN agents a ON a.id = m.sender_id`, joined with a product link in a
search over a product. -/
structure MessageRow where
  message : Message
  sender : Option Agent
  link : Option ProductProjectLink
deriving DecidableEq

/-- The rows of a statement. -/
inductive PlanRow where
  | message (r : MessageRow)
  | agent (a : Agent)
  | project (p : Project)
  | constants
deriving DecidableEq

namespace PlanRow

def cell : PlanRow → Column → SqlValue
  | message r, .mId => .int r.message.id
  | message r, .mProjectId => .int r.message.projectId
  | message r, .mSubject => .text r.message.subject
  | message r, .mBodyMd => .text r.message.bodyMd
  | message r, .mImportance => .text r.message.importance
  | message r, .mThreadId => r.message.threadId.elim .null .text
  | message r, .mAckRequired => .int r.message.ackRequired
  | message r, .mCreatedTs => .int r.message.createdTs
  | message r, .mRecipientsJson => .text r.message.recipientsJson
  | message r, .aName => r.sender.elim .null fun a => .text a.name
  | message r, .pplProductId => r.link.elim .null fun l => .int l.productId
  | agent a, .aName => .text a.name
  | agent a, .aTaskDescription => .text a.taskDescription
  | agent a, .aProjectId => .int a.projectId
  | project p, .pId => .int p.id
  | project p, .pSlug => .text p.slug
  | project p, .pHumanKey => .text p.humanKey
  | _, _ => .null

def id : PlanRow → I64
  | message r => r.message.id
  | agent a => a.id
  | project p => p.id
  | constants => ⟨0, isI64_zero⟩

/-- The project a row belongs to. -/
def projectId : PlanRow → I64
  | message r => r.message.projectId
  | agent a => a.projectId
  | project p => p.id
  | constants => ⟨0, isI64_zero⟩

/-- `COALESCE(m.created_ts, 0)`. -/
def createdTs (r : PlanRow) : I64 :=
  match r.cell .mCreatedTs with
  | .int n => n
  | _ => ⟨0, isI64_zero⟩

/-- `CAST(COALESCE(m.created_ts, 0) AS REAL)`, negated for the newest first. -/
def timeKey (negated : Bool) (r : PlanRow) : Binary64 :=
  if negated then (Binary64.ofInt r.createdTs).neg else Binary64.ofInt r.createdTs

end PlanRow

/-- The tests of the conditions. -/
inductive PlanTest where
  /-- `column LIKE ? ESCAPE '\'` -/
  | like (column : Column)
  /-- `column = ?` -/
  | equals (column : Column)
  /-- `column = ? COLLATE NOCASE` -/
  | equalsNoCase (column : Column)
  /-- `column IN (?, …)` -/
  | oneOf (column : Column) (placeholders : Nat)
  /-- `column >= ?` -/
  | atLeast (column : Column)
  /-- `column <= ?` -/
  | atMost (column : Column)
  /-- `instr(lower(COALESCE(column, '')), lower(?)) > 0` -/
  | instr (column : Column)
  /-- `±CAST(COALESCE(m.created_ts, 0) AS REAL) > ?` -/
  | timeAbove (negated : Bool)
  /-- `±CAST(COALESCE(m.created_ts, 0) AS REAL) = ?` -/
  | timeEquals (negated : Bool)
  /-- `m.id > ?` -/
  | idAbove

@[reducible] def PlanTest.arity : PlanTest → Nat
  | oneOf _ placeholders => placeholders
  | _ => 1

/-- `=` between a column and a parameter; the planners never compare different types. -/
def SqlValue.equalsParam : SqlValue → PlanParam → Bool
  | int n, .int m => decide (n = m)
  | text s, .text t => decide (s = t)
  | _, _ => false

/-- A test on a row. A comparison with `NULL` is not true. -/
def PlanTest.test : PlanTest → List PlanParam → PlanRow → Bool
  | like column, [.text pattern], r =>
    match r.cell column with
    | .text t => Search.like pattern t
    | _ => false
  | equals column, [p], r => (r.cell column).equalsParam p
  | equalsNoCase column, [.text name], r =>
    match r.cell column with
    | .text t => eqIgnoreAsciiCase t name
    | _ => false
  | oneOf column _, params, r => params.any (r.cell column).equalsParam
  | atLeast column, [.int low], r =>
    match r.cell column with
    | .int n => decide (low.1 ≤ n.1)
    | _ => false
  | atMost column, [.int high], r =>
    match r.cell column with
    | .int n => decide (n.1 ≤ high.1)
    | _ => false
  | instr column, [.text token], r =>
    match r.cell column with
    | .text t => instrLower t token
    | _ => instrLower [] token
  | timeAbove negated, [.float score], r => score.lt' (r.timeKey negated)
  | timeEquals negated, [.float score], r => (r.timeKey negated).eq' score
  | idAbove, [.int id], r => decide (id.1 < r.id.1)
  | _, _, _ => false

/-- `FROM`. -/
inductive Source where
  | messages (product : Bool)
  | agents
  | projects
  /-- The constants of `empty_plan_sql`. -/
  | constants

/-- `ORDER BY`. -/
inductive PlanOrder where
  | createdDesc
  | createdAsc
  | score
  | id

/-- The text of a statement; only the constants have no `ORDER BY … LIMIT ?`. -/
structure Statement where
  source : Source
  whereClauses : List (Cond PlanTest)
  order : Option PlanOrder

/-- `PlanMethod`. -/
inductive PlanMethod where
  | textMatch | like | filterOnly | empty
deriving DecidableEq

/-- `SearchPlan`; `sql` is `none` where the source has an empty text. -/
structure SearchPlan where
  sql : Option Statement
  params : List PlanParam
  method : PlanMethod
  facetsApplied : List Text
  scopeEnforced : Bool
  scopeLabel : Text

/-! ### Planning -/

/-- One addition to the statement: a condition with its parameters, and the facet it is reported
as. -/
structure Piece where
  pushed : Pushed PlanTest.arity PlanParam
  facets : List Text

/-- `column = ?`. -/
def equalsPiece (column : Column) (p : PlanParam) (facet : Text) : Piece :=
  ⟨.atom (.equals column) [p] rfl, [facet]⟩

/-- `has_any_message_facet`. -/
def hasAnyMessageFacet (q : SearchQuery) : Bool :=
  !q.importance.isEmpty || q.direction.isSome || q.agentName.isSome || q.threadId.isSome ||
    q.ackRequired.isSome || !q.timeRange.isEmpty || q.projectId.isSome || q.productId.isSome

/-- `scope_policy_label`. -/
def scopePolicyLabel : ScopePolicy → Text
  | .unrestricted => "unrestricted".toList
  | .callerScoped callerAgent => "caller_scoped:".toList ++ callerAgent
  | .projectSet allowed => "project_set:".toList ++ natText allowed.length

/-- `SearchPlan::empty`. -/
def SearchPlan.empty (scopeLabel : Text) : SearchPlan := ⟨none, [], .empty, [], false, scopeLabel⟩

/-- `SUBJECT_COLUMN`, `BODY_COLUMN`, `SUBJECT_AND_BODY_COLUMNS`. -/
def TextColumns.columns : TextColumns → List Column
  | subject => [.mSubject]
  | body => [.mBodyMd]
  | subjectAndBody => [.mSubject, .mBodyMd]

/-- The columns that `text_fields` selects. -/
def TextFieldScope.columns : TextFieldScope → TextColumns
  | subjectAndBody => .subjectAndBody
  | subject => .subject
  | body => .body

/-- A pattern against any of some columns. -/
def likeAny (columns : List Column) (needle : Text) : Pushed PlanTest.arity PlanParam :=
  .any (columns.map fun column => .atom (.like column) [.text (likePattern needle)] rfl)

/-- `like_parts` of a message search. -/
def likeParts (q : SearchQuery) : List (Pushed PlanTest.arity PlanParam) :=
  (likeConditions q.text q.textFields.columns 5).map fun c =>
    if c.negated then (likeAny c.columns.columns c.needle).not
    else likeAny c.columns.columns c.needle

/-- The text conditions of a message search, joined by `AND`. -/
def textPieces (q : SearchQuery) : List Piece :=
  if (likeParts q).isEmpty then [] else [⟨.all (likeParts q), []⟩]

/-- A single project, else the projects of a product. -/
def projectPieces (q : SearchQuery) : List Piece :=
  match q.projectId, q.productId with
  | some pid, _ => [equalsPiece .mProjectId (.int pid) "project_id".toList]
  | none, some prodId => [equalsPiece .pplProductId (.int prodId) "product_id".toList]
  | none, none => []

/-- The visibility scope: only a project set that is not empty adds a condition. -/
def scopePieces (column : Column) : ScopePolicy → List Piece
  | .projectSet allowed =>
    if allowed.isEmpty then []
    else [⟨.atom (.oneOf column allowed.length) (allowed.map .int) (List.length_map _),
      ["scope_project_set".toList]⟩]
  | _ => []

def importancePieces (q : SearchQuery) : List Piece :=
  if q.importance.isEmpty then []
  else [⟨.atom (.oneOf .mImportance q.importance.length)
    (q.importance.map fun imp => .text imp.asStr) (List.length_map _), ["importance".toList]⟩]

/-- A numeric thread id names its root message, which carries no thread id of its own. -/
def threadPieces (q : SearchQuery) : List Piece :=
  match q.threadId with
  | none => []
  | some thread =>
    match (parseI64 thread).bind toI64 with
    | some rootId => [⟨.any [.atom (.equals .mThreadId) [.text thread] rfl,
        .atom (.equals .mId) [.int rootId] rfl], ["thread_id".toList]⟩]
    | none => [equalsPiece .mThreadId (.text thread) "thread_id".toList]

def ackPieces (q : SearchQuery) : List Piece :=
  match q.ackRequired with
  | some ack => [equalsPiece .mAckRequired (.int (if ack then ⟨1, isI64_one⟩ else ⟨0, isI64_zero⟩))
      "ack_required".toList]
  | none => []

def timePieces (q : SearchQuery) : List Piece :=
  (q.timeRange.minTs.toList.map fun low =>
    ⟨.atom (.atLeast .mCreatedTs) [.int low] rfl, ["time_range_min".toList]⟩) ++
  q.timeRange.maxTs.toList.map fun high =>
    ⟨.atom (.atMost .mCreatedTs) [.int high] rfl, ["time_range_max".toList]⟩

/-- The escapes of `serde_json` inside a string. -/
def jsonEscape (c : Char) : Text :=
  if c = '"' then ['\\', '"']
  else if c = '\\' then ['\\', '\\']
  else if c.toNat = 8 then ['\\', 'b']
  else if c.toNat = 12 then ['\\', 'f']
  else if c = '\n' then ['\\', 'n']
  else if c = '\r' then ['\\', 'r']
  else if c = '\t' then ['\\', 't']
  else if c.toNat < 32 then '\\' :: 'u' :: hexDigits 4 c.toNat
  else [c]

/-- `serde_json::to_string` of a string. -/
def jsonString (t : Text) : Text := '"' :: t.flatMap jsonEscape ++ ['"']

/-- `a.name = ? COLLATE NOCASE`. -/
def senderNamed (agent : Text) : Pushed PlanTest.arity PlanParam :=
  .atom (.equalsNoCase .aName) [.text agent] rfl

/-- The agent's name as a JSON string inside the envelope. -/
def recipientNamed (agent : Text) : Pushed PlanTest.arity PlanParam :=
  .atom (.instr .mRecipientsJson) [.text (jsonString agent)] rfl

/-- The direction, or the agent in either role. -/
def agentPieces (q : SearchQuery) : List Piece :=
  match q.direction, q.agentName with
  | some .outbox, some agent => [⟨senderNamed agent, ["direction".toList]⟩]
  | some .inbox, some agent => [⟨recipientNamed agent, ["direction".toList]⟩]
  | none, some agent => [⟨.any [senderNamed agent, recipientNamed agent], ["agent_name".toList]⟩]
  | _, none => []

/-- What stands after the last row that was emitted: a later key, or the same key and a higher
id. -/
def afterKey (negated : Bool) (cursor : SearchCursor) : Pushed PlanTest.arity PlanParam :=
  .any [.atom (.timeAbove negated) [.float cursor.score] rfl,
    .all [.atom (.timeEquals negated) [.float cursor.score] rfl,
      .atom .idAbove [.int cursor.id] rfl]]

/-- The cursor. In relevance order every row has the score 0, so that the order is that of ids. -/
def cursorPieces (q : SearchQuery) : List Piece :=
  match q.cursor.bind SearchCursor.decode with
  | none => []
  | some cursor =>
    match q.ranking with
    | .recency => [⟨afterKey true cursor, ["cursor".toList]⟩]
    | .oldest => [⟨afterKey false cursor, ["cursor".toList]⟩]
    | .relevance => [⟨.atom .idAbove [.int cursor.id] rfl, ["cursor".toList]⟩]

/-- `LIMIT ?`. -/
def limitParam (q : SearchQuery) : PlanParam :=
  .int ((toI64 q.effectiveLimit).getD ⟨50, by decide⟩)

/-- The assembled plan. -/
def assemble (q : SearchQuery) (source : Source) (order : PlanOrder) (method : PlanMethod)
    (pieces : List Piece) (scopeEnforced : Bool) : SearchPlan where
  sql := some ⟨source, Pushed.clauses (pieces.map (·.pushed)), some order⟩
  params := Pushed.allParams (pieces.map (·.pushed)) ++ [limitParam q]
  method := method
  facetsApplied := pieces.flatMap (·.facets)
  scopeEnforced := scopeEnforced
  scopeLabel := scopePolicyLabel q.scope

/-- `scope_enforced`. -/
def scopeEnforced : ScopePolicy → Bool
  | .projectSet allowed => !allowed.isEmpty
  | _ => false

/-- The method of a message search. -/
def messageMethod (q : SearchQuery) : PlanMethod :=
  if !q.text.isEmpty then
    if (extractLikeTerms q.text 5).isEmpty then .empty else .like
  else if hasAnyMessageFacet q then .filterOnly
  else .empty

/-- `message_order_clause`. -/
def RankingMode.order : RankingMode → PlanOrder
  | recency => .createdDesc
  | oldest => .createdAsc
  | relevance => .score

/-- The conditions of a message search in the order in which they are pushed. -/
def messagePieces (q : SearchQuery) : List Piece :=
  (if messageMethod q = .like then textPieces q else []) ++ projectPieces q ++
    scopePieces .mProjectId q.scope ++ importancePieces q ++ threadPieces q ++ ackPieces q ++
    timePieces q ++ agentPieces q ++ cursorPieces q

/-- `plan_message_search`. -/
def planMessageSearch (q : SearchQuery) : SearchPlan :=
  if messageMethod q = .empty then SearchPlan.empty (scopePolicyLabel q.scope)
  else assemble q (.messages (q.projectId.isNone && q.productId.isSome)) q.ranking.order
    (messageMethod q) (messagePieces q) (scopeEnforced q.scope)

/-- The method of an agent or project search. -/
def entityMethod (q : SearchQuery) : PlanMethod :=
  if q.text.isEmpty || (extractLikeTerms q.text 5).isEmpty then .empty else .like

/-- The terms of an agent or project search, each in one of two columns. -/
def termsPiece (first second : Column) (q : SearchQuery) : Piece :=
  ⟨.all ((extractLikeTerms q.text 5).map (likeAny [first, second])), []⟩

/-- The project of an agent search. -/
def agentProjectPieces (q : SearchQuery) : List Piece :=
  q.projectId.toList.map fun pid => equalsPiece .aProjectId (.int pid) "project_id".toList

/-- `plan_agent_search`. -/
def planAgentSearch (q : SearchQuery) : SearchPlan :=
  if entityMethod q = .empty then SearchPlan.empty (scopePolicyLabel q.scope)
  else assemble q .agents .id (entityMethod q)
    (termsPiece .aName .aTaskDescription q :: agentProjectPieces q ++
      scopePieces .aProjectId q.scope) (scopeEnforced q.scope)

/-- `plan_project_search`. -/
def planProjectSearch (q : SearchQuery) : SearchPlan :=
  if entityMethod q = .empty then SearchPlan.empty (scopePolicyLabel q.scope)
  else assemble q .projects .id (entityMethod q)
    (termsPiece .pSlug .pHumanKey q :: scopePieces .pId q.scope) (scopeEnforced q.scope)

/-- `empty_plan_sql`: constants `WHERE 0`. -/
def emptyPlanSql : Statement := ⟨.constants, [.const false], none⟩

/-- `plan_search`. -/
def planSearch (q : SearchQuery) : SearchPlan :=
  let plan := match q.docKind with
    | .message | .thread => planMessageSearch q
    | .agent => planAgentSearch q
    | .project => planProjectSearch q
  if plan.method = .empty && plan.sql.isNone && (!q.text.isEmpty || hasAnyMessageFacet q) then
    { plan with sql := some emptyPlanSql }
  else plan

/-! ### Execution -/

/-- The rows of a `FROM`. -/
def Source.rows (D : Tables) : Source → List PlanRow
  | messages false => D.messages.map fun m => .message ⟨m, D.agent? m.senderId, none⟩
  | messages true => D.messages.flatMap fun m =>
      (D.productProjectLinks.filter fun l => decide (l.projectId = m.projectId)).map fun l =>
        .message ⟨m, D.agent? m.senderId, some l⟩
  | agents => D.agents.map .agent
  | projects => D.projects.map .project
  | constants => [.constants]

/-- The rows that the `WHERE` of a plan admits. -/
def SearchPlan.admitted (D : Tables) (plan : SearchPlan) : List PlanRow :=
  match plan.sql with
  | none => []
  | some sql => (sql.source.rows D).filter fun r =>
      (Cond.all sql.whereClauses).eval PlanTest.arity PlanTest.test plan.params r

/-- The order of two rows; every order ends with the id, and every row has the score 0. -/
def PlanOrder.before : PlanOrder → PlanRow → PlanRow → Bool
  | createdDesc, r, s => decide (s.createdTs.1 < r.createdTs.1) ||
      (decide (r.createdTs.1 = s.createdTs.1) && decide (r.id.1 ≤ s.id.1))
  | createdAsc, r, s => decide (r.createdTs.1 < s.createdTs.1) ||
      (decide (r.createdTs.1 = s.createdTs.1) && decide (r.id.1 ≤ s.id.1))
  | score, r, s => decide (r.id.1 ≤ s.id.1)
  | id, r, s => decide (r.id.1 ≤ s.id.1)

/-- The bound of the last placeholder. -/
def SearchPlan.limit (plan : SearchPlan) (sql : Statement) : Option Nat :=
  match plan.params.drop ((Cond.all sql.whereClauses).placeholders PlanTest.arity) with
  | [.int n] => some n.1.toNat
  | _ => none

/-- The rows that the database returns for a plan. -/
def SearchPlan.rows (D : Tables) (plan : SearchPlan) : List PlanRow :=
  match plan.sql with
  | none => []
  | some sql =>
    match sql.order with
    | none => plan.admitted D
    | some order =>
      let sorted := (plan.admitted D).insertionSort fun r s => order.before r s = true
      ((plan.limit sql).map sorted.take).getD sorted

end AgentMail.Search
