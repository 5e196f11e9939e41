import AgentMail.Search.PlanMeaning

/-!
# Searches by SQL

The message queries that `execute_search` answers with the SQL plan, and the page and token that it
returns for them (`crates/mcp-agent-mail-db/src/search_service.rs`). Scope and redaction are applied
to the page afterwards; the token is made from the page before that.
-/

namespace AgentMail.Search

open Base Lib

/-! ### Routing -/

/-- `doc_kind` is `Message` or `Thread`. -/
def SearchQuery.isMessage (q : SearchQuery) : Bool :=
  decide (q.docKind = .message) || decide (q.docKind = .thread)

/-- `query_needs_recipient_filter`. -/
def queryNeedsRecipientFilter (q : SearchQuery) : Bool :=
  q.isMessage && q.agentName.isSome && !decide (q.direction = some .outbox)

/-- `message_query_uses_sql_plan`. -/
def messageQueryUsesSqlPlan (q : SearchQuery) : Bool :=
  q.isMessage && ((trim q.text).isEmpty || (extractLikeTerms (trim q.text) 5).isEmpty)

/-- `importance_filter_requires_sql_plan`. -/
def importanceFilterRequiresSqlPlan (q : SearchQuery) : Bool :=
  if q.importance.isEmpty then false
  else
    let hasUrgent := decide (.urgent ∈ q.importance)
    let hasHigh := decide (.high ∈ q.importance)
    let hasNormal := decide (.normal ∈ q.importance)
    let hasLow := decide (.low ∈ q.importance)
    let exactlyUrgent := hasUrgent && !hasHigh && !hasNormal && !hasLow
    let highOrUrgent := hasUrgent && hasHigh && !hasNormal && !hasLow
    let exactlyNormal := !hasUrgent && !hasHigh && hasNormal && !hasLow
    let exactlyLow := !hasUrgent && !hasHigh && !hasNormal && hasLow
    !(exactlyUrgent || highOrUrgent || exactlyNormal || exactlyLow)

/-- `scoped_project_set_requires_sql_plan`. -/
def scopedProjectSetRequiresSqlPlan (q : SearchQuery) : Bool := scopeEnforced q.scope

/-- `message_query_requires_sql_plan`. -/
def messageQueryRequiresSqlPlan (q : SearchQuery) : Bool :=
  q.isMessage && (messageQueryUsesSqlPlan q || decide (q.ranking ≠ .relevance) ||
    q.productId.isSome || q.ackRequired.isSome || queryNeedsRecipientFilter q ||
    importanceFilterRequiresSqlPlan q || scopedProjectSetRequiresSqlPlan q ||
    q.threadId.any fun thread => (parseI64 thread).isSome)

/-- A filter-only search by relevance runs newest first. -/
def newestFirst (q : SearchQuery) : SearchQuery :=
  if q.ranking = .relevance ∧ messageQueryUsesSqlPlan q = true then { q with ranking := .recency }
  else q

/-! ### Results -/

/-- `UNKNOWN_SENDER_DISPLAY`. -/
def unknownSenderDisplay : Text := "[unknown sender]".toList

/-- `map_planned_rows` of a row; every row is selected with the score `0.0`. -/
def mapPlannedRow (docKind : DocKind) : PlanRow → SearchResult
  | .message r =>
    let fromName := trim ((r.sender.map (·.name)).getD unknownSenderDisplay)
    { SearchResult.default docKind r.message.id with
      title := r.message.subject
      importance := some r.message.importance
      ackRequired := some (decide (r.message.ackRequired.1 ≠ 0))
      createdTs := some r.message.createdTs
      threadId := r.message.threadId
      fromAgent := some (if fromName.isEmpty then unknownSenderDisplay else fromName)
      fromAgentId := r.sender.map (·.id)
      body := r.message.bodyMd
      projectId := some r.message.projectId
      score := some .zero
      topic := r.message.topic }
  | .agent a =>
    { SearchResult.default .agent a.id with
      title := a.name
      body := a.taskDescription
      projectId := some a.projectId
      score := some .zero }
  | .project p =>
    { SearchResult.default .project p.id with
      title := p.slug
      body := p.humanKey
      score := some .zero }
  | .constants => SearchResult.default docKind ⟨0, isI64_zero⟩

/-- `cursor_sort_score`; `micros_to_f64_for_cursor` is the conversion. -/
def cursorSortScore (result : SearchResult) (ranking : RankingMode) : Binary64 :=
  let score := result.score.getD .zero
  match ranking with
  | .recency => (result.createdTs.map fun t => (Binary64.ofInt t).neg).getD score
  | .oldest => (result.createdTs.map Binary64.ofInt).getD score
  | .relevance => score

/-- `compute_next_cursor`. -/
def computeNextCursor (results : List SearchResult) (limit : Nat) (ranking : RankingMode) :
    Option Text :=
  if results.length < limit then none
  else results.getLast?.map fun r => SearchCursor.encode ⟨cursorSortScore r ranking, r.id⟩

/-- `execute_sql_plan_search` and `finish_scoped_response`: the page before scope is applied to it,
and the token. -/
def executeSqlPlanSearch (D : Tables) (q : SearchQuery) : List SearchResult × Option Text :=
  let plan := planSearch q
  let rawResults := if plan.method = .empty && plan.sql.isNone then []
    else (plan.rows D).map (mapPlannedRow q.docKind)
  (rawResults, computeNextCursor rawResults q.effectiveLimit q.ranking)

/-- `execute_search` of a message query that requires the SQL plan. -/
def executeSearch (D : Tables) (q : SearchQuery) : List SearchResult × Option Text :=
  executeSqlPlanSearch D (newestFirst q)

/-- The pages of a query, each asked for with the token of the page before it. The limit of a page
may change between pages, as the product budget changes it. -/
def searchPages (D : Tables) (q : SearchQuery) (limits : Nat → Option Nat) :
    Nat → Nat → Option Text → Option (List (List SearchResult))
  | 0, _, _ => none
  | fuel + 1, n, cursor =>
    let page := executeSearch D { q with cursor := cursor, limit := limits n }
    match page.2 with
    | none => some [page.1]
    | some next => (searchPages D q limits fuel (n + 1) (some next)).map (page.1 :: ·)

theorem newestFirst_page (q : SearchQuery) (cursor : Option Text) (limit : Option Nat) :
    newestFirst { q with cursor := cursor, limit := limit } =
      { newestFirst q with cursor := cursor, limit := limit } := by
  unfold newestFirst
  by_cases h : q.ranking = .relevance ∧ messageQueryUsesSqlPlan q = true
  · rw [if_pos h]
    exact if_pos h
  · rw [if_neg h]
    exact if_neg h

end AgentMail.Search
