import AgentMail.Search.CacheKey
import AgentMail.Search.SqlSearch

/-!
# Searches over the index

The routes of `execute_search` whose answers may be cached: the lexical tier, and the lexical and
semantic tiers together (`crates/mcp-agent-mail-db/src/search_service.rs`, `search_v3.rs`). What
the index, the vectors, the reranker and the database hold is a parameter.
-/

namespace AgentMail.Search

open Base Lib

/-! ### Routing -/

/-- Whether an answer may be cached: only routes that check the revision of the index. Product
queries run on the SQL plan, so that no budget limits a page here. -/
def cacheAllowed (rollout : SearchRolloutConfig) (r : Request) : Bool :=
  (decide (r.engine rollout = .lexical) || decide (r.engine rollout = .hybrid) ||
    decide (r.engine rollout = .auto)) && r.query.isMessage && !messageQueryRequiresSqlPlan r.query

/-! ### The lexical index -/

/-- A hit of the lexical index, with the metadata that is read from it. -/
structure LexicalHit where
  docId : I64
  score : Binary64
  snippet : Option Text
  subject : Option Text
  sender : Option Text
  projectId : Option I64
  importance : Option Text
  threadId : Option Text
  createdTs : Option I64

/-- `convert_results`, of a hit. -/
def convertHit (docKind : DocKind) (hit : LexicalHit) : SearchResult :=
  { SearchResult.default docKind hit.docId with
    projectId := hit.projectId
    title := hit.subject.getD []
    body := hit.snippet.getD []
    score := some hit.score
    importance := hit.importance
    createdTs := hit.createdTs
    threadId := hit.threadId
    fromAgent := some ((hit.sender.filter fun s => !(trim s).isEmpty).getD unknownSenderDisplay) }

/-- `ImportanceFilterPlan`; the set of levels is listed in one order. -/
structure ImportanceFilterPlan where
  filter : Option ImportanceFilter
  exactImportances : Option (List Importance)
  needsPostFilter : Bool

/-- `build_importance_filter_plan`. -/
def buildImportanceFilterPlan (q : SearchQuery) : ImportanceFilterPlan :=
  if q.importance.isEmpty then ⟨none, none, false⟩
  else
    let hasUrgent := decide (.urgent ∈ q.importance)
    let hasHigh := decide (.high ∈ q.importance)
    let hasNormal := decide (.normal ∈ q.importance)
    let hasLow := decide (.low ∈ q.importance)
    let filter :=
      if hasUrgent && !hasHigh && !hasNormal && !hasLow then some ImportanceFilter.urgent
      else if hasHigh && !hasNormal && !hasLow then some .high
      else if hasNormal && !hasHigh && !hasUrgent && !hasLow then some .normal
      else if hasLow && !hasHigh && !hasUrgent && !hasNormal then some .low
      else none
    { filter := filter
      exactImportances := some ([.low, .normal, .high, .urgent].filter (· ∈ q.importance))
      needsPostFilter := match filter with
        | some .urgent => false
        | some .normal => false
        | some .low => false
        | some .high => !hasUrgent
        | some .any => true
        | none => true }

/-- `build_search_filter`: only outbox queries for messages filter by sender here. -/
def buildSearchFilter (q : SearchQuery) (plan : ImportanceFilterPlan) : SearchFilter where
  sender := if q.docKind = .message ∧ q.direction = some .outbox then q.agentName else none
  agent := none
  projectId := q.projectId
  dateRange := q.timeRange.toDateRange
  importance := plan.filter
  threadId := q.threadId
  docKind := some q.docKind

/-- What the index is asked for. The text is trimmed before it is parsed, and its terms are the
words between whitespace. -/
structure LexicalAsk where
  text : Text
  textFields : TextFieldScope
  filter : SearchFilter
  cursor : Option SearchCursor
  explain : Bool

/-- The question of a query to the index. -/
def lexicalAsk (q : SearchQuery) : LexicalAsk where
  text := trim q.text
  textFields := q.textFields
  filter := buildSearchFilter q (buildImportanceFilterPlan q)
  cursor := q.cursor.bind SearchCursor.decode
  explain := q.explain

/-- The results that have one of the levels exactly. -/
def retainExact (plan : ImportanceFilterPlan) (results : List SearchResult) : List SearchResult :=
  match plan.exactImportances with
  | some allowed => results.filter fun r =>
      r.importance.any fun i => decide (i ∈ allowed.map Importance.asStr)
  | none => results

/-- The loop of `TantivyBridge::search`: where levels are filtered afterwards, more hits are fetched
until there are enough. The first hits of a question are `hits`, cut at a number. -/
def fetchLoop (hits : Nat → List LexicalHit) (docKind : DocKind) (plan : ImportanceFilterPlan)
    (limit maxFetchLimit : Nat) : Nat → Nat → List SearchResult
  | 0, _ => []
  | fuel + 1, fetchLimit =>
    let results := hits fetchLimit
    let retained := retainExact plan (results.map (convertHit docKind))
    if limit ≤ retained.length ∨ plan.needsPostFilter = false ∨ results.length < fetchLimit ∨
        maxFetchLimit ≤ fetchLimit then retained.take limit
    else fetchLoop hits docKind plan limit maxFetchLimit fuel (min (fetchLimit * 2) maxFetchLimit)

/-- `TantivyBridge::search`; the loop doubles its limit, so that as many rounds are enough. -/
def tantivySearch (index : LexicalAsk → Nat → List LexicalHit) (q : SearchQuery) :
    List SearchResult :=
  let plan := buildImportanceFilterPlan q
  let limit := q.effectiveLimit
  let fetchLimit := if plan.needsPostFilter then max (max (limit * 4) limit) 16 else limit
  let maxFetchLimit := max (max (limit * 16) fetchLimit) 64
  fetchLoop (index (lexicalAsk q)) q.docKind plan limit maxFetchLimit (maxFetchLimit + 1) fetchLimit

/-! ### The canonical rows -/

/-- `ThreadMessageRow`, as far as a result is made from it. -/
structure ThreadMessageRow where
  id : I64
  projectId : I64
  senderId : I64
  threadId : Option Text
  topic : Option Text
  subject : Text
  bodyMd : Text
  importance : Text
  ackRequired : I64
  createdTs : I64
  sender : Text

/-- A hit of the vectors. -/
structure SemanticHit where
  docKind : DocKind
  docId : I64
  projectId : Option I64
  score : Binary64

/-- A hit of the vectors as a result; the vectors store no text. -/
def convertSemanticHit (hit : SemanticHit) : SearchResult :=
  { SearchResult.default hit.docKind hit.docId with
    projectId := hit.projectId
    score := some hit.score }

/-- What the database and the indexes hold. -/
structure Backend where
  /-- The first hits of the lexical index, in its order; `none` where it is not initialised. -/
  index : Option (LexicalAsk → Nat → List LexicalHit)
  /-- The row of `messages` with an id. -/
  message : I64 → Option ThreadMessageRow
  message_id : ∀ id d, message id = some d → d.id = id
  /-- `list_message_recipient_names_by_message`. -/
  recipientNames : I64 → List Text
  /-- `list_product_projects`. -/
  productProjects : I64 → List I64
  /-- `derive_hybrid_execution_plan`: how many hits either tier is asked for. -/
  budget : SearchEngine → Text → Nat → Nat × Nat
  /-- The hits of the vectors for a text, in a project, of the kinds of a query, up to a limit. -/
  semantic : Text → Option I64 → DocKind → Nat → List SemanticHit
  /-- Whether the content that was embedded is the content of the row. -/
  embedded : SearchResult → Bool
  /-- Fusion and reranking, with the text, whether scores are explained and the limit: ids with
  their scores, and the lines of the rerank audit. -/
  rank : Text → Bool → Nat → List SearchResult → List SearchResult →
    List (I64 × Binary64) × Option (List Text)
  /-- Candidates are merged by id before they are ranked. -/
  rank_nodup : ∀ text explain limit lexical semantic,
    ((rank text explain limit lexical semantic).1.map Prod.fst).Nodup

/-- `detail_matches_agent_filter`. -/
def detailMatchesAgentFilter (q : SearchQuery) (senderName : Text)
    (recipientNames : Option (List Text)) : Bool :=
  match q.agentName with
  | none => true
  | some agentName =>
    let senderMatches := eqIgnoreAsciiCase senderName agentName
    let recipientMatches := recipientNames.any fun names =>
      names.any fun recipient => eqIgnoreAsciiCase recipient agentName
    match q.direction with
    | some .outbox => senderMatches
    | some .inbox => recipientMatches
    | none => senderMatches || recipientMatches

/-- The levels of a query on the text of a level. -/
def importanceMatches (q : SearchQuery) (importance : Option Text) : Bool :=
  q.importance.isEmpty ||
    ((importance.bind Importance.parse).any fun level => decide (level ∈ q.importance))

/-- The time range of a query on a time. -/
def timeMatches (q : SearchQuery) (ts : Option I64) : Bool :=
  (q.timeRange.minTs.all fun minTs => ts.any fun ts => decide (minTs.1 ≤ ts.1)) &&
    q.timeRange.maxTs.all fun maxTs => ts.any fun ts => decide (ts.1 ≤ maxTs.1)

/-- `detail_matches_query_filters`. -/
def detailMatchesQueryFilters (q : SearchQuery) (detail : ThreadMessageRow)
    (recipientNames : Option (List Text)) (productProjectIds : Option (List I64)) : Bool :=
  (q.projectId.all fun p => decide (detail.projectId = p)) &&
    (productProjectIds.all fun allowed => decide (detail.projectId ∈ allowed)) &&
    detailMatchesAgentFilter q detail.sender recipientNames &&
    (q.threadId.all fun t => decide (detail.threadId = some t)) &&
    (q.ackRequired.all fun ack => decide (detail.ackRequired.1 ≠ 0) == ack) &&
    importanceMatches q (some detail.importance) && timeMatches q (some detail.createdTs)

/-- `unresolved_result_matches_agent_filter`; a hit of the index has no recipients. -/
def unresolvedResultMatchesAgentFilter (q : SearchQuery) (result : SearchResult) : Bool :=
  match q.agentName with
  | none => true
  | some agentName =>
    let senderMatches := result.fromAgent.any fun sender => eqIgnoreAsciiCase sender agentName
    match q.direction with
    | some .outbox => senderMatches
    | some .inbox => false
    | none => senderMatches

/-- `raw_result_matches_query_filters`. -/
def rawResultMatchesQueryFilters (q : SearchQuery) (result : SearchResult)
    (productProjectIds : Option (List I64)) : Bool :=
  (q.projectId.all fun p => decide (result.projectId = some p)) &&
    (productProjectIds.all fun allowed => result.projectId.any fun p => decide (p ∈ allowed)) &&
    unresolvedResultMatchesAgentFilter q result &&
    (q.threadId.all fun t => decide (result.threadId = some t)) &&
    (q.ackRequired.all fun ack => result.ackRequired.any fun raw => raw == ack) &&
    importanceMatches q result.importance && timeMatches q result.createdTs

/-- A result with the columns of its row. -/
def hydrate (result : SearchResult) (detail : ThreadMessageRow) : SearchResult :=
  { result with
    projectId := some detail.projectId
    title := detail.subject
    body := detail.bodyMd
    importance := some detail.importance
    ackRequired := some (decide (detail.ackRequired.1 ≠ 0))
    createdTs := some detail.createdTs
    threadId := detail.threadId
    topic := detail.topic
    fromAgent := some detail.sender
    fromAgentId := some detail.senderId }

/-- The first result of every id. -/
def dedupById : List SearchResult → List SearchResult
  | [] => []
  | r :: results => r :: (dedupById results).filter fun s => decide (s.id ≠ r.id)

/-- The loop of `canonicalize_message_results`, of a result. -/
def canonicalResult (B : Backend) (q : SearchQuery) (preserveUnresolvedHits : Bool)
    (result : SearchResult) : Option SearchResult :=
  let productProjectIds := q.productId.map B.productProjects
  match (B.message result.id).filter fun d => q.projectId.all fun p => decide (d.projectId = p) with
  | none =>
    if preserveUnresolvedHits && rawResultMatchesQueryFilters q result productProjectIds then
      some result
    else none
  | some detail =>
    let recipientNames :=
      if queryNeedsRecipientFilter q then some (B.recipientNames result.id) else none
    if detailMatchesQueryFilters q detail recipientNames productProjectIds then
      some (hydrate result detail)
    else none

/-- `canonicalize_message_results`. -/
def canonicalizeMessageResults (B : Backend) (q : SearchQuery) (rawResults : List SearchResult)
    (preserveUnresolvedHits : Bool) : List SearchResult :=
  if q.isMessage then
    (dedupById rawResults).filterMap (canonicalResult B q preserveUnresolvedHits)
  else rawResults

/-! ### The response -/

/-- `ScopedSearchResult`. -/
structure ScopedSearchResult where
  result : SearchResult
  scope : ScopeDecision
  redactionNote : Option Text

/-- `ScopeAuditEntry`. -/
structure ScopeAuditEntry where
  resultId : I64
  docKind : DocKind
  verdict : ScopeVerdict
  reason : ScopeReason
  explanation : Text
  viewer : Option ViewerIdentity

/-- `ScopeAuditSummary`. -/
structure ScopeAuditSummary where
  totalBefore : Nat
  visibleCount : Nat
  redactedCount : Nat
  deniedCount : Nat
  entries : List ScopeAuditEntry

/-- `ScopeReason::user_message`. -/
def ScopeReason.userMessage : ScopeReason → Text
  | isSender => "You are the sender of this message.".toList
  | isRecipient => "You are a recipient of this message.".toList
  | approvedContact => "You have an approved contact with the sender.".toList
  | openPolicy => "The sender has an open contact policy.".toList
  | autoPolicy => "The sender allows auto-contact.".toList
  | contactsOnlyDenied => "The sender restricts visibility to approved contacts only.".toList
  | blockAllDenied => "The sender blocks all inbound visibility.".toList
  | senderPolicyUnavailable => "The sender's visibility policy could not be established.".toList
  | crossProjectDenied =>
    "This message is from a different project you don't have access to.".toList
  | operatorMode => "Operator mode: full visibility.".toList
  | nonMessageEntity => "Agent and project records are publicly visible.".toList

/-- `apply_redaction`. -/
def applyRedaction (result : SearchResult) (policy : RedactionPolicy) : SearchResult :=
  let fieldsRedacted := policy.redactBody || policy.redactSender || policy.redactThread
  { result with
    body := if policy.redactBody then policy.bodyPlaceholder else result.body
    fromAgent := if policy.redactSender then none else result.fromAgent
    fromAgentId := if policy.redactSender then none else result.fromAgentId
    threadId := if policy.redactThread then none else result.threadId
    topic := if policy.redactThread then none else result.topic
    redacted := fieldsRedacted || result.redacted
    redactionReason := if fieldsRedacted then some "Search result fields redacted by policy.".toList
      else result.redactionReason }

/-- The loop of `apply_scope`, of a result. -/
def scopeStep (ctx : ScopeContext) (redaction : RedactionPolicy)
    (acc : List ScopedSearchResult × ScopeAuditSummary) (result : SearchResult) :
    List ScopedSearchResult × ScopeAuditSummary :=
  let decision := evaluateScope result ctx
  let note := decision.reason.userMessage
  let entry : ScopeAuditEntry := ⟨result.id, result.docKind, decision.verdict, decision.reason, note,
    ctx.viewer⟩
  match decision.verdict with
  | .allow => (acc.1 ++ [⟨result, decision, none⟩],
      { acc.2 with visibleCount := acc.2.visibleCount + 1 })
  | .redact =>
    (acc.1 ++ [⟨{ applyRedaction result redaction with redactionReason := some note }, decision,
        some note⟩], { acc.2 with
        visibleCount := acc.2.visibleCount + 1
        redactedCount := acc.2.redactedCount + 1
        entries := acc.2.entries ++ [entry] })
  | .deny => (acc.1,
      { acc.2 with deniedCount := acc.2.deniedCount + 1, entries := acc.2.entries ++ [entry] })

/-- `apply_scope`. -/
def applyScope (results : List SearchResult) (ctx : ScopeContext) (redaction : RedactionPolicy) :
    List ScopedSearchResult × ScopeAuditSummary :=
  results.foldl (scopeStep ctx redaction) ([], ⟨results.length, 0, 0, 0, []⟩)

/-- `RecoverySuggestion`. -/
structure RecoverySuggestion where
  kind : Text
  label : Text
  detail : Option Text

/-- `ZeroResultGuidance`. -/
structure ZeroResultGuidance where
  summary : Text
  suggestions : List RecoverySuggestion

/-- A suggestion, where there is cause for it. -/
def suggest (cause : Bool) (kind label : Text) (detail : Option Text) : List RecoverySuggestion :=
  if cause then [⟨kind, label, detail⟩] else []

/-- The line about the levels of a query. -/
def importanceDetail (levels : List Importance) : Text :=
  "Currently filtering to [".toList ++ ", ".toList.intercalate (levels.map Importance.asStr) ++
    "]. Try removing the importance constraint.".toList

/-- The suggestion for a field that was not recognised. -/
def typoSuggestion (hint : DidYouMeanHint) : RecoverySuggestion where
  kind := "fix_typo".toList
  label := "Did you mean \"".toList ++ hint.suggestedField ++ ":".toList ++ hint.value ++
    "\"?".toList
  detail := some ("\"".toList ++ hint.token ++ "\" is not a recognized field. Try \"".toList ++
    hint.suggestedField ++ "\" instead.".toList)

/-- The suggestions, before the one to simplify the text. -/
def filterSuggestions (q : SearchQuery) (assistance : Option QueryAssistance) :
    List RecoverySuggestion :=
  suggest (!q.timeRange.isEmpty) "broaden_date_range".toList "Broaden date range".toList
      (some "Remove or widen the date filter to include more results.".toList) ++
    suggest (!q.importance.isEmpty) "drop_importance_filter".toList
      "Remove importance filter".toList (some (importanceDetail q.importance)) ++
    suggest q.agentName.isSome "drop_agent_filter".toList "Remove sender/agent filter".toList
      (some "Search across all agents instead of a specific sender.".toList) ++
    suggest q.threadId.isSome "drop_thread_filter".toList "Remove thread filter".toList
      (some "Search across all threads instead of a single thread.".toList) ++
    suggest q.ackRequired.isSome "drop_ack_filter".toList "Remove ack-required filter".toList
      none ++ (assistance.map fun a => a.didYouMean.map typoSuggestion).getD []

/-- `generate_zero_result_guidance`. -/
def generateZeroResultGuidance (q : SearchQuery) (resultCount : Nat)
    (assistance : Option QueryAssistance) : Option ZeroResultGuidance :=
  if 0 < resultCount then none
  else
    let filters := filterSuggestions q assistance
    let suggestions := filters ++ suggest (filters.isEmpty && !(trim q.text).isEmpty)
      "simplify_query".toList "Simplify search terms".toList
      (some "Try fewer or broader keywords.".toList)
    let summary :=
      if suggestions.length = 0 then "No results found. Try a different search query.".toList
      else "No results found. ".toList ++ (Nat.toDigits 10 suggestions.length) ++
        " suggestion".toList ++ (if suggestions.length = 1 then [] else "s".toList) ++
        " available to broaden your search.".toList
    some ⟨summary, suggestions⟩

/-- `QueryExplain`. -/
structure QueryExplain where
  method : Text
  normalizedQuery : Option Text
  usedLikeFallback : Bool
  facetCount : Nat
  facetsApplied : List Text
  sql : Text
  scopePolicy : Text
  deniedCount : Nat
  redactedCount : Nat

/-- A facet, where a query has it. -/
def facet (has : Bool) (name : Text) : List Text := if has then [name] else []

/-- Whether a scope is a set of projects. -/
def ScopePolicy.isProjectSet : ScopePolicy → Bool
  | projectSet _ => true
  | _ => false

/-- `collect_query_facets`. -/
def collectQueryFacets (q : SearchQuery) : List Text :=
  facet q.projectId.isSome "project_id".toList ++ facet q.productId.isSome "product_id".toList ++
    facet (!q.importance.isEmpty) "importance".toList ++
    facet q.direction.isSome "direction".toList ++ facet q.agentName.isSome "agent_name".toList ++
    facet q.threadId.isSome "thread_id".toList ++
    facet q.ackRequired.isSome "ack_required".toList ++
    facet q.timeRange.minTs.isSome "time_range_min".toList ++
    facet q.timeRange.maxTs.isSome "time_range_max".toList ++
    facet q.cursor.isSome "cursor".toList ++ facet q.scope.isProjectSet "scope_project_set".toList

/-- `build_v3_query_explain`. -/
def buildV3QueryExplain (q : SearchQuery) (engine : SearchEngine)
    (rerankAudit : Option (List Text)) : QueryExplain :=
  let facetsApplied :=
    ("engine:".toList ++ engine.asStr) :: (collectQueryFacets q ++ rerankAudit.getD [])
  { method := engine.asStr ++ "_v3".toList
    normalizedQuery := if q.text.isEmpty then none else some q.text
    usedLikeFallback := false
    facetCount := facetsApplied.length
    facetsApplied := facetsApplied
    sql := "-- v3 pipeline (non-SQL result assembly)".toList
    scopePolicy := "unrestricted".toList
    deniedCount := 0
    redactedCount := 0 }

/-- `ScopedSearchResponse`. -/
structure ScopedSearchResponse where
  results : List ScopedSearchResult
  nextCursor : Option Text
  explain : Option QueryExplain
  auditSummary : Option ScopeAuditSummary
  sqlRowCount : Nat
  assistance : Option QueryAssistance
  guidance : Option ZeroResultGuidance

/-- `finish_scoped_response`. -/
def finishScopedResponse (rawResults : List SearchResult) (r : Request)
    (explain : Option QueryExplain) : ScopedSearchResponse :=
  let ctx := r.options.scope
  let visible := applyScope rawResults ctx r.options.redaction
  { results := visible.1
    nextCursor := computeNextCursor rawResults r.query.effectiveLimit r.query.ranking
    explain := if r.query.explain then
        explain.map fun value =>
          { value with
            deniedCount := visible.2.deniedCount
            redactedCount := visible.2.redactedCount
            scopePolicy := if ctx.viewer.isSome then "caller_scoped".toList else value.scopePolicy }
      else none
    auditSummary := if ctx.viewer.isSome then some visible.2 else none
    sqlRowCount := rawResults.length
    assistance := r.assistance
    guidance := generateZeroResultGuidance r.query visible.1.length r.assistance }

/-! ### The routes -/

/-- `lexical_bridge_unavailable_error`. -/
def lexicalBridgeUnavailableError (engine : SearchEngine) : Text :=
  "search engine unavailable (".toList ++ engine.asStr ++
    "); lexical index bridge is not initialized".toList

/-- The lexical route. The index was filled when the bridge was opened, so that a search without
hits does not fill it again. -/
def lexicalSearch (B : Backend) (r : Request) : Except Text ScopedSearchResponse :=
  match B.index with
  | none => .error (lexicalBridgeUnavailableError .lexical)
  | some index =>
    let explicitLexical := decide (r.options.searchEngine = some .lexical)
    let canonical := canonicalizeMessageResults B r.query (tantivySearch index r.query)
      explicitLexical
    .ok (finishScopedResponse (canonical.take r.query.effectiveLimit) r
      (if r.query.explain then some (buildV3QueryExplain r.query .lexical none) else none))

/-- `legacy_candidate_limit`. -/
def legacyCandidateLimit (q : SearchQuery) : Nat :=
  let limit := q.effectiveLimit
  if q.productId.isSome || !q.importance.isEmpty || q.direction.isSome || q.agentName.isSome ||
      q.threadId.isSome || q.ackRequired.isSome || !q.timeRange.isEmpty then
    max (max 64 (min 100000 (limit * 16))) limit
  else limit

/-- `pagination_fetch_limit`. -/
def paginationFetchLimit (q : SearchQuery) (baseLimit : Nat) : Nat :=
  if q.cursor.isSome then max 64 (min 100000 (max baseLimit (q.effectiveLimit * 16))) else baseLimit

/-- The order of `apply_cursor_window`. -/
def windowLe (ranking : RankingMode) (a b : SearchResult) : Bool :=
  let x := (cursorSortScore a ranking).totalKey
  let y := (cursorSortScore b ranking).totalKey
  match ranking with
  | .relevance => decide (y < x) || (decide (x = y) && decide (a.id.1 ≤ b.id.1))
  | _ => decide (x < y) || (decide (x = y) && decide (a.id.1 ≤ b.id.1))

/-- `apply_cursor_window`: what follows the row of the token, or else its score. -/
def applyCursorWindow (results : List SearchResult) (q : SearchQuery) : List SearchResult :=
  let sorted := results.mergeSort (windowLe q.ranking)
  match q.cursor.bind SearchCursor.decode with
  | none => sorted
  | some cursor =>
    match sorted.findIdx? fun r => decide (r.id = cursor.id) && (decide (q.ranking = .relevance) ||
        decide ((cursorSortScore r q.ranking).bits = cursor.score.bits)) with
    | some i => sorted.drop (i + 1)
    | none => sorted.filter fun r =>
        let score := cursorSortScore r q.ranking
        (match q.ranking with
          | .relevance => score.lt' cursor.score
          | _ => cursor.score.lt' score) ||
          (decide (score.bits = cursor.score.bits) && decide (cursor.id.1 < r.id.1))

/-- A ranked id as the result of either tier, the lexical one first, with its new score. -/
def rankedResult (lexical semantic : List SearchResult) (ranked : I64 × Binary64) :
    Option SearchResult :=
  ((lexical.find? fun r => decide (r.id = ranked.1)).or
    (semantic.find? fun r => decide (r.id = ranked.1))).map fun r => { r with score := some ranked.2 }

/-- The query that the candidates are retrieved for. -/
def candidateQuery (q : SearchQuery) : SearchQuery :=
  { q with limit := some (paginationFetchLimit q (legacyCandidateLimit q)) }

/-- The semantic candidates, of rows whose content was embedded. -/
def semanticCandidates (B : Backend) (q : SearchQuery) (limit : Nat) : List SearchResult :=
  let hits := if limit = 0 then [] else
    (B.semantic q.text q.projectId q.docKind limit).map convertSemanticHit
  (canonicalizeMessageResults B q hits false).filter B.embedded

/-- The lexical candidates; the token counts fused scores, so that they start at the first hit. -/
def lexicalCandidates (B : Backend) (index : LexicalAsk → Nat → List LexicalHit) (q : SearchQuery)
    (limit : Nat) : List SearchResult :=
  canonicalizeMessageResults B q
    (tantivySearch index { q with cursor := none, limit := some limit }) false

/-- The route of both tiers. -/
def hybridSearch (B : Backend) (engine : SearchEngine) (r : Request) :
    Except Text ScopedSearchResponse :=
  match B.index with
  | none => .error (lexicalBridgeUnavailableError engine)
  | some index =>
    let q := candidateQuery r.query
    let budget := B.budget engine (trim q.text) q.effectiveLimit
    let lexical := lexicalCandidates B index q (paginationFetchLimit r.query budget.1)
    let semantic := semanticCandidates B q budget.2
    let ranked := B.rank q.text q.explain q.effectiveLimit lexical semantic
    let page := applyCursorWindow (ranked.1.filterMap (rankedResult lexical semantic)) r.query
    .ok (finishScopedResponse (page.take r.query.effectiveLimit) r
      (if r.query.explain then some (buildV3QueryExplain r.query engine ranked.2) else none))

/-- `execute_search` where an answer may be cached, without the cache. -/
def executeTextSearch (rollout : SearchRolloutConfig) (B : Backend) (r : Request) :
    Except Text ScopedSearchResponse :=
  match r.engine rollout with
  | .lexical => lexicalSearch B r
  | engine => hybridSearch B engine r

end AgentMail.Search
