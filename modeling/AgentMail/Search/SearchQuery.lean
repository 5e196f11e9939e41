import AgentMail.Base.Text
import AgentMail.Lib.Binary64

/-!
# Search queries and results

The types of `crates/mcp-agent-mail-db/src/search_planner.rs`.
-/

namespace AgentMail.Search

open Base Lib

/-- `DocKind`. -/
inductive DocKind where
  | message | agent | project | thread
deriving DecidableEq

/-- `Importance`. -/
inductive Importance where
  | low | normal | high | urgent
deriving DecidableEq

/-- `Importance::as_str`. -/
def Importance.asStr : Importance → Text
  | low => "low".toList
  | normal => "normal".toList
  | high => "high".toList
  | urgent => "urgent".toList

/-- `Direction`. -/
inductive Direction where
  | inbox | outbox
deriving DecidableEq

/-- `TimeRange`: inclusive bounds. -/
structure TimeRange where
  minTs : Option I64
  maxTs : Option I64
deriving DecidableEq

def TimeRange.isEmpty (r : TimeRange) : Bool := r.minTs.isNone && r.maxTs.isNone

/-- `RankingMode`. -/
inductive RankingMode where
  | relevance | recency | oldest
deriving DecidableEq

/-- `ScopePolicy`. -/
inductive ScopePolicy where
  | unrestricted
  | callerScoped (callerAgent : Text)
  | projectSet (allowedProjectIds : List I64)
deriving DecidableEq

/-- `RedactionConfig`. -/
structure RedactionConfig where
  redactBody : Bool
  redactAgentNames : Bool
  redactThreadIds : Bool
  placeholder : Text
deriving DecidableEq

def RedactionConfig.isActive (c : RedactionConfig) : Bool :=
  c.redactBody || c.redactAgentNames || c.redactThreadIds

/-- `TextFieldScope`. -/
inductive TextFieldScope where
  | subjectAndBody | subject | body
deriving DecidableEq

/-- `SEARCH_QUERY_LIMIT_MAX`. -/
def searchQueryLimitMax : Nat := 5000

/-- `SearchQuery`. -/
structure SearchQuery where
  text : Text
  textFields : TextFieldScope
  docKind : DocKind
  projectId : Option I64
  productId : Option I64
  importance : List Importance
  direction : Option Direction
  agentName : Option Text
  threadId : Option Text
  ackRequired : Option Bool
  timeRange : TimeRange
  ranking : RankingMode
  limit : Option Nat
  cursor : Option Text
  explain : Bool
  scope : ScopePolicy
  redaction : Option RedactionConfig
deriving DecidableEq

/-- `SearchQuery::default`. -/
def SearchQuery.default : SearchQuery where
  text := []
  textFields := .subjectAndBody
  docKind := .message
  projectId := none
  productId := none
  importance := []
  direction := none
  agentName := none
  threadId := none
  ackRequired := none
  timeRange := ⟨none, none⟩
  ranking := .relevance
  limit := none
  cursor := none
  explain := false
  scope := .unrestricted
  redaction := none

/-- `effective_limit`. -/
def SearchQuery.effectiveLimit (q : SearchQuery) : Nat :=
  max 1 (min searchQueryLimitMax (q.limit.getD 50))

theorem SearchQuery.effectiveLimit_pos (q : SearchQuery) : 1 ≤ q.effectiveLimit := by
  unfold SearchQuery.effectiveLimit
  omega

/-- `SearchResult`, without the recipients and the factors of a score. -/
structure SearchResult where
  docKind : DocKind
  id : I64
  projectId : Option I64
  title : Text
  body : Text
  score : Option Binary64
  importance : Option Text
  ackRequired : Option Bool
  createdTs : Option I64
  threadId : Option Text
  topic : Option Text
  fromAgent : Option Text
  fromAgentId : Option I64
  redacted : Bool
  redactionReason : Option Text

/-- `SearchResult::default`, for an id of a kind. -/
def SearchResult.default (docKind : DocKind) (id : I64) : SearchResult where
  docKind := docKind
  id := id
  projectId := none
  title := []
  body := []
  score := none
  importance := none
  ackRequired := none
  createdTs := none
  threadId := none
  topic := none
  fromAgent := none
  fromAgentId := none
  redacted := false
  redactionReason := none

/-!
## Hints in the text of a query

`field:value` words in the text of a search become filters before the query is routed
(`crates/mcp-agent-mail-db/src/query_assistance.rs`, `apply_query_hints` of `search_service.rs`).
What was recognised is reported with the answer.
-/

/-- `AppliedFilterHint`. -/
structure AppliedFilterHint where
  field : Text
  value : Text
deriving DecidableEq

/-- `DidYouMeanHint`. -/
structure DidYouMeanHint where
  token : Text
  suggestedField : Text
  value : Text
deriving DecidableEq

/-- `QueryAssistance`. -/
structure QueryAssistance where
  queryText : Text
  appliedFilterHints : List AppliedFilterHint
  didYouMean : List DidYouMeanHint
deriving DecidableEq

/-- `QUERY_HINT_FIELDS`. -/
def queryHintFields : List Text :=
  ["from".toList, "thread".toList, "project".toList, "before".toList, "after".toList,
    "importance".toList]

/-- `QUERY_HINT_ALIASES`. -/
def queryHintAliases : List (Text × Text) :=
  [("sender".toList, "from".toList), ("from_agent".toList, "from".toList),
    ("sender_name".toList, "from".toList), ("frm".toList, "from".toList),
    ("thread_id".toList, "thread".toList), ("thr".toList, "thread".toList),
    ("proj".toList, "project".toList), ("project_key".toList, "project".toList),
    ("project_slug".toList, "project".toList), ("since".toList, "after".toList),
    ("date_start".toList, "after".toList), ("date_from".toList, "after".toList),
    ("until".toList, "before".toList), ("date_end".toList, "before".toList),
    ("date_to".toList, "before".toList), ("priority".toList, "importance".toList),
    ("prio".toList, "importance".toList), ("imp".toList, "importance".toList)]

/-- What the date and time library does with the value of a date hint. -/
structure Chrono where
  /-- `DateTime::parse_from_rfc3339`, in microseconds. -/
  parseFromRfc3339 : Text → Option I64
  /-- `NaiveDateTime::parse_from_str` with either format, read as UTC. -/
  parseNaive : Text → Option Int
  /-- `NaiveDate::parse_from_str`: the first microsecond of the day. -/
  parseDate : Text → Option Int
  /-- `to_rfc3339_opts(SecondsFormat::Micros, true)`. -/
  toRfc3339 : Int → Text

/-- `HintTimeBoundary`. -/
inductive HintTimeBoundary where
  | startInclusive | endInclusive

/-- `normalize_datetime_hint`. -/
def normalizeDatetimeHint (C : Chrono) (value : Text) (boundary : HintTimeBoundary) : Option Text :=
  match C.parseFromRfc3339 value with
  | some t => some (C.toRfc3339 t.1)
  | none => match C.parseNaive value with
    | some t => some (C.toRfc3339 t)
    | none => (C.parseDate value).map fun dayStart => C.toRfc3339 (match boundary with
      | .startInclusive => dayStart
      | .endInclusive => dayStart + 86400000000 - 1)

/-- `normalize_hint_value`. -/
def normalizeHintValue (value : Text) : Text :=
  let trimmed := trim value
  if trimmed.head? = some '"' ∧ trimmed.getLast? = some '"' ∧ 2 ≤ trimmed.length then
    trim trimmed.dropLast.tail
  else trim trimmed

/-- `normalize_hint_value_for_field`. -/
def normalizeHintValueForField (C : Chrono) (field value : Text) : Text :=
  if field = "after".toList then (normalizeDatetimeHint C value .startInclusive).getD value
  else if field = "before".toList then (normalizeDatetimeHint C value .endInclusive).getD value
  else value

/-- `normalize_hint_field`. -/
def normalizeHintField (field : Text) : Option Text :=
  let lower := fold true field
  if lower ∈ queryHintFields then some lower
  else (queryHintAliases.find? fun pair => pair.1 = lower).map (·.2)

/-- The next row of the distance table, from the cell to its left and the row above. -/
def nextRow (a : Char) : Nat → List Nat → Text → List Nat
  | left, diagonal :: above :: prevRow, b :: bs =>
    let cell := min (min (above + 1) (left + 1)) (diagonal + if a = b then 0 else 1)
    cell :: nextRow a cell (above :: prevRow) bs
  | _, _, _ => []

/-- `levenshtein_distance`. -/
def levenshteinDistance (a b : Text) : Nat :=
  if a = b then 0
  else if a.isEmpty then b.length
  else if b.isEmpty then a.length
  else
    let rows := a.foldl (fun row c => (row.head?.getD 0 + 1) ::
      nextRow c (row.head?.getD 0 + 1) row b) (List.range (b.length + 1))
    rows.getLast?.getD 0

/-- `suggest_hint_field`: the nearest field, the first in the order of texts among equals. -/
def suggestHintField (field : Text) : Option Text :=
  let lower := fold true field
  (queryHintFields.foldl (fun best candidate =>
    let distance := levenshteinDistance lower candidate
    if 2 < distance then best
    else match best with
      | none => some (candidate, distance)
      | some (bestCandidate, bestDistance) =>
        if distance < bestDistance ∨ (distance = bestDistance ∧ candidate ≠ bestCandidate ∧
            textLe candidate bestCandidate = true)
        then some (candidate, distance) else best) none).map (·.1)

/-- `split_query_tokens`: quotes keep whitespace together. -/
def splitQueryTokens (rawQuery : Text) : List Text :=
  let step : List Text × Text × Bool → Char → List Text × Text × Bool :=
    fun (tokens, current, inQuotes) ch =>
      if ch = '"' then (tokens, current ++ [ch], !inQuotes)
      else if isWhitespace ch && !inQuotes then
        if current.isEmpty then (tokens, current, inQuotes)
        else (tokens ++ [current], [], inQuotes)
      else (tokens, current ++ [ch], inQuotes)
  let (tokens, current, _) := rawQuery.foldl step ([], [], false)
  if current.isEmpty then tokens else tokens ++ [current]

/-- What a token is taken for. -/
inductive TokenKind where
  | plain
  | hint (hint : AppliedFilterHint)
  | suggestion (hint : DidYouMeanHint)

/-- The body of the loop of `parse_query_assistance`. -/
def classifyToken (C : Chrono) (token : Text) : TokenKind :=
  match splitOnce ":".toList token with
  | none => .plain
  | some (field, valuePart) =>
    if (trim field).isEmpty || (trim valuePart).isEmpty then .plain
    else
      let value := normalizeHintValue valuePart
      if value.isEmpty then .plain
      else match normalizeHintField field with
        | some canonical => .hint ⟨canonical, normalizeHintValueForField C canonical value⟩
        | none => match suggestHintField field with
          | some suggested => .suggestion ⟨token, suggested, value⟩
          | none => .plain

/-- `parse_query_assistance`. -/
def parseQueryAssistance (C : Chrono) (rawQuery : Text) : QueryAssistance :=
  let tokens := splitQueryTokens rawQuery
  let plain := tokens.filter fun token => match classifyToken C token with
    | .hint _ => false
    | _ => true
  { queryText := trim ([' '].intercalate plain)
    appliedFilterHints := tokens.filterMap fun token => match classifyToken C token with
      | .hint hint => some hint
      | _ => none
    didYouMean := tokens.filterMap fun token => match classifyToken C token with
      | .suggestion hint => some hint
      | _ => none }

/-- `Importance::parse`. -/
def Importance.parse (s : Text) : Option Importance :=
  if fold true s = "low".toList then some .low
  else if fold true s = "normal".toList then some .normal
  else if fold true s = "high".toList then some .high
  else if fold true s = "urgent".toList then some .urgent
  else none

/-- A hint of `apply_query_hints`: the query with it, unless the query has such a filter already or
the value does not name one. -/
def applyHint (C : Chrono) (projectBySlug : Text → Option I64) (q : SearchQuery)
    (hint : AppliedFilterHint) : Option SearchQuery :=
  if hint.field = "from".toList then
    if q.agentName.isNone ∧ q.direction.isNone then
      some { q with agentName := some hint.value, direction := some .outbox }
    else none
  else if hint.field = "thread".toList then
    if q.threadId.isNone then some { q with threadId := some hint.value } else none
  else if hint.field = "importance".toList then
    if q.importance.isEmpty then
      (Importance.parse hint.value).map fun level => { q with importance := [level] }
    else none
  else if hint.field = "after".toList then
    if q.timeRange.minTs.isNone then (C.parseFromRfc3339 hint.value).map fun t =>
      { q with timeRange := { q.timeRange with minTs := some t } }
    else none
  else if hint.field = "before".toList then
    if q.timeRange.maxTs.isNone then (C.parseFromRfc3339 hint.value).map fun t =>
      { q with timeRange := { q.timeRange with maxTs := some t } }
    else none
  else if hint.field = "project".toList then
    if q.projectId.isNone ∧ q.productId.isNone then
      (projectBySlug hint.value).map fun id => { q with projectId := some id }
    else none
  else none

/-- The loop of `apply_query_hints`: only hints that took effect are reported. -/
def applyHints (C : Chrono) (projectBySlug : Text → Option I64) :
    List AppliedFilterHint → SearchQuery → SearchQuery × List AppliedFilterHint
  | [], q => (q, [])
  | hint :: hints, q =>
    match applyHint C projectBySlug q hint with
    | some hinted =>
      let rest := applyHints C projectBySlug hints hinted
      (rest.1, hint :: rest.2)
    | none => applyHints C projectBySlug hints q

/-- `query_assistance_payload`, of what was parsed. -/
def assistancePayload (assistance : QueryAssistance) : Option QueryAssistance :=
  if assistance.appliedFilterHints.isEmpty && assistance.didYouMean.isEmpty then none
  else some assistance

/-- `apply_query_hints`: the query that is searched for, and the payload. -/
def applyQueryHints (C : Chrono) (projectBySlug : Text → Option I64) (q : SearchQuery) :
    SearchQuery × Option QueryAssistance :=
  let assistance := parseQueryAssistance C q.text
  if q.docKind = .agent ∨ q.docKind = .project then (q, assistancePayload assistance)
  else if assistance.appliedFilterHints.isEmpty then (q, assistancePayload assistance)
  else
    let hinted := applyHints C projectBySlug assistance.appliedFilterHints
      { q with text := assistance.queryText }
    (hinted.1, assistancePayload { assistance with appliedFilterHints := hinted.2 })

end AgentMail.Search
