import AgentMail.Lib.PrefixCode
import AgentMail.Search.SearchScope

/-!
# The key of the search cache

`build_search_cache_key` of `crates/mcp-agent-mail-db/src/search_service.rs`. A digest stands for
the values that were hashed into it, so that digests collide only where the same values went in.
-/

namespace AgentMail.Search

open Base Lib

/-! ### Digests -/

/-- A value that a hasher was given, or the digest of such values. -/
inductive Hashed where
  | text (t : Text)
  | number (n : Int)
  | digest (parts : List Hashed)

def hashText (t : Text) : List Hashed := [.text t]

def hashNumber (n : I64) : List Hashed := [.number n.1]

def hashCount (n : Nat) : List Hashed := [.number n]

def hashFlag (b : Bool) : List Hashed := [.number (if b then 1 else 0)]

/-- An `Option` is its discriminant and its value. -/
def hashOption {α : Type} (hash : α → List Hashed) : Option α → List Hashed
  | none => [.number 0]
  | some a => .number 1 :: hash a

/-- A `Vec` is its length and its items. -/
def hashVec {α : Type} (hash : α → List Hashed) (l : List α) : List Hashed :=
  hashCount l.length ++ l.flatMap hash

theorem hashText_code : PrefixCode hashText := by
  intro a b r s heq
  simpa [hashText] using heq

theorem hashNumber_code : PrefixCode hashNumber := by
  intro a b r s heq
  simpa [hashNumber, Subtype.ext_iff] using heq

theorem hashCount_code : PrefixCode hashCount := by
  intro a b r s heq
  simpa [hashCount] using heq

theorem hashFlag_code : PrefixCode hashFlag := by
  intro a b r s heq
  cases a <;> cases b <;> simp [hashFlag] at heq
  · exact ⟨rfl, heq⟩
  · exact ⟨rfl, heq⟩

variable {α : Type}

theorem hashOption_code {hash : α → List Hashed} (h : PrefixCode hash) :
    PrefixCode (hashOption hash) := by
  intro a b r s heq
  cases a <;> cases b <;> simp only [hashOption, List.cons_append, List.nil_append,
    List.cons.injEq, Hashed.number.injEq] at heq
  · exact ⟨rfl, heq.2⟩
  · exact absurd heq.1 (by decide)
  · exact absurd heq.1 (by decide)
  · have hrest := h _ _ _ _ heq.2
    exact ⟨congrArg some hrest.1, hrest.2⟩

theorem hashVec_code {hash : α → List Hashed} (h : PrefixCode hash) :
    PrefixCode (hashVec hash) := PrefixCode.counted hashCount_code h

/-- A tag and a value where there is a value, nothing otherwise. -/
def tagged {α : Type} (tag : Text) (hash : α → List Hashed) : Option α → List Hashed
  | none => []
  | some a => .text tag :: hash a

/-- Where another tag follows, or nothing, a tagged value is told from its absence. -/
theorem tagged_append {tag : Text} {hash : α → List Hashed} (h : PrefixCode hash) {a b : Option α}
    {r s : List Hashed} (hr : r.head? ≠ some (.text tag)) (hs : s.head? ≠ some (.text tag))
    (heq : tagged tag hash a ++ r = tagged tag hash b ++ s) : a = b ∧ r = s := by
  cases a <;> cases b <;> simp only [tagged, List.cons_append, List.nil_append] at heq
  · exact ⟨rfl, heq⟩
  · exact absurd (by rw [heq]; rfl) hr
  · exact absurd (by rw [← heq]; rfl) hs
  · have hrest := h _ _ _ _ (List.cons.inj heq).2
    exact ⟨congrArg some hrest.1, hrest.2⟩

theorem head_tagged {tag t : Text} {hash : α → List Hashed} {a : Option α} {r : List Hashed}
    (htag : tag ≠ t) (hr : r.head? ≠ some (.text t)) :
    (tagged tag hash a ++ r).head? ≠ some (.text t) := by
  cases a with
  | none => exact hr
  | some a => simpa [tagged] using htag

/-! ### Sorted lists -/

/-- `sort_unstable`, by the values that an item compares as. -/
def sortBy {α : Type} (key : α → List Int) (l : List α) : List α :=
  l.mergeSort fun a b => decide (key a ≤ key b)

/-- `dedup`: of neighbours that are equal, the first. -/
def dedup {α : Type} [DecidableEq α] : List α → List α
  | [] => []
  | [a] => [a]
  | a :: b :: l => if a = b then dedup (b :: l) else a :: dedup (b :: l)

theorem mem_dedup [DecidableEq α] {a : α} {l : List α} : a ∈ dedup l ↔ a ∈ l := by
  fun_induction dedup l with
  | case1 => exact Iff.rfl
  | case2 => exact Iff.rfl
  | case3 b l ih => simp [ih]
  | case4 b c l hne ih => rw [List.mem_cons, ih, ← List.mem_cons]

/-- `sort_unstable` and `dedup`. -/
def sortDedup {α : Type} [DecidableEq α] (key : α → List Int) (l : List α) : List α :=
  dedup (sortBy key l)

theorem mem_sortDedup [DecidableEq α] {key : α → List Int} {a : α} {l : List α} :
    a ∈ sortDedup key l ↔ a ∈ l := by
  rw [sortDedup, mem_dedup, sortBy, List.mem_mergeSort]

/-- A text compares as its scalar values. -/
def textKey (t : Text) : List Int := t.map fun c => (c.toNat : Int)

/-! ### Engines and options -/

/-- `SearchEngine`. -/
inductive SearchEngine where
  | legacy | lexical | semantic | hybrid | auto | shadow
deriving DecidableEq

/-- `Display`, and `cache_engine_discriminator`. -/
def SearchEngine.asStr : SearchEngine → Text
  | legacy => "legacy".toList
  | lexical => "lexical".toList
  | semantic => "semantic".toList
  | hybrid => "hybrid".toList
  | auto => "auto".toList
  | shadow => "shadow".toList

/-- `SearchMode`. -/
inductive SearchMode where
  | lexical | semantic | hybrid | auto

/-- `engine_to_search_mode`. -/
def engineToSearchMode : SearchEngine → SearchMode
  | .legacy | .shadow | .lexical => .lexical
  | .semantic => .semantic
  | .hybrid => .hybrid
  | .auto => .auto

/-- `SearchRolloutConfig`, as far as it selects the engine. -/
structure SearchRolloutConfig where
  engine : SearchEngine
  semanticEnabled : Bool
  surfaceOverrides : List (Text × SearchEngine)

/-- `SearchRolloutConfig::default`. -/
def SearchRolloutConfig.default : SearchRolloutConfig := ⟨.lexical, false, []⟩

/-- `configured_engine`. -/
def SearchRolloutConfig.configuredEngine (c : SearchRolloutConfig) (surface : Text) :
    SearchEngine :=
  ((c.surfaceOverrides.find? fun override => override.1 = surface).map (·.2)).getD c.engine

/-- `allowed_engine`. -/
def SearchRolloutConfig.allowedEngine (c : SearchRolloutConfig) : SearchEngine → SearchEngine
  | .semantic => if c.semanticEnabled then .semantic else .lexical
  | .hybrid => if c.semanticEnabled then .hybrid else .lexical
  | .auto => if c.semanticEnabled then .auto else .lexical
  | other => other

/-- `RedactionPolicy`. -/
structure RedactionPolicy where
  redactBody : Bool
  redactSender : Bool
  redactThread : Bool
  bodyPlaceholder : Text
deriving DecidableEq

/-- `RedactionPolicy::default`. -/
def RedactionPolicy.default : RedactionPolicy :=
  ⟨true, false, false, "[Content hidden — sender restricts visibility]".toList⟩

/-- `SearchOptions`; telemetry does not enter an answer. -/
structure SearchOptions where
  scopeCtx : Option ScopeContext
  redactionPolicy : Option RedactionPolicy
  searchEngine : Option SearchEngine
  surface : Option Text
deriving DecidableEq

/-- `SearchOptions::default`. -/
def SearchOptions.default : SearchOptions := ⟨none, none, none, none⟩

/-- `default_scope_context`. -/
def defaultScopeContext : ScopeContext := ⟨none, [], [], [], []⟩

/-- The scope context that a request is answered in. -/
def SearchOptions.scope (o : SearchOptions) : ScopeContext := o.scopeCtx.getD defaultScopeContext

/-- The redaction that a request is answered with. -/
def SearchOptions.redaction (o : SearchOptions) : RedactionPolicy :=
  o.redactionPolicy.getD .default

/-- A request after its hints were taken out of the text. -/
structure Request where
  query : SearchQuery
  options : SearchOptions
  assistance : Option QueryAssistance
deriving DecidableEq

/-- What `execute_search` makes of a query before it routes it. -/
def Request.ofSearch (C : Chrono) (projectBySlug : Text → Option I64) (q : SearchQuery)
    (o : SearchOptions) : Request :=
  let hinted := applyQueryHints C projectBySlug q
  ⟨hinted.1, o, hinted.2⟩

/-- `engine_for`. -/
def engineFor (rollout : SearchRolloutConfig) (o : SearchOptions) : SearchEngine :=
  rollout.allowedEngine
    (o.searchEngine.getD (rollout.configuredEngine (o.surface.getD [])))

/-- `engine_for_text_fields`: only the lexical tier keeps a query to the subject or the body. -/
def engineForTextFields (engine : SearchEngine) (q : SearchQuery) : SearchEngine :=
  if q.textFields = .subjectAndBody then engine else .lexical

/-- The engine of a request. -/
def Request.engine (rollout : SearchRolloutConfig) (r : Request) : SearchEngine :=
  engineForTextFields (engineFor rollout r.options) r.query

/-! ### The filter of the key -/

/-- `ImportanceFilter`. -/
inductive ImportanceFilter where
  | any | urgent | high | normal | low

/-- `{:?}`. -/
def ImportanceFilter.debug : ImportanceFilter → Text
  | any => "Any".toList
  | urgent => "Urgent".toList
  | high => "High".toList
  | normal => "Normal".toList
  | low => "Low".toList

/-- `SearchFilter`. -/
structure SearchFilter where
  sender : Option Text
  agent : Option Text
  projectId : Option I64
  dateRange : Option TimeRange
  importance : Option ImportanceFilter
  threadId : Option Text
  docKind : Option DocKind

/-- `{:?}`. -/
def DocKind.debug : DocKind → Text
  | message => "Message".toList
  | agent => "Agent".toList
  | project => "Project".toList
  | thread => "Thread".toList

/-- A level as a filter. -/
def Importance.toFilter : Importance → ImportanceFilter
  | low => .low
  | normal => .normal
  | high => .high
  | urgent => .urgent

/-- A range as a filter. -/
def TimeRange.toDateRange (r : TimeRange) : Option TimeRange := if r.isEmpty then none else some r

/-- `to_search_filter`: of several levels the first. -/
def SearchQuery.toSearchFilter (q : SearchQuery) : SearchFilter where
  sender := if q.direction = some .outbox then q.agentName else none
  agent := if q.direction = some .outbox then none else q.agentName
  projectId := q.projectId
  dateRange := q.timeRange.toDateRange
  importance := q.importance.head?.map Importance.toFilter
  threadId := q.threadId
  docKind := none

/-- The bounds of a date range. -/
def hashBounds (r : TimeRange) : List Hashed :=
  tagged "start".toList hashNumber r.minTs ++ tagged "end".toList hashNumber r.maxTs

/-- A date range; its bounds are tagged in turn. -/
def hashDateRange : Option TimeRange → List Hashed
  | none => []
  | some r => .text "date_range".toList :: hashBounds r

/-- `hash_filter`. -/
def hashFilter (f : SearchFilter) : Hashed :=
  .digest (tagged "sender".toList hashText f.sender ++ (tagged "agent".toList hashText f.agent ++
    (tagged "project_id".toList hashNumber f.projectId ++
    (tagged "thread_id".toList hashText f.threadId ++ (hashDateRange f.dateRange ++
    (tagged "importance".toList (fun i => hashText (ImportanceFilter.debug i)) f.importance ++
    tagged "doc_kind".toList (fun k => hashText (DocKind.debug k)) f.docKind))))))

/-! ### The discriminators -/

/-- The discriminant of a document kind. -/
def DocKind.discriminant : DocKind → Nat
  | message => 0
  | agent => 1
  | project => 2
  | thread => 3

/-- The discriminant of the fields that text is searched in. -/
def TextFieldScope.discriminant : TextFieldScope → Nat
  | subjectAndBody => 0
  | subject => 1
  | body => 2

def directionText : Option Direction → Text
  | some .inbox => "inbox".toList
  | some .outbox => "outbox".toList
  | none => "any_direction".toList

def RankingMode.text : RankingMode → Text
  | relevance => "relevance".toList
  | recency => "recency".toList
  | oldest => "oldest".toList

/-- The levels in the order of their names. -/
def hashImportance (levels : List Importance) : List Hashed :=
  (sortBy textKey (levels.map Importance.asStr)).flatMap hashText

/-- The project ids of a set are sorted; they are the last values of the stream. -/
def hashScope : ScopePolicy → List Hashed
  | .unrestricted => hashText "unrestricted".toList
  | .callerScoped callerAgent => hashText "caller_scoped".toList ++ hashText callerAgent
  | .projectSet allowed =>
    hashText "project_set".toList ++ (sortBy (fun id : I64 => [id.1]) allowed).flatMap hashNumber

/-- `cache_scope_discriminator`. -/
def cacheScopeDiscriminator (q : SearchQuery) : Hashed :=
  .digest (hashOption hashNumber q.productId ++ (hashOption hashNumber q.projectId ++
    (hashCount q.docKind.discriminant ++ (hashCount q.textFields.discriminant ++
    (hashOption hashFlag q.ackRequired ++ (hashText (directionText q.direction) ++
    (hashText q.ranking.text ++ (hashFlag q.explain ++
    (hashImportance q.importance ++ hashScope q.scope)))))))))

/-- `ContactPolicyKind::as_str`. -/
def ContactPolicyKind.asStr : ContactPolicyKind → Text
  | «open» => "open".toList
  | auto => "auto".toList
  | contactsOnly => "contacts_only".toList
  | blockAll => "block_all".toList

def hashPair (p : I64 × I64) : List Hashed := hashNumber p.1 ++ hashNumber p.2

/-- Who asks. -/
def hashViewer : Option ViewerIdentity → List Hashed
  | some viewer => hashText "viewer".toList ++ (hashNumber viewer.projectId ++
      hashNumber viewer.agentId)
  | none => hashText "operator".toList

def hashPolicy (p : SenderPolicy) : List Hashed :=
  hashNumber p.projectId ++ (hashNumber p.agentId ++ hashText p.policy.asStr)

def hashRecipients (e : RecipientEntry) : List Hashed :=
  hashNumber e.messageId ++ hashVec hashNumber e.agentIds

def SenderPolicy.key (p : SenderPolicy) : List Int :=
  p.projectId.1 :: p.agentId.1 :: textKey p.policy.asStr

def RecipientEntry.key (e : RecipientEntry) : List Int := e.messageId.1 :: e.agentIds.map (·.1)

/-- An entry with its ids sorted and without repetition. -/
def RecipientEntry.sorted (e : RecipientEntry) : RecipientEntry :=
  { e with agentIds := sortDedup (fun id => [id.1]) e.agentIds }

def hashRedaction (p : RedactionPolicy) : List Hashed :=
  hashFlag p.redactBody ++ (hashFlag p.redactSender ++ (hashFlag p.redactThread ++
    hashText p.bodyPlaceholder))

/-- `cache_authorization_discriminator`. -/
def cacheAuthorizationDiscriminator (o : SearchOptions) : Hashed :=
  let ctx := o.scope
  .digest (hashViewer ctx.viewer ++
    (hashVec hashPair (sortDedup (fun p => [p.1.1, p.2.1]) ctx.approvedContacts) ++
    (hashVec hashNumber (sortDedup (fun id => [id.1]) ctx.viewerProjectIds) ++
    (hashVec hashPolicy (sortDedup SenderPolicy.key ctx.senderPolicies) ++
    (hashVec hashRecipients (sortDedup RecipientEntry.key
      (ctx.recipientMap.map RecipientEntry.sorted)) ++ hashRedaction o.redaction)))))

/-! ### The key -/

/-- `QueryCacheKey`. -/
structure QueryCacheKey where
  queryNormalized : Text
  mode : SearchMode
  filterHash : Hashed
  indexEpoch : Nat
  offset : Hashed
  limit : Nat

/-- The scope of a key, with the engine and the identity of the pool. -/
def scopeDiscriminator (rollout : SearchRolloutConfig) (pool : Text) (r : Request) : Hashed :=
  .digest [cacheScopeDiscriminator r.query, cacheAuthorizationDiscriminator r.options,
    .text (r.engine rollout).asStr, .text pool]

/-- `build_search_cache_key`. -/
def buildSearchCacheKey (rollout : SearchRolloutConfig) (pool : Text) (cacheEpoch : Nat)
    (r : Request) : QueryCacheKey where
  queryNormalized := trim r.query.text
  mode := engineToSearchMode (r.engine rollout)
  filterHash := hashFilter r.query.toSearchFilter
  indexEpoch := cacheEpoch
  offset := match r.query.cursor with
    | some c => .digest [.text c, scopeDiscriminator rollout pool r]
    | none => scopeDiscriminator rollout pool r
  limit := r.query.effectiveLimit

end AgentMail.Search
