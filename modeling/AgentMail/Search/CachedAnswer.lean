import AgentMail.Search.SameAnswer

/-!
# A cached answer is the answer only where nothing was left out

For each thing that the key leaves out there is a backend that tells two requests apart, so that
the agreement of `SameUnkeyed` is exactly what a cached answer needs.
-/

namespace AgentMail.Search

open Base Lib List Importance ScopedSearchResponse

variable {rollout : SearchRolloutConfig} {r r₁ r₂ : Request} {q : SearchQuery}

/-! ### A backend without hits -/

/-- An index and a database in which nothing is found. -/
def silent : Backend where
  index := some fun _ _ => []
  message := fun _ => none
  message_id := fun _ _ h => by cases h
  recipientNames := fun _ => []
  productProjects := fun _ => []
  budget := fun _ _ _ => (0, 0)
  semantic := fun _ _ _ _ => []
  embedded := fun _ => true
  rank := fun _ _ _ _ _ => ([], none)
  rank_nodup := fun _ _ _ _ _ => nodup_nil

/-- The explanation of an answer. -/
def explanation (rollout : SearchRolloutConfig) (r : Request) : Option QueryExplain :=
  if r.query.explain then some (buildV3QueryExplain r.query (r.engine rollout) none) else none

/-- An index with at most one hit is read once. -/
theorem tantivySearch_few (hits : List LexicalHit) (h : hits.length ≤ 1) (q : SearchQuery) :
    tantivySearch (fun _ _ => hits) q = (retainExact (buildImportanceFilterPlan q)
      (hits.map (convertHit q.docKind))).take q.effectiveLimit := by
  unfold tantivySearch fetchLoop
  simp only
  rw [if_pos]
  by_cases hfilter : (buildImportanceFilterPlan q).needsPostFilter = true
  · rw [if_pos hfilter]
    right
    right
    left
    omega
  · exact Or.inr (Or.inl (Bool.eq_false_iff.mpr hfilter))

theorem tantivySearch_none (q : SearchQuery) : tantivySearch (fun _ _ => []) q = [] := by
  have hretain : retainExact (buildImportanceFilterPlan q) [] = [] := by
    unfold retainExact
    split <;> rfl
  rw [tantivySearch_few [] (by decide), map_nil, hretain, take_nil]

theorem canonicalize_nil (B : Backend) (q : SearchQuery) (preserve : Bool) :
    canonicalizeMessageResults B q [] preserve = [] := by
  unfold canonicalizeMessageResults
  split <;> rfl

theorem executeTextSearch_lexical (h : r.engine rollout = .lexical) (B : Backend) :
    executeTextSearch rollout B r = lexicalSearch B r := by
  unfold executeTextSearch
  rw [h]

theorem executeTextSearch_hybrid (h : r.engine rollout ≠ .lexical) (B : Backend) :
    executeTextSearch rollout B r = hybridSearch B (r.engine rollout) r := by
  unfold executeTextSearch
  cases hengine : r.engine rollout <;> first | rfl | exact absurd hengine h

/-- An answer of the lexical route, from the candidates. -/
theorem answer_lexical {B : Backend} {index : LexicalAsk → Nat → List LexicalHit}
    {page : List SearchResult} (h : r.engine rollout = .lexical) (hindex : B.index = some index)
    (hpage : canonicalizeMessageResults B r.query (tantivySearch index r.query)
      (decide (r.options.searchEngine = some .lexical)) = page) (hfew : page.length ≤ 1) :
    executeTextSearch rollout B r = .ok (finishScopedResponse page r (explanation rollout r)) := by
  have hlimit := r.query.effectiveLimit_pos
  rw [executeTextSearch_lexical h, lexicalSearch, hindex]
  simp only [hpage, explanation, h]
  rw [take_of_length_le (by omega)]

/-- An answer of the route of both tiers, from the page. -/
theorem answer_hybrid {B : Backend} {index : LexicalAsk → Nat → List LexicalHit}
    {page : List SearchResult} (h : r.engine rollout ≠ .lexical) (hindex : B.index = some index)
    (hpage : hybridPage B index (r.engine rollout) r.query = (page, none)) (hfew : page.length ≤ 1) :
    executeTextSearch rollout B r = .ok (finishScopedResponse page r (explanation rollout r)) := by
  have hlimit := r.query.effectiveLimit_pos
  rw [executeTextSearch_hybrid h, hybridSearch_eq, hindex]
  simp only [hpage, explanation]
  rw [take_of_length_le (by omega)]

theorem applyCursorWindow_nil (q : SearchQuery) : applyCursorWindow [] q = [] := by
  unfold applyCursorWindow
  simp only [mergeSort_nil, List.findIdx?_nil, filter_nil]
  cases q.cursor.bind SearchCursor.decode <;> rfl

theorem answer_silent (rollout : SearchRolloutConfig) (r : Request) :
    executeTextSearch rollout silent r =
      .ok (finishScopedResponse [] r (explanation rollout r)) := by
  by_cases h : r.engine rollout = .lexical
  · refine answer_lexical h rfl ?_ (Nat.zero_le 1)
    rw [tantivySearch_none, canonicalize_nil]
  · refine answer_hybrid h rfl ?_ (Nat.zero_le 1)
    unfold hybridPage
    simp only [silent, filterMap_nil, applyCursorWindow_nil]

/-! ### What an empty answer shows -/

/-- The names of levels joined by commas determine the levels. -/
theorem joined_injective {l l' : List Importance} (h : l ≠ []) (h' : l' ≠ [])
    (heq : ", ".toList.intercalate (l.map asStr) =
      ", ".toList.intercalate (l'.map asStr)) : l = l' := by
  induction l generalizing l' with
  | nil => exact absurd rfl h
  | cons a l ih =>
    cases l' with
    | nil => exact absurd rfl h'
    | cons b l' =>
      have hcons : ∀ (a : Importance) (c : Importance) (m : List Importance),
          ", ".toList.intercalate ((a :: c :: m).map asStr) =
            a.asStr ++ (", ".toList ++ ", ".toList.intercalate ((c :: m).map asStr)) := by
        intro a c m
        simp [List.intercalate]
      have hone : ∀ a : Importance, ", ".toList.intercalate ([a].map asStr) = a.asStr := by
        intro a
        simp [List.intercalate]
      cases l with
      | nil =>
        cases l' with
        | nil =>
          rw [hone, hone] at heq
          cases a <;> cases b <;> first | rfl | exact absurd heq (by decide)
        | cons d l' =>
          rw [hone, hcons] at heq
          cases a <;> cases b <;> simp [asStr] at heq
      | cons c l =>
        cases l' with
        | nil =>
          rw [hone, hcons] at heq
          cases a <;> cases b <;> simp [asStr] at heq
        | cons d l' =>
          rw [hcons, hcons] at heq
          have hab : a = b := by
            cases a <;> cases b <;> first | rfl | simp [asStr] at heq
          subst hab
          have hrest := append_cancel_left (append_cancel_left heq)
          rw [ih (by simp) (by simp) hrest]

theorem importanceDetail_injective {l l' : List Importance} (h : l ≠ []) (h' : l' ≠ [])
    (heq : importanceDetail l = importanceDetail l') : l = l' := by
  unfold importanceDetail at heq
  rw [append_assoc, append_assoc] at heq
  exact joined_injective h h' (append_cancel_right (append_cancel_left heq))

theorem filter_suggest (k kind label : Text) (detail : Option Text) (cause : Bool) :
    (suggest cause kind label detail).filter (fun s => decide (s.kind = k)) =
      if kind = k then suggest cause kind label detail else [] := by
  unfold suggest
  cases cause with
  | false => simp only [Bool.false_eq_true, if_false, filter_nil, ite_self]
  | true =>
    simp only [if_true, filter_singleton, Bool.cond_decide]

theorem filter_typo (assistance : Option QueryAssistance) {k : Text} (hk : "fix_typo".toList ≠ k) :
    ((assistance.map fun a => a.didYouMean.map typoSuggestion).getD []).filter
      (fun s => decide (s.kind = k)) = [] := by
  cases assistance with
  | none => rfl
  | some a =>
    rw [filter_eq_nil_iff]
    intro s hs
    obtain ⟨hint, -, rfl⟩ := mem_map.mp hs
    exact fun h => hk (of_decide_eq_true h)

/-- The suggestion about levels, among all suggestions. -/
theorem filter_importance (q : SearchQuery) (assistance : Option QueryAssistance) (cause : Bool) :
    (filterSuggestions q assistance ++ suggest cause "simplify_query".toList
      "Simplify search terms".toList (some "Try fewer or broader keywords.".toList)).filter
        (fun s => decide (s.kind = "drop_importance_filter".toList)) =
      suggest (!q.importance.isEmpty) "drop_importance_filter".toList
        "Remove importance filter".toList (some (importanceDetail q.importance)) := by
  unfold filterSuggestions
  rw [filter_append, filter_append, filter_append, filter_append,
    filter_append, filter_append, filter_typo assistance (by decide), filter_suggest,
    filter_suggest, filter_suggest, filter_suggest, filter_suggest, filter_suggest,
    if_neg (by decide), if_pos rfl, if_neg (by decide), if_neg (by decide), if_neg (by decide),
    if_neg (by decide)]
  simp only [append_nil, nil_append]

/-- The guidance of an empty answer determines the levels. -/
theorem importance_of_guidance {p q : SearchQuery} {a b : Option QueryAssistance}
    (h : generateZeroResultGuidance p 0 a = generateZeroResultGuidance q 0 b) :
    p.importance = q.importance := by
  unfold generateZeroResultGuidance at h
  simp only [Nat.lt_irrefl, if_false, Option.some.injEq, ZeroResultGuidance.mk.injEq] at h
  have hfilter := congrArg (List.filter fun s : RecoverySuggestion =>
    decide (s.kind = "drop_importance_filter".toList)) h.2
  rw [filter_importance, filter_importance] at hfilter
  by_cases hp : p.importance = [] <;> by_cases hq : q.importance = []
  · rw [hp, hq]
  · simp [suggest, hp, hq] at hfilter
  · simp [suggest, hp, hq] at hfilter
  · apply importanceDetail_injective hp hq
    simpa [suggest, hp, hq] using hfilter

/-- Texts that are explained in the same words are the same. -/
theorem text_of_explain {p q : SearchQuery} {e f : SearchEngine}
    (h : (buildV3QueryExplain p e none).normalizedQuery =
      (buildV3QueryExplain q f none).normalizedQuery) : p.text = q.text := by
  unfold buildV3QueryExplain at h
  simp only at h
  cases hp : p.text <;> cases hq : q.text <;> rw [hp, hq] at h
  · exact absurd h (by simp)
  · exact absurd h (by simp)
  · simpa using h

/-! ### A backend with one row -/

/-- A hit that the exact levels of a query retain. -/
def levelled (q : SearchQuery) (hit : LexicalHit) : LexicalHit :=
  { hit with importance := q.importance.head?.map asStr }

theorem retain_levelled (q : SearchQuery) (hit : LexicalHit) :
    retainExact (buildImportanceFilterPlan q) [convertHit q.docKind (levelled q hit)] =
      [convertHit q.docKind (levelled q hit)] := by
  unfold retainExact buildImportanceFilterPlan
  cases hlevels : q.importance with
  | nil => rfl
  | cons level levels =>
    have hmem : level ∈ [low, .normal, .high, .urgent].filter (· ∈ level :: levels) :=
      mem_filter.mpr ⟨by cases level <;> decide, decide_eq_true mem_cons_self⟩
    have hname : (convertHit q.docKind (levelled q hit)).importance = some level.asStr := by
      simp only [convertHit, levelled, hlevels, List.head?_cons, Option.map_some]
    simp only [isEmpty_cons, Bool.false_eq_true, if_false, filter_singleton, hname, Option.any_some]
    rw [decide_eq_true (mem_map.mpr ⟨level, hmem, rfl⟩)]
    rfl

/-- A hit of an id, with metadata that is never read. -/
def hitOf (id : I64) : LexicalHit where
  docId := id
  score := .negInfinity
  snippet := none
  subject := none
  sender := none
  projectId := none
  importance := none
  threadId := none
  createdTs := none

theorem tantivySearch_levelled (q : SearchQuery) (hit : LexicalHit) :
    tantivySearch (fun _ _ => [levelled q hit]) q = [convertHit q.docKind (levelled q hit)] := by
  rw [tantivySearch_few [levelled q hit] (Nat.le_refl 1), map_singleton, retain_levelled]
  exact take_of_length_le q.effectiveLimit_pos

variable {x : SearchResult}

theorem canonicalize_singleton (B : Backend) {preserve : Bool} (h : q.isMessage = true) :
    canonicalizeMessageResults B q [x] preserve = (canonicalResult B q preserve x).toList := by
  unfold canonicalizeMessageResults
  rw [if_pos h]
  cases hx : canonicalResult B q preserve x <;> simp [dedupById, hx]

/-- A database with one message, and an index that finds it. -/
def holding (q : SearchQuery) (d : ThreadMessageRow) : Backend :=
  { silent with
    index := some fun _ _ => [levelled q (hitOf d.id)]
    message := fun id => if id = d.id then some d else none
    message_id := fun id e h => by
      rw [Option.ite_none_right_eq_some] at h
      rw [← Option.some.inj h.2, h.1]
    rank := fun _ _ _ _ _ => ([(d.id, .negInfinity)], none)
    rank_nodup := fun _ _ _ _ _ => nodup_singleton _ }

/-- The row as it is on the page. -/
def pageRow (q : SearchQuery) (d : ThreadMessageRow) : SearchResult :=
  { rowResult q d with score := some .negInfinity }

variable {d : ThreadMessageRow}

/-- An accepted row is hydrated, whatever hit it was found by. -/
theorem canonicalResult_row {B : Backend} {preserve : Bool} (hproduct : q.productId = none)
    (hrecipients : queryNeedsRecipientFilter q = false)
    (hmatches : detailMatchesQueryFilters q d none none = true)
    (hmessage : B.message x.id = some d) : canonicalResult B q preserve x = some (hydrate x d) := by
  have hproject : (q.projectId.all fun p => decide (d.projectId = p)) = true := by
    simp only [detailMatchesQueryFilters, Bool.and_eq_true] at hmatches
    exact hmatches.1.1.1.1.1.1
  unfold canonicalResult
  simp only [hproduct, hrecipients, hmessage, Option.filter_some, hproject, if_true,
    Option.map_none, Bool.false_eq_true, if_false, hmatches]

/-- A token that was decoded has a finite score. -/
theorem finite_of_decode {token : Text} {c : SearchCursor}
    (h : SearchCursor.decode token = some c) : c.score.isFinite = true := by
  unfold SearchCursor.decode at h
  simp only [Option.bind_eq_some_iff, Option.ite_none_right_eq_some, Option.map_eq_some_iff] at h
  obtain ⟨_, -, _, -, _, -, score, -, hfinite, _, -, _, -, rfl⟩ := h
  exact hfinite

/-- The lowest score is on every page that the row is not the token of. -/
theorem window_singleton (hscore : x.score = some .negInfinity) (hranking : q.ranking = .relevance)
    (hid : ∀ c, q.cursor.bind SearchCursor.decode = some c → c.id ≠ x.id) :
    applyCursorWindow [x] q = [x] := by
  unfold applyCursorWindow
  simp only [mergeSort_singleton, hranking]
  cases hcursor : q.cursor.bind SearchCursor.decode with
  | none => rfl
  | some c =>
    have hne : decide (x.id = c.id) = false := decide_eq_false fun h => hid c hcursor h.symm
    have hbelow : (cursorSortScore x .relevance).lt' c.score = true := by
      obtain ⟨token, -, hdecode⟩ := Option.bind_eq_some_iff.mp hcursor
      simp only [cursorSortScore, hscore, Option.getD_some]
      exact Binary64.negInfinity_lt (finite_of_decode hdecode)
    simp only [List.findIdx?_singleton, hne, Bool.false_and, Bool.false_eq_true, if_false,
      filter_singleton, hbelow, Bool.true_or, cond_true]

/-- The page of the one row that is ranked. -/
theorem page_singleton {lexical semantic : List SearchResult} (x : SearchResult) {id : I64}
    (hx : rankedResult lexical semantic (id, .negInfinity) = some x) (hid : x.id = id)
    (hscore : x.score = some .negInfinity) (h : OnRoute rollout r)
    (hcursor : ∀ c, r.query.cursor.bind SearchCursor.decode = some c → c.id ≠ id) :
    applyCursorWindow ([(id, Binary64.negInfinity)].filterMap (rankedResult lexical semantic))
      r.query = [x] := by
  rw [filterMap_cons, hx, filterMap_nil]
  exact window_singleton hscore h.ranking fun c hc => hid ▸ hcursor c hc

theorem answer_holding (h : OnRoute rollout r) (hd : Reaches rollout r d) :
    executeTextSearch rollout (holding r.query d) r =
      .ok (finishScopedResponse [pageRow r.query d] r (explanation rollout r)) := by
  have hmessage : (holding r.query d).message d.id = some d := if_pos rfl
  by_cases hengine : r.engine rollout = .lexical
  · refine answer_lexical hengine rfl ?_ (Nat.le_refl 1)
    rw [tantivySearch_levelled, canonicalize_singleton _ h.message,
      canonicalResult_row h.productId h.recipients hd.1 hmessage]
    rfl
  · refine answer_hybrid hengine rfl ?_ (Nat.le_refl 1)
    unfold hybridPage
    have hlexical : ∀ n, lexicalCandidates (holding r.query d)
        (fun _ _ => [levelled r.query (hitOf d.id)]) (candidateQuery r.query) n =
        [pageRow r.query d] := by
      intro n
      unfold lexicalCandidates
      have hfound := tantivySearch_levelled
        { candidateQuery r.query with cursor := none, limit := some n } (hitOf d.id)
      have hsame : levelled { candidateQuery r.query with cursor := none, limit := some n }
          (hitOf d.id) = levelled r.query (hitOf d.id) := rfl
      rw [hsame] at hfound
      rw [hfound, canonicalize_singleton _ (q := candidateQuery r.query) h.message,
        canonicalResult_row (q := candidateQuery r.query) h.productId h.recipients hd.1 hmessage]
      rfl
    rw [Prod.mk.injEq]
    refine ⟨page_singleton (pageRow r.query d) ?_ rfl rfl h (hd.2 hengine), rfl⟩
    rw [hlexical]
    have hid : decide ((pageRow r.query d).id = d.id) = true := decide_eq_true rfl
    simp only [rankedResult, List.find?_singleton, hid, if_true, Option.some_or, Option.map_some]
    rfl

/-! ### A backend with a hit without a row -/

/-- An index that finds a hit whose message is gone. -/
def stray (q : SearchQuery) (hit : LexicalHit) : Backend :=
  { silent with index := some fun _ _ => [levelled q hit] }

theorem Importance.parse_asStr (level : Importance) : parse level.asStr = some level := by
  cases level <;> decide

/-- The first level of a query is one of its levels. -/
theorem importanceMatches_head (q : SearchQuery) :
    importanceMatches q (q.importance.head?.map asStr) = true := by
  unfold importanceMatches
  cases hlevels : q.importance with
  | nil => rfl
  | cons level levels =>
    simp only [List.head?_cons, Option.map_some, Option.bind_some, parse_asStr,
      Option.any_some, mem_cons_self, decide_true, Bool.or_true]

theorem rawResultMatches_levelled {hit : LexicalHit}
    (h : rawResultMatchesQueryFilters q (convertHit q.docKind hit) none = true) :
    rawResultMatchesQueryFilters q (convertHit q.docKind (levelled q hit)) none = true := by
  simp only [rawResultMatchesQueryFilters, Bool.and_eq_true] at h ⊢
  exact ⟨⟨h.1.1, importanceMatches_head q⟩, h.2⟩

theorem answer_stray (h : OnRoute rollout r) (hengine : r.engine rollout = .lexical)
    {hit : LexicalHit}
    (hhit : rawResultMatchesQueryFilters r.query (convertHit r.query.docKind hit) none = true) :
    executeTextSearch rollout (stray r.query hit) r = .ok (finishScopedResponse
      (if r.options.searchEngine = some .lexical then
        [convertHit r.query.docKind (levelled r.query hit)] else [])
      r (explanation rollout r)) := by
  refine answer_lexical hengine rfl ?_ (by split <;> simp)
  rw [tantivySearch_levelled, canonicalize_singleton _ h.message]
  unfold canonicalResult
  simp only [h.productId, stray, silent, Option.map_none, Option.filter_none,
    rawResultMatches_levelled hhit, Bool.and_true, decide_eq_true_eq]
  split <;> rfl

/-! ### A backend with one vector -/

/-- Vectors that one text is near to. -/
def near (t : Text) (d : ThreadMessageRow) : Backend :=
  { silent with
    message := fun id => if id = d.id then some d else none
    message_id := fun id e h => by
      rw [Option.ite_none_right_eq_some] at h
      rw [← Option.some.inj h.2, h.1]
    budget := fun _ _ _ => (0, 1)
    semantic := fun text _ docKind _ =>
      if text = t then [⟨docKind, d.id, none, .negInfinity⟩] else []
    rank := fun _ _ _ _ _ => ([(d.id, .negInfinity)], none)
    rank_nodup := fun _ _ _ _ _ => nodup_singleton _ }

theorem lexicalCandidates_near (t : Text) (d : ThreadMessageRow) (q : SearchQuery) (n : Nat) :
    lexicalCandidates (near t d) (fun _ _ => []) q n = [] := by
  unfold lexicalCandidates
  rw [tantivySearch_none, canonicalize_nil]

theorem semanticCandidates_near (t : Text) (hmessage : q.isMessage = true)
    (hproduct : q.productId = none) (hrecipients : queryNeedsRecipientFilter q = false)
    (hmatches : detailMatchesQueryFilters q d none none = true) :
    semanticCandidates (near t d) q 1 = if q.text = t then [pageRow q d] else [] := by
  have hfilter : ∀ l : List SearchResult, l.filter (near t d).embedded = l :=
    fun l => filter_eq_self.mpr fun _ _ => rfl
  unfold semanticCandidates
  rw [if_neg (by decide), hfilter]
  by_cases htext : q.text = t
  · have hhits : (near t d).semantic q.text q.projectId q.docKind 1 =
        [⟨q.docKind, d.id, none, .negInfinity⟩] := if_pos htext
    rw [if_pos htext, hhits, map_singleton, canonicalize_singleton _ hmessage,
      canonicalResult_row hproduct hrecipients hmatches (if_pos rfl)]
    rfl
  · have hhits : (near t d).semantic q.text q.projectId q.docKind 1 = [] := if_neg htext
    rw [if_neg htext, hhits, map_nil, canonicalize_nil]

theorem answer_near (h : OnRoute rollout r) (hengine : r.engine rollout ≠ .lexical) (t : Text)
    (hd : Reaches rollout r d) :
    executeTextSearch rollout (near t d) r = .ok (finishScopedResponse
      (if r.query.text = t then [pageRow r.query d] else []) r (explanation rollout r)) := by
  refine answer_hybrid hengine rfl ?_ (by split <;> simp)
  have hsemantic : semanticCandidates (near t d) (candidateQuery r.query) 1 =
      if r.query.text = t then [pageRow r.query d] else [] :=
    semanticCandidates_near (q := candidateQuery r.query) t h.message h.productId h.recipients hd.1
  unfold hybridPage
  rw [Prod.mk.injEq]
  refine ⟨?_, rfl⟩
  change applyCursorWindow ([(d.id, Binary64.negInfinity)].filterMap (rankedResult
    (lexicalCandidates (near t d) (fun _ _ => []) (candidateQuery r.query) _)
    (semanticCandidates (near t d) (candidateQuery r.query) 1))) r.query = _
  rw [lexicalCandidates_near, hsemantic]
  by_cases htext : r.query.text = t
  · have hid : decide ((pageRow r.query d).id = d.id) = true := decide_eq_true rfl
    rw [if_pos htext]
    refine page_singleton (pageRow r.query d) ?_ rfl rfl h (hd.2 hengine)
    simp only [rankedResult, List.find?_nil, List.find?_singleton, hid, if_true, Option.none_or,
      Option.map_some]
    rfl
  · rw [if_neg htext, filterMap_cons, filterMap_nil]
    simp only [rankedResult, List.find?_nil, Option.none_or, Option.map_none]
    exact applyCursorWindow_nil r.query

/-! ### What the answers determine -/

/-- The decision on the only result of a page, as the response shows it. -/
def decisionOf (out : List ScopedSearchResult × ScopeAuditSummary) : Option ScopeDecision :=
  match out.1 with
  | y :: _ => some y.scope
  | [] => out.2.entries.head?.map fun e => ⟨e.verdict, e.reason⟩

theorem decisionOf_applyScope (x : SearchResult) (ctx : ScopeContext)
    (redaction : RedactionPolicy) :
    decisionOf (applyScope [x] ctx redaction) = some (evaluateScope x ctx) := by
  have hcases : ∀ D : ScopeDecision, evaluateScope x ctx = D →
      decisionOf (scopeStep ctx redaction ([], ⟨1, 0, 0, 0, []⟩) x) = some D := by
    intro D hD
    obtain ⟨verdict, reason⟩ := D
    unfold scopeStep
    rw [hD]
    cases verdict <;> rfl
  exact hcases _ rfl

/-- Where two requests show one answer to a page, they decide about it alike. -/
theorem decision_of_answer (hkey : SameKeyed rollout r₁ r₂) {viewer : ViewerIdentity}
    (hviewer : r₁.options.scope.viewer = some viewer) {e₁ e₂ : Option QueryExplain}
    (h : finishScopedResponse [x] r₁ e₁ = finishScopedResponse [x] r₂ e₂) :
    evaluateScope x r₁.options.scope = evaluateScope x r₂.options.scope := by
  have hviewer' : r₂.options.scope.viewer = some viewer :=
    hkey.authorization.viewer.symm.trans hviewer
  have hresults := congrArg results h
  have haudit := congrArg auditSummary h
  simp only [finishScopedResponse, hviewer, hviewer', Option.isSome_some, if_true,
    Option.some.injEq] at hresults haudit
  have hpair := congrArg decisionOf (Prod.ext hresults haudit)
  rw [decisionOf_applyScope, decisionOf_applyScope] at hpair
  exact Option.some.inj hpair

theorem holding_congr {p q : SearchQuery} (h : p.importance = q.importance)
    (d : ThreadMessageRow) : holding p d = holding q d := by
  unfold holding levelled
  rw [h]

/-- Requests that get one answer from every backend agree in what the key leaves out. -/
theorem sameUnkeyed_of_answers (hkey : SameKeyed rollout r₁ r₂) (h₁ : OnRoute rollout r₁)
    (h₂ : OnRoute rollout r₂)
    (hall : ∀ B, executeTextSearch rollout B r₁ = executeTextSearch rollout B r₂) :
    SameUnkeyed rollout r₁ r₂ := by
  have hsilent := hall silent
  rw [answer_silent, answer_silent, Except.ok.injEq] at hsilent
  have himportance : r₁.query.importance = r₂.query.importance :=
    importance_of_guidance (congrArg guidance hsilent)
  have hquery := query_respelled hkey himportance h₁ h₂
  have hkind : r₂.query.docKind = r₁.query.docKind := hkey.scope.docKind.symm
  refine
    { assistance := congrArg assistance hsilent
      importance := himportance
      explained := ?explained
      embedded := ?embedded
      named := ?named
      policies := ?policies }
  case explained =>
    intro hexplain
    have hsame := congrArg explain hsilent
    have hexplain' : r₂.query.explain = true := hkey.scope.explain.symm.trans hexplain
    simp only [finishScopedResponse, explanation, hexplain, hexplain', if_true, Option.map_some,
      Option.some.injEq] at hsame
    have hnormalized := congrArg QueryExplain.normalizedQuery hsame
    exact text_of_explain (e := r₁.engine rollout) (f := r₂.engine rollout) hnormalized
  case embedded =>
    intro hengine d hd
    have hnear := hall (near r₁.query.text d)
    rw [answer_near h₁ hengine _ hd, answer_near h₂ (hkey.engine ▸ hengine) _
      ((reaches_congr hkey hquery d).mpr hd), Except.ok.injEq, if_pos rfl] at hnear
    have hcount := congrArg sqlRowCount hnear
    by_contra htext
    rw [if_neg fun h => htext h.symm] at hcount
    cases hcount
  case named =>
    intro hengine hit hhit
    have hhit' : rawResultMatchesQueryFilters r₂.query (convertHit r₂.query.docKind hit) none =
        true := by
      rw [hkind, hquery]
      exact hhit
    have hstray : stray r₂.query hit = stray r₁.query hit := by
      unfold stray levelled
      rw [himportance]
    have hanswers := hall (stray r₁.query hit)
    rw [answer_stray h₁ hengine hhit, ← hstray, answer_stray h₂ (hkey.engine ▸ hengine) hhit',
      Except.ok.injEq] at hanswers
    have hcount := congrArg sqlRowCount hanswers
    simp only [finishScopedResponse] at hcount
    by_cases h : r₁.options.searchEngine = some .lexical <;>
      by_cases h' : r₂.options.searchEngine = some .lexical
    · exact iff_of_true h h'
    · simp [h, h'] at hcount
    · simp [h, h'] at hcount
    · exact iff_of_false h h'
  case policies =>
    intro d hd hleft
    have hanswers := hall (holding r₁.query d)
    have hd' := (reaches_congr hkey hquery d).mpr hd
    rw [answer_holding h₁ hd, holding_congr himportance, answer_holding h₂ hd',
      Except.ok.injEq] at hanswers
    have hrow : pageRow r₂.query d = pageRow r₁.query d := by
      unfold pageRow rowResult
      rw [hkind]
    rw [hrow] at hanswers
    have hleft' := hleft
    obtain ⟨viewer, hviewer, -⟩ := hleft'
    have hdecision := decision_of_answer hkey hviewer hanswers
    have hpage : LeftToPolicy (pageRow r₁.query d) r₁.options.scope := hleft
    have hpage' := (leftToPolicy_congr hkey.authorization _).mp hpage
    have hmessage : ¬ ((pageRow r₁.query d).docKind = .agent ∨
        (pageRow r₁.query d).docKind = .project) := by
      have h := h₁.message
      simp only [SearchQuery.isMessage, Bool.or_eq_true, decide_eq_true_eq] at h
      change ¬ (r₁.query.docKind = .agent ∨ r₁.query.docKind = .project)
      rcases h with h | h <;> rw [h] <;> decide
    rw [evaluateScope_left hmessage hpage, evaluateScope_left hmessage hpage'] at hdecision
    exact policyDecision_injective hdecision

/-! ### The cache -/

/-- Two requests with one key get one answer from every index and database exactly where they
agree in what the key leaves out. -/
theorem cachedAnswer_iff (rollout : SearchRolloutConfig) (pool : Text) (epoch : Nat)
    (r₁ r₂ : Request) (h₁ : cacheAllowed rollout r₁ = true) (h₂ : cacheAllowed rollout r₂ = true)
    (hkey : buildSearchCacheKey rollout pool epoch r₁ = buildSearchCacheKey rollout pool epoch r₂) :
    (∀ B, executeTextSearch rollout B r₁ = executeTextSearch rollout B r₂) ↔
      SameUnkeyed rollout r₁ r₂ := by
  have hkeyed := sameKeyed_of_key hkey
  constructor
  · exact sameUnkeyed_of_answers hkeyed (onRoute h₁) (onRoute h₂)
  · intro hsame B
    exact executeTextSearch_congr hkeyed hsame (onRoute h₁) (onRoute h₂) B

/-- A date and time library that recognises nothing. -/
def noDates : Chrono := ⟨fun _ => none, fun _ => none, fun _ => none, fun _ => []⟩

/-- A query for messages with a text. -/
def worded (text : String) : SearchQuery := { SearchQuery.default with text := text.toList }

theorem cachedAnswer_iff_sample :
    (∀ B, executeTextSearch .default B ⟨worded "deploy", .default, none⟩ =
      executeTextSearch .default B ⟨{ worded "deploy" with limit := some 50 }, .default, none⟩) ↔
      SameUnkeyed .default ⟨worded "deploy", .default, none⟩
        ⟨{ worded "deploy" with limit := some 50 }, .default, none⟩ :=
  cachedAnswer_iff .default [] 0 _ _ (by decide) (by decide) rfl

/-- A sender that is named in the text. -/
def hinted : Request :=
  .ofSearch noDates (fun _ => none) (worded "deploy from:BlueLake") .default

/-- The same sender as a filter. -/
def filtered : Request := .ofSearch noDates (fun _ => none)
  { worded "deploy" with agentName := some "BlueLake".toList, direction := some .outbox } .default

/-- The two have one key, but only the first answer reports the hint, also where nothing is
found. -/
theorem cachedAnswer_replays_hint :
    cacheAllowed .default hinted = true ∧ cacheAllowed .default filtered = true ∧
      buildSearchCacheKey .default [] 0 hinted = buildSearchCacheKey .default [] 0 filtered ∧
      executeTextSearch .default silent hinted ≠ executeTextSearch .default silent filtered := by
  have hquery : hinted.query = filtered.query := by decide
  have hassistance : hinted.assistance ≠ filtered.assistance := by decide
  refine ⟨by decide, by decide, ?_, ?_⟩
  · have hkey : ∀ (q : SearchQuery) (a b : Option QueryAssistance),
        buildSearchCacheKey .default [] 0 ⟨q, .default, a⟩ =
          buildSearchCacheKey .default [] 0 ⟨q, .default, b⟩ := fun _ _ _ => rfl
    have hhinted : hinted = ⟨filtered.query, .default, hinted.assistance⟩ := by decide
    have hfiltered : filtered = ⟨filtered.query, .default, filtered.assistance⟩ := by decide
    rw [hhinted, hfiltered]
    exact hkey _ _ _
  · rw [answer_silent, answer_silent]
    intro h
    exact hassistance (congrArg assistance (Except.ok.inj h))

end AgentMail.Search
