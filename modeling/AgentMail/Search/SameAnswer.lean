import AgentMail.Search.Unkeyed

/-!
# Requests that agree get one answer

Where two requests have one key and agree in what the key leaves out, the candidates, the page and
the response are the same.
-/

namespace AgentMail.Search

open Base Lib

variable {rollout : SearchRolloutConfig} {r₁ r₂ : Request}

/-! ### Scope -/

/-- A result without a sender's id, or of a row that reaches the page, is decided alike. -/
theorem decided_alike (hkey : SameKeyed rollout r₁ r₂) (hsame : SameUnkeyed rollout r₁ r₂)
    {x : SearchResult}
    (hx : x.fromAgentId = none ∨ ∃ d, Reaches rollout r₁ d ∧ OfRow r₁.query x d) :
    evaluateScope x r₁.options.scope = evaluateScope x r₂.options.scope := by
  apply evaluateScope_congr hkey.authorization
  intro hleft
  rcases hx with hnone | ⟨d, hreaches, -, hid, hproject, hsender⟩
  · unfold lookupSenderPolicy
    rw [hnone]
    cases x.projectId <;> rfl
  · have hrow := (leftToPolicy_fields (y := rowResult r₁.query d) hid hproject hsender _).mp hleft
    rw [lookupSenderPolicy_fields (y := rowResult r₁.query d) hproject hsender,
      lookupSenderPolicy_fields (y := rowResult r₁.query d) hproject hsender]
    exact hsame.policies d hreaches hrow

theorem applyScope_congr {c₁ c₂ : ScopeContext} {redaction : RedactionPolicy}
    {results : List SearchResult} (hviewer : c₁.viewer = c₂.viewer)
    (h : ∀ x ∈ results, evaluateScope x c₁ = evaluateScope x c₂) :
    applyScope results c₁ redaction = applyScope results c₂ redaction := by
  unfold applyScope
  apply List.foldl_ext
  intro acc x hx
  unfold scopeStep
  rw [h x hx, hviewer]

/-! ### The response -/

/-- Whether a scope is a set of projects can be read from its stream. -/
theorem projectSet_of_hash {s t : ScopePolicy} (h : hashScope s = hashScope t) :
    s.isProjectSet = t.isProjectSet := by
  cases s <;> cases t <;> first | rfl | simp [hashScope, hashText] at h

theorem scope_of_key (hkey : SameKeyed rollout r₁ r₂)
    (himportance : r₁.query.importance = r₂.query.importance) :
    hashScope r₁.query.scope = hashScope r₂.query.scope := by
  have hlevels := hkey.scope.levels
  rw [himportance] at hlevels
  exact List.append_cancel_left hlevels

theorem facets_respelled {q p : SearchQuery} (h : hashScope q.scope = hashScope p.scope) :
    collectQueryFacets (q.respelled p) = collectQueryFacets q := by
  have hset : (q.respelled p).scope.isProjectSet = q.scope.isProjectSet :=
    (projectSet_of_hash h).symm
  unfold collectQueryFacets
  rw [hset]
  rfl

theorem explain_respelled {q p : SearchQuery} (htext : q.text = p.text)
    (hscope : hashScope q.scope = hashScope p.scope) (engine : SearchEngine)
    (audit : Option (List Text)) :
    buildV3QueryExplain (q.respelled p) engine audit = buildV3QueryExplain q engine audit := by
  have hsame : (q.respelled p).text = q.text := htext.symm
  unfold buildV3QueryExplain
  rw [facets_respelled hscope, hsame]

theorem guidance_respelled {q p : SearchQuery} (htext : trim q.text = trim p.text) (n : Nat)
    (assistance : Option QueryAssistance) :
    generateZeroResultGuidance (q.respelled p) n assistance =
      generateZeroResultGuidance q n assistance := by
  unfold generateZeroResultGuidance
  have hfilters : filterSuggestions (q.respelled p) assistance = filterSuggestions q assistance :=
    rfl
  have htrim : trim (q.respelled p).text = trim q.text := htext.symm
  rw [hfilters, htrim]

/-- The response to a page on which the two requests decide alike. -/
theorem finish_congr (hkey : SameKeyed rollout r₁ r₂) (hsame : SameUnkeyed rollout r₁ r₂)
    (hquery : r₂.query = r₁.query.respelled r₂.query) {page : List SearchResult}
    (hpage : ∀ x ∈ page, evaluateScope x r₁.options.scope = evaluateScope x r₂.options.scope)
    (explain : Option QueryExplain) :
    finishScopedResponse page r₁ explain = finishScopedResponse page r₂ explain := by
  have hscope : applyScope page r₁.options.scope r₁.options.redaction =
      applyScope page r₂.options.scope r₂.options.redaction := by
    rw [hkey.authorization.redaction]
    exact applyScope_congr hkey.authorization.viewer hpage
  have hranking : r₂.query.ranking = r₁.query.ranking := by
    rw [hquery]
    rfl
  have hguidance : ∀ n, generateZeroResultGuidance r₂.query n r₂.assistance =
      generateZeroResultGuidance r₁.query n r₁.assistance := by
    intro n
    rw [← hsame.assistance, hquery]
    exact guidance_respelled hkey.text n _
  unfold finishScopedResponse
  simp only [hscope, hkey.limit, hranking, hguidance, hsame.assistance, hkey.scope.explain,
    hkey.authorization.viewer]

/-- The explanation, where one is asked for. -/
theorem explanation_congr (hkey : SameKeyed rollout r₁ r₂) (hsame : SameUnkeyed rollout r₁ r₂)
    (hquery : r₂.query = r₁.query.respelled r₂.query) (engine : SearchEngine)
    (audit : Option (List Text)) :
    (if r₁.query.explain then some (buildV3QueryExplain r₁.query engine audit) else none) =
      if r₂.query.explain then some (buildV3QueryExplain r₂.query engine audit) else none := by
  rw [← hkey.scope.explain]
  by_cases hexplain : r₁.query.explain = true
  · rw [if_pos hexplain, if_pos hexplain, hquery,
      explain_respelled (hsame.explained hexplain) (scope_of_key hkey hsame.importance)]
  · rw [if_neg hexplain, if_neg hexplain]

/-! ### The routes -/

theorem lexicalSearch_congr (hkey : SameKeyed rollout r₁ r₂) (hsame : SameUnkeyed rollout r₁ r₂)
    (h₁ : OnRoute rollout r₁) (h₂ : OnRoute rollout r₂) (hengine : r₁.engine rollout = .lexical)
    (B : Backend) : lexicalSearch B r₁ = lexicalSearch B r₂ := by
  have hquery := query_respelled hkey hsame.importance h₁ h₂
  unfold lexicalSearch
  cases B.index with
  | none => rfl
  | some index =>
    have hraw : tantivySearch index r₂.query = tantivySearch index r₁.query := by
      rw [hquery]
      exact tantivySearch_respelled hkey.text hkey.limit index
    have hhits : ∀ x ∈ tantivySearch index r₁.query, ∃ hit,
        x = convertHit r₁.query.docKind hit := fun x hx => mem_fetchLoop hx
    have hfilters : ∀ raw preserve, canonicalizeMessageResults B r₂.query raw preserve =
        canonicalizeMessageResults B r₁.query raw preserve := by
      intro raw preserve
      rw [hquery]
      rfl
    have hcanonical : canonicalizeMessageResults B r₁.query (tantivySearch index r₁.query)
        (decide (r₁.options.searchEngine = some .lexical)) =
        canonicalizeMessageResults B r₁.query (tantivySearch index r₁.query)
        (decide (r₂.options.searchEngine = some .lexical)) :=
      canonicalize_hits h₁.productId hhits fun hit hmatches =>
        decide_eq_decide.mpr (hsame.named hengine hit hmatches)
    simp only [hraw, hfilters, ← hcanonical, ← hkey.limit,
      ← explanation_congr hkey hsame hquery .lexical none]
    rw [finish_congr hkey hsame hquery]
    intro x hx
    apply decided_alike hkey hsame
    rcases mem_canonicalize h₁.message h₁.productId h₁.recipients (List.mem_of_mem_take hx) with
      ⟨d, hrow⟩ | ⟨-, hmem⟩
    · exact Or.inr ⟨d, ⟨hrow.1, fun hne => absurd hengine hne⟩, hrow⟩
    · obtain ⟨hit, rfl⟩ := hhits x hmem
      exact Or.inl rfl

theorem paginationFetchLimit_congr {p q : SearchQuery} (hcursor : p.cursor = q.cursor)
    (hlimit : p.effectiveLimit = q.effectiveLimit) (n : Nat) :
    paginationFetchLimit p n = paginationFetchLimit q n := by
  unfold paginationFetchLimit
  rw [hcursor, hlimit]

/-- Where the texts are the same, the pages of both tiers are. -/
theorem hybridPage_respelled {q p : SearchQuery} (htext : q.text = p.text)
    (hlimit : q.effectiveLimit = p.effectiveLimit) (B : Backend)
    (index : LexicalAsk → Nat → List LexicalHit) (engine : SearchEngine) :
    hybridPage B index engine (q.respelled p) = hybridPage B index engine q := by
  have heffective : (q.respelled p).effectiveLimit = q.effectiveLimit := hlimit.symm
  have hfetch : ∀ n, paginationFetchLimit (q.respelled p) n = paginationFetchLimit q n :=
    paginationFetchLimit_congr rfl heffective
  have hlegacy : legacyCandidateLimit (q.respelled p) = legacyCandidateLimit q := by
    unfold legacyCandidateLimit
    rw [heffective]
    rfl
  have hcandidate : candidateQuery (q.respelled p) =
      { candidateQuery q with scope := p.scope, redaction := p.redaction } := by
    unfold candidateQuery
    rw [hfetch, hlegacy]
    simp only [SearchQuery.respelled, htext]
  unfold hybridPage
  simp only [hfetch, hcandidate]
  rfl

/-- Where no row reaches the page of both tiers, it is empty. -/
theorem hybridPage_eq_nil {r : Request} (h : OnRoute rollout r) (hnone : ∀ d, ¬ Reaches rollout r d)
    (B : Backend) (index : LexicalAsk → Nat → List LexicalHit) (engine : SearchEngine) :
    (hybridPage B index engine r.query).1 = [] := by
  apply List.eq_nil_iff_forall_not_mem.mpr
  intro x hx
  obtain ⟨d, hreaches, -⟩ := reaches_of_mem_page h hx
  exact hnone d hreaches

theorem reaches_congr (hkey : SameKeyed rollout r₁ r₂)
    (hquery : r₂.query = r₁.query.respelled r₂.query) (d : ThreadMessageRow) :
    Reaches rollout r₂ d ↔ Reaches rollout r₁ d := by
  unfold Reaches
  rw [hkey.engine, hkey.cursor, hquery]
  exact Iff.rfl

theorem hybridSearch_congr (hkey : SameKeyed rollout r₁ r₂) (hsame : SameUnkeyed rollout r₁ r₂)
    (h₁ : OnRoute rollout r₁) (h₂ : OnRoute rollout r₂) (hengine : r₁.engine rollout ≠ .lexical)
    (B : Backend) (engine : SearchEngine) :
    hybridSearch B engine r₁ = hybridSearch B engine r₂ := by
  have hquery := query_respelled hkey hsame.importance h₁ h₂
  rw [hybridSearch_eq, hybridSearch_eq]
  cases B.index with
  | none => rfl
  | some index =>
    have halike : ∀ x ∈ (hybridPage B index engine r₁.query).1.take r₁.query.effectiveLimit,
        evaluateScope x r₁.options.scope = evaluateScope x r₂.options.scope := fun x hx =>
      decided_alike hkey hsame (Or.inr (reaches_of_mem_page h₁ (List.mem_of_mem_take hx)))
    by_cases htext : r₁.query.text = r₂.query.text
    · have hpage : hybridPage B index engine r₂.query = hybridPage B index engine r₁.query := by
        rw [hquery]
        exact hybridPage_respelled htext hkey.limit B index engine
      simp only [hpage, ← hkey.limit, ← explanation_congr hkey hsame hquery engine _]
      rw [finish_congr hkey hsame hquery halike]
    · -- other texts are explained and embedded to the letter, so nothing of either is in the answer
      have hexplain : ¬ r₁.query.explain = true := fun h => htext (hsame.explained h)
      have hnone : ∀ d, ¬ Reaches rollout r₁ d := fun d h => htext (hsame.embedded hengine d h)
      have hnone' : ∀ d, ¬ Reaches rollout r₂ d := fun d h =>
        hnone d ((reaches_congr hkey hquery d).mp h)
      simp only [hybridPage_eq_nil h₁ hnone, hybridPage_eq_nil h₂ hnone', List.take_nil,
        ← hkey.scope.explain, if_neg hexplain]
      rw [finish_congr hkey hsame hquery (fun x hx => absurd hx List.not_mem_nil)]

/-- Requests that agree get one answer from every backend. -/
theorem executeTextSearch_congr (hkey : SameKeyed rollout r₁ r₂)
    (hsame : SameUnkeyed rollout r₁ r₂) (h₁ : OnRoute rollout r₁) (h₂ : OnRoute rollout r₂)
    (B : Backend) : executeTextSearch rollout B r₁ = executeTextSearch rollout B r₂ := by
  unfold executeTextSearch
  rw [← hkey.engine]
  split
  · rename_i hengine
    exact lexicalSearch_congr hkey hsame h₁ h₂ hengine B
  · rename_i hengine
    exact hybridSearch_congr hkey hsame h₁ h₂ hengine B _

end AgentMail.Search
