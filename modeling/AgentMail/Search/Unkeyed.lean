import AgentMail.Search.KeyFields
import AgentMail.Search.TextSearch

/-!
# What an answer reads beside its key

Two requests with one key get one answer from every index and database where they also agree in
what the key leaves out: the assistance payload, the levels in their order, the text to the letter
where it is explained or embedded, whether the lexical tier was asked for by name, and the first
policy of a sender.
-/

namespace AgentMail.Search

open Base Lib List

variable {rollout : SearchRolloutConfig} {r r₁ r₂ : Request} {q : SearchQuery}

/-! ### The route -/

/-- What the route of a cached answer requires of a request. -/
structure OnRoute (rollout : SearchRolloutConfig) (r : Request) : Prop where
  engine : r.engine rollout = .lexical ∨ r.engine rollout = .hybrid ∨ r.engine rollout = .auto
  message : r.query.isMessage = true
  ranking : r.query.ranking = .relevance
  productId : r.query.productId = none
  ackRequired : r.query.ackRequired = none
  recipients : queryNeedsRecipientFilter r.query = false

theorem onRoute (h : cacheAllowed rollout r = true) : OnRoute rollout r := by
  simp only [cacheAllowed, messageQueryRequiresSqlPlan, Bool.and_eq_true, Bool.or_eq_true,
    decide_eq_true_eq, Bool.not_eq_true', Bool.and_eq_false_imp, Bool.or_eq_false_iff,
    decide_eq_false_iff_not, not_not, Option.isSome_eq_false_iff, Option.isNone_iff_eq_none] at h
  obtain ⟨⟨hengine, hmessage⟩, hplan⟩ := h
  have hplan := hplan hmessage
  exact
    { engine := or_assoc.mp hengine
      message := hmessage
      ranking := hplan.1.1.1.1.1.1.2
      productId := hplan.1.1.1.1.1.2
      ackRequired := hplan.1.1.1.1.2
      recipients := hplan.1.1.1.2 }

/-! ### Who decides about a result -/

/-- Only the policy of its sender decides about a result. -/
def LeftToPolicy (result : SearchResult) (ctx : ScopeContext) : Prop :=
  ∃ viewer, ctx.viewer = some viewer ∧ isSender result viewer = false ∧
    isRecipient result viewer ctx = false ∧ orZero result.projectId ∈ ctx.viewerProjectIds ∧
    hasApprovedContact result ctx = false

variable {x : SearchResult}

theorem leftToPolicy_fields {y : SearchResult} (hid : x.id = y.id)
    (hproject : x.projectId = y.projectId) (hsender : x.fromAgentId = y.fromAgentId)
    (ctx : ScopeContext) : LeftToPolicy x ctx ↔ LeftToPolicy y ctx := by
  unfold LeftToPolicy isSender isRecipient hasApprovedContact
  rw [hid, hproject, hsender]

theorem lookupSenderPolicy_fields {y : SearchResult} (hproject : x.projectId = y.projectId)
    (hsender : x.fromAgentId = y.fromAgentId) (ctx : ScopeContext) :
    lookupSenderPolicy x ctx = lookupSenderPolicy y ctx := by
  unfold lookupSenderPolicy
  rw [hproject, hsender]

/-- The decision that a policy leads to. -/
def policyDecision : Option ContactPolicyKind → ScopeDecision
  | none => ⟨.deny, .senderPolicyUnavailable⟩
  | some .open => ⟨.allow, .openPolicy⟩
  | some .auto => ⟨.allow, .autoPolicy⟩
  | some .contactsOnly => ⟨.deny, .contactsOnlyDenied⟩
  | some .blockAll => ⟨.deny, .blockAllDenied⟩

theorem policyDecision_injective {a b : Option ContactPolicyKind}
    (h : policyDecision a = policyDecision b) : a = b := by
  rcases a with _ | a <;> rcases b with _ | b
  · rfl
  · cases b <;> exact absurd h (by decide)
  · cases a <;> exact absurd h (by decide)
  · cases a <;> cases b <;> first | rfl | exact absurd h (by decide)

theorem evaluateScope_left {result : SearchResult} {ctx : ScopeContext}
    (hkind : ¬ (result.docKind = .agent ∨ result.docKind = .project))
    (h : LeftToPolicy result ctx) :
    evaluateScope result ctx = policyDecision (lookupSenderPolicy result ctx) := by
  obtain ⟨viewer, hviewer, hsender, hrecipient, hproject, hcontact⟩ := h
  unfold evaluateScope
  simp only [if_neg hkind, hviewer, hsender, hrecipient, hcontact, hproject, decide_true,
    Bool.not_true, Bool.false_and, Bool.false_eq_true, if_false]
  cases lookupSenderPolicy result ctx with
  | none => rfl
  | some policy => cases policy <;> rfl

variable {o₁ o₂ : SearchOptions}

section

variable (h : SameAuthorization o₁ o₂)
include h

theorem isRecipient_congr (result : SearchResult)
    (viewer : ViewerIdentity) :
    isRecipient result viewer o₁.scope = isRecipient result viewer o₂.scope := by
  unfold isRecipient
  rw [Bool.eq_iff_iff, any_eq_true, any_eq_true]
  simp only [Bool.and_eq_true, decide_eq_true_eq]
  exact h.recipients result.id viewer.agentId

theorem hasApprovedContact_congr (result : SearchResult) :
    hasApprovedContact result o₁.scope = hasApprovedContact result o₂.scope := by
  unfold hasApprovedContact
  cases result.fromAgentId with
  | none => rfl
  | some senderId => exact decide_eq_decide.mpr (h.contacts _)

theorem leftToPolicy_congr (result : SearchResult) :
    LeftToPolicy result o₁.scope ↔ LeftToPolicy result o₂.scope := by
  unfold LeftToPolicy
  rw [h.viewer, hasApprovedContact_congr h, h.projects]
  simp only [isRecipient_congr h]

/-- A result on which the policies of its sender agree, where they count, is decided alike. -/
theorem evaluateScope_congr {result : SearchResult}
    (hpolicy : LeftToPolicy result o₁.scope →
      lookupSenderPolicy result o₁.scope = lookupSenderPolicy result o₂.scope) :
    evaluateScope result o₁.scope = evaluateScope result o₂.scope := by
  by_cases hkind : result.docKind = .agent ∨ result.docKind = .project
  · simp only [evaluateScope, if_pos hkind]
  · by_cases hleft : LeftToPolicy result o₁.scope
    · rw [evaluateScope_left hkind hleft,
        evaluateScope_left hkind ((leftToPolicy_congr h result).mp hleft), hpolicy hleft]
    · unfold evaluateScope
      simp only [if_neg hkind, h.viewer, isRecipient_congr h, hasApprovedContact_congr h,
        h.projects]
      cases hviewer : o₂.scope.viewer with
      | none => rfl
      | some viewer =>
        simp only
        by_cases hsender : isSender result viewer = true
        · simp only [if_pos hsender]
        · by_cases hrecipient : isRecipient result viewer o₂.scope = true
          · simp only [if_neg hsender, if_pos hrecipient]
          · by_cases hcontact : hasApprovedContact result o₂.scope = true
            · simp only [if_neg hsender, if_neg hrecipient, hcontact, Bool.not_true,
                Bool.and_false, Bool.false_eq_true, if_false, if_true]
            · have hproject : orZero result.projectId ∉ o₂.scope.viewerProjectIds := by
                intro hmem
                rw [leftToPolicy_congr h] at hleft
                exact hleft ⟨viewer, hviewer, Bool.eq_false_iff.mpr hsender,
                  Bool.eq_false_iff.mpr hrecipient, hmem, Bool.eq_false_iff.mpr hcontact⟩
              simp only [if_neg hsender, if_neg hrecipient, Bool.eq_false_iff.mpr hcontact,
                hproject, decide_false, Bool.not_false, Bool.and_self, if_true]

end

/-! ### What the key leaves out -/

/-- A row that the filters of a request accept, and that its page token does not stand on. -/
def Reaches (rollout : SearchRolloutConfig) (r : Request) (d : ThreadMessageRow) : Prop :=
  detailMatchesQueryFilters r.query d none none = true ∧
    (r.engine rollout ≠ .lexical → ∀ c, r.query.cursor.bind SearchCursor.decode = some c →
      c.id ≠ d.id)

/-- A row as a result. -/
def rowResult (q : SearchQuery) (d : ThreadMessageRow) : SearchResult :=
  hydrate (SearchResult.default q.docKind d.id) d

/-- The agreement that the key leaves to the requests. -/
structure SameUnkeyed (rollout : SearchRolloutConfig) (r₁ r₂ : Request) : Prop where
  /-- The payload is part of every answer. -/
  assistance : r₁.assistance = r₂.assistance
  /-- The guidance lists the levels in their order. -/
  importance : r₁.query.importance = r₂.query.importance
  /-- The explanation quotes the text. -/
  explained : r₁.query.explain = true → r₁.query.text = r₂.query.text
  /-- The text is embedded as it stands. -/
  embedded : r₁.engine rollout ≠ .lexical → ∀ d, Reaches rollout r₁ d →
    r₁.query.text = r₂.query.text
  /-- Hits without a row are kept where the lexical tier was asked for by name. -/
  named : r₁.engine rollout = .lexical →
    ∀ hit, rawResultMatchesQueryFilters r₁.query (convertHit r₁.query.docKind hit) none = true →
      (r₁.options.searchEngine = some .lexical ↔ r₂.options.searchEngine = some .lexical)
  /-- The first policy of a sender counts. -/
  policies : ∀ d, Reaches rollout r₁ d → LeftToPolicy (rowResult r₁.query d) r₁.options.scope →
    lookupSenderPolicy (rowResult r₁.query d) r₁.options.scope =
      lookupSenderPolicy (rowResult r₁.query d) r₂.options.scope

/-- A query in other words, where only what the searches do not read may differ. -/
def SearchQuery.respelled (q p : SearchQuery) : SearchQuery :=
  { q with text := p.text, limit := p.limit, scope := p.scope, redaction := p.redaction }

theorem query_respelled (hkey : SameKeyed rollout r₁ r₂)
    (himportance : r₁.query.importance = r₂.query.importance) (h₁ : OnRoute rollout r₁)
    (h₂ : OnRoute rollout r₂) : r₂.query = r₁.query.respelled r₂.query := by
  have hranking := h₁.ranking.trans h₂.ranking.symm
  have hscope := hkey.scope
  have hfilter := hkey.filter
  have hcursor := hkey.cursor
  unfold SearchQuery.respelled
  cases hq₂ : r₂.query
  rw [hq₂] at hranking himportance hcursor hscope hfilter
  obtain ⟨hproduct, hproject, hkind, hfields, hack, hdirection, hexplain, -⟩ := hscope
  obtain ⟨hname, hthread, hrange⟩ := hfilter
  simp only at hranking himportance hcursor hproduct hproject hkind hfields hack
  simp only at hdirection hexplain hname hthread hrange
  simp only [hranking, himportance, hcursor, hproduct, hproject, hkind, hfields, hack, hdirection,
    hexplain, hname, hthread, hrange]

/-! ### Candidates -/

theorem tantivySearch_respelled {p : SearchQuery} (htext : trim q.text = trim p.text)
    (hlimit : q.effectiveLimit = p.effectiveLimit) (index : LexicalAsk → Nat → List LexicalHit) :
    tantivySearch index (q.respelled p) = tantivySearch index q := by
  have hask : lexicalAsk (q.respelled p) = lexicalAsk q := by
    unfold lexicalAsk
    rw [htext]
    rfl
  have heffective : (q.respelled p).effectiveLimit = q.effectiveLimit := hlimit.symm
  unfold tantivySearch
  rw [hask, heffective]
  rfl

variable {results : List SearchResult}

theorem mem_retainExact {plan : ImportanceFilterPlan} (h : x ∈ retainExact plan results) :
    x ∈ results := by
  unfold retainExact at h
  split at h
  · exact (mem_filter.mp h).1
  · exact h

theorem mem_fetchLoop {hits : Nat → List LexicalHit} {docKind : DocKind}
    {plan : ImportanceFilterPlan} {limit maxFetchLimit fuel fetchLimit : Nat}
    (h : x ∈ fetchLoop hits docKind plan limit maxFetchLimit fuel fetchLimit) :
    ∃ hit, x = convertHit docKind hit := by
  induction fuel generalizing fetchLimit with
  | zero => cases h
  | succ fuel ih =>
    unfold fetchLoop at h
    simp only at h
    split at h
    · obtain ⟨hit, -, rfl⟩ := mem_map.mp (mem_retainExact (mem_of_mem_take h))
      exact ⟨hit, rfl⟩
    · exact ih h

theorem mem_dedupById (h : x ∈ dedupById results) : x ∈ results := by
  induction results with
  | nil => cases h
  | cons y results ih =>
    rw [dedupById, mem_cons] at h
    rcases h with rfl | h
    · exact mem_cons_self
    · exact mem_cons_of_mem y (ih (mem_filter.mp h).1)

/-- Where no hit without a row is kept anyway, it does not matter whether such hits are kept. -/
theorem canonicalize_hits {B : Backend} {e₁ e₂ : Bool} {raw : List SearchResult}
    (hproduct : q.productId = none) (hhits : ∀ x ∈ raw, ∃ hit, x = convertHit q.docKind hit)
    (hnamed : ∀ hit, rawResultMatchesQueryFilters q (convertHit q.docKind hit) none = true →
      e₁ = e₂) :
    canonicalizeMessageResults B q raw e₁ = canonicalizeMessageResults B q raw e₂ := by
  unfold canonicalizeMessageResults
  by_cases hmessage : q.isMessage = true
  · rw [if_pos hmessage, if_pos hmessage]
    apply filterMap_congr
    intro x hx
    obtain ⟨hit, rfl⟩ := hhits x (mem_dedupById hx)
    unfold canonicalResult
    simp only [hproduct, Option.map_none]
    by_cases hraw : rawResultMatchesQueryFilters q (convertHit q.docKind hit) none = true
    · rw [hnamed hit hraw]
    · rw [Bool.eq_false_iff.mpr hraw, Bool.and_false, Bool.and_false]
  · rw [if_neg hmessage, if_neg hmessage]

/-- A result that was made from an accepted row. -/
def OfRow (q : SearchQuery) (x : SearchResult) (d : ThreadMessageRow) : Prop :=
  detailMatchesQueryFilters q d none none = true ∧ x.id = d.id ∧
    x.projectId = some d.projectId ∧ x.fromAgentId = some d.senderId

theorem mem_canonicalize {B : Backend} {preserve : Bool} {raw : List SearchResult}
    (hmessage : q.isMessage = true) (hproduct : q.productId = none)
    (hrecipients : queryNeedsRecipientFilter q = false)
    (h : x ∈ canonicalizeMessageResults B q raw preserve) :
    (∃ d, OfRow q x d) ∨ (preserve = true ∧ x ∈ raw) := by
  unfold canonicalizeMessageResults at h
  rw [if_pos hmessage, mem_filterMap] at h
  obtain ⟨y, hy, hx⟩ := h
  unfold canonicalResult at hx
  simp only [hproduct, hrecipients, Option.map_none, Bool.false_eq_true, if_false] at hx
  cases hmsg : (B.message y.id).filter fun d =>
      q.projectId.all fun p => decide (d.projectId = p) with
  | none =>
    rw [hmsg] at hx
    simp only [Option.ite_none_right_eq_some, Bool.and_eq_true, Option.some.injEq] at hx
    obtain ⟨⟨hpreserve, -⟩, rfl⟩ := hx
    exact Or.inr ⟨hpreserve, mem_dedupById hy⟩
  | some d =>
    rw [hmsg] at hx
    simp only [Option.ite_none_right_eq_some, Option.some.injEq] at hx
    obtain ⟨hmatches, rfl⟩ := hx
    have hid := B.message_id _ _ (Option.filter_eq_some_iff.mp hmsg).1
    exact Or.inl ⟨d, hmatches, hid.symm, rfl, rfl⟩

/-! ### The page -/

theorem mem_applyCursorWindow (h : x ∈ applyCursorWindow results q) : x ∈ results := by
  unfold applyCursorWindow at h
  simp only at h
  split at h
  · exact (mergeSort_perm _ _).mem_iff.mp h
  · split at h
    · exact (mergeSort_perm _ _).mem_iff.mp (mem_of_mem_drop h)
    · exact (mergeSort_perm _ _).mem_iff.mp (mem_filter.mp h).1

/-- By relevance, the row that the token stands on is not on the page. -/
theorem id_ne_of_mem_window {c : SearchCursor} (hnodup : (results.map (·.id)).Nodup)
    (hranking : q.ranking = .relevance) (hcursor : q.cursor.bind SearchCursor.decode = some c)
    (h : x ∈ applyCursorWindow results q) : c.id ≠ x.id := by
  have hsorted : ((results.mergeSort (windowLe q.ranking)).map (·.id)).Nodup :=
    ((mergeSort_perm _ _).map _).nodup_iff.mpr hnodup
  unfold applyCursorWindow at h
  simp only [hcursor, hranking, decide_true, Bool.true_or, Bool.and_true] at h hsorted
  intro heq
  split at h
  · rename_i i hfind
    obtain ⟨hi, hat, -⟩ := List.findIdx?_eq_some_iff_getElem.mp hfind
    obtain ⟨j, hj, hjx⟩ := mem_iff_getElem.mp h
    rw [length_drop] at hj
    rw [getElem_drop] at hjx
    have hfirst : i < ((results.mergeSort (windowLe .relevance)).map (·.id)).length := by
      rw [length_map]
      omega
    have hlater : i + 1 + j < ((results.mergeSort (windowLe .relevance)).map (·.id)).length := by
      rw [length_map]
      omega
    have hids : ((results.mergeSort (windowLe .relevance)).map (·.id))[i] =
        ((results.mergeSort (windowLe .relevance)).map (·.id))[i + 1 + j] := by
      rw [getElem_map, getElem_map, hjx]
      exact (of_decide_eq_true hat).trans heq
    have := (hsorted.getElem_inj_iff).mp hids
    omega
  · rename_i hfind
    have hmem := (mem_filter.mp h).1
    have := List.findIdx?_eq_none_iff.mp hfind x hmem
    exact absurd heq.symm (of_decide_eq_false this)

/-- A ranked result is a candidate of either tier with another score. -/
theorem mem_ranked {lexical semantic : List SearchResult} {ranks : List (I64 × Binary64)}
    (h : x ∈ ranks.filterMap (rankedResult lexical semantic)) :
    ∃ y, (y ∈ lexical ∨ y ∈ semantic) ∧ ∃ score, x = { y with score := some score } := by
  obtain ⟨ranked, -, hx⟩ := mem_filterMap.mp h
  unfold rankedResult at hx
  rw [Option.map_eq_some_iff] at hx
  obtain ⟨y, hy, rfl⟩ := hx
  rw [Option.or_eq_some_iff] at hy
  rcases hy with hy | ⟨-, hy⟩
  · exact ⟨y, Or.inl (mem_of_find?_eq_some hy), ranked.2, rfl⟩
  · exact ⟨y, Or.inr (mem_of_find?_eq_some hy), ranked.2, rfl⟩

theorem id_of_ranked {lexical semantic : List SearchResult} {ranked : I64 × Binary64}
    (h : rankedResult lexical semantic ranked = some x) : x.id = ranked.1 := by
  unfold rankedResult at h
  rw [Option.map_eq_some_iff] at h
  obtain ⟨y, hy, rfl⟩ := h
  rw [Option.or_eq_some_iff] at hy
  rcases hy with hy | ⟨-, hy⟩
  · simpa using List.find?_some hy
  · simpa using List.find?_some hy

theorem nodup_ranked {lexical semantic : List SearchResult} {ranks : List (I64 × Binary64)}
    (h : (ranks.map Prod.fst).Nodup) :
    ((ranks.filterMap (rankedResult lexical semantic)).map (·.id)).Nodup := by
  induction ranks with
  | nil => exact nodup_nil
  | cons ranked ranks ih =>
    rw [map_cons, nodup_cons] at h
    rw [filterMap_cons]
    cases hx : rankedResult lexical semantic ranked with
    | none => exact ih h.2
    | some x =>
      rw [map_cons, nodup_cons]
      refine ⟨?_, ih h.2⟩
      rw [id_of_ranked hx, mem_map]
      rintro ⟨y, hy, hid⟩
      obtain ⟨other, hother, hy⟩ := mem_filterMap.mp hy
      rw [id_of_ranked hy] at hid
      exact h.1 (mem_map.mpr ⟨other, hother, hid⟩)

/-- The page of both tiers. -/
def hybridPage (B : Backend) (index : LexicalAsk → Nat → List LexicalHit) (engine : SearchEngine)
    (q : SearchQuery) : List SearchResult × Option (List Text) :=
  let p := candidateQuery q
  let budget := B.budget engine (trim p.text) p.effectiveLimit
  let lexical := lexicalCandidates B index p (paginationFetchLimit q budget.1)
  let semantic := semanticCandidates B p budget.2
  let ranked := B.rank p.text p.explain p.effectiveLimit lexical semantic
  (applyCursorWindow (ranked.1.filterMap (rankedResult lexical semantic)) q, ranked.2)

theorem hybridSearch_eq (B : Backend) (engine : SearchEngine) (r : Request) :
    hybridSearch B engine r = match B.index with
      | none => .error (lexicalBridgeUnavailableError engine)
      | some index => .ok (finishScopedResponse
          ((hybridPage B index engine r.query).1.take r.query.effectiveLimit) r
          (if r.query.explain then
            some (buildV3QueryExplain r.query engine (hybridPage B index engine r.query).2)
          else none)) := by
  unfold hybridSearch hybridPage
  cases B.index with
  | none => rfl
  | some index => rfl

/-- What is on a page of both tiers was made from rows that reach it. -/
theorem reaches_of_mem_page {B : Backend} {index : LexicalAsk → Nat → List LexicalHit}
    {engine : SearchEngine} (h : OnRoute rollout r)
    (hx : x ∈ (hybridPage B index engine r.query).1) :
    ∃ d, Reaches rollout r d ∧ OfRow r.query x d := by
  have hmem := mem_applyCursorWindow hx
  obtain ⟨y, hy, score, rfl⟩ := mem_ranked hmem
  have hrow : ∃ d, OfRow r.query y d := by
    have hmessage : (candidateQuery r.query).isMessage = true := h.message
    have hproduct : (candidateQuery r.query).productId = none := h.productId
    have hrecipients : queryNeedsRecipientFilter (candidateQuery r.query) = false := h.recipients
    rcases hy with hy | hy
    · rcases mem_canonicalize hmessage hproduct hrecipients hy with hrow | ⟨hfalse, -⟩
      · exact hrow
      · cases hfalse
    · rcases mem_canonicalize hmessage hproduct hrecipients (mem_filter.mp hy).1 with
        hrow | ⟨hfalse, -⟩
      · exact hrow
      · cases hfalse
  obtain ⟨d, hmatches, hid, hproject, hsender⟩ := hrow
  refine ⟨d, ⟨hmatches, fun _ c hc => ?_⟩, hmatches, hid, hproject, hsender⟩
  have hne := id_ne_of_mem_window (nodup_ranked (B.rank_nodup ..)) h.ranking hc hx
  exact hid ▸ hne

end AgentMail.Search
