import AgentMail.Search.CacheKey

/-!
# What a key of the search cache determines

The streams that are hashed into a key can be read back, so that two requests with one key agree
in every value that was hashed, up to the order and the repetitions of the lists that are sorted
first.
-/

namespace AgentMail.Search

open Base Lib

/-! ### The streams -/

theorem hashPair_code : PrefixCode hashPair := hashNumber_code.pair hashNumber_code

theorem ContactPolicyKind.asStr_injective {a b : ContactPolicyKind} (h : a.asStr = b.asStr) :
    a = b := by
  cases a <;> cases b <;> first | rfl | exact absurd h (by decide)

theorem hashPolicy_code : PrefixCode hashPolicy := by
  have hcode := (hashNumber_code.pair (hashNumber_code.pair hashText_code)).comp
    (g := fun p : SenderPolicy => (p.projectId, p.agentId, p.policy.asStr)) (by
      intro p q h
      rw [Prod.mk.injEq, Prod.mk.injEq] at h
      cases p
      cases q
      rw [SenderPolicy.mk.injEq]
      exact ⟨h.1, h.2.1, ContactPolicyKind.asStr_injective h.2.2⟩)
  exact hcode

theorem hashRecipients_code : PrefixCode hashRecipients := by
  have hcode := (hashNumber_code.pair (hashVec_code hashNumber_code)).comp
    (g := fun e : RecipientEntry => (e.messageId, e.agentIds)) (by
      intro e f h
      rw [Prod.mk.injEq] at h
      cases e
      cases f
      rw [RecipientEntry.mk.injEq]
      exact h)
  exact hcode

theorem hashRedaction_code : PrefixCode hashRedaction := by
  have hcode := (hashFlag_code.pair (hashFlag_code.pair (hashFlag_code.pair hashText_code))).comp
    (g := fun p : RedactionPolicy => (p.redactBody, p.redactSender, p.redactThread,
      p.bodyPlaceholder)) (by
      intro p q h
      rw [Prod.mk.injEq, Prod.mk.injEq, Prod.mk.injEq] at h
      cases p
      cases q
      rw [RedactionPolicy.mk.injEq]
      exact h)
  exact hcode

theorem hashViewer_code : PrefixCode hashViewer := by
  intro a b r s heq
  cases a with
  | none =>
    cases b with
    | none => simpa [hashViewer, hashText] using heq
    | some v => simp [hashViewer, hashText] at heq
  | some u =>
    cases b with
    | none => simp [hashViewer, hashText] at heq
    | some v =>
      cases u
      cases v
      simpa [hashViewer, hashText, hashNumber, Subtype.ext_iff, and_assoc] using heq

/-- The bounds of a range, where no tag of a bound follows. -/
theorem hashBounds_append {a b : TimeRange} {r s : List Hashed}
    (hr : ∀ t, t = "start".toList ∨ t = "end".toList → r.head? ≠ some (.text t))
    (hs : ∀ t, t = "start".toList ∨ t = "end".toList → s.head? ≠ some (.text t))
    (heq : hashBounds a ++ r = hashBounds b ++ s) : a = b ∧ r = s := by
  unfold hashBounds at heq
  rw [List.append_assoc, List.append_assoc] at heq
  have hmin := tagged_append hashNumber_code
    (head_tagged (by decide) (hr _ (Or.inl rfl))) (head_tagged (by decide) (hs _ (Or.inl rfl))) heq
  have hmax := tagged_append hashNumber_code (hr _ (Or.inr rfl)) (hs _ (Or.inr rfl)) hmin.2
  refine ⟨?_, hmax.2⟩
  cases a
  cases b
  rw [TimeRange.mk.injEq]
  exact ⟨hmin.1, hmax.1⟩

theorem hashDateRange_append {a b : Option TimeRange} {r s : List Hashed}
    (hr : ∀ t, t = "date_range".toList ∨ t = "start".toList ∨ t = "end".toList →
      r.head? ≠ some (.text t))
    (hs : ∀ t, t = "date_range".toList ∨ t = "start".toList ∨ t = "end".toList →
      s.head? ≠ some (.text t))
    (heq : hashDateRange a ++ r = hashDateRange b ++ s) : a = b ∧ r = s := by
  cases a <;> cases b <;> simp only [hashDateRange, List.cons_append, List.nil_append] at heq
  · exact ⟨rfl, heq⟩
  · exact absurd (by rw [heq]; rfl) (hr _ (Or.inl rfl))
  · exact absurd (by rw [← heq]; rfl) (hs _ (Or.inl rfl))
  · have hbounds := hashBounds_append (fun t ht => hr t (Or.inr ht)) (fun t ht => hs t (Or.inr ht))
      (List.cons.inj heq).2
    exact ⟨congrArg some hbounds.1, hbounds.2⟩

theorem head_hashDateRange {t : Text} {a : Option TimeRange} {r : List Hashed}
    (htag : "date_range".toList ≠ t) (hr : r.head? ≠ some (.text t)) :
    (hashDateRange a ++ r).head? ≠ some (.text t) := by
  cases a with
  | none => exact hr
  | some a => simpa [hashDateRange] using htag

theorem toDateRange_injective {a b : TimeRange} (h : a.toDateRange = b.toDateRange) : a = b := by
  unfold TimeRange.toDateRange at h
  split at h <;> split at h
  · rename_i ha hb
    simp only [TimeRange.isEmpty, Bool.and_eq_true, Option.isNone_iff_eq_none] at ha hb
    cases a
    cases b
    rw [TimeRange.mk.injEq]
    exact ⟨ha.1.trans hb.1.symm, ha.2.trans hb.2.symm⟩
  · cases h
  · cases h
  · exact Option.some.inj h

theorem DocKind.discriminant_injective {a b : DocKind} (h : a.discriminant = b.discriminant) :
    a = b := by
  cases a <;> cases b <;> first | rfl | exact absurd h (by decide)

theorem TextFieldScope.discriminant_injective {a b : TextFieldScope}
    (h : a.discriminant = b.discriminant) : a = b := by
  cases a <;> cases b <;> first | rfl | exact absurd h (by decide)

theorem directionText_injective {a b : Option Direction} (h : directionText a = directionText b) :
    a = b := by
  rcases a with _ | a <;> rcases b with _ | b
  · rfl
  · cases b <;> exact absurd h (by decide)
  · cases a <;> exact absurd h (by decide)
  · cases a <;> cases b <;> first | rfl | exact absurd h (by decide)

theorem SearchEngine.asStr_injective {a b : SearchEngine} (h : a.asStr = b.asStr) : a = b := by
  cases a <;> cases b <;> first | rfl | exact absurd h (by decide)

/-! ### The parts of a key -/

/-- What the discriminator of a query's scope determines. -/
structure SameScopeFields (p q : SearchQuery) : Prop where
  productId : p.productId = q.productId
  projectId : p.projectId = q.projectId
  docKind : p.docKind = q.docKind
  textFields : p.textFields = q.textFields
  ackRequired : p.ackRequired = q.ackRequired
  direction : p.direction = q.direction
  explain : p.explain = q.explain
  levels : hashImportance p.importance ++ hashScope p.scope =
    hashImportance q.importance ++ hashScope q.scope

theorem sameScopeFields_of_discriminator {p q : SearchQuery}
    (h : cacheScopeDiscriminator p = cacheScopeDiscriminator q) : SameScopeFields p q := by
  have hproduct := hashOption_code hashNumber_code _ _ _ _ (Hashed.digest.inj h)
  have hproject := hashOption_code hashNumber_code _ _ _ _ hproduct.2
  have hkind := hashCount_code _ _ _ _ hproject.2
  have hfields := hashCount_code _ _ _ _ hkind.2
  have hack := hashOption_code hashFlag_code _ _ _ _ hfields.2
  have hdirection := hashText_code _ _ _ _ hack.2
  have hranking := hashText_code _ _ _ _ hdirection.2
  have hexplain := hashFlag_code _ _ _ _ hranking.2
  exact
    { productId := hproduct.1
      projectId := hproject.1
      docKind := DocKind.discriminant_injective hkind.1
      textFields := TextFieldScope.discriminant_injective hfields.1
      ackRequired := hack.1
      direction := directionText_injective hdirection.1
      explain := hexplain.1
      levels := hexplain.2 }

/-- What the digest of the filter determines besides. -/
structure SameFilterFields (p q : SearchQuery) : Prop where
  agentName : p.agentName = q.agentName
  threadId : p.threadId = q.threadId
  timeRange : p.timeRange = q.timeRange

theorem head_levels {t : Text} {i : Option ImportanceFilter} {k : Option DocKind}
    (hi : "importance".toList ≠ t) (hk : "doc_kind".toList ≠ t) :
    (tagged "importance".toList (fun i => hashText (ImportanceFilter.debug i)) i ++
      tagged "doc_kind".toList (fun k => hashText (DocKind.debug k)) k).head? ≠ some (.text t) := by
  have hkind : (tagged "doc_kind".toList (fun k => hashText (DocKind.debug k)) k).head? ≠
      some (.text t) := by
    cases k with
    | none => exact nofun
    | some k => simpa [tagged] using hk
  exact head_tagged hi hkind

theorem sameFilterFields_of_digest {p q : SearchQuery} (hdirection : p.direction = q.direction)
    (h : hashFilter p.toSearchFilter = hashFilter q.toSearchFilter) : SameFilterFields p q := by
  have hlevels : ∀ (f : SearchFilter) (t : Text), "importance".toList ≠ t → "doc_kind".toList ≠ t →
      (tagged "importance".toList (fun i => hashText (ImportanceFilter.debug i)) f.importance ++
        tagged "doc_kind".toList (fun k => hashText (DocKind.debug k)) f.docKind).head? ≠
      some (.text t) := fun f t hi hk => head_levels hi hk
  have hsender := tagged_append hashText_code
    (head_tagged (by decide) (head_tagged (by decide) (head_tagged (by decide)
      (head_hashDateRange (by decide) (hlevels _ _ (by decide) (by decide))))))
    (head_tagged (by decide) (head_tagged (by decide) (head_tagged (by decide)
      (head_hashDateRange (by decide) (hlevels _ _ (by decide) (by decide))))))
    (Hashed.digest.inj h)
  have hagent := tagged_append hashText_code
    (head_tagged (by decide) (head_tagged (by decide)
      (head_hashDateRange (by decide) (hlevels _ _ (by decide) (by decide)))))
    (head_tagged (by decide) (head_tagged (by decide)
      (head_hashDateRange (by decide) (hlevels _ _ (by decide) (by decide)))))
    hsender.2
  have hproject := tagged_append hashNumber_code
    (head_tagged (by decide) (head_hashDateRange (by decide) (hlevels _ _ (by decide) (by decide))))
    (head_tagged (by decide) (head_hashDateRange (by decide) (hlevels _ _ (by decide) (by decide))))
    hagent.2
  have hthread := tagged_append hashText_code
    (head_hashDateRange (by decide) (hlevels _ _ (by decide) (by decide)))
    (head_hashDateRange (by decide) (hlevels _ _ (by decide) (by decide))) hproject.2
  have hrange := hashDateRange_append
    (fun t ht => by rcases ht with rfl | rfl | rfl <;> exact hlevels _ _ (by decide) (by decide))
    (fun t ht => by rcases ht with rfl | rfl | rfl <;> exact hlevels _ _ (by decide) (by decide))
    hthread.2
  have hname : p.agentName = q.agentName := by
    have hs := hsender.1
    have ha := hagent.1
    simp only [SearchQuery.toSearchFilter, hdirection] at hs ha
    by_cases hout : q.direction = some .outbox
    · simpa only [if_pos hout] using hs
    · simpa only [if_neg hout] using ha
  exact ⟨hname, hthread.1, toDateRange_injective hrange.1⟩

/-- What the discriminator of the authorization determines: lists as sets. The policies of senders
are left out, as their order decides which one counts. -/
structure SameAuthorization (o p : SearchOptions) : Prop where
  viewer : o.scope.viewer = p.scope.viewer
  contacts : ∀ c, c ∈ o.scope.approvedContacts ↔ c ∈ p.scope.approvedContacts
  projects : ∀ id, id ∈ o.scope.viewerProjectIds ↔ id ∈ p.scope.viewerProjectIds
  recipients : ∀ messageId agentId,
    (∃ e ∈ o.scope.recipientMap, e.messageId = messageId ∧ agentId ∈ e.agentIds) ↔
      ∃ e ∈ p.scope.recipientMap, e.messageId = messageId ∧ agentId ∈ e.agentIds
  redaction : o.redaction = p.redaction

/-- Sorting the ids of the entries and the entries keeps who received what. -/
theorem mem_sorted_recipients {l : List RecipientEntry} {messageId agentId : I64} :
    (∃ e ∈ sortDedup RecipientEntry.key (l.map RecipientEntry.sorted),
      e.messageId = messageId ∧ agentId ∈ e.agentIds) ↔
      ∃ e ∈ l, e.messageId = messageId ∧ agentId ∈ e.agentIds := by
  simp only [mem_sortDedup, List.mem_map]
  constructor
  · rintro ⟨_, ⟨e, he, rfl⟩, hid, hagent⟩
    exact ⟨e, he, hid, mem_sortDedup.mp hagent⟩
  · rintro ⟨e, he, hid, hagent⟩
    exact ⟨e.sorted, ⟨e, he, rfl⟩, hid, mem_sortDedup.mpr hagent⟩

theorem sameAuthorization_of_discriminator {o p : SearchOptions}
    (h : cacheAuthorizationDiscriminator o = cacheAuthorizationDiscriminator p) :
    SameAuthorization o p := by
  have hviewer := hashViewer_code _ _ _ _ (Hashed.digest.inj h)
  have hcontacts := hashVec_code hashPair_code _ _ _ _ hviewer.2
  have hprojects := hashVec_code hashNumber_code _ _ _ _ hcontacts.2
  have hpolicies := hashVec_code hashPolicy_code _ _ _ _ hprojects.2
  have hrecipients := hashVec_code hashRecipients_code _ _ _ _ hpolicies.2
  exact
    { viewer := hviewer.1
      contacts := fun c => by
        rw [← mem_sortDedup (l := o.scope.approvedContacts), hcontacts.1, mem_sortDedup]
      projects := fun id => by
        rw [← mem_sortDedup (l := o.scope.viewerProjectIds), hprojects.1, mem_sortDedup]
      recipients := fun messageId agentId => by
        rw [← mem_sorted_recipients, hrecipients.1, mem_sorted_recipients]
      redaction := hashRedaction_code.injective hrecipients.2 }

/-! ### The key -/

/-- What two requests with one key have in common. -/
structure SameKeyed (rollout : SearchRolloutConfig) (r₁ r₂ : Request) : Prop where
  text : trim r₁.query.text = trim r₂.query.text
  scope : SameScopeFields r₁.query r₂.query
  filter : SameFilterFields r₁.query r₂.query
  cursor : r₁.query.cursor = r₂.query.cursor
  limit : r₁.query.effectiveLimit = r₂.query.effectiveLimit
  authorization : SameAuthorization r₁.options r₂.options
  engine : r₁.engine rollout = r₂.engine rollout

theorem sameKeyed_of_key {rollout : SearchRolloutConfig} {pool : Text} {epoch : Nat}
    {r₁ r₂ : Request} (h : buildSearchCacheKey rollout pool epoch r₁ =
      buildSearchCacheKey rollout pool epoch r₂) : SameKeyed rollout r₁ r₂ := by
  unfold buildSearchCacheKey at h
  rw [QueryCacheKey.mk.injEq] at h
  obtain ⟨htext, -, hfilter, -, hoffset, hlimit⟩ := h
  have hcursor : r₁.query.cursor = r₂.query.cursor ∧
      scopeDiscriminator rollout pool r₁ = scopeDiscriminator rollout pool r₂ := by
    cases h₁ : r₁.query.cursor <;> cases h₂ : r₂.query.cursor <;>
      rw [h₁, h₂] at hoffset <;> simp only [scopeDiscriminator, Hashed.digest.injEq,
        List.cons.injEq, reduceCtorEq, and_false, Hashed.text.injEq, and_true] at hoffset ⊢
    · exact ⟨trivial, hoffset⟩
    · exact ⟨congrArg some hoffset.1, hoffset.2⟩
  have hparts := hcursor.2
  simp only [scopeDiscriminator, Hashed.digest.injEq, List.cons.injEq, Hashed.text.injEq,
    and_true] at hparts
  have hscope := sameScopeFields_of_discriminator hparts.1
  exact
    { text := htext
      scope := hscope
      filter := sameFilterFields_of_digest hscope.direction hfilter
      cursor := hcursor.1
      limit := hlimit
      authorization := sameAuthorization_of_discriminator hparts.2.1
      engine := SearchEngine.asStr_injective hparts.2.2 }

end AgentMail.Search
