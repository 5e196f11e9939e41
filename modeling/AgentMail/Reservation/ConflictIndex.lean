import AgentMail.Reservation.PartitionedIndex

/-!
# The database-side conflict index

`crates/mcp-agent-mail-db/src/queries.rs:14702–14867`. `first_conflict` answers from the first
lookup that finds an entry. Unlike the tool-side index it routes by the text as it is, without
folding, and has no lookup that leads from or to the root pattern.
-/

namespace AgentMail.Reservation

open Base Lib Pattern List

/-- `ReservationConflictIndex`. -/
abbrev ReservationConflictIndex := PartitionedIndex CompiledPattern

namespace ReservationConflictIndex

open CompiledPattern PartitionedIndex

/-- `ReservationConflictIndex::build`. -/
def build (P : Platform) (patterns : List Text) : ReservationConflictIndex :=
  PartitionedIndex.build id id (patterns.map (CompiledPattern.new P))

/-- `first_exact_request_conflict`: the literal lookups answer with the first entry they meet. -/
def firstExactRequestConflict (ci : Bool) (self : ReservationConflictIndex)
    (requestPat : CompiledPattern) (reqNorm : Text) (reqPrefix : Option Text) :
    Option CompiledPattern :=
  (self.exactAt reqNorm).head?.or <|
    ((ancestors reqNorm).findSome? fun ancestor => (self.exactAt ancestor).head?).or <|
      (self.exactBelow reqNorm).head?.or <| match reqPrefix with
        | some s => (self.globsAt s).find? (·.overlaps ci requestPat)
        | none => self.globsAll.find? (·.overlaps ci requestPat)

/-- `first_glob_request_conflict`. -/
def firstGlobRequestConflict (ci : Bool) (self : ReservationConflictIndex)
    (requestPat : CompiledPattern) (reqPrefix : Option Text) : Option CompiledPattern :=
  let hit (exactPat : CompiledPattern) : Bool :=
    requestPat.matchesPath exactPat.norm || exactPat.overlaps ci requestPat
  match reqPrefix with
  | some s =>
    ((self.exactAt s).find? hit).or <|
      ((self.exactBelow s).find? hit).or <| (self.globsAt s).find? (·.overlaps ci requestPat)
  | none => (self.exactAll.find? hit).or (self.globsAll.find? (·.overlaps ci requestPat))

/-- `first_conflict`. -/
def firstConflict (ci : Bool) (self : ReservationConflictIndex) (requestPat : CompiledPattern) :
    Option CompiledPattern :=
  let found :=
    if requestPat.isGlob then
      firstGlobRequestConflict ci self requestPat requestPat.firstLiteralSegment
    else
      firstExactRequestConflict ci self requestPat requestPat.norm requestPat.firstLiteralSegment
  found.or (self.rootGlobs.find? (·.overlaps ci requestPat))

/-! ### Routes -/

/-- The lookups for `request` lead to `stored`: two literal paths are equal or one lies below the
other, a literal path lies at or below the first segment of a glob, and two first segments are
equal, all compared as plain text. The root pattern is empty and lies above nothing here. -/
def SharesRoute (stored request : CompiledPattern) : Prop :=
  if stored.isGlob then
    ∀ s t, stored.firstLiteralSegment = some s → request.firstLiteralSegment = some t → s = t
  else if request.isGlob then
    ∀ t, request.firstLiteralSegment = some t → stored.norm = t ∨ t ++ ['/'] <+: stored.norm
  else
    stored.norm = request.norm ∨ stored.norm ++ ['/'] <+: request.norm ∨
      request.norm ++ ['/'] <+: stored.norm

/-- What the index promises: an answer exactly when a stored pattern overlaps the request, and
then one that does. -/
def AgreesWithPairwise (P : Platform) (patterns : List Text) (request : Text) : Prop :=
  ((firstConflict P.caseInsensitive (build P patterns) (new P request)).isSome = true ↔
    ∃ p ∈ patterns, (new P p).overlaps P.caseInsensitive (new P request) = true) ∧
  ∀ e, firstConflict P.caseInsensitive (build P patterns) (new P request) = some e →
    e.overlaps P.caseInsensitive (new P request) = true

variable {p : Text}

section

variable {P : Platform} {patterns : List Text} {request : Text}

variable {e : CompiledPattern}

theorem mem_of_perm {found : List CompiledPattern} {test : CompiledPattern → Bool}
    (h : found.Perm ((patterns.map (new P)).filter test)) :
    e ∈ found ↔ ∃ p ∈ patterns, e = new P p ∧ test (new P p) = true := by
  rw [h.mem_iff, mem_filter, mem_map]
  constructor
  · rintro ⟨⟨p, hp, rfl⟩, ht⟩
    exact ⟨p, hp, rfl, ht⟩
  · rintro ⟨p, hp, rfl, ht⟩
    exact ⟨⟨p, hp, rfl⟩, ht⟩

theorem mem_exactAt {k : Text} :
    e ∈ (build P patterns).exactAt k ↔ ∃ p ∈ patterns, e = new P p ∧
      (new P p).isGlob = false ∧ (new P p).norm = k := by
  rw [build, mem_of_perm (exactAt_perm _ _ _ _)]
  simp only [id_eq, Bool.and_eq_true, Bool.not_eq_true', beq_iff_eq]

theorem mem_exactBelow {k : Text} :
    e ∈ (build P patterns).exactBelow k ↔ ∃ p ∈ patterns, e = new P p ∧
      (new P p).isGlob = false ∧ k ++ ['/'] <+: (new P p).norm := by
  by_cases hk : k = []
  · subst hk
    rw [exactBelow_nil]
    constructor
    · intro h
      cases h
    · rintro ⟨p, _, _, _, tail, h⟩
      exact absurd (mem_ancestors.mpr ⟨tail, h.symm⟩)
        (by simpa using @nil_notMem_ancestors P p false)
  · rw [build, mem_of_perm (exactBelow_perm _ _ _ hk)]
    simp only [id_eq, Bool.and_eq_true, Bool.not_eq_true', List.isPrefixOf_iff_prefix]

theorem mem_exactAll :
    e ∈ (build P patterns).exactAll ↔ ∃ p ∈ patterns, e = new P p ∧ (new P p).isGlob = false := by
  rw [build, mem_of_perm (exactAll_perm _ _ _)]
  simp only [id_eq, Bool.not_eq_true']

theorem mem_globsAt {k : Text} :
    e ∈ (build P patterns).globsAt k ↔ ∃ p ∈ patterns, e = new P p ∧
      (new P p).isGlob = true ∧ (new P p).firstLiteralSegment = some k := by
  rw [build, mem_of_perm (globsAt_perm _ _ _ _)]
  simp only [id_eq, Bool.and_eq_true, beq_iff_eq, isPrefixed, globKey]
  constructor
  · rintro ⟨p, hp, rfl, ⟨hg, hs⟩, hk⟩
    obtain ⟨s, hs⟩ := Option.isSome_iff_exists.mp hs
    rw [hs, Option.getD_some] at hk
    exact ⟨p, hp, rfl, hg, by rw [hs, hk]⟩
  · rintro ⟨p, hp, rfl, hg, hs⟩
    exact ⟨p, hp, rfl, ⟨hg, by rw [hs]; rfl⟩, by rw [hs]; rfl⟩

theorem mem_globsAll :
    e ∈ (build P patterns).globsAll ↔ ∃ p ∈ patterns, e = new P p ∧
      (new P p).isGlob = true ∧ (new P p).firstLiteralSegment ≠ none := by
  rw [build, mem_of_perm (globsAll_perm _ _ _)]
  simp only [id_eq, Bool.and_eq_true, isPrefixed, Option.isSome_iff_ne_none]

theorem mem_rootGlobs :
    e ∈ (build P patterns).rootGlobs ↔ ∃ p ∈ patterns, e = new P p ∧
      (new P p).isGlob = true ∧ (new P p).firstLiteralSegment = none := by
  rw [build, rootGlobs_build, mem_of_perm (List.Perm.refl _)]
  simp only [id_eq, Bool.and_eq_true, isRootGlob, Option.isNone_iff_eq_none]

/-- An entry that a lookup may return. -/
def Answer (P : Platform) (patterns : List Text) (request : Text) (e : CompiledPattern) :
    Prop :=
  ∃ p ∈ patterns, e = new P p ∧ (new P p).overlaps P.caseInsensitive (new P request) = true ∧
    SharesRoute (new P p) (new P request)

theorem overlaps_of_prefix (hp : (new P p).isGlob = false)
    (hr : (new P request).isGlob = false)
    (h : (new P p).norm = (new P request).norm ∨ (new P p).norm ++ ['/'] <+: (new P request).norm ∨
      (new P request).norm ++ ['/'] <+: (new P p).norm) :
    (new P p).overlaps P.caseInsensitive (new P request) = true := by
  have hdir {dir full : Text} (h : dir ++ ['/'] <+: full) :
      isDirectoryPrefix P.caseInsensitive dir full = true := by
    by_cases hd : dir = []
    · rw [hd]
      rfl
    · obtain ⟨tail, rfl⟩ := h
      rw [isDirectoryPrefix_iff hd]
      exact ⟨fold P.caseInsensitive tail, by simp⟩
  rw [overlaps_iff_of_not_glob hp hr]
  rcases h with h | h | h
  · exact .inl (by rw [h]; exact textEq_self _ _)
  · exact .inr (.inl (hdir h))
  · exact .inr (.inr (hdir h))

theorem answer_of_literal (hmem : p ∈ patterns) (hp : (new P p).isGlob = false)
    (hr : (new P request).isGlob = false)
    (h : (new P p).norm = (new P request).norm ∨ (new P p).norm ++ ['/'] <+: (new P request).norm ∨
      (new P request).norm ++ ['/'] <+: (new P p).norm) :
    Answer P patterns request (new P p) := by
  refine ⟨p, hmem, rfl, overlaps_of_prefix hp hr h, ?_⟩
  rw [SharesRoute, hp, hr]
  exact h

theorem answer_of_glob (h : (match (new P request).firstLiteralSegment with
      | some s => ((build P patterns).globsAt s).find? (·.overlaps P.caseInsensitive (new P request))
      | none => (build P patterns).globsAll.find? (·.overlaps P.caseInsensitive (new P request))) =
        some e) : Answer P patterns request e := by
  cases hs : (new P request).firstLiteralSegment with
  | some s =>
    rw [hs] at h
    have ho := List.find?_some h
    obtain ⟨p, hp, rfl, hg, ht⟩ := mem_globsAt.mp (mem_of_find?_eq_some h)
    refine ⟨p, hp, rfl, ho, ?_⟩
    rw [SharesRoute, hg, if_pos rfl]
    intro s' t' hs' ht'
    rw [ht, Option.some.injEq] at hs'
    rw [hs, Option.some.injEq] at ht'
    rw [← hs', ← ht']
  | none =>
    rw [hs] at h
    have ho := List.find?_some h
    obtain ⟨p, hp, rfl, hg, ht⟩ := mem_globsAll.mp (mem_of_find?_eq_some h)
    refine ⟨p, hp, rfl, ho, ?_⟩
    rw [SharesRoute, hg, if_pos rfl]
    intro s' t' hs' ht'
    rw [hs] at ht'
    cases ht'

theorem answer_of_exactRequest (hr : (new P request).isGlob = false)
    (h : firstExactRequestConflict P.caseInsensitive (build P patterns) (new P request)
      (new P request).norm (new P request).firstLiteralSegment = some e) :
    Answer P patterns request e := by
  simp only [firstExactRequestConflict, Option.or_eq_some_iff] at h
  rcases h with h | ⟨_, h | ⟨_, h | ⟨_, h⟩⟩⟩
  · obtain ⟨p, hp, rfl, hg, hn⟩ := mem_exactAt.mp (mem_of_mem_head? h)
    exact answer_of_literal hp hg hr (.inl hn)
  · obtain ⟨k, hk, h⟩ := exists_of_findSome?_eq_some h
    obtain ⟨p, hp, rfl, hg, hn⟩ := mem_exactAt.mp (mem_of_mem_head? h)
    obtain ⟨tail, ht⟩ := mem_ancestors.mp hk
    refine answer_of_literal hp hg hr (.inr (.inl ⟨tail, ?_⟩))
    rw [hn, ht, append_assoc, singleton_append]
  · obtain ⟨p, hp, rfl, hg, hn⟩ := mem_exactBelow.mp (mem_of_mem_head? h)
    exact answer_of_literal hp hg hr (.inr (.inr hn))
  · exact answer_of_glob h

theorem answer_of_hit (hr : (new P request).isGlob = true) (hp : p ∈ patterns)
    (hg : (new P p).isGlob = false) (hn : ∀ t, (new P request).firstLiteralSegment = some t →
      (new P p).norm = t ∨ t ++ ['/'] <+: (new P p).norm)
    (h : ((new P request).matchesPath (new P p).norm ||
      (new P p).overlaps P.caseInsensitive (new P request)) = true) :
    Answer P patterns request (new P p) := by
  rw [matchesPath_or_overlaps hg] at h
  refine ⟨p, hp, rfl, h, ?_⟩
  rw [SharesRoute, hg, hr]
  exact hn

theorem answer_of_globRequest (hr : (new P request).isGlob = true)
    (h : firstGlobRequestConflict P.caseInsensitive (build P patterns) (new P request)
      (new P request).firstLiteralSegment = some e) : Answer P patterns request e := by
  unfold firstGlobRequestConflict at h
  cases hs : (new P request).firstLiteralSegment with
  | some s =>
    simp only [hs, Option.or_eq_some_iff] at h
    rcases h with h | ⟨_, h | ⟨_, h⟩⟩
    · have hit := List.find?_some h
      obtain ⟨p, hp, rfl, hg, hn⟩ := mem_exactAt.mp (mem_of_find?_eq_some h)
      refine answer_of_hit hr hp hg (fun t ht => ?_) hit
      rw [hs, Option.some.injEq] at ht
      exact .inl (by rw [hn, ht])
    · have hit := List.find?_some h
      obtain ⟨p, hp, rfl, hg, hn⟩ := mem_exactBelow.mp (mem_of_find?_eq_some h)
      refine answer_of_hit hr hp hg (fun t ht => ?_) hit
      rw [hs, Option.some.injEq] at ht
      exact .inr (by rw [← ht]; exact hn)
    · exact answer_of_glob (by rw [hs]; exact h)
  | none =>
    simp only [hs, Option.or_eq_some_iff] at h
    rcases h with h | ⟨_, h⟩
    · have hit := List.find?_some h
      obtain ⟨p, hp, rfl, hg⟩ := mem_exactAll.mp (mem_of_find?_eq_some h)
      refine answer_of_hit hr hp hg (fun t ht => ?_) hit
      rw [hs] at ht
      cases ht
    · exact answer_of_glob (by rw [hs]; exact h)

/-- Every answer is a stored pattern that overlaps the request and shares its route. -/
theorem firstConflict_some
    (h : firstConflict P.caseInsensitive (build P patterns) (new P request) = some e) :
    ∃ p ∈ patterns, e = new P p ∧ (new P p).overlaps P.caseInsensitive (new P request) = true ∧
      SharesRoute (new P p) (new P request) := by
  simp only [firstConflict, Option.or_eq_some_iff] at h
  rcases h with h | ⟨_, h⟩
  · split at h
    · next hr => exact answer_of_globRequest hr h
    · next hr => exact answer_of_exactRequest (Bool.not_eq_true _ ▸ hr) h
  · have ho := List.find?_some h
    obtain ⟨p, hp, rfl, hg, hs⟩ := mem_rootGlobs.mp (mem_of_find?_eq_some h)
    refine ⟨p, hp, rfl, ho, ?_⟩
    rw [SharesRoute, hg, if_pos rfl]
    intro s t hs' _
    rw [hs] at hs'
    cases hs'

theorem not_overlaps_of_find {found : List CompiledPattern}
    (h : found.find? (·.overlaps P.caseInsensitive (new P request)) = none) (hp : new P p ∈ found) :
    (new P p).overlaps P.caseInsensitive (new P request) = false := by
  rw [← Bool.not_eq_true]
  exact List.find?_eq_none.mp h _ hp

theorem not_overlaps_of_hit {found : List CompiledPattern} (hg : (new P p).isGlob = false)
    (h : (found.find? fun e => (new P request).matchesPath e.norm ||
      e.overlaps P.caseInsensitive (new P request)) = none) (hp : new P p ∈ found) :
    (new P p).overlaps P.caseInsensitive (new P request) = false := by
  rw [← matchesPath_or_overlaps hg, ← Bool.not_eq_true]
  exact List.find?_eq_none.mp h _ hp

/-- Without an answer no stored pattern on the request's route overlaps it. -/
theorem firstConflict_none (hp : p ∈ patterns)
    (h : firstConflict P.caseInsensitive (build P patterns) (new P request) = none)
    (hroute : SharesRoute (new P p) (new P request)) :
    (new P p).overlaps P.caseInsensitive (new P request) = false := by
  simp only [firstConflict, Option.or_eq_none_iff] at h
  obtain ⟨hfound, hroots⟩ := h
  unfold SharesRoute at hroute
  cases hg : (new P p).isGlob with
  | true =>
    rw [hg, if_pos rfl] at hroute
    cases hs : (new P p).firstLiteralSegment with
    | none => exact not_overlaps_of_find hroots (mem_rootGlobs.mpr ⟨p, hp, rfl, hg, hs⟩)
    | some s =>
      -- The glob lies in its own bucket, which both kinds of request visit.
      cases ht : (new P request).firstLiteralSegment with
      | some t =>
        have hmem : new P p ∈ (build P patterns).globsAt t :=
          mem_globsAt.mpr ⟨p, hp, rfl, hg, by rw [hs, hroute s t hs ht]⟩
        split at hfound
        · simp only [firstGlobRequestConflict, ht, Option.or_eq_none_iff] at hfound
          exact not_overlaps_of_find hfound.2.2 hmem
        · simp only [firstExactRequestConflict, ht, Option.or_eq_none_iff] at hfound
          exact not_overlaps_of_find hfound.2.2.2 hmem
      | none =>
        have hmem : new P p ∈ (build P patterns).globsAll :=
          mem_globsAll.mpr ⟨p, hp, rfl, hg, by rw [hs]; exact Option.some_ne_none s⟩
        split at hfound
        · simp only [firstGlobRequestConflict, ht, Option.or_eq_none_iff] at hfound
          exact not_overlaps_of_find hfound.2 hmem
        · simp only [firstExactRequestConflict, ht, Option.or_eq_none_iff] at hfound
          exact not_overlaps_of_find hfound.2.2.2 hmem
  | false =>
    rw [hg, if_neg Bool.false_ne_true] at hroute
    cases hr : (new P request).isGlob with
    | true =>
      rw [hr, if_pos rfl] at hroute hfound
      cases ht : (new P request).firstLiteralSegment with
      | some t =>
        simp only [firstGlobRequestConflict, ht, Option.or_eq_none_iff] at hfound
        rcases hroute t ht with hn | hn
        · exact not_overlaps_of_hit hg hfound.1 (mem_exactAt.mpr ⟨p, hp, rfl, hg, hn⟩)
        · exact not_overlaps_of_hit hg hfound.2.1 (mem_exactBelow.mpr ⟨p, hp, rfl, hg, hn⟩)
      | none =>
        simp only [firstGlobRequestConflict, ht, Option.or_eq_none_iff] at hfound
        exact not_overlaps_of_hit hg hfound.1 (mem_exactAll.mpr ⟨p, hp, rfl, hg⟩)
    | false =>
      -- A literal lookup that meets the entry would have returned it.
      rw [hr, if_neg Bool.false_ne_true] at hroute hfound
      simp only [firstExactRequestConflict, Option.or_eq_none_iff] at hfound
      obtain ⟨hself, habove, hbelow, _⟩ := hfound
      have hempty {found : List CompiledPattern} (hnone : found.head? = none)
          (hmem : new P p ∈ found) : False := by
        rw [List.head?_eq_none_iff.mp hnone] at hmem
        cases hmem
      exfalso
      rcases hroute with hn | ⟨tail, hn⟩ | hn
      · exact hempty hself (mem_exactAt.mpr ⟨p, hp, rfl, hg, hn⟩)
      · have hk : (new P p).norm ∈ ancestors (new P request).norm := by
          rw [mem_ancestors]
          exact ⟨tail, by rw [← hn, append_assoc, singleton_append]⟩
        exact hempty (List.findSome?_eq_none_iff.mp habove _ hk)
          (mem_exactAt.mpr ⟨p, hp, rfl, hg, rfl⟩)
      · exact hempty hbelow (mem_exactBelow.mpr ⟨p, hp, rfl, hg, hn⟩)

end

/-- The index agrees with the pairwise check exactly when some overlapping pattern, if there is
one, lies on the request's route. -/
theorem agreesWithPairwise_iff (P : Platform) (patterns : List Text) (request : Text) :
    AgreesWithPairwise P patterns request ↔
      ((∃ p ∈ patterns, (new P p).overlaps P.caseInsensitive (new P request) = true) →
        ∃ p ∈ patterns, (new P p).overlaps P.caseInsensitive (new P request) = true ∧
          SharesRoute (new P p) (new P request)) := by
  constructor
  · rintro ⟨hsome, _⟩ hex
    obtain ⟨e, he⟩ := Option.isSome_iff_exists.mp (hsome.mpr hex)
    obtain ⟨p, hp, _, ho, hroute⟩ := firstConflict_some he
    exact ⟨p, hp, ho, hroute⟩
  · intro h
    have hover (e : CompiledPattern)
        (he : firstConflict P.caseInsensitive (build P patterns) (new P request) = some e) :
        e.overlaps P.caseInsensitive (new P request) = true := by
      obtain ⟨p, _, rfl, ho, _⟩ := firstConflict_some he
      exact ho
    refine ⟨⟨?_, ?_⟩, hover⟩
    · intro hsome
      obtain ⟨e, he⟩ := Option.isSome_iff_exists.mp hsome
      obtain ⟨p, hp, _, ho, _⟩ := firstConflict_some he
      exact ⟨p, hp, ho⟩
    · intro hex
      obtain ⟨p, hp, ho, hroute⟩ := h hex
      by_contra hnone
      rw [Option.not_isSome_iff_eq_none] at hnone
      rw [firstConflict_none hp hnone hroute] at ho
      cases ho

/-- On targets that compare paths exactly, overlapping patterns other than the root share a
route. -/
theorem sharesRoute_of_overlaps {P : Platform} (hg : P.globset.FirstLiteral)
    (hci : P.caseInsensitive = false) {request : Text} (hp : (new P p).norm ≠ [])
    (hr : (new P request).norm ≠ [])
    (h : (new P p).overlaps P.caseInsensitive (new P request) = true) :
    SharesRoute (new P p) (new P request) := by
  have hfold (t : Text) : fold P.caseInsensitive t = t := by
    rw [hci, fold_false]
  unfold SharesRoute
  split
  · intro s t hs ht
    have := fold_eq_of_overlaps hg hs ht h
    rwa [hfold, hfold] at this
  · next hgp =>
    rw [Bool.not_eq_true] at hgp
    split
    · intro t ht
      have := fold_norm_of_overlaps hg ht hgp hp h
      rwa [hfold, hfold, List.isPrefixOf_iff_prefix] at this
    · next hgr =>
      rw [Bool.not_eq_true] at hgr
      rw [overlaps_iff_of_not_glob hgp hgr, textEq_iff, isDirectoryPrefix_iff_isPrefixOf hp,
        isDirectoryPrefix_iff_isPrefixOf hr, hfold, hfold, List.isPrefixOf_iff_prefix,
        List.isPrefixOf_iff_prefix] at h
      exact h

/-- A stored root reservation overlaps every request and is not found. -/
theorem not_agreesWithPairwise_root :
    ¬ AgreesWithPairwise exactPlatform [".".toList] "src/main.rs".toList := by
  rintro ⟨h, _⟩
  have hnone : (firstConflict false (build exactPlatform [".".toList])
      (new exactPlatform "src/main.rs".toList)).isSome = false := by decide +kernel
  have hover : (new exactPlatform ".".toList).overlaps false
      (new exactPlatform "src/main.rs".toList) = true := by decide +kernel
  have hsome := h.mpr ⟨_, mem_singleton_self _, hover⟩
  change (firstConflict false _ _).isSome = true at hsome
  rw [hnone] at hsome
  cases hsome

end ReservationConflictIndex

end AgentMail.Reservation
