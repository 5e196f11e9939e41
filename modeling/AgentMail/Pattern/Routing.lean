import AgentMail.Pattern.Compiled
import Mathlib.Data.List.Nodup

/-!
# Where an overlapping pattern can lie

Both reservation indexes look a request up by its text: its ancestors, its descendants, and the
globs that start with its first literal segment. The results here say which texts an
overlapping pattern can have (`pattern_overlap.rs:398–458`), so that each index needs only
its own bookkeeping.
-/

namespace AgentMail.Pattern

open Base Lib List

/-! ### Ancestors -/

/-- `match_indices('/').map(|(idx, _)| &t[..idx])`: the text before each slash. -/
def ancestors : Text → List Text
  | [] => []
  | c :: t =>
    if c = '/' then [] :: (ancestors t).map (c :: ·) else (ancestors t).map (c :: ·)

theorem mem_ancestors {t k : Text} : k ∈ ancestors t ↔ ∃ tail, t = k ++ '/' :: tail := by
  induction t generalizing k with
  | nil => simp [ancestors]
  | cons c t ih =>
    have hcons : k ∈ (ancestors t).map (c :: ·) ↔ k ≠ [] ∧ ∃ tail, c :: t = k ++ '/' :: tail := by
      cases k with
      | nil => simp
      | cons d k =>
        rw [mem_map]
        constructor
        · rintro ⟨k', hk', h⟩
          obtain ⟨rfl, rfl⟩ := List.cons.inj h
          obtain ⟨tail, rfl⟩ := ih.mp hk'
          exact ⟨cons_ne_nil _ _, tail, rfl⟩
        · rintro ⟨_, tail, h⟩
          obtain ⟨rfl, ht⟩ := List.cons.inj h
          exact ⟨k, ih.mpr ⟨tail, ht⟩, rfl⟩
    unfold ancestors
    split
    · next hc =>
      subst hc
      rw [mem_cons, hcons]
      by_cases hk : k = []
      · subst hk
        simp
      · simp [hk]
    · next hc =>
      rw [hcons]
      constructor
      · exact And.right
      · rintro ⟨tail, h⟩
        refine ⟨?_, tail, h⟩
        rintro rfl
        exact hc (List.cons.inj h).1

theorem ancestors_nodup (t : Text) : (ancestors t).Nodup := by
  induction t with
  | nil => exact nodup_nil
  | cons c t ih =>
    have hmap : ((ancestors t).map (c :: ·)).Nodup :=
      List.Nodup.map (fun _ _ h => (List.cons.inj h).2) ih
    unfold ancestors
    split
    · refine nodup_cons.mpr ⟨?_, hmap⟩
      simp
    · exact hmap

theorem ancestors_fold (ci : Bool) (t : Text) :
    ancestors (fold ci t) = (ancestors t).map (fold ci) := by
  induction t with
  | nil => rfl
  | cons c t ih =>
    simp only [fold_cons, ancestors, foldChar_slash, ih]
    split <;> simp

/-- A directory prefix is one of the ancestors. -/
theorem isDirectoryPrefix_iff_mem_ancestors {ci : Bool} {dir full : Text} (hd : dir ≠ []) :
    isDirectoryPrefix ci dir full = true ↔ fold ci dir ∈ ancestors (fold ci full) := by
  rw [isDirectoryPrefix_iff hd, mem_ancestors]

/-- A directory prefix followed by its slash begins the text. -/
theorem isDirectoryPrefix_iff_isPrefixOf {ci : Bool} {dir full : Text} (hd : dir ≠ []) :
    isDirectoryPrefix ci dir full = true ↔
      (fold ci dir ++ ['/']).isPrefixOf (fold ci full) = true := by
  rw [isDirectoryPrefix_iff hd, List.isPrefixOf_iff_prefix]
  constructor
  · rintro ⟨tail, h⟩
    exact ⟨tail, by rw [h, append_assoc, singleton_append]⟩
  · rintro ⟨tail, h⟩
    exact ⟨tail, by rw [← h, append_assoc, singleton_append]⟩

theorem length_lt_of_mem_ancestors {t k : Text} (h : k ∈ ancestors t) : k.length < t.length := by
  obtain ⟨tail, rfl⟩ := mem_ancestors.mp h
  rw [length_append, length_cons]
  omega

/-- A text without a slash has no ancestors. -/
theorem ancestors_of_notMem {t : Text} (h : '/' ∉ t) : ancestors t = [] := by
  apply eq_nil_iff_forall_not_mem.mpr
  intro k hk
  obtain ⟨tail, rfl⟩ := mem_ancestors.mp hk
  exact h (by simp)

/-! ### First segments -/

namespace CompiledPattern

variable {P : Platform} {a b : Text}

/-- A literal pattern other than the root starts with a literal segment. -/
theorem firstLiteralSegment_of_not_glob (h : (new P a).isGlob = false) (hne : (new P a).norm ≠ []) :
    ∃ s, (new P a).firstLiteralSegment = some s := by
  obtain ⟨s, rest, hsplit, he⟩ := firstLiteralSegment_new P a
  have hmem : s ∈ splitSlash (new P a).norm := by
    rw [hsplit]
    exact mem_cons_self ..
  have hs : s ≠ [] := (isComponent_of_mem_splitSlash hne hmem).ne_nil
  have hm : hasGlobMeta s = false := by
    by_contra hm
    have := hasGlobMeta_of_mem_splitSlash hmem (Bool.not_eq_false _ ▸ hm)
    rw [← Bool.not_eq_true] at h
    exact h this
  refine ⟨s, ?_⟩
  rw [he, if_neg]
  simp [hs, hm]

/-- A literal first segment is the first component, free of slashes and metacharacters. -/
theorem splitSlash_of_firstLiteralSegment {s : Text} (h : (new P a).firstLiteralSegment = some s) :
    (∃ rest, splitSlash (new P a).norm = s :: rest) ∧ '/' ∉ s ∧ s ≠ [] ∧ hasGlobMeta s = false := by
  obtain ⟨s', rest, hsplit, he⟩ := firstLiteralSegment_new P a
  rw [h] at he
  split at he
  · cases he
  · next hc =>
    cases he
    simp only [Bool.or_eq_true, not_or, Bool.not_eq_true, isEmpty_eq_false_iff] at hc
    refine ⟨⟨rest, hsplit⟩, slash_notMem_of_mem_splitSlash (t := (new P a).norm) ?_, hc.1, hc.2⟩
    rw [hsplit]
    exact mem_cons_self ..

theorem fold_head {ci : Bool} {x y s t : Text} {rest rest' : List Text}
    (hx : splitSlash x = s :: rest) (hy : splitSlash y = t :: rest')
    (h : splitSlash (fold ci x) <+: splitSlash (fold ci y)) : fold ci s = fold ci t := by
  rw [splitSlash_fold, splitSlash_fold, hx, hy, map_cons, map_cons, cons_prefix_cons] at h
  exact h.1

theorem head_of_matcherMatches (hg : P.globset.FirstLiteral) {s t : Text}
    (ha : (new P a).firstLiteralSegment = some s) (hb : (new P b).firstLiteralSegment = some t)
    (h : (new P a).matcherMatches (new P b).norm = true) :
    fold P.caseInsensitive s = fold P.caseInsensitive t := by
  obtain ⟨⟨rest, hsplit⟩, hslash, _, hmeta⟩ := splitSlash_of_firstLiteralSegment ha
  obtain ⟨⟨rest', hsplit'⟩, _⟩ := splitSlash_of_firstLiteralSegment hb
  cases hglob : (new P a).isGlob with
  | false =>
    rw [matcherMatches_of_not_glob P a hglob] at h
    cases h
  | true =>
    have hmatcher : (new P a).matcher = P.globset.build P.caseInsensitive (new P a).norm :=
      if_pos hglob
    rw [matcherMatches, hmatcher] at h
    cases hbuild : P.globset.build P.caseInsensitive (new P a).norm with
    | none =>
      rw [hbuild] at h
      cases h
    | some m =>
      rw [hbuild] at h
      obtain ⟨tail, htail⟩ := hg _ _ m _ s rest hbuild (backslash_notMem_resolveText _) hglob
        hsplit hmeta h
      apply fold_head (splitOn_eq_singleton hslash) hsplit'
      rw [htail, splitSlash_append_slash]
      exact prefix_append _ _

/-- Overlapping patterns that both start with a literal segment start with the same one. -/
theorem fold_eq_of_overlaps (hg : P.globset.FirstLiteral) {s t : Text}
    (ha : (new P a).firstLiteralSegment = some s) (hb : (new P b).firstLiteralSegment = some t)
    (h : (new P a).overlaps P.caseInsensitive (new P b) = true) :
    fold P.caseInsensitive s = fold P.caseInsensitive t := by
  obtain ⟨⟨rest, hsplit⟩, _, hne, _⟩ := splitSlash_of_firstLiteralSegment ha
  obtain ⟨⟨rest', hsplit'⟩, _, hne', _⟩ := splitSlash_of_firstLiteralSegment hb
  have hroot {x y : Text} {rest : List Text} (hs : splitSlash x = y :: rest) (hy : y ≠ []) :
      x ≠ [] := by
    rintro rfl
    exact hy (List.cons.inj hs).1.symm
  rcases (overlaps_new_iff _ _ _).mp h with h | ⟨_, h⟩ | ⟨_, h⟩ | ⟨_, h⟩ | ⟨_, h⟩ | ⟨_, _, h⟩
  · exact fold_head hsplit hsplit' ((covers_iff_starts (hroot hsplit hne)).mp (.inl h))
  · exact fold_head hsplit hsplit' ((covers_iff_starts (hroot hsplit hne)).mp (.inr h))
  · exact (fold_head hsplit' hsplit ((covers_iff_starts (hroot hsplit' hne')).mp (.inr h))).symm
  · exact head_of_matcherMatches hg ha hb h
  · exact (head_of_matcherMatches hg hb ha h).symm
  · by_contra hne
    have hm := firstSegmentMismatch_of_segmentsOverlap h
    rw [← Bool.not_eq_true, firstSegmentMismatch_iff] at hm
    apply hm
    refine ⟨s, t, ha, hb, ?_⟩
    rw [← Bool.not_eq_true, textEq_iff]
    exact hne

/-- The first segment is the text before the first slash. -/
theorem norm_of_firstLiteralSegment {s : Text} (h : (new P a).firstLiteralSegment = some s) :
    (new P a).norm = s ∨ ∃ tail, (new P a).norm = s ++ '/' :: tail := by
  obtain ⟨⟨rest, hsplit⟩, _⟩ := splitSlash_of_firstLiteralSegment h
  rw [← joinSlash_splitSlash (new P a).norm, hsplit]
  cases rest with
  | nil =>
    left
    exact joinSlash_singleton s
  | cons u us =>
    right
    refine ⟨joinSlash (u :: us), ?_⟩
    rw [← singleton_append, joinSlash_append (cons_ne_nil s []) (cons_ne_nil u us),
      joinSlash_singleton]

/-- No normalised text starts with a slash. -/
theorem nil_notMem_ancestors (ci : Bool) : [] ∉ ancestors (fold ci (new P a).norm) := by
  intro h
  obtain ⟨tail, ht⟩ := mem_ancestors.mp h
  have hne : (new P a).norm ≠ [] := by
    intro h
    rw [h] at ht
    cases ht
  have hsplit := congrArg splitSlash ht
  rw [splitSlash_append_slash, splitSlash_nil, splitSlash_fold] at hsplit
  obtain ⟨s, rest, hs⟩ := exists_cons_of_ne_nil (splitSlash_ne_nil (new P a).norm)
  rw [hs, map_cons, singleton_append, List.cons.injEq, fold_eq_nil] at hsplit
  have hmem : s ∈ splitSlash (new P a).norm := by
    rw [hs]
    exact mem_cons_self ..
  exact (isComponent_of_mem_splitSlash hne hmem).ne_nil hsplit.1

/-! ### Literal patterns -/

theorem accepts_literals {ci : Bool} (l w : List Text)
    (h : RepeatPattern.accepts PatternSegment.isRecursive (PatternSegment.matchesLiteral ci)
      (l.map .literal) w = true) : l.map (fold ci) = w.map (fold ci) := by
  have hitems : ∀ a ∈ l.map PatternSegment.literal, PatternSegment.isRecursive a = false := by
    intro a ha
    obtain ⟨s, _, rfl⟩ := mem_map.mp ha
    rfl
  rw [RepeatPattern.accepts_items _ _ hitems, forall₂_map_left_iff] at h
  rw [← forall₂_eq_eq_eq, forall₂_map_left_iff, forall₂_map_right_iff]
  exact h.imp fun s t hst => (textEq_iff ci s t).mp hst

/-- Literal patterns overlap when one lies below the other. -/
theorem overlaps_iff_of_not_glob (ha : (new P a).isGlob = false) (hb : (new P b).isGlob = false) :
    (new P a).overlaps P.caseInsensitive (new P b) = true ↔
      textEq P.caseInsensitive (new P a).norm (new P b).norm = true ∨
      isDirectoryPrefix P.caseInsensitive (new P a).norm (new P b).norm = true ∨
      isDirectoryPrefix P.caseInsensitive (new P b).norm (new P a).norm = true := by
  rw [overlaps_new_iff, matcherMatches_of_not_glob P a ha, matcherMatches_of_not_glob P b hb,
    ha, hb]
  simp only [Bool.false_eq_true, and_false, false_or, true_and]
  constructor
  · rintro (h | h | h | ⟨_, _, h⟩)
    · exact .inl h
    · exact .inr (.inl h)
    · exact .inr (.inr h)
    · left
      rw [segmentsOverlap_eq, segments_of_not_glob P a ha, segments_of_not_glob P b hb,
        RepeatPattern.overlap_letters PatternSegment.literal (fun _ => rfl)] at h
      simp only [PatternSegment.overlaps_literal] at h
      have h := accepts_literals _ _ h
      rw [← splitSlash_fold, ← splitSlash_fold] at h
      rw [textEq_iff]
      exact (splitSlash_injective h).symm
  · rintro (h | h | h)
    · exact .inl h
    · exact .inr (.inl h)
    · exact .inr (.inr (.inl h))

/-- A literal pattern that overlaps a pattern starting with the segment `s` is `s` or lies below
it, unless it is the root. -/
theorem fold_norm_of_overlaps (hg : P.globset.FirstLiteral) {s : Text}
    (hs : (new P b).firstLiteralSegment = some s) (ha : (new P a).isGlob = false)
    (hne : (new P a).norm ≠ []) (h : (new P a).overlaps P.caseInsensitive (new P b) = true) :
    fold P.caseInsensitive (new P a).norm = fold P.caseInsensitive s ∨
      (fold P.caseInsensitive s ++ ['/']).isPrefixOf
        (fold P.caseInsensitive (new P a).norm) = true := by
  obtain ⟨t, ht⟩ := firstLiteralSegment_of_not_glob ha hne
  rw [← fold_eq_of_overlaps hg ht hs h, List.isPrefixOf_iff_prefix]
  rcases norm_of_firstLiteralSegment ht with hn | ⟨tail, hn⟩
  · exact .inl (by rw [hn])
  · refine .inr ⟨fold P.caseInsensitive tail, ?_⟩
    rw [hn, fold_append, fold_cons, foldChar_slash_self, append_assoc, singleton_append]

/-- Both indexes test a literal entry with `matches` first, which adds nothing. -/
theorem matchesPath_or_overlaps (ha : (new P a).isGlob = false) :
    ((new P b).matchesPath (new P a).norm || (new P a).overlaps P.caseInsensitive (new P b)) =
      (new P a).overlaps P.caseInsensitive (new P b) := by
  apply Bool.eq_iff_iff.mpr
  rw [Bool.or_eq_true, or_iff_right_iff_imp]
  intro h
  rw [overlaps_new_iff]
  rw [matchesPath, Bool.or_eq_true, Bool.and_eq_true, beq_iff_eq] at h
  rcases h with h | h
  · exact .inr (.inr (.inr (.inr (.inl ⟨isMatchable_of_not_glob P a ha, h⟩))))
  · exact .inl (by rw [h.2]; exact textEq_self _ _)

end CompiledPattern

end AgentMail.Pattern
