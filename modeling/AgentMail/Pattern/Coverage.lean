import AgentMail.Pattern.Compiled

/-!
# Overlap against common paths

Two reservations conflict when some concrete path lies in both. `covers` says which paths a
pattern reserves, and the results compare it with `CompiledPattern::overlaps`
(`crates/mcp-agent-mail-core/src/pattern_overlap.rs:398–458`): which common paths the cascade
finds, and which it misses.
-/

namespace AgentMail.Pattern

open Base Lib List

/-! ### Simple globs accept what they denote -/

namespace SimpleGlobToken

/-- The token that `parse_simple_glob_tokens` reads from one character. -/
def ofChar (ci : Bool) (c : Char) : SimpleGlobToken :=
  if c = '*' then .anyString else if c = '?' then .anyChar else .literal (foldChar ci c)

/-- The characters a token stands for, `anyString` being the repeat. -/
def accepts (ci : Bool) : SimpleGlobToken → Char → Bool
  | .literal a, ch => a == foldChar ci ch
  | _, _ => true

theorem compatible_of_accepts {ci : Bool} {a b : SimpleGlobToken} {ch : Char}
    (ha : accepts ci a ch = true) (hb : accepts ci b ch = true) : compatible a b = true := by
  cases a with
  | literal x =>
    cases b with
    | literal y =>
      simp only [accepts, beq_iff_eq] at ha hb
      simp only [compatible, ha, hb, BEq.rfl]
    | anyChar => rfl
    | anyString => rfl
  | anyChar => rfl
  | anyString => rfl

theorem isAnyString_ofChar (ci : Bool) (c : Char) : isAnyString (ofChar ci c) = (c == '*') := by
  unfold ofChar
  split
  · next h => rw [h]; rfl
  · next h =>
    rw [beq_eq_false_iff_ne.mpr h]
    split <;> rfl

theorem accepts_ofChar (ci : Bool) {c : Char} (hc : (c == '*') = false) (ch : Char) :
    accepts ci (ofChar ci c) ch = (c == '?' || foldChar ci c == foldChar ci ch) := by
  unfold ofChar
  rw [if_neg (beq_eq_false_iff_ne.mp hc)]
  split
  · next h => rw [h]; rfl
  · next h =>
    rw [beq_eq_false_iff_ne.mpr h, Bool.false_or]
    rfl

end SimpleGlobToken

open SimpleGlobToken in
theorem starMatch_eq_tokens (ci : Bool) (raw s : Text) :
    starMatch ci raw s =
      RepeatPattern.accepts isAnyString (SimpleGlobToken.accepts ci) (raw.map (ofChar ci)) s := by
  rw [RepeatPattern.accepts_map _ _ (ofChar ci) (· == '*')
    (fun c ch => c == '?' || foldChar ci c == foldChar ci ch) raw s
    (fun c _ => isAnyString_ofChar ci c) (fun c _ hc ch _ => accepts_ofChar ci hc ch)]
  rfl

-- The loop merges runs of `*`; the accumulator may already end in one.
open SimpleGlobToken in
/-- A segment that parses has neither brackets nor braces, and its tokens mean what it says. -/
theorem accepts_parseFrom {ci : Bool} {raw : Text} {tokens result : List SimpleGlobToken}
    (h : parseSimpleGlobTokensFrom ci tokens raw = some result) :
    (∀ c ∈ raw, c ≠ '[' ∧ c ≠ ']' ∧ c ≠ '{' ∧ c ≠ '}') ∧
      ∀ w, RepeatPattern.accepts isAnyString (SimpleGlobToken.accepts ci)
        (tokens ++ raw.map (ofChar ci)) w = true ↔
        RepeatPattern.accepts isAnyString (SimpleGlobToken.accepts ci) result w = true := by
  induction raw generalizing tokens with
  | nil =>
    cases h
    simp
  | cons ch raw ih =>
    unfold parseSimpleGlobTokensFrom at h
    rw [forall_mem_cons]
    have hpush (t : SimpleGlobToken) (ht : ofChar ci ch = t)
        (h : parseSimpleGlobTokensFrom ci (tokens ++ [t]) raw = some result) (w : Text) :
        RepeatPattern.accepts isAnyString (SimpleGlobToken.accepts ci)
          (tokens ++ (ch :: raw).map (ofChar ci)) w = true ↔
        RepeatPattern.accepts isAnyString (SimpleGlobToken.accepts ci) result w = true := by
      rw [← (ih h).2 w, append_assoc, singleton_append, ← ht, map_cons]
    split at h
    · next hstar =>
      subst hstar
      split at h
      · next hlast =>
        refine ⟨⟨by decide, (ih h).1⟩, fun w => ?_⟩
        rw [← (ih h).2 w]
        obtain ⟨init, rfl⟩ : ∃ init, tokens = init ++ [.anyString] :=
          List.getLast?_eq_some_iff.mp hlast
        rw [append_assoc, append_assoc, singleton_append, singleton_append]
        constructor
        · exact RepeatPattern.accepts_append_mono _ _
            (fun w hw => RepeatPattern.accepts_of_double_repeat _ _ hw rfl) init w
        · exact RepeatPattern.accepts_append_mono _ _
            (fun w hw => RepeatPattern.accepts_cons_of_accepts _ _ rfl hw) init w
      · exact ⟨⟨by decide, (ih h).1⟩, hpush _ rfl h⟩
    · next hstar =>
      split at h
      · next hq =>
        subst hq
        exact ⟨⟨by decide, (ih h).1⟩, hpush _ rfl h⟩
      · next hq =>
        split at h
        · cases h
        · next hmeta =>
          simp only [not_or] at hmeta
          refine ⟨⟨hmeta, (ih h).1⟩, hpush _ ?_ h⟩
          rw [ofChar, if_neg hstar, if_neg hq]

/-- Two component globs that match a common text are found to overlap. -/
theorem simpleGlobPatternsOverlap_of_common {g : Globset} (hg : g.SimpleSound) {ci : Bool}
    {l r s : Text} {ml mr : Text → Bool} (hl : g.build ci l = some ml) (hr : g.build ci r = some mr)
    (hls : '/' ∉ l ∧ '\\' ∉ l) (hrs : '/' ∉ r ∧ '\\' ∉ r) (hml : ml s = true) (hmr : mr s = true) :
    (simpleGlobPatternsOverlap ci l r).getD true = true := by
  cases hpl : parseSimpleGlobTokens ci l with
  | none =>
    rw [simpleGlobPatternsOverlap, hpl]
    rfl
  | some left =>
    cases hpr : parseSimpleGlobTokens ci r with
    | none =>
      rw [simpleGlobPatternsOverlap, hpl, hpr]
      rfl
    | some right =>
      have hleft := accepts_parseFrom hpl
      have hright := accepts_parseFrom hpr
      have hl' := hg ci l ml s hl hls.1 hls.2 hleft.1 hml
      have hr' := hg ci r mr s hr hrs.1 hrs.2 hright.1 hmr
      rw [starMatch_eq_tokens] at hl' hr'
      rw [simpleGlobPatternsOverlap, hpl, hpr]
      change simpleGlobTokensOverlap left right = true
      rw [simpleGlobTokensOverlap, sequencePatternsOverlap_eq SimpleGlobToken.compatible_comm]
      apply RepeatPattern.overlap_of_common_word _ ((hleft.2 s).mp hl') ((hright.2 s).mp hr')
      intro a _ b _ _ _ ch ha hb
      exact SimpleGlobToken.compatible_of_accepts ha hb

/-! ### Segments -/

/-- The shapes a compiled component can have. -/
theorem compileSegment_cases (P : Platform) (piece : Text) :
    compileSegment P piece = .recursive ∨ compileSegment P piece = .literal piece ∨
      ∃ m, P.globset.build P.caseInsensitive piece = some m ∧
        compileSegment P piece = .glob piece m := by
  unfold compileSegment
  split
  · exact .inl rfl
  · split
    · split
      · next m hb => exact .inr (.inr ⟨m, hb, rfl⟩)
      · exact .inr (.inl rfl)
    · exact .inr (.inl rfl)

/-- Two compiled components that match a common path component overlap. -/
theorem overlaps_of_matchesLiteral {P : Platform} (hsimple : P.globset.SimpleSound)
    (hfold : P.globset.FoldsCase) {a b : Text} (ha : '/' ∉ a ∧ '\\' ∉ a) (hb : '/' ∉ b ∧ '\\' ∉ b)
    {s : Text} (hma : (compileSegment P a).matchesLiteral P.caseInsensitive s = true)
    (hmb : (compileSegment P b).matchesLiteral P.caseInsensitive s = true) :
    (compileSegment P a).overlaps P.caseInsensitive (compileSegment P b) = true := by
  obtain h | h | ⟨m, hm, h⟩ := compileSegment_cases P a
  · rw [h]
    rfl
  · obtain h' | h' | ⟨m', hm', h'⟩ := compileSegment_cases P b
    · rw [h, h']
      rfl
    · rw [h] at hma ⊢
      rw [h'] at hmb ⊢
      change textEq _ a s = true at hma
      change textEq _ b s = true at hmb
      change textEq _ a b = true
      rw [textEq_iff] at hma hmb ⊢
      rw [hma, hmb]
    · rw [h] at hma ⊢
      rw [h'] at hmb ⊢
      change textEq _ a s = true at hma
      change m' s = true at hmb
      change m' a = true
      rwa [hfold _ _ _ _ _ hm' ((textEq_iff _ _ _).mp hma)]
  · obtain h' | h' | ⟨m', hm', h'⟩ := compileSegment_cases P b
    · rw [h, h']
      rfl
    · rw [h] at hma ⊢
      rw [h'] at hmb ⊢
      change m s = true at hma
      change textEq _ b s = true at hmb
      change m b = true
      rwa [hfold _ _ _ _ _ hm ((textEq_iff _ _ _).mp hmb)]
    · rw [h] at hma ⊢
      rw [h'] at hmb ⊢
      exact simpleGlobPatternsOverlap_of_common hsimple hm hm' ha hb hma hmb

/-! ### Coverage -/

namespace CompiledPattern

/-- The paths a pattern reserves: what a glob matches, or a literal path and everything
below it. -/
def covers (ci : Bool) (a : CompiledPattern) (p : Text) : Bool :=
  if a.isGlob then a.matcherMatches p else textEq ci a.norm p || isDirectoryPrefix ci a.norm p

/-- How the cascade can relate a literal path to a glob: the glob's text lies below the path,
or the glob matches the path itself, as a whole or component by component. -/
def GlobReaches (ci : Bool) (dir glob : CompiledPattern) : Prop :=
  isDirectoryPrefix ci dir.norm glob.norm = true ∨ glob.matcherMatches dir.norm = true ∨
    RepeatPattern.accepts PatternSegment.isRecursive (PatternSegment.matchesLiteral ci)
      glob.segments (splitSlash dir.norm) = true

/-- How the cascade can relate two globs whose components cannot be compiled one by one: as
texts, or with the broken components read as literal text. -/
def TextsMeet (ci : Bool) (a b : CompiledPattern) : Prop :=
  textEq ci a.norm b.norm = true ∨ a.matcherMatches b.norm = true ∨ b.matcherMatches a.norm = true ∨
    RepeatPattern.overlap PatternSegment.isRecursive (PatternSegment.overlaps ci)
      a.segments b.segments = true

/-- The pairs on which a common path is always found. -/
def FindsCommonPaths (P : Platform) (a b : CompiledPattern) : Prop :=
  match a.isGlob, b.isGlob with
  | false, false => True
  | false, true => GlobReaches P.caseInsensitive a b
  | true, false => GlobReaches P.caseInsensitive b a
  | true, true =>
    (P.globset.Separable P.caseInsensitive a.norm ∧ P.globset.Separable P.caseInsensitive b.norm) ∨
      TextsMeet P.caseInsensitive a b

variable {P : Platform} {a b : Text}

/-- Two literal paths with a common path below them are nested. -/
theorem overlaps_of_not_glob (ha : (new P a).isGlob = false) (hb : (new P b).isGlob = false)
    {p : Text} (hca : (new P a).covers P.caseInsensitive p = true)
    (hcb : (new P b).covers P.caseInsensitive p = true) :
    (new P a).overlaps P.caseInsensitive (new P b) = true := by
  rw [overlaps_new_iff]
  rw [covers, ha, if_neg Bool.false_ne_true, Bool.or_eq_true] at hca
  rw [covers, hb, if_neg Bool.false_ne_true, Bool.or_eq_true] at hcb
  by_cases hna : (new P a).norm = []
  · exact .inr (.inl ⟨ha, by rw [hna]; rfl⟩)
  · by_cases hnb : (new P b).norm = []
    · exact .inr (.inr (.inl ⟨hb, by rw [hnb]; rfl⟩))
    · rw [covers_iff_starts hna] at hca
      rw [covers_iff_starts hnb] at hcb
      -- Both are prefixes of the components of `p`, so one is a prefix of the other.
      rcases List.prefix_or_prefix_of_prefix hca hcb with h | h
      · rcases (covers_iff_starts hna).mpr h with h | h
        · exact .inl h
        · exact .inr (.inl ⟨ha, h⟩)
      · rcases (covers_iff_starts hnb).mpr h with h | h
        · exact .inl (by rw [textEq_comm]; exact h)
        · exact .inr (.inr (.inl ⟨hb, h⟩))

/-- A literal path against a glob, in either order. -/
theorem overlaps_iff_globReaches (ha : (new P a).isGlob = false) (hb : (new P b).isGlob = true)
    (hmb : (new P b).isMatchable = true) :
    (new P a).overlaps P.caseInsensitive (new P b) = true ↔
      GlobReaches P.caseInsensitive (new P a) (new P b) := by
  have hne : textEq P.caseInsensitive (new P a).norm (new P b).norm ≠ true := by
    intro h
    have hm := congrArg hasGlobMeta ((textEq_iff _ _ _).mp h)
    rw [hasGlobMeta_fold, hasGlobMeta_fold] at hm
    change (new P a).isGlob = (new P b).isGlob at hm
    rw [ha, hb] at hm
    cases hm
  have hsegs : segmentsOverlap P.caseInsensitive (new P a).segments (new P b).segments =
      RepeatPattern.accepts PatternSegment.isRecursive
        (PatternSegment.matchesLiteral P.caseInsensitive)
        (new P b).segments (splitSlash (new P a).norm) := by
    rw [segmentsOverlap_eq, segments_of_not_glob P a ha,
      RepeatPattern.overlap_letters PatternSegment.literal (fun _ => rfl)]
    simp only [PatternSegment.overlaps_literal]
  rw [overlaps_new_iff, hsegs, hmb, matcherMatches_of_not_glob P a ha,
    isMatchable_of_not_glob P a ha, ha, hb]
  simp only [hne, GlobReaches, true_and, false_or, Bool.true_eq_false, false_and,
    Bool.false_eq_true]

theorem accepts_segments {text : Text}
    (hs : P.globset.Separable P.caseInsensitive (new P text).norm) {w : List Text}
    (h : RepeatPattern.accepts isRecursive (P.globset.pieceMatches P.caseInsensitive)
      (splitSlash (new P text).norm) w = true) :
    RepeatPattern.accepts PatternSegment.isRecursive
      (PatternSegment.matchesLiteral P.caseInsensitive) (new P text).segments w = true := by
  change RepeatPattern.accepts _ _ ((splitSlash (new P text).norm).map (compileSegment P)) w = true
  rw [RepeatPattern.accepts_map _ _ (compileSegment P) isRecursive
    (P.globset.pieceMatches P.caseInsensitive) _ w
    (fun piece _ => isRecursive_compileSegment P piece)]
  · exact h
  · intro piece hpiece hr s _
    apply matchesLiteral_compileSegment hr
    intro hm
    obtain ⟨m, hb, _⟩ := hs piece hpiece hr hm
    exact ⟨m, hb⟩

/-- Two globs that compile component by component and match a common path overlap. -/
theorem overlaps_of_separable (hseg : P.globset.SegmentSound) (hsimple : P.globset.SimpleSound)
    (hfold : P.globset.FoldsCase) (ha : (new P a).isGlob = true) (hb : (new P b).isGlob = true)
    (hma : (new P a).isMatchable = true) (hmb : (new P b).isMatchable = true)
    (hsa : P.globset.Separable P.caseInsensitive (new P a).norm)
    (hsb : P.globset.Separable P.caseInsensitive (new P b).norm) {p : Text} (hp : RelPath p)
    (hca : (new P a).matcherMatches p = true) (hcb : (new P b).matcherMatches p = true) :
    (new P a).overlaps P.caseInsensitive (new P b) = true := by
  have hword {text : Text} (hg : (new P text).isGlob = true)
      (hs : P.globset.Separable P.caseInsensitive (new P text).norm)
      (hm : (new P text).matcherMatches p = true) :
      RepeatPattern.accepts PatternSegment.isRecursive
        (PatternSegment.matchesLiteral P.caseInsensitive) (new P text).segments
        (splitSlash p) = true := by
    have hmatcher : (new P text).matcher =
        P.globset.build P.caseInsensitive (new P text).norm := if_pos hg
    rw [matcherMatches, hmatcher] at hm
    cases hbuild : P.globset.build P.caseInsensitive (new P text).norm with
    | none =>
      rw [hbuild] at hm
      cases hm
    | some m =>
      rw [hbuild] at hm
      exact accepts_segments hs
        (hseg _ _ m p hbuild (backslash_notMem_resolveText _) hs hp hm)
  have hchars {text : Text} {piece : Text} (h : piece ∈ splitSlash (new P text).norm) :
      '/' ∉ piece ∧ '\\' ∉ piece :=
    ⟨slash_notMem_of_mem_splitSlash h,
      fun hc => backslash_notMem_resolveText _ (mem_of_mem_splitSlash h hc)⟩
  rw [overlaps_new_iff]
  refine .inr (.inr (.inr (.inr (.inr ⟨hma, hmb, ?_⟩))))
  rw [segmentsOverlap_eq]
  apply RepeatPattern.overlap_of_common_word _ (hword ha hsa hca) (hword hb hsb hcb)
  intro x hx y hy _ _ s hxs hys
  obtain ⟨px, hpx, rfl⟩ := mem_map.mp hx
  obtain ⟨py, hpy, rfl⟩ := mem_map.mp hy
  exact overlaps_of_matchesLiteral hsimple hfold (hchars hpx) (hchars hpy) hxs hys

end CompiledPattern

end AgentMail.Pattern
