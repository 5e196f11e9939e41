import AgentMail.Pattern.Coverage

/-!
# The simple fragment

Segments of literal text, `*` and `?`, and whole `**` segments: `segments_overlap`
(`crates/mcp-agent-mail-core/src/pattern_overlap.rs:467–474`) finds an overlap exactly where some
path is matched by both sides.
-/

namespace AgentMail.Pattern

open Base Lib List

/-- A segment of literal text, `*` and `?`. Next to a wildcard a bracket or a brace is no literal
text: `parse_simple_glob_tokens` refuses it. -/
structure SimpleSegment (s : Text) : Prop where
  no_slash : '/' ∉ s
  no_backslash : '\\' ∉ s
  no_bracket : hasGlobMeta s = true → ∀ c ∈ s, c ≠ '[' ∧ c ≠ ']' ∧ c ≠ '{' ∧ c ≠ '}'

/-- Whether the segments of a path match those of a pattern: `**` stands for any number of them,
`*` for any run of characters and `?` for one character. -/
def matchesSegments (ci : Bool) (pattern path : List Text) : Bool :=
  RepeatPattern.accepts isRecursive (starMatch ci) pattern path

namespace Globset

/-- A single component of `*`, `?` and literal characters builds and matches as documented. -/
def SimpleExact (g : Globset) : Prop :=
  ∀ ci piece, '/' ∉ piece → '\\' ∉ piece → (∀ c ∈ piece, c ≠ '[' ∧ c ≠ ']' ∧ c ≠ '{' ∧ c ≠ '}') →
    ∃ m, g.build ci piece = some m ∧ ∀ s, '/' ∉ s → m s = starMatch ci piece s

end Globset

theorem simpleGlobset_simpleExact : simpleGlobset.SimpleExact := by
  intro ci piece hslash _ hplain
  have hbuild : piece.any (fun c => c == '[' || c == '{' || c == '}') = false := by
    rw [any_eq_false]
    intro c hc
    obtain ⟨h₁, _, h₃, h₄⟩ := hplain c hc
    simp [h₁, h₃, h₄]
  have hsome : ∃ m, simpleGlobset.build ci piece = some m := by
    simp only [simpleGlobset, hbuild]
    exact ⟨_, rfl⟩
  obtain ⟨m, hm⟩ := hsome
  refine ⟨m, hm, ?_⟩
  intro s hs
  rw [simpleGlobset_build hm]
  dsimp only
  rw [splitSlash_of_notMem hslash, splitSlash_of_notMem hs, expandTrailing_singleton]
  cases hr : isRecursive piece with
  | true =>
    have hpiece : piece = ['*', '*'] := eq_of_beq hr
    rw [hpiece, starMatch_recursive]
    rfl
  | false => rw [RepeatPattern.accepts_item _ _ hr, RepeatPattern.accepts_nil_nil, Bool.and_true]

/-! ### Characters -/

theorem exists_parse {ci : Bool} {tokens : List SimpleGlobToken} {raw : Text}
    (h : ∀ c ∈ raw, c ≠ '[' ∧ c ≠ ']' ∧ c ≠ '{' ∧ c ≠ '}') :
    ∃ result, parseSimpleGlobTokensFrom ci tokens raw = some result := by
  induction raw generalizing tokens with
  | nil => exact ⟨tokens, rfl⟩
  | cons ch raw ih =>
    rw [forall_mem_cons] at h
    have hplain : ¬ (ch = '[' ∨ ch = ']' ∨ ch = '{' ∨ ch = '}') := by
      simp only [not_or]
      exact h.1
    unfold parseSimpleGlobTokensFrom
    split
    · split
      · exact ih h.2
      · exact ih h.2
    · split
      · exact ih h.2
      · exact ih h.2

namespace SimpleGlobToken

/-- A token of a segment does not ask for a slash. -/
def IsPlain (ci : Bool) (t : SimpleGlobToken) : Prop :=
  ∃ ch, ch ≠ '/' ∧ foldChar ci ch = ch ∧ ∀ a, t = .literal a → a = ch

theorem exists_accepts {ci : Bool} {t : SimpleGlobToken} (h : t.IsPlain ci) :
    ∃ ch, ch ≠ '/' ∧ accepts ci t ch = true := by
  obtain ⟨ch, hch, hfold, heq⟩ := h
  refine ⟨ch, hch, ?_⟩
  cases t with
  | literal a => rw [heq a rfl, accepts, hfold, beq_self_eq_true]
  | anyChar => rfl
  | anyString => rfl

theorem exists_common {ci : Bool} {t t' : SimpleGlobToken} (h : t.IsPlain ci) (h' : t'.IsPlain ci)
    (hc : compatible t t' = true) :
    ∃ ch, ch ≠ '/' ∧ accepts ci t ch = true ∧ accepts ci t' ch = true := by
  cases t with
  | literal a =>
    obtain ⟨ch, hch, hat⟩ := exists_accepts h
    refine ⟨ch, hch, hat, ?_⟩
    cases t' with
    | literal b =>
      have hab : a = b := eq_of_beq hc
      rwa [← hab]
    | anyChar => rfl
    | anyString => rfl
  | anyChar | anyString =>
    obtain ⟨ch, hch, hat⟩ := exists_accepts h'
    exact ⟨ch, hch, rfl, hat⟩

end SimpleGlobToken

open SimpleGlobToken in
theorem isPlain_parseFrom {ci : Bool} {tokens result : List SimpleGlobToken} {raw : Text}
    (h : parseSimpleGlobTokensFrom ci tokens raw = some result) (hraw : '/' ∉ raw)
    (htokens : ∀ t ∈ tokens, t.IsPlain ci) : ∀ t ∈ result, t.IsPlain ci := by
  have hany : ∀ {t : SimpleGlobToken}, (∀ a, t ≠ .literal a) → t.IsPlain ci := by
    intro t ht
    refine ⟨'*', by decide, ?_, fun a ha => absurd ha (ht a)⟩
    cases ci <;> decide
  have hpush : ∀ {tokens : List SimpleGlobToken} {t : SimpleGlobToken},
      (∀ t ∈ tokens, t.IsPlain ci) → t.IsPlain ci → ∀ u ∈ tokens ++ [t], u.IsPlain ci := by
    intro tokens t htokens ht u hu
    rcases mem_append.mp hu with hu | hu
    · exact htokens u hu
    · rwa [mem_singleton.mp hu]
  induction raw generalizing tokens with
  | nil =>
    cases h
    exact htokens
  | cons ch raw ih =>
    rw [mem_cons, not_or] at hraw
    unfold parseSimpleGlobTokensFrom at h
    split at h
    · split at h
      · exact ih h hraw.2 htokens
      · exact ih h hraw.2 (hpush htokens (hany (by simp)))
    · split at h
      · exact ih h hraw.2 (hpush htokens (hany (by simp)))
      · split at h
        · cases h
        · refine ih h hraw.2 (hpush htokens ⟨foldChar ci ch, ?_, foldChar_idem ci ch, ?_⟩)
          · have hslash := foldChar_eq_iff (x := '/') (by decide) ci ch
            exact fun heq => hraw.1 (hslash.mp heq).symm
          · rintro a ⟨⟩
            rfl

open SimpleGlobToken in
/-- Two globs are found to overlap where they match a common text. -/
theorem simpleGlobPatternsOverlap_iff {ci : Bool} {left right : Text} (hleft : '/' ∉ left)
    (hright : '/' ∉ right) (hl : ∀ c ∈ left, c ≠ '[' ∧ c ≠ ']' ∧ c ≠ '{' ∧ c ≠ '}')
    (hr : ∀ c ∈ right, c ≠ '[' ∧ c ≠ ']' ∧ c ≠ '{' ∧ c ≠ '}') :
    (simpleGlobPatternsOverlap ci left right).getD true = true ↔
      ∃ s, '/' ∉ s ∧ starMatch ci left s = true ∧ starMatch ci right s = true := by
  have hleftParse : ∃ result, parseSimpleGlobTokensFrom ci [] left = some result := exists_parse hl
  have hrightParse : ∃ result, parseSimpleGlobTokensFrom ci [] right = some result :=
    exists_parse hr
  obtain ⟨leftTokens, hpl⟩ := hleftParse
  obtain ⟨rightTokens, hpr⟩ := hrightParse
  have hparsed : (simpleGlobPatternsOverlap ci left right).getD true =
      RepeatPattern.overlap isAnyString compatible leftTokens rightTokens := by
    rw [← sequencePatternsOverlap_eq compatible_comm, simpleGlobPatternsOverlap,
      parseSimpleGlobTokens, hpl, parseSimpleGlobTokens, hpr]
    rfl
  rw [hparsed]
  simp only [starMatch_eq_tokens]
  constructor
  · intro h
    have hplainLeft := isPlain_parseFrom hpl hleft (by simp)
    have hplainRight := isPlain_parseFrom hpr hright (by simp)
    obtain ⟨s, hs, hls, hrs⟩ := RepeatPattern.exists_common_word (Q := (· ≠ '/'))
      (fun t ht _ => exists_accepts (hplainLeft t ht))
      (fun t ht _ => exists_accepts (hplainRight t ht))
      (fun t ht t' ht' _ _ hc => exists_common (hplainLeft t ht) (hplainRight t' ht') hc) h
    exact ⟨s, fun hmem => hs _ hmem rfl, ((accepts_parseFrom hpl).2 s).mpr hls,
      ((accepts_parseFrom hpr).2 s).mpr hrs⟩
  · rintro ⟨s, _, hls, hrs⟩
    apply RepeatPattern.overlap_of_common_word _ (((accepts_parseFrom hpl).2 s).mp hls)
      (((accepts_parseFrom hpr).2 s).mp hrs)
    intro t _ t' _ _ _ ch hat hat'
    exact compatible_of_accepts hat hat'

/-! ### Segments -/

section

variable {P : Platform} (hg : P.globset.SimpleExact) {a b : Text}

include hg in
theorem compileSegment_simple (ha : SimpleSegment a) (hrec : isRecursive a = false) :
    (hasGlobMeta a = false ∧ compileSegment P a = .literal a) ∨
      hasGlobMeta a = true ∧ ∃ m, compileSegment P a = .glob a m ∧
        ∀ s, '/' ∉ s → m s = starMatch P.caseInsensitive a s := by
  cases hmeta : hasGlobMeta a with
  | false => exact .inl ⟨rfl, compileSegment_of_not_meta hmeta⟩
  | true =>
    obtain ⟨m, hm, hmatch⟩ :=
      hg P.caseInsensitive a ha.no_slash ha.no_backslash (ha.no_bracket hmeta)
    have hne : a ≠ ['*', '*'] := beq_eq_false_iff_ne.mp hrec
    refine .inr ⟨rfl, m, ?_, hmatch⟩
    rw [compileSegment, if_neg hne, hmeta, if_pos rfl, hm]

include hg in
theorem matchesLiteral_simple (ha : SimpleSegment a) (hrec : isRecursive a = false) {s : Text}
    (hs : '/' ∉ s) :
    (compileSegment P a).matchesLiteral P.caseInsensitive s = starMatch P.caseInsensitive a s := by
  rcases compileSegment_simple hg ha hrec with ⟨hmeta, h⟩ | ⟨_, m, h, hmatch⟩
  · rw [h, starMatch_eq_textEq hmeta]
    rfl
  · rw [h]
    exact hmatch s hs

include hg in
/-- Simple segments overlap exactly where they match a common text. -/
theorem overlaps_simple (ha : SimpleSegment a) (hb : SimpleSegment b)
    (hreca : isRecursive a = false) (hrecb : isRecursive b = false) :
    (compileSegment P a).overlaps P.caseInsensitive (compileSegment P b) = true ↔
      ∃ s, '/' ∉ s ∧ starMatch P.caseInsensitive a s = true ∧
        starMatch P.caseInsensitive b s = true := by
  -- A literal segment is itself the common text.
  have hliteral : ∀ {a b : Text}, SimpleSegment a → SimpleSegment b → isRecursive b = false →
      hasGlobMeta a = false →
      ((PatternSegment.literal a).overlaps P.caseInsensitive (compileSegment P b) = true ↔
        ∃ s, '/' ∉ s ∧ starMatch P.caseInsensitive a s = true ∧
          starMatch P.caseInsensitive b s = true) := by
    intro a b ha hb hrecb hmeta
    rw [PatternSegment.overlaps_literal, matchesLiteral_simple hg hb hrecb ha.no_slash]
    simp only [starMatch_eq_textEq hmeta, textEq_iff]
    constructor
    · exact fun h => ⟨a, ha.no_slash, rfl, h⟩
    · rintro ⟨s, _, hfold, h⟩
      rwa [starMatch_fold hfold]
  rcases compileSegment_simple hg ha hreca with ⟨hmeta, h⟩ | ⟨hmeta, m, h, _⟩
  · rw [h]
    exact hliteral ha hb hrecb hmeta
  · rcases compileSegment_simple hg hb hrecb with ⟨hmeta', h'⟩ | ⟨hmeta', m', h', _⟩
    · rw [PatternSegment.overlaps_comm, h', hliteral hb ha hreca hmeta']
      simp only [and_comm]
    · rw [h, h']
      exact simpleGlobPatternsOverlap_iff ha.no_slash hb.no_slash (ha.no_bracket hmeta)
        (hb.no_bracket hmeta')

theorem exists_starMatch (ci : Bool) (ha : SimpleSegment a) :
    ∃ s, '/' ∉ s ∧ starMatch ci a s = true := by
  cases hmeta : hasGlobMeta a with
  | false =>
    refine ⟨a, ha.no_slash, ?_⟩
    rw [starMatch_eq_textEq hmeta, textEq_self]
  | true =>
    have hstar : ∀ c ∈ ['*'], c ≠ '[' ∧ c ≠ ']' ∧ c ≠ '{' ∧ c ≠ '}' := by decide
    obtain ⟨tokens, htokens⟩ : ∃ result, parseSimpleGlobTokensFrom ci [] a = some result :=
      exists_parse (ha.no_bracket hmeta)
    have hoverlap : (simpleGlobPatternsOverlap ci ['*'] a).getD true = true := by
      rw [simpleGlobPatternsOverlap, parseSimpleGlobTokens, parseSimpleGlobTokens, htokens]
      show sequencePatternsOverlap SimpleGlobToken.isAnyString SimpleGlobToken.compatible
        [.anyString] tokens = true
      rw [sequencePatternsOverlap_eq SimpleGlobToken.compatible_comm,
        RepeatPattern.overlap_of_all_repeat rfl]
    obtain ⟨s, hs, _, hmatch⟩ := (simpleGlobPatternsOverlap_iff (by decide) ha.no_slash hstar
      (ha.no_bracket hmeta)).mp hoverlap
    exact ⟨s, hs, hmatch⟩

/-- Whether a text is a path segment that a segment matches. -/
def segmentAccepts (ci : Bool) (segment : PatternSegment) (s : Text) : Bool :=
  !s.contains '/' && segment.matchesLiteral ci s

include hg in
theorem segmentAccepts_simple (ha : SimpleSegment a) (hrec : isRecursive a = false) {s : Text} :
    segmentAccepts P.caseInsensitive (compileSegment P a) s = true ↔
      '/' ∉ s ∧ starMatch P.caseInsensitive a s = true := by
  rw [segmentAccepts, Bool.and_eq_true, Bool.not_eq_true', ← Bool.not_eq_true, contains_iff_mem]
  exact and_congr_right fun hs => by rw [matchesLiteral_simple hg ha hrec hs]

include hg in
theorem accepts_simple {pattern path : List Text} (hpattern : ∀ s ∈ pattern, SimpleSegment s)
    (hpath : ∀ s ∈ path, '/' ∉ s) :
    RepeatPattern.accepts PatternSegment.isRecursive (segmentAccepts P.caseInsensitive)
        (pattern.map (compileSegment P)) path = matchesSegments P.caseInsensitive pattern path := by
  apply RepeatPattern.accepts_map _ _ _ _ _ _ _ fun s _ => isRecursive_compileSegment P s
  intro s hs hrec t ht
  rw [Bool.eq_iff_iff, segmentAccepts_simple hg (hpattern s hs) hrec]
  exact and_iff_right (hpath t ht)

end

/-- Two patterns of simple segments overlap exactly where both match the segments of some path. -/
theorem segmentsOverlap_iff (P : Platform) (hg : P.globset.SimpleExact) (left right : List Text)
    (hleft : ∀ s ∈ left, SimpleSegment s) (hright : ∀ s ∈ right, SimpleSegment s) :
    segmentsOverlap P.caseInsensitive (left.map (compileSegment P))
        (right.map (compileSegment P)) = true ↔
      ∃ path, (∀ s ∈ path, '/' ∉ s) ∧ matchesSegments P.caseInsensitive left path = true ∧
        matchesSegments P.caseInsensitive right path = true := by
  have hitem : ∀ pattern : List Text, (∀ s ∈ pattern, SimpleSegment s) →
      ∀ segment ∈ pattern.map (compileSegment P), segment.isRecursive = false →
        ∃ a, segment = compileSegment P a ∧ SimpleSegment a ∧ isRecursive a = false := by
    intro pattern hpattern segment hsegment hrec
    obtain ⟨a, ha, rfl⟩ := mem_map.mp hsegment
    rw [isRecursive_compileSegment] at hrec
    exact ⟨a, rfl, hpattern a ha, hrec⟩
  have hsome : ∀ pattern : List Text, (∀ s ∈ pattern, SimpleSegment s) →
      ∀ segment ∈ pattern.map (compileSegment P), segment.isRecursive = false →
        ∃ s, '/' ∉ s ∧ segmentAccepts P.caseInsensitive segment s = true := by
    intro pattern hpattern segment hsegment hrec
    obtain ⟨a, rfl, ha, hreca⟩ := hitem pattern hpattern segment hsegment hrec
    obtain ⟨s, hs, hmatch⟩ := exists_starMatch P.caseInsensitive ha
    exact ⟨s, hs, (segmentAccepts_simple hg ha hreca).mpr ⟨hs, hmatch⟩⟩
  have hpair : ∀ segment ∈ left.map (compileSegment P), ∀ segment' ∈ right.map (compileSegment P),
      segment.isRecursive = false → segment'.isRecursive = false →
      (segment.overlaps P.caseInsensitive segment' = true ↔
        ∃ s, '/' ∉ s ∧ segmentAccepts P.caseInsensitive segment s = true ∧
          segmentAccepts P.caseInsensitive segment' s = true) := by
    intro segment hsegment segment' hsegment' hrec hrec'
    obtain ⟨a, rfl, ha, hreca⟩ := hitem left hleft segment hsegment hrec
    obtain ⟨b, rfl, hb, hrecb⟩ := hitem right hright segment' hsegment' hrec'
    rw [overlaps_simple hg ha hb hreca hrecb]
    simp only [segmentAccepts_simple hg ha hreca, segmentAccepts_simple hg hb hrecb]
    exact exists_congr fun s => by tauto
  rw [segmentsOverlap_eq]
  constructor
  · intro h
    obtain ⟨path, hpath, hl, hr⟩ := RepeatPattern.exists_common_word (Q := ('/' ∉ ·))
      (hsome left hleft) (hsome right hright)
      (fun segment hs segment' hs' hrec hrec' => (hpair segment hs segment' hs' hrec hrec').mp) h
    rw [accepts_simple hg hleft hpath] at hl
    rw [accepts_simple hg hright hpath] at hr
    exact ⟨path, hpath, hl, hr⟩
  · rintro ⟨path, hpath, hl, hr⟩
    rw [← accepts_simple hg hleft hpath] at hl
    rw [← accepts_simple hg hright hpath] at hr
    refine RepeatPattern.overlap_of_common_word ?_ hl hr
    intro segment hs segment' hs' hrec hrec' s hacc hacc'
    refine (hpair segment hs segment' hs' hrec hrec').mpr ⟨s, ?_, hacc, hacc'⟩
    obtain ⟨a, rfl, ha, hreca⟩ := hitem left hleft segment hs hrec
    exact ((segmentAccepts_simple hg ha hreca).mp hacc).1

theorem segmentsOverlap_iff_meeting :
    segmentsOverlap false (["a*".toList, "**".toList, "c".toList].map (compileSegment exactPlatform))
      (["?b".toList, "c".toList].map (compileSegment exactPlatform)) = true := by
  have hsimple : ∀ s ∈ ["a*".toList, "**".toList, "c".toList, "?b".toList], SimpleSegment s := by
    intro s hs
    have hall : ∀ s ∈ ["a*".toList, "**".toList, "c".toList, "?b".toList],
        '/' ∉ s ∧ '\\' ∉ s ∧ ∀ c ∈ s, c ≠ '[' ∧ c ≠ ']' ∧ c ≠ '{' ∧ c ≠ '}' := by decide
    obtain ⟨hslash, hbackslash, hplain⟩ := hall s hs
    exact ⟨hslash, hbackslash, fun _ => hplain⟩
  refine (segmentsOverlap_iff exactPlatform simpleGlobset_simpleExact _ _
    (fun s hs => hsimple s ?_) (fun s hs => hsimple s ?_)).mpr
    ⟨["ab".toList, "c".toList], by decide, by decide, by decide⟩
  · simp only [mem_cons, not_mem_nil, or_false] at hs ⊢
    tauto
  · simp only [mem_cons, not_mem_nil, or_false] at hs ⊢
    tauto

/-- A text that `*` and a character match ends in the character. -/
theorem getLast?_of_starMatch {c : Char} (hc : c ≠ '*' ∧ c ≠ '?') {s : Text}
    (h : starMatch false ['*', c] s = true) : s.getLast? = some c := by
  obtain ⟨u, v, rfl, _, hv⟩ :=
    RepeatPattern.exists_of_accepts_append (l := ['*']) (r := [c]) _ _ h
  have hrep : (c == '*') = false := beq_eq_false_iff_ne.mpr hc.1
  have hq : (c == '?') = false := beq_eq_false_iff_ne.mpr hc.2
  match v, hv with
  | [], hv =>
    rw [RepeatPattern.accepts_cons_nil, hrep] at hv
    cases hv
  | [d], hv =>
    rw [RepeatPattern.accepts_item (· == '*') _ hrep, hq, Bool.and_eq_true, Bool.false_or] at hv
    have hd : c = d := eq_of_beq hv.1
    rw [hd, List.getLast?_concat]
  | d :: e :: v, hv =>
    rw [RepeatPattern.accepts_item (· == '*') _ hrep, RepeatPattern.accepts_nil_cons, Bool.and_false] at hv
    cases hv

/-- `*]` and `*a` are said to overlap, and no path matches both. -/
theorem bracket_segments_disjoint :
    segmentsOverlap false (["*]".toList].map (compileSegment exactPlatform))
        (["*a".toList].map (compileSegment exactPlatform)) = true ∧
      ¬ ∃ path, matchesSegments false ["*]".toList] path = true ∧
        matchesSegments false ["*a".toList] path = true := by
  refine ⟨by decide, ?_⟩
  rintro ⟨path, hl, hr⟩
  rw [matchesSegments, RepeatPattern.accepts_items _ _ (by decide)] at hl hr
  cases hl with
  | cons hbracket hl =>
    cases hl
    cases hr with
    | cons hletter _ =>
      have hend := getLast?_of_starMatch (by decide) hbracket
      rw [getLast?_of_starMatch (by decide) hletter] at hend
      cases hend

end AgentMail.Pattern
