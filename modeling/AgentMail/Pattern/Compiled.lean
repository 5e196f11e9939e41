import AgentMail.Pattern.Globset
import AgentMail.Pattern.Sequence

/-!
# Compiled reservation patterns

`crates/mcp-agent-mail-core/src/pattern_overlap.rs:54–124,258–474`: normalisation,
`CompiledPattern::new` and the overlap test with its shortcuts. The thread-local cache
only memoises `CompiledPattern::new`, so `CompiledPattern::cached` is `new` here.
-/

namespace AgentMail.Pattern

open Base Lib List

/-- What one build of the program fixes: whether the target is macOS or Windows, where paths
are compared ignoring ASCII case, and the glob library it links. -/
structure Platform where
  caseInsensitive : Bool
  globset : Globset

/-- A build for a target that compares paths exactly, over the reference globs. -/
def exactPlatform : Platform := ⟨false, simpleGlobset⟩

/-- A build for macOS or Windows, over the reference globs. -/
def foldingPlatform : Platform := ⟨true, simpleGlobset⟩

/-! ### Normalisation -/

/-- One arm of the component loop of `normalize_pattern`; the guard's `normalize_path` and the
hook's `normalize_match_input` run the same loop. -/
def pushComponent (parts : List Text) (component : Text) : List Text :=
  if component = [] ∨ component = ['.'] then parts
  else if component = ['.', '.'] then parts.dropLast
  else parts ++ [component]

/-- The surviving components of a text cut at both kinds of slash. -/
def resolveComponents (t : Text) : List Text :=
  (t.splitOnP fun c => c == '/' || c == '\\').foldl pushComponent []

/-- The text with its components resolved, the part that all three normalisers share. -/
def resolveText (t : Text) : Text := joinSlash (resolveComponents t)

/-- `normalize_pattern`. -/
def normalizePattern (pattern : Text) : Text := resolveText (trim pattern)

/-- What the component loop leaves: a proper name without either kind of slash. -/
structure IsComponent (s : Text) : Prop where
  ne_nil : s ≠ []
  ne_dot : s ≠ ['.']
  ne_dotDot : s ≠ ['.', '.']
  noSlash : '/' ∉ s
  noBackslash : '\\' ∉ s

theorem mem_foldl_pushComponent {pieces parts : List Text} {s : Text}
    (h : s ∈ pieces.foldl pushComponent parts) :
    s ∈ parts ∨ (s ∈ pieces ∧ s ≠ [] ∧ s ≠ ['.'] ∧ s ≠ ['.', '.']) := by
  induction pieces generalizing parts with
  | nil => exact .inl h
  | cons x pieces ih =>
    rw [foldl_cons] at h
    rcases ih h with h | ⟨h, hs⟩
    · unfold pushComponent at h
      split at h
      · exact .inl h
      · next hdot =>
        rw [not_or] at hdot
        split at h
        · exact .inl (mem_of_mem_dropLast h)
        · next hdd =>
          rcases mem_append.mp h with h | h
          · exact .inl h
          · rw [mem_singleton] at h
            subst h
            exact .inr ⟨mem_cons_self .., hdot.1, hdot.2, hdd⟩
    · exact .inr ⟨mem_cons_of_mem _ h, hs⟩

/-- Components are proper, and made of characters of the text. -/
theorem isComponent_of_mem {t s : Text} (h : s ∈ resolveComponents t) : IsComponent s := by
  rcases mem_foldl_pushComponent h with h | ⟨h, hnil, hdot, hdd⟩
  · cases h
  · have hchars := chars_of_mem_splitOnP h
    refine ⟨hnil, hdot, hdd, ?_, ?_⟩
    · intro hc
      exact absurd (hchars _ hc).1 (by decide)
    · intro hc
      exact absurd (hchars _ hc).1 (by decide)

theorem mem_of_mem_resolveComponents {t s : Text} (h : s ∈ resolveComponents t) {c : Char}
    (hc : c ∈ s) : c ∈ t := by
  rcases mem_foldl_pushComponent h with h | ⟨h, _⟩
  · cases h
  · exact (chars_of_mem_splitOnP h c hc).2

/-- Cutting a resolved text gives its components back. -/
theorem splitSlash_resolveText {t : Text} (h : resolveComponents t ≠ []) :
    splitSlash (resolveText t) = resolveComponents t :=
  splitSlash_joinSlash (fun _ hs => (isComponent_of_mem hs).noSlash) h

theorem resolveText_eq_nil {t : Text} : resolveText t = [] ↔ resolveComponents t = [] := by
  constructor
  · intro h
    by_contra hne
    have hs := splitSlash_resolveText hne
    rw [h, splitSlash_nil] at hs
    exact (isComponent_of_mem (t := t) (by rw [← hs]; exact mem_singleton_self _)).ne_nil rfl
  · intro h
    rw [resolveText, h]
    rfl

/-- Every component of a resolved text is proper, unless the text is empty. -/
theorem isComponent_of_mem_splitSlash {t s : Text} (hne : resolveText t ≠ [])
    (h : s ∈ splitSlash (resolveText t)) : IsComponent s := by
  rw [splitSlash_resolveText (mt resolveText_eq_nil.mpr hne)] at h
  exact isComponent_of_mem h

theorem mem_of_mem_resolveText {t : Text} {c : Char} (h : c ∈ resolveText t) (hc : c ≠ '/') :
    c ∈ t := by
  obtain ⟨s, hs, hm⟩ := mem_joinSlash h hc
  exact mem_of_mem_resolveComponents hs hm

/-- Normalised texts are free of the escape character of globs. -/
theorem backslash_notMem_resolveText (t : Text) : '\\' ∉ resolveText t := by
  intro h
  obtain ⟨s, hs, hm⟩ := mem_joinSlash h (by decide)
  exact (isComponent_of_mem hs).noBackslash hm

/-! ### Segments -/

/-- `PatternSegment`. -/
inductive PatternSegment where
  | literal (text : Text)
  | glob (raw : Text) (matcher : Text → Bool)
  | recursive

namespace PatternSegment

def isRecursive : PatternSegment → Bool
  | .recursive => true
  | _ => false

/-- `PatternSegment::_matches_literal`. -/
def matchesLiteral (ci : Bool) (self : PatternSegment) (literal : Text) : Bool :=
  match self with
  | .literal l => textEq ci l literal
  | .glob _ matcher => matcher literal
  | .recursive => true

/-- `PatternSegment::overlaps`. -/
def overlaps (ci : Bool) : PatternSegment → PatternSegment → Bool
  | .literal l1, .literal l2 => textEq ci l1 l2
  | .glob _ matcher, .literal l => matcher l
  | .literal l, .glob _ matcher => matcher l
  | .glob leftRaw _, .glob rightRaw _ =>
    (simpleGlobPatternsOverlap ci leftRaw rightRaw).getD true
  | .recursive, _ => true
  | _, .recursive => true

theorem overlaps_comm (ci : Bool) (a b : PatternSegment) : overlaps ci a b = overlaps ci b a := by
  cases a <;> cases b <;>
    simp only [overlaps, textEq_comm ci, simpleGlobPatternsOverlap_comm ci]

/-- A literal component overlaps exactly the segments that match it. -/
theorem overlaps_literal (ci : Bool) (s : Text) (b : PatternSegment) :
    overlaps ci (.literal s) b = b.matchesLiteral ci s := by
  cases b with
  | literal l => exact textEq_comm ci s l
  | glob raw m => rfl
  | recursive => rfl

end PatternSegment

/-- `segments_overlap`. -/
def segmentsOverlap (ci : Bool) (s1 s2 : List PatternSegment) : Bool :=
  sequencePatternsOverlap PatternSegment.isRecursive (PatternSegment.overlaps ci) s1 s2

theorem segmentsOverlap_eq (ci : Bool) (s1 s2 : List PatternSegment) :
    segmentsOverlap ci s1 s2 =
      RepeatPattern.overlap PatternSegment.isRecursive (PatternSegment.overlaps ci) s1 s2 :=
  sequencePatternsOverlap_eq (PatternSegment.overlaps_comm ci) s1 s2

theorem segmentsOverlap_comm (ci : Bool) (s1 s2 : List PatternSegment) :
    segmentsOverlap ci s1 s2 = segmentsOverlap ci s2 s1 := by
  rw [segmentsOverlap_eq, segmentsOverlap_eq,
    RepeatPattern.overlap_comm (PatternSegment.overlaps_comm ci)]

/-- The segment compiled from one component: a component whose glob does not build on its own
is kept as literal text. -/
def compileSegment (P : Platform) (s : Text) : PatternSegment :=
  if s = ['*', '*'] then .recursive
  else if hasGlobMeta s then
    match P.globset.build P.caseInsensitive s with
    | some matcher => .glob s matcher
    | none => .literal s
  else .literal s

/-! ### Patterns -/

/-- `first_literal_segment_end`, as a count of characters. -/
def firstLiteralSegmentEnd (norm : Text) : Option Nat :=
  let segEnd := (norm.findIdx? (· == '/')).getD norm.length
  let seg := norm.take segEnd
  if seg.isEmpty || hasGlobMeta seg then none else some segEnd

/-- `is_directory_prefix`. -/
def isDirectoryPrefix (ci : Bool) (dir full : Text) : Bool :=
  if dir.isEmpty then true
  else if full.length < dir.length then false
  else textEq ci (full.take dir.length) dir && full[dir.length]? == some '/'

/-- `CompiledPattern`. -/
structure CompiledPattern where
  norm : Text
  matcher : Option (Text → Bool)
  isGlob : Bool
  literalEnd : Option Nat
  segments : List PatternSegment

namespace CompiledPattern

/-- What `CompiledPattern::new` builds from the normalised text. -/
def ofNorm (P : Platform) (norm : Text) : CompiledPattern where
  norm := norm
  isGlob := hasGlobMeta norm
  literalEnd := firstLiteralSegmentEnd norm
  matcher := if hasGlobMeta norm then P.globset.build P.caseInsensitive norm else none
  segments := (splitSlash norm).map (compileSegment P)

/-- `CompiledPattern::new`. -/
def new (P : Platform) (raw : Text) : CompiledPattern := ofNorm P (normalizePattern raw)

/-- `CompiledPattern::is_matchable`. -/
def isMatchable (a : CompiledPattern) : Bool := !a.isGlob || a.matcher.isSome

/-- `CompiledPattern::first_literal_segment`. -/
def firstLiteralSegment (a : CompiledPattern) : Option Text := a.literalEnd.map a.norm.take

/-- `matcher.as_ref().is_some_and(|m| m.is_match(path))`. -/
def matcherMatches (a : CompiledPattern) (path : Text) : Bool := a.matcher.elim false (· path)

/-- `CompiledPattern::matches`. -/
def matchesPath (a : CompiledPattern) (path : Text) : Bool :=
  a.matcherMatches path || (!a.isGlob && a.norm == path)

/-- Both patterns start with a literal segment and the two differ. -/
def firstSegmentMismatch (ci : Bool) (a b : CompiledPattern) : Bool :=
  match a.literalEnd, b.literalEnd with
  | some leftEnd, some rightEnd => !textEq ci (a.norm.take leftEnd) (b.norm.take rightEnd)
  | _, _ => false

/-- `CompiledPattern::overlaps`. -/
def overlaps (ci : Bool) (self other : CompiledPattern) : Bool :=
  if textEq ci self.norm other.norm then true
  else if !self.isGlob && isDirectoryPrefix ci self.norm other.norm then true
  else if !other.isGlob && isDirectoryPrefix ci other.norm self.norm then true
  else if self.matcher.isSome && other.isMatchable && self.matcherMatches other.norm then true
  else if other.matcher.isSome && self.isMatchable && other.matcherMatches self.norm then true
  else if (self.isGlob && self.matcher.isNone) || (other.isGlob && other.matcher.isNone) then false
  else if firstSegmentMismatch ci self other then false
  else segmentsOverlap ci self.segments other.segments

/-- Every way in which the cascade of `overlaps` answers yes. -/
theorem overlaps_iff (ci : Bool) (a b : CompiledPattern) :
    a.overlaps ci b = true ↔ textEq ci a.norm b.norm = true ∨
      (a.isGlob = false ∧ isDirectoryPrefix ci a.norm b.norm = true) ∨
      (b.isGlob = false ∧ isDirectoryPrefix ci b.norm a.norm = true) ∨
      (b.isMatchable = true ∧ a.matcherMatches b.norm = true) ∨
      (a.isMatchable = true ∧ b.matcherMatches a.norm = true) ∨
      (a.isMatchable = true ∧ b.isMatchable = true ∧ firstSegmentMismatch ci a b = false ∧
        segmentsOverlap ci a.segments b.segments = true) := by
  have hsome (c : CompiledPattern) (t : Text) (h : c.matcherMatches t = true) :
      c.matcher.isSome = true := by
    unfold matcherMatches at h
    cases hm : c.matcher with
    | none => rw [hm] at h; cases h
    | some m => rfl
  have hinvalid (c : CompiledPattern) : (c.isGlob && c.matcher.isNone) = !c.isMatchable := by
    unfold isMatchable
    cases c.isGlob <;> cases c.matcher <;> rfl
  have hand (c d : CompiledPattern) :
      (c.matcher.isSome && d.isMatchable && c.matcherMatches d.norm) =
        (d.isMatchable && c.matcherMatches d.norm) := by
    cases hc : c.matcherMatches d.norm with
    | false => simp
    | true => rw [hsome c _ hc, Bool.true_and]
  unfold overlaps
  rw [hand, hand, hinvalid, hinvalid]
  simp only [Bool.ite_eq_true_distrib, Bool.and_eq_true, Bool.or_eq_true, Bool.not_eq_true',
    if_true_left, Bool.not_eq_true, not_and]
  grind

theorem firstSegmentMismatch_comm (ci : Bool) (a b : CompiledPattern) :
    firstSegmentMismatch ci a b = firstSegmentMismatch ci b a := by
  unfold firstSegmentMismatch
  cases a.literalEnd <;> cases b.literalEnd <;> simp only [textEq_comm ci]

/-- The overlap test does not depend on the order of its arguments. -/
theorem overlaps_comm (ci : Bool) (a b : CompiledPattern) : a.overlaps ci b = b.overlaps ci a := by
  apply Bool.eq_iff_iff.mpr
  rw [overlaps_iff, overlaps_iff, textEq_comm, firstSegmentMismatch_comm, segmentsOverlap_comm]
  tauto

/-- Two raw patterns overlap in either order or in none: whatever the glob library makes of the
texts and on either kind of target. -/
theorem new_overlaps_symmetric (P : Platform) (a b : Text) :
    (new P a).overlaps P.caseInsensitive (new P b) =
      (new P b).overlaps P.caseInsensitive (new P a) :=
  overlaps_comm P.caseInsensitive (new P a) (new P b)

end CompiledPattern

/-! ### Directory prefixes -/

/-- A nonempty directory prefix is the folded text followed by a slash. -/
theorem isDirectoryPrefix_iff {ci : Bool} {dir full : Text} (hd : dir ≠ []) :
    isDirectoryPrefix ci dir full = true ↔ ∃ tail, fold ci full = fold ci dir ++ '/' :: tail := by
  have he : dir.isEmpty = false := by simpa using hd
  unfold isDirectoryPrefix
  rw [he, if_neg Bool.false_ne_true]
  constructor
  · intro h
    split at h
    · cases h
    · rw [Bool.and_eq_true, textEq_iff, beq_iff_eq] at h
      obtain ⟨hlt, hslash⟩ := List.getElem?_eq_some_iff.mp h.2
      refine ⟨fold ci (full.drop (dir.length + 1)), ?_⟩
      have hsplit : full = full.take dir.length ++ '/' :: full.drop (dir.length + 1) := by
        rw [← hslash, getElem_cons_drop, take_append_drop]
      calc fold ci full
          = fold ci (full.take dir.length) ++ fold ci ('/' :: full.drop (dir.length + 1)) := by
            rw [← fold_append, ← hsplit]
        _ = fold ci dir ++ '/' :: fold ci (full.drop (dir.length + 1)) := by
            rw [h.1, fold_cons, foldChar_slash_self]
  · rintro ⟨tail, h⟩
    have hlen : dir.length < full.length := by
      have := congrArg List.length h
      simp only [length_fold, length_append, length_cons] at this
      omega
    rw [if_neg (by omega), Bool.and_eq_true, textEq_iff, beq_iff_eq, List.getElem?_eq_getElem hlen]
    constructor
    · have := congrArg (List.take dir.length) h
      rw [take_left' (by rw [length_fold]), fold, ← map_take] at this
      exact this
    · have hc : (fold ci full)[dir.length]? = some '/' := by
        rw [h, List.getElem?_append_right (by rw [length_fold]), length_fold, Nat.sub_self]
        rfl
      rw [fold, List.getElem?_map, List.getElem?_eq_getElem hlen, Option.map_some,
        Option.some.injEq, foldChar_slash] at hc
      rw [hc]

/-- Equality or a directory prefix, on nonempty directories, is a prefix of the components. -/
theorem covers_iff_starts {ci : Bool} {dir full : Text} (hd : dir ≠ []) :
    (textEq ci dir full = true ∨ isDirectoryPrefix ci dir full = true) ↔
      splitSlash (fold ci dir) <+: splitSlash (fold ci full) := by
  rw [textEq_iff, isDirectoryPrefix_iff hd]
  constructor
  · rintro (h | ⟨tail, h⟩)
    · rw [h]
    · rw [h, splitSlash_append_slash]
      exact prefix_append _ _
  · rintro ⟨rest, h⟩
    cases rest with
    | nil =>
      rw [append_nil] at h
      exact .inl (splitSlash_injective h)
    | cons x rest =>
      refine .inr ⟨joinSlash (x :: rest), ?_⟩
      rw [← joinSlash_splitSlash (fold ci full), ← h,
        joinSlash_append (splitSlash_ne_nil _) (cons_ne_nil x rest), joinSlash_splitSlash]

/-! ### Patterns built by `new` -/

theorem hasGlobMeta_iff (t : Text) :
    hasGlobMeta t = true ↔ '*' ∈ t ∨ '?' ∈ t ∨ '[' ∈ t ∨ '{' ∈ t := by
  simp only [hasGlobMeta, any_eq_true, Bool.or_eq_true, beq_iff_eq, or_assoc]
  constructor
  · rintro ⟨c, hm, rfl | rfl | rfl | rfl⟩ <;> simp [hm]
  · rintro (h | h | h | h)
    · exact ⟨_, h, by simp⟩
    · exact ⟨_, h, by simp⟩
    · exact ⟨_, h, by simp⟩
    · exact ⟨_, h, by simp⟩

/-- Resolving the components creates no metacharacters. -/
theorem hasGlobMeta_resolveText {t : Text} (h : hasGlobMeta t = false) :
    hasGlobMeta (resolveText t) = false := by
  rw [← Bool.not_eq_true, hasGlobMeta_iff] at h ⊢
  intro hm
  apply h
  exact hm.imp (mem_of_mem_resolveText · (by decide)) (Or.imp (mem_of_mem_resolveText · (by decide))
    (Or.imp (mem_of_mem_resolveText · (by decide)) (mem_of_mem_resolveText · (by decide))))

/-- A component has metacharacters only if the whole text does. -/
theorem hasGlobMeta_of_mem_splitSlash {t s : Text} (h : s ∈ splitSlash t)
    (hs : hasGlobMeta s = true) : hasGlobMeta t = true := by
  rw [hasGlobMeta_iff] at hs ⊢
  exact hs.imp (mem_of_mem_splitSlash h) (Or.imp (mem_of_mem_splitSlash h)
    (Or.imp (mem_of_mem_splitSlash h) (mem_of_mem_splitSlash h)))

/-- Folding neither creates nor removes metacharacters. -/
@[simp] theorem hasGlobMeta_fold (ci : Bool) (t : Text) : hasGlobMeta (fold ci t) = hasGlobMeta t := by
  have hmem (x : Char) (hx : x.val.toNat < 65 ∨ 122 < x.val.toNat ∨
      (90 < x.val.toNat ∧ x.val.toNat < 97)) : x ∈ fold ci t ↔ x ∈ t := by
    constructor
    · intro h
      obtain ⟨c, hc, he⟩ := mem_map.mp h
      rwa [(foldChar_eq_iff hx ci c).mp he] at hc
    · intro h
      exact mem_map.mpr ⟨x, h, (foldChar_eq_iff hx ci x).mpr rfl⟩
  apply Bool.eq_iff_iff.mpr
  rw [hasGlobMeta_iff, hasGlobMeta_iff, hmem '*' (by decide), hmem '?' (by decide),
    hmem '[' (by decide), hmem '{' (by decide)]

theorem compileSegment_of_not_meta {P : Platform} {s : Text} (h : hasGlobMeta s = false) :
    compileSegment P s = .literal s := by
  have hne : s ≠ ['*', '*'] := by
    rintro rfl
    cases h
  rw [compileSegment, if_neg hne, h, if_neg Bool.false_ne_true]

/-- A component that compiles by itself keeps its meaning as a segment. -/
theorem matchesLiteral_compileSegment {P : Platform} {piece : Text} (hr : isRecursive piece = false)
    (hb : hasGlobMeta piece = true → ∃ m, P.globset.build P.caseInsensitive piece = some m)
    (s : Text) :
    (compileSegment P piece).matchesLiteral P.caseInsensitive s =
      P.globset.pieceMatches P.caseInsensitive piece s := by
  have hne : piece ≠ ['*', '*'] := beq_eq_false_iff_ne.mp hr
  unfold compileSegment Globset.pieceMatches
  rw [if_neg hne]
  split
  · next hm =>
    obtain ⟨m, hbuild⟩ := hb hm
    rw [hbuild]
    rfl
  · rfl

theorem isRecursive_compileSegment (P : Platform) (piece : Text) :
    (compileSegment P piece).isRecursive = isRecursive piece := by
  unfold compileSegment isRecursive
  split
  · next h => rw [h]; rfl
  · next h =>
    rw [beq_eq_false_iff_ne.mpr h]
    split
    · split <;> rfl
    · rfl

namespace CompiledPattern

variable (P : Platform) (raw : Text)

/-- A literal pattern keeps every component as it is. -/
theorem segments_of_not_glob (h : (new P raw).isGlob = false) :
    (new P raw).segments = (splitSlash (new P raw).norm).map .literal := by
  apply map_congr_left
  intro s hs
  apply compileSegment_of_not_meta
  by_contra hm
  rw [Bool.not_eq_false] at hm
  have := hasGlobMeta_of_mem_splitSlash hs hm
  rw [← Bool.not_eq_true] at h
  exact h this

theorem matcherMatches_of_not_glob (h : (new P raw).isGlob = false) (t : Text) :
    (new P raw).matcherMatches t = false := by
  have : (new P raw).matcher = none := if_neg (by rw [← Bool.not_eq_true] at h; exact h)
  rw [matcherMatches, this]
  rfl

theorem isMatchable_of_not_glob (h : (new P raw).isGlob = false) :
    (new P raw).isMatchable = true := by
  rw [isMatchable, h]
  rfl

/-- `first_literal_segment` is the first component, when it is literal and not empty. -/
theorem firstLiteralSegment_new :
    ∃ s rest, splitSlash (new P raw).norm = s :: rest ∧
      (new P raw).firstLiteralSegment = if s.isEmpty || hasGlobMeta s then none else some s := by
  obtain ⟨rest, h⟩ := splitSlash_eq_cons (new P raw).norm
  refine ⟨_, rest, h, ?_⟩
  unfold firstLiteralSegment
  change (firstLiteralSegmentEnd (new P raw).norm).map _ = _
  unfold firstLiteralSegmentEnd
  dsimp only
  split
  · rfl
  · rfl

variable {P raw}

theorem firstSegmentMismatch_iff (ci : Bool) (a b : CompiledPattern) :
    firstSegmentMismatch ci a b = true ↔
      ∃ s t, a.firstLiteralSegment = some s ∧ b.firstLiteralSegment = some t ∧
        textEq ci s t = false := by
  unfold firstSegmentMismatch firstLiteralSegment
  cases a.literalEnd <;> cases b.literalEnd <;> simp

/-- The dynamic programme already separates patterns with different first literals. -/
theorem firstSegmentMismatch_of_segmentsOverlap {ci : Bool} {a b : Text}
    (h : segmentsOverlap ci (new P a).segments (new P b).segments = true) :
    firstSegmentMismatch ci (new P a) (new P b) = false := by
  by_contra hm
  rw [Bool.not_eq_false, firstSegmentMismatch_iff] at hm
  obtain ⟨s, t, hs, ht, hne⟩ := hm
  obtain ⟨s', rest, hsplit, he⟩ := firstLiteralSegment_new P a
  obtain ⟨t', rest', hsplit', he'⟩ := firstLiteralSegment_new P b
  rw [hs] at he
  rw [ht] at he'
  split at he
  · cases he
  · next hc =>
    split at he'
    · cases he'
    · next hc' =>
      cases he
      cases he'
      simp only [Bool.or_eq_true, not_or, Bool.not_eq_true] at hc hc'
      change segmentsOverlap ci ((splitSlash (new P a).norm).map _)
        ((splitSlash (new P b).norm).map _) = true at h
      rw [hsplit, hsplit', segmentsOverlap_eq, map_cons, map_cons,
        compileSegment_of_not_meta hc.2, compileSegment_of_not_meta hc'.2,
        RepeatPattern.overlap_item rfl, Bool.and_eq_true] at h
      change textEq ci s t = true ∧ _ at h
      rw [hne] at h
      exact Bool.false_ne_true h.1

/-- `overlaps` on compiled patterns, without the first-segment shortcut. -/
theorem overlaps_new_iff (ci : Bool) (a b : Text) :
    (new P a).overlaps ci (new P b) = true ↔ textEq ci (new P a).norm (new P b).norm = true ∨
      ((new P a).isGlob = false ∧ isDirectoryPrefix ci (new P a).norm (new P b).norm = true) ∨
      ((new P b).isGlob = false ∧ isDirectoryPrefix ci (new P b).norm (new P a).norm = true) ∨
      ((new P b).isMatchable = true ∧ (new P a).matcherMatches (new P b).norm = true) ∨
      ((new P a).isMatchable = true ∧ (new P b).matcherMatches (new P a).norm = true) ∨
      ((new P a).isMatchable = true ∧ (new P b).isMatchable = true ∧
        segmentsOverlap ci (new P a).segments (new P b).segments = true) := by
  have hshort (p q : Prop) :
      (p ∧ q ∧ firstSegmentMismatch ci (new P a) (new P b) = false ∧
        segmentsOverlap ci (new P a).segments (new P b).segments = true) ↔
      (p ∧ q ∧ segmentsOverlap ci (new P a).segments (new P b).segments = true) := by
    constructor
    · rintro ⟨hp, hq, _, hs⟩
      exact ⟨hp, hq, hs⟩
    · rintro ⟨hp, hq, hs⟩
      exact ⟨hp, hq, firstSegmentMismatch_of_segmentsOverlap hs, hs⟩
  rw [overlaps_iff, hshort]

end CompiledPattern

end AgentMail.Pattern
