import AgentMail.Guard.Check

/-!
# The guard against the server

Guard and server read the same reservations with separate normalisation and matching:
`crates/mcp-agent-mail-guard/src/lib.rs:2278–2432` against
`crates/mcp-agent-mail-core/src/pattern_overlap.rs:293–458`. The guard follows the
repository's `core.ignorecase` with the Unicode lower case, the server its build target with
ASCII case; the guard hands every text to the glob library, the server only texts with
metacharacters.
-/

namespace AgentMail.Guard

open Base Lib Pattern CompiledPattern

/-! ### Texts that meet -/

section

variable {L : Lowercase} {ci ignorecase : Bool} {a b : Text}

theorem isBelow_lower (h : ci = true → ignorecase = true) {dir full : Text}
    (hd : isDirectoryPrefix ci dir full = true) :
    isBelow (L.lower ignorecase dir) (L.lower ignorecase full) = true := by
  rw [isBelow_iff]
  by_cases hnil : dir = []
  · exact .inl ((L.lower_eq_nil ignorecase dir).mpr hnil)
  · obtain ⟨tail, ht⟩ := (isDirectoryPrefix_iff hnil).mp hd
    refine .inr ⟨L.lower ignorecase tail, ?_⟩
    calc L.lower ignorecase full
        = L.lower ignorecase (fold ci full) := (L.lower_fold ignorecase h full).symm
      _ = L.lower ignorecase (fold ci dir) ++ '/' :: L.lower ignorecase tail := by
          rw [ht, L.lower_append_slash]
      _ = L.lower ignorecase dir ++ '/' :: L.lower ignorecase tail := by
          rw [L.lower_fold ignorecase h]

/-- The literal comparisons of the server imply those of the guard. -/
theorem meets_lower (h : ci = true → ignorecase = true)
    (hab : textEq ci a b = true ∨ isDirectoryPrefix ci a b = true ∨
      isDirectoryPrefix ci b a = true) :
    Meets (L.lower ignorecase a) (L.lower ignorecase b) := by
  rcases hab with hab | hab | hab
  · left
    rw [textEq_iff] at hab
    rw [← L.lower_fold ignorecase h a, hab, L.lower_fold ignorecase h]
  · exact .inr (.inl (isBelow_lower h hab))
  · exact .inr (.inr (isBelow_lower h hab))

end

/-! ### Globs -/

section

variable {P : Platform} {L : Lowercase} {ignorecase : Bool}

/-- Lowering changes neither the glob nor the path beyond their ASCII case. -/
structure PlainCase (L : Lowercase) (pattern path : Text) : Prop where
  noClass : '[' ∉ pattern
  pattern_eq : L.toLowercase pattern = fold true pattern
  path_eq : L.toLowercase path = fold true path

/-- The glob that the guard builds matches the lowered path when the server's glob matches the
path. -/
theorem build_lower (hg : P.globset.Documented) (hic : P.caseInsensitive = true → ignorecase = true)
    {pattern path : Text} (hcase : ignorecase = true → PlainCase L pattern path) {m : Text → Bool}
    (hb : P.globset.build P.caseInsensitive pattern = some m) :
    ∃ m', P.globset.build ignorecase (L.lower ignorecase pattern) = some m' ∧
      (m path = true → m' (L.lower ignorecase path) = true) := by
  cases hi : ignorecase with
  | false =>
    have hci : P.caseInsensitive = false := by
      rw [← Bool.not_eq_true]
      intro hci
      rw [hic hci] at hi
      cases hi
    rw [hci] at hb
    exact ⟨m, hb, id⟩
  | true =>
    obtain ⟨hclass, hpattern, hpath⟩ := hcase hi
    have hwide : ∃ m', P.globset.build true pattern = some m' ∧ (m path = true → m' path = true) := by
      cases hci : P.caseInsensitive with
      | true =>
        rw [hci] at hb
        exact ⟨m, hb, id⟩
      | false =>
        rw [hci] at hb
        obtain ⟨m', hb', hm⟩ := hg.caseWidens pattern m hclass hb
        exact ⟨m', hb', hm path⟩
    obtain ⟨m', hb', hm⟩ := hwide
    change ∃ m', P.globset.build true (L.toLowercase pattern) = some m' ∧
      (m path = true → m' (L.toLowercase path) = true)
    rw [hpattern, hpath, hg.foldsPattern pattern hclass]
    refine ⟨m', hb', fun h => ?_⟩
    rw [hg.foldsCase true pattern m' (fold true path) path hb' (fold_idem true path)]
    exact hm h

/-- A component whose glob does not build is compared as text, and no plain name has
metacharacters. -/
theorem matchesLiteral_compileSegment_plain {piece s : Text}
    (hr : isRecursive piece = false) (hs : hasGlobMeta s = false) :
    (compileSegment P piece).matchesLiteral P.caseInsensitive s =
      P.globset.pieceMatches P.caseInsensitive piece s := by
  by_cases hb : hasGlobMeta piece = true ∧ P.globset.build P.caseInsensitive piece = none
  · have hne : piece ≠ ['*', '*'] := beq_eq_false_iff_ne.mp hr
    unfold compileSegment Globset.pieceMatches
    rw [if_neg hne, hb.1, if_pos rfl, hb.2, if_pos rfl]
    change textEq P.caseInsensitive piece s = false
    rw [← Bool.not_eq_true, textEq_iff]
    intro he
    have hm := hasGlobMeta_fold P.caseInsensitive piece
    rw [he, hasGlobMeta_fold, hs, hb.1] at hm
    cases hm
  · apply matchesLiteral_compileSegment hr
    intro hm
    rw [← Option.isSome_iff_exists, Option.isSome_iff_ne_none]
    exact fun hn => hb ⟨hm, hn⟩

/-- Segments that overlap a plain path match its components in order. -/
theorem accepts_of_segmentsOverlap {a b : Text} (hb : (new P b).isGlob = false)
    (h : segmentsOverlap P.caseInsensitive (new P a).segments
      (new P b).segments = true) :
    RepeatPattern.accepts isRecursive (P.globset.pieceMatches P.caseInsensitive)
      (splitSlash (normalizePattern a)) (splitSlash (normalizePattern b)) = true := by
  rw [segmentsOverlap_comm, segmentsOverlap_eq, segments_of_not_glob P b hb,
    RepeatPattern.overlap_letters PatternSegment.literal (fun _ => rfl)] at h
  simp only [PatternSegment.overlaps_literal] at h
  have hmap := RepeatPattern.accepts_map PatternSegment.isRecursive
    (PatternSegment.matchesLiteral P.caseInsensitive) (compileSegment P) isRecursive
    (P.globset.pieceMatches P.caseInsensitive) (splitSlash (normalizePattern a))
    (splitSlash (normalizePattern b)) (fun piece _ => isRecursive_compileSegment P piece)
    (fun piece _ hr s hs => matchesLiteral_compileSegment_plain hr (by
      rw [← Bool.not_eq_true] at hb ⊢
      exact fun hm => hb (hasGlobMeta_of_mem_splitSlash hs hm)))
  rw [← hmap]
  exact h

/-- A glob matches a plain path that its components match in order. -/
theorem matches_of_accepts (hg : P.globset.Documented) {a b : Text} {m : Text → Bool}
    (hb : P.globset.build P.caseInsensitive (normalizePattern a) = some m)
    (hne : normalizePattern b ≠ [])
    (hall : RepeatPattern.accepts isRecursive (P.globset.pieceMatches P.caseInsensitive)
      (splitSlash (normalizePattern a)) (splitSlash (normalizePattern b)) = true)
    (htail : RepeatPattern.accepts isRecursive (P.globset.pieceMatches P.caseInsensitive)
      (Globset.expandTrailing (splitSlash (normalizePattern a)))
      (splitSlash (normalizePattern b)) = true) : m (normalizePattern b) = true := by
  apply hg.complete _ _ m _ hb (backslash_notMem_resolveText _) _ _ htail
  · intro piece hp hr hmeta
    obtain ⟨s, _, hs⟩ := RepeatPattern.exists_of_accepts _ _ hall hp hr
    unfold Globset.pieceMatches at hs
    rw [hmeta, if_pos rfl] at hs
    cases hbuild : P.globset.build P.caseInsensitive piece with
    | none =>
      rw [hbuild] at hs
      cases hs
    | some m => rfl
  · intro hnil
    exact (isComponent_of_mem_splitSlash hne hnil).ne_nil rfl

end

/-! ### The guard reports what the server flags -/

section

variable {P : Platform} {L : Lowercase} {ignorecase : Bool}

/-- Guard and server read the normalised reservation and path alike. -/
structure ReadAlike (P : Platform) (L : Lowercase) (ignorecase : Bool) (pattern path : Text) :
    Prop where
  /-- The glob library refuses an unopened alternation. -/
  literal : hasGlobMeta pattern = false → '}' ∉ pattern
  /-- The segments before a trailing `**` do not match the whole path by themselves. -/
  trailing : hasGlobMeta pattern = true → isDirectoryPrefix P.caseInsensitive path pattern = true ∨
    (RepeatPattern.accepts isRecursive (P.globset.pieceMatches P.caseInsensitive)
        (splitSlash pattern) (splitSlash path) = true →
      RepeatPattern.accepts isRecursive (P.globset.pieceMatches P.caseInsensitive)
        (Globset.expandTrailing (splitSlash pattern)) (splitSlash path) = true)
  plainCase : hasGlobMeta pattern = true → ignorecase = true → PlainCase L pattern path

/-- An admitted pattern is literal or builds. -/
theorem build_of_admitted {pattern : Text}
    (h : invalidFileReservationPattern P pattern = none)
    (hglob : hasGlobMeta (normalizePattern pattern) = true) :
    ∃ m, P.globset.build P.caseInsensitive (normalizePattern pattern) = some m := by
  unfold invalidFileReservationPattern at h
  split at h
  · cases h
  · dsimp only at h
    split at h
    · cases h
    · next hn =>
      have hg : (new P pattern).isGlob = true := hglob
      have hm : (new P pattern).matcher =
          P.globset.build P.caseInsensitive (normalizePattern pattern) := if_pos hglob
      rw [hg, Bool.true_and, Bool.not_eq_true', Bool.not_eq_false, isMatchable, hg, hm] at hn
      exact Option.isSome_iff_exists.mp hn

/-- A reserved text that the server overlaps with a plain path builds as a glob in the guard, and
either that glob matches the path or the texts meet. -/
theorem guard_reads (hg : P.globset.Documented) (hic : P.caseInsensitive = true → ignorecase = true)
    {a p : Text} (hadmitted : invalidFileReservationPattern P a = none)
    (hp : hasGlobMeta (normalizePattern p) = false)
    (halike : ReadAlike P L ignorecase (normalizePattern a) (normalizePattern p))
    (h : (new P a).overlaps P.caseInsensitive (new P p) = true) :
    ∃ m, P.globset.build ignorecase (L.lower ignorecase (normalizePattern a)) = some m ∧
      (m (L.lower ignorecase (normalizePattern p)) = true ∨
        Meets (L.lower ignorecase (normalizePattern a)) (L.lower ignorecase (normalizePattern p))) := by
  have hpglob : (new P p).isGlob = false := hp
  cases hglob : hasGlobMeta (normalizePattern a) with
  | false =>
    have hbuild := hg.literalBuilds ignorecase (L.lower ignorecase (normalizePattern a))
      (by rw [L.hasGlobMeta_lower, hglob]) (L.backslash_notMem_lower ignorecase _)
      (by rw [L.mem_lower ignorecase (by decide) (by decide)]; exact halike.literal hglob)
    obtain ⟨m, hm⟩ := Option.isSome_iff_exists.mp hbuild
    rw [overlaps_iff_of_not_glob hglob hpglob] at h
    exact ⟨m, hm, .inr (meets_lower hic h)⟩
  | true =>
    obtain ⟨m, hm⟩ := build_of_admitted hadmitted hglob
    obtain ⟨m', hm', hlower⟩ := build_lower (L := L) hg hic (halike.plainCase hglob) hm
    refine ⟨m', hm', ?_⟩
    have haglob : (new P a).isGlob = true := hglob
    have hmatcher : (new P a).matcherMatches (normalizePattern p) = m (normalizePattern p) := by
      have hsome : (new P a).matcher = some m := (if_pos hglob).trans hm
      rw [matcherMatches, hsome]
      rfl
    rw [overlaps_new_iff, haglob, hpglob, matcherMatches_of_not_glob P p hpglob] at h
    rcases h with h | ⟨h, _⟩ | ⟨_, h⟩ | ⟨_, h⟩ | ⟨_, h⟩ | ⟨_, _, h⟩
    · exact .inr (meets_lower hic (.inl h))
    · cases h
    · exact .inr (meets_lower hic (.inr (.inr h)))
    · exact .inl (hlower (hmatcher ▸ h))
    · cases h
    · have hall := accepts_of_segmentsOverlap hpglob h
      rcases halike.trailing hglob with hstarts | htail
      · exact .inr (meets_lower hic (.inr (.inr hstarts)))
      · by_cases hroot : normalizePattern p = []
        · rw [hroot]
          exact .inr (meets_lower hic (.inr (.inr rfl)))
        · exact .inl (hlower (matches_of_accepts hg hm hroot hall (htail hall)))

/-- A path that the server flags against an admitted exclusive reservation of another agent is
reported by the guard, unless it is exempt, has space around it, or is read differently. -/
theorem checkPathConflicts_of_overlaps (hg : P.globset.Documented)
    (hic : P.caseInsensitive = true → ignorecase = true)
    {reservations : List FileReservationRecord} {selfAgent p : Text} {res : FileReservationRecord}
    (hmem : res ∈ reservations) (hexclusive : res.exclusive = true)
    (hother : eqIgnoreAsciiCase res.agentName selfAgent = false)
    (hadmitted : invalidFileReservationPattern P res.pathPattern = none)
    (hp : hasGlobMeta p = false) (htrim : trim p = p)
    (hexempt : isDefaultExemptPath L ignorecase p = false)
    (halike : ReadAlike P L ignorecase (normalizePattern res.pathPattern) (normalizePattern p))
    (h : (new P res.pathPattern).overlaps P.caseInsensitive
      (new P p) = true) :
    ∃ c ∈ checkPathConflicts L P.globset ignorecase reservations selfAgent [p], c.path = p := by
  have hpn : hasGlobMeta (normalizePattern p) = false :=
    hasGlobMeta_resolveText (by rw [htrim]; exact hp)
  obtain ⟨m, hbuild, hread⟩ := guard_reads (L := L) hg hic hadmitted hpn halike h
  have hpattern : res.normalizedPattern L ignorecase =
      L.lower ignorecase (normalizePattern res.pathPattern) := by
    rw [normalizePattern, res.trimmed]
    rfl
  have hpath : normalizePath L ignorecase p = L.lower ignorecase (normalizePattern p) := by
    rw [normalizePattern, htrim]
    rfl
  have hsome : (conflictingReservation L P.globset ignorecase reservations selfAgent p).isSome = true := by
    rw [conflictingReservation_isSome]
    refine ⟨hexempt, (res, m), mem_activeIndices.mpr ⟨hmem, hexclusive, hother, ?_⟩, ?_⟩
    · rw [hpattern]
      exact hbuild
    · rw [touches_iff, hpattern, hpath]
      exact hread
  obtain ⟨r, hr⟩ := Option.isSome_iff_exists.mp hsome
  refine ⟨⟨p, r.pathPattern, r.agentName, r.expiresTs⟩, ?_, rfl⟩
  rw [checkPathConflicts, List.mem_filterMap]
  exact ⟨p, List.mem_singleton_self p, by rw [hr]; rfl⟩

/-- An exclusive lease of `BlueLake`. -/
def blueLake (pattern : Text) (trimmed : trim pattern = pattern) : FileReservationRecord where
  pathPattern := pattern
  agentName := "BlueLake".toList
  exclusive := true
  expiresTs := "2099-01-01T00:00:00Z".toList
  trimmed := trimmed

/-- The server admits the pattern and flags the plain path, and the guard of another agent
reports nothing. -/
def Missed (P : Platform) (L : Lowercase) (ignorecase : Bool) (res : FileReservationRecord)
    (selfAgent p : Text) : Prop :=
  res.exclusive = true ∧ eqIgnoreAsciiCase res.agentName selfAgent = false ∧
    invalidFileReservationPattern P res.pathPattern = none ∧ hasGlobMeta p = false ∧
    (new P res.pathPattern).overlaps P.caseInsensitive
      (new P p) = true ∧ checkPathConflicts L P.globset ignorecase [res] selfAgent [p] = []

/-- One character of a range; ignoring case it is enough that one of its two cases is in it. -/
def inRange (ci : Bool) (low high c : Char) : Bool :=
  let inside (d : Char) : Bool := low ≤ d && d ≤ high
  inside c || ci && (inside c.toLower || inside c.toUpper)

/-- The reference globs with one more form, a single range on its own, possibly negated. An empty
range is a build error. -/
def rangeGlobset : Globset where
  build ci text :=
    match text with
    | ['[', '!', low, '-', high, ']'] =>
      if high < low then none
      else some fun p => p.length == 1 && p.all fun c => !inRange ci low high c && c != '/'
    | ['[', low, '-', high, ']'] =>
      if high < low then none else some fun p => p.length == 1 && p.all (inRange ci low high)
    | _ => simpleGlobset.build ci text

/-- The kinds of path that the server flags and the guard lets pass: an exempt path; a literal with
an unopened alternation; the directory that the segments before a trailing `**` match; space around
the path; texts in different case when only the server ignores case; a range that is empty once
lowered; a sigma that is final in the glob but not in the path. -/
theorem guard_misses :
    Missed exactPlatform sigmaLowercase false (blueLake ".beads/**".toList rfl)
      "GreenHill".toList ".beads/issues.jsonl".toList ∧
    Missed exactPlatform sigmaLowercase false (blueLake "src/a\x7db".toList rfl)
      "GreenHill".toList "src/a\x7db".toList ∧
    Missed exactPlatform sigmaLowercase false (blueLake "src/*/**".toList rfl)
      "GreenHill".toList "src/a".toList ∧
    Missed exactPlatform sigmaLowercase false (blueLake "src/a".toList rfl)
      "GreenHill".toList " src/a".toList ∧
    Missed foldingPlatform sigmaLowercase false (blueLake "src/Main.rs".toList rfl)
      "GreenHill".toList "src/main.rs".toList ∧
    Missed ⟨false, rangeGlobset⟩ sigmaLowercase true (blueLake "[Z-a]".toList rfl)
      "GreenHill".toList "a".toList ∧
    Missed exactPlatform sigmaLowercase true (blueLake "AΣ*".toList rfl)
      "GreenHill".toList "AΣB".toList := by
  unfold Missed
  decide +kernel

theorem guard_reports_below_glob :
    ∃ c ∈ checkPathConflicts sigmaLowercase simpleGlobset true
      [blueLake "src/**".toList rfl] "GreenHill".toList ["src/Auth/login.rs".toList],
      c.path = "src/Auth/login.rs".toList := by
  refine @checkPathConflicts_of_overlaps foldingPlatform sigmaLowercase true
    simpleGlobset_documented (fun _ => rfl) _ _ _ (blueLake "src/**".toList rfl)
    (List.mem_singleton_self _) rfl (by decide +kernel) (by decide +kernel) (by decide +kernel)
    (by decide +kernel) (by decide +kernel) ?_ (by decide +kernel)
  exact ⟨by decide +kernel, fun _ => .inr (by decide +kernel),
    fun _ _ => ⟨by decide +kernel, by decide +kernel, by decide +kernel⟩⟩

end

/-! ### The server flags what the guard reports -/

section

variable {P : Platform} {L : Lowercase} {g : Globset} {ignorecase : Bool}

theorem isDirectoryPrefix_of_isBelow_fold {ci : Bool} {dir full : Text}
    (h : isBelow (fold ci dir) (fold ci full) = true) : isDirectoryPrefix ci dir full = true := by
  by_cases hnil : dir = []
  · rw [hnil]
    rfl
  · rw [isDirectoryPrefix_iff hnil]
    obtain hd | ht := isBelow_iff.mp h
    · exact absurd ((fold_eq_nil ci dir).mp hd) hnil
    · exact ht

/-- A directory above a plain path is plain. -/
theorem hasGlobMeta_of_isBelow {ci : Bool} {dir full : Text}
    (h : isBelow (fold ci dir) (fold ci full) = true) (hfull : hasGlobMeta full = false) :
    hasGlobMeta dir = false := by
  rw [← hasGlobMeta_fold ci] at hfull ⊢
  rw [← Bool.not_eq_true, hasGlobMeta_iff] at hfull ⊢
  obtain hd | ⟨tail, ht⟩ := isBelow_iff.mp h
  · rw [hd]
    simp
  · have hsub {c : Char} (hc : c ∈ fold ci dir) : c ∈ fold ci full := by
      rw [ht]
      exact List.mem_append_left _ hc
    exact fun hm => hfull (hm.imp hsub (Or.imp hsub (Or.imp hsub hsub)))

/-- What the guard's three tests find on two normalised texts, `overlaps` finds as well. -/
theorem overlaps_of_reads (hg : P.globset.Documented) {a b : Text} (hb : hasGlobMeta b = false)
    (hescape : '\\' ∉ a) {m : Text → Bool} (hbuild : P.globset.build P.caseInsensitive a = some m)
    (h : m b = true ∨ Meets (fold P.caseInsensitive a) (fold P.caseInsensitive b)) :
    (ofNorm P a).overlaps P.caseInsensitive (ofNorm P b) = true := by
  rw [overlaps_iff]
  change textEq P.caseInsensitive a b = true ∨
    (hasGlobMeta a = false ∧ isDirectoryPrefix P.caseInsensitive a b = true) ∨
    (hasGlobMeta b = false ∧ isDirectoryPrefix P.caseInsensitive b a = true) ∨
    (_ ∧ (ofNorm P a).matcherMatches b = true) ∨ _
  rw [textEq_iff]
  rcases h with h | h | h | h
  · cases hglob : hasGlobMeta a with
    | false => exact .inl (hg.literalExact _ a m b hbuild hglob hescape h)
    | true =>
      right; right; right; left
      constructor
      · have hbglob : (ofNorm P b).isGlob = false := hb
        rw [isMatchable, hbglob]
        rfl
      · have hsome : (ofNorm P a).matcher = some m := (if_pos hglob).trans hbuild
        rw [matcherMatches, hsome]
        exact h
  · exact .inl h
  · exact .inr (.inl ⟨hasGlobMeta_of_isBelow h hb, isDirectoryPrefix_of_isBelow_fold h⟩)
  · exact .inr (.inr (.inl ⟨hb, isDirectoryPrefix_of_isBelow_fold h⟩))

theorem isBelow_fold (ci : Bool) {dir full : Text} (h : isBelow dir full = true) :
    isBelow (fold ci dir) (fold ci full) = true := by
  rw [isBelow_iff] at h ⊢
  rcases h with rfl | ⟨tail, rfl⟩
  · exact .inl rfl
  · exact .inr ⟨fold ci tail, by rw [fold_append, fold_cons, foldChar_slash_self]⟩

theorem Meets.fold (ci : Bool) {a b : Text} (h : Meets a b) :
    Meets (Base.fold ci a) (Base.fold ci b) := by
  rcases h with rfl | h | h
  · exact .inl rfl
  · exact .inr (.inl (isBelow_fold ci h))
  · exact .inr (.inr (isBelow_fold ci h))

/-- Guard and server compare the letter case of the two texts alike. -/
def SameCase (L : Lowercase) (ignorecase ci : Bool) (pattern path : Text) : Prop :=
  (ignorecase = false ∧ (ci = false ∨ '[' ∉ pattern)) ∨
    (ignorecase = true ∧ ci = true ∧ PlainCase L pattern path)

/-- The guard's reading of a reserved text and a plain path, carried to a build that compares case
in the same way. -/
theorem overlaps_of_sameCase (hg : g.Documented) {ci : Bool} {a b : Text}
    (hcase : SameCase L ignorecase ci a b) (hb : hasGlobMeta b = false) (hescape : '\\' ∉ a)
    {m : Text → Bool} (hbuild : g.build ignorecase (L.lower ignorecase a) = some m)
    (h : m (L.lower ignorecase b) = true ∨ Meets (L.lower ignorecase a) (L.lower ignorecase b)) :
    (ofNorm ⟨ci, g⟩ a).overlaps ci (ofNorm ⟨ci, g⟩ b) = true := by
  rcases hcase with ⟨rfl, hexact⟩ | ⟨rfl, rfl, hclass, ha, hp⟩
  · have hwide : ∃ m', g.build ci a = some m' ∧ (m b = true → m' b = true) := by
      cases ci with
      | false => exact ⟨m, hbuild, id⟩
      | true =>
        obtain hf | hclass := hexact
        · cases hf
        · obtain ⟨m', hb', hm⟩ := hg.caseWidens a m hclass hbuild
          exact ⟨m', hb', hm b⟩
    obtain ⟨m', hbuild', hm⟩ := hwide
    exact @overlaps_of_reads ⟨ci, g⟩ hg a b hb hescape m' hbuild' (h.imp hm (Meets.fold ci))
  · change g.build true (L.toLowercase a) = some m at hbuild
    change m (L.toLowercase b) = true ∨ Meets (L.toLowercase a) (L.toLowercase b) at h
    rw [ha, hg.foldsPattern a hclass] at hbuild
    rw [ha, hp, hg.foldsCase true a m (fold true b) b hbuild (fold_idem true b)] at h
    exact @overlaps_of_reads ⟨true, g⟩ hg a b hb hescape m hbuild h

/-- A conflict that the guard reports for a plain path names a reservation of another agent that
the server flags as well, on every build that compares case alike; under `core.ignorecase` the
lowered texts overlap in any case. -/
theorem overlaps_of_checkPathConflicts (hg : g.Documented)
    {reservations : List FileReservationRecord} {selfAgent : Text} {paths : List Text}
    {c : GuardConflict} (hc : c ∈ checkPathConflicts L g ignorecase reservations selfAgent paths)
    (hp : hasGlobMeta c.path = false) (htrim : trim c.path = c.path) :
    ∃ res ∈ reservations, c.pattern = res.pathPattern ∧ c.holder = res.agentName ∧
      c.expiresTs = res.expiresTs ∧ eqIgnoreAsciiCase res.agentName selfAgent = false ∧
      (∀ ci, SameCase L ignorecase ci (normalizePattern res.pathPattern) (normalizePattern c.path) →
        (new ⟨ci, g⟩ res.pathPattern).overlaps ci
          (new ⟨ci, g⟩ c.path) = true) ∧ (ignorecase = true →
        (ofNorm ⟨true, g⟩ (L.toLowercase (normalizePattern res.pathPattern))).overlaps
          true (ofNorm ⟨true, g⟩ (L.toLowercase (normalizePattern c.path))) = true) := by
  rw [checkPathConflicts, List.mem_filterMap] at hc
  obtain ⟨path, _, hconflict⟩ := hc
  rw [Option.map_eq_some_iff] at hconflict
  obtain ⟨res, hres, rfl⟩ := hconflict
  obtain ⟨m, hactive, hread⟩ := conflictingReservation_some hres
  obtain ⟨hmem, _, hother, hbuild⟩ := mem_activeIndices.mp hactive
  have hpattern : res.normalizedPattern L ignorecase =
      L.lower ignorecase (normalizePattern res.pathPattern) := by
    rw [normalizePattern, res.trimmed]
    rfl
  have hpath : normalizePath L ignorecase path = L.lower ignorecase (normalizePattern path) := by
    rw [normalizePattern, htrim]
    rfl
  have hplain : hasGlobMeta (normalizePattern path) = false :=
    hasGlobMeta_resolveText (by rw [htrim]; exact hp)
  rw [touches_iff, hpattern, hpath] at hread
  rw [hpattern] at hbuild
  refine ⟨res, hmem, rfl, rfl, rfl, hother, fun ci hcase => ?_, fun hi => ?_⟩
  · exact overlaps_of_sameCase hg hcase hplain (backslash_notMem_resolveText _) hbuild hread
  · subst hi
    refine @overlaps_of_reads ⟨true, g⟩ hg _ _ ?_ (L.backslash_notMem_lower true _) m hbuild
      (hread.imp id (Meets.fold true))
    exact (L.hasGlobMeta_lower true _).trans hplain

/-- The guard reports the path, and the server does not flag it. -/
def Overblocked (P : Platform) (L : Lowercase) (ignorecase : Bool) (res : FileReservationRecord)
    (selfAgent p : Text) : Prop :=
  hasGlobMeta p = false ∧ trim p = p ∧
    checkPathConflicts L P.globset ignorecase [res] selfAgent [p] =
      [⟨p, res.pathPattern, res.agentName, res.expiresTs⟩] ∧
    (new P res.pathPattern).overlaps P.caseInsensitive
      (new P p) = false

/-- The kinds of path that the guard blocks and the server allows, all about letter case: the
repository ignores case and the server does not; only the server does, and a negated class
matches less there; letters outside ASCII; a negated range that lowering makes smaller. -/
theorem guard_overblocks :
    Overblocked exactPlatform sigmaLowercase true (blueLake "src/Main.rs".toList rfl)
      "GreenHill".toList "src/main.rs".toList ∧
    Overblocked ⟨true, rangeGlobset⟩ sigmaLowercase false (blueLake "[!a-c]".toList rfl)
      "GreenHill".toList "B".toList ∧
    Overblocked foldingPlatform sigmaLowercase true (blueLake "AΣ".toList rfl)
      "GreenHill".toList "Aς".toList ∧
    Overblocked ⟨true, rangeGlobset⟩ sigmaLowercase true (blueLake "[!Y-z]".toList rfl)
      "GreenHill".toList "a".toList := by
  unfold Overblocked
  decide +kernel

theorem overlaps_of_checkPathConflicts_below_glob :
    ∃ res ∈ [blueLake "src/**".toList rfl], "src/**".toList = res.pathPattern ∧
      (new exactPlatform res.pathPattern).overlaps false
        (new exactPlatform "src/login.rs".toList) = true := by
  obtain ⟨res, hmem, hpattern, _, _, _, hsame, _⟩ :=
    @overlaps_of_checkPathConflicts sigmaLowercase simpleGlobset false simpleGlobset_documented
      [blueLake "src/**".toList rfl] "GreenHill".toList ["src/login.rs".toList]
      ⟨"src/login.rs".toList, "src/**".toList, "BlueLake".toList, "2099-01-01T00:00:00Z".toList⟩
      (by decide +kernel) (by decide +kernel) (by decide +kernel)
  exact ⟨res, hmem, hpattern, hsame false (.inl ⟨rfl, .inl rfl⟩)⟩

end

end AgentMail.Guard
