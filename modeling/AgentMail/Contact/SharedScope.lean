import AgentMail.Pattern.Coverage

/-!
# Shared reservations as contact evidence

`reservations_prove_shared_scope_for_contact`
(`crates/mcp-agent-mail-tools/src/messaging.rs:643–665`). It trusts the overlap test for two globs
only where their texts are the same; a pair that it trusts covers a common path, which is found
here for each way in which the test answers yes.
-/

namespace AgentMail.Contact

open Base Lib Pattern Pattern.CompiledPattern List

/-- `reservations_prove_shared_scope_for_contact`. -/
def reservationsProveSharedScopeForContact (ci : Bool)
    (senderPatterns recipientPatterns : List CompiledPattern) : Bool :=
  senderPatterns.any fun senderPattern => recipientPatterns.any fun recipientPattern =>
    if senderPattern.norm == recipientPattern.norm then
      senderPattern.isMatchable && recipientPattern.isMatchable
    else if senderPattern.isGlob && recipientPattern.isGlob then false
    else senderPattern.overlaps ci recipientPattern

/-! ### More of the glob library -/

/-- `*` matches every text without a separator. -/
def StarMatchesAll (g : Globset) : Prop :=
  ∀ ci, ∃ m, g.build ci ['*'] = some m ∧ ∀ s, '/' ∉ s → m s = true

/-- A glob that starts with a literal directory matches only what lies below it. -/
def LiteralDirectory (g : Globset) : Prop :=
  ∀ ci dir rest m p, g.build ci (dir ++ '/' :: rest) = some m → '\\' ∉ dir ++ '/' :: rest →
    hasGlobMeta dir = false → hasGlobMeta rest = true → m p = true →
    ∃ tail, fold ci p = fold ci dir ++ '/' :: tail

/-- What the overlap test relies on to be right. -/
structure MatchesAsDocumented (g : Globset) : Prop where
  documented : g.Documented
  starMatchesAll : StarMatchesAll g
  literalDirectory : LiteralDirectory g

variable {P : Platform} {a b : Text}

/-! ### Paths that a pattern covers -/

/-- The text of a pattern other than the root is a concrete path. -/
theorem relPath_norm (h : (new P a).norm ≠ []) : RelPath (new P a).norm :=
  fun hmem => (isComponent_of_mem_splitSlash h hmem).ne_nil rfl

theorem covers_of_not_glob (h : (new P a).isGlob = false) (p : Text) :
    (new P a).covers P.caseInsensitive p = true ↔ textEq P.caseInsensitive (new P a).norm p = true ∨
        isDirectoryPrefix P.caseInsensitive (new P a).norm p = true := by
  rw [covers, h, if_neg Bool.false_ne_true, Bool.or_eq_true]

theorem covers_of_glob (h : (new P a).isGlob = true) (p : Text) :
    (new P a).covers P.caseInsensitive p = (new P a).matcherMatches p := by
  rw [covers, h, if_pos rfl]

theorem covers_root (h : (new P a).isGlob = false) (hroot : (new P a).norm = []) (p : Text) :
    (new P a).covers P.caseInsensitive p = true := by
  rw [covers_of_not_glob h, hroot]
  exact Or.inr rfl

theorem covers_self (h : (new P a).isGlob = false) :
    (new P a).covers P.caseInsensitive (new P a).norm = true :=
  (covers_of_not_glob h _).mpr (Or.inl (textEq_self _ _))

/-- A path that some pattern covers. -/
def MatchesSomePath (P : Platform) (a : Text) : Prop :=
  (new P a).isMatchable = true ∧ ∃ p, RelPath p ∧ (new P a).covers P.caseInsensitive p = true

def Common (P : Platform) (a b : Text) : Prop :=
  ∃ p, RelPath p ∧ (new P a).covers P.caseInsensitive p = true ∧
    (new P b).covers P.caseInsensitive p = true

theorem Common.symm (h : Common P a b) : Common P b a := by
  obtain ⟨p, hp, ha, hb⟩ := h
  exact ⟨p, hp, hb, ha⟩

/-- Below the root a covered path is enough. -/
theorem common_of_root (h : (new P a).isGlob = false) (hroot : (new P a).norm = [])
    (hb : MatchesSomePath P b) : Common P a b := by
  obtain ⟨p, hp, hcovers⟩ := hb.2
  exact ⟨p, hp, covers_root h hroot p, hcovers⟩

/-! ### Two literal paths -/

/-- Two literal paths that overlap are equal or nested. -/
theorem nested_of_overlaps (ha : (new P a).isGlob = false) (hb : (new P b).isGlob = false)
    (h : (new P a).overlaps P.caseInsensitive (new P b) = true) :
    (textEq P.caseInsensitive (new P a).norm (new P b).norm = true ∨
      isDirectoryPrefix P.caseInsensitive (new P a).norm (new P b).norm = true) ∨
        isDirectoryPrefix P.caseInsensitive (new P b).norm (new P a).norm = true := by
  rw [overlaps_new_iff, matcherMatches_of_not_glob P a ha, matcherMatches_of_not_glob P b hb] at h
  rcases h with h | ⟨_, h⟩ | ⟨_, h⟩ | ⟨_, h⟩ | ⟨_, h⟩ | ⟨_, _, h⟩
  · exact Or.inl (Or.inl h)
  · exact Or.inl (Or.inr h)
  · exact Or.inr h
  · cases h
  · cases h
  · left
    left
    rw [segmentsOverlap_eq, segments_of_not_glob P a ha, segments_of_not_glob P b hb,
      RepeatPattern.overlap_letters PatternSegment.literal (fun _ => rfl)] at h
    have hitems := (RepeatPattern.accepts_items _ _ (by
      intro x hx
      obtain ⟨s, _, rfl⟩ := mem_map.mp hx
      rfl)).mp h
    have hfold : (splitSlash (new P b).norm).map (fold P.caseInsensitive) =
        (splitSlash (new P a).norm).map (fold P.caseInsensitive) := by
      rw [forall₂_map_left_iff] at hitems
      rw [← forall₂_eq_eq_eq, forall₂_map_left_iff, forall₂_map_right_iff]
      refine hitems.imp fun s t hst => ?_
      rw [PatternSegment.overlaps_comm] at hst
      exact (textEq_iff _ _ _).mp hst
    rw [textEq_iff]
    apply splitSlash_injective
    rw [splitSlash_fold, splitSlash_fold, hfold]

theorem common_of_literals (ha : (new P a).isGlob = false) (hb : (new P b).isGlob = false)
    (hmb : MatchesSomePath P b) (hma : MatchesSomePath P a)
    (h : (new P a).overlaps P.caseInsensitive (new P b) = true) : Common P a b := by
  by_cases hra : (new P a).norm = []
  · exact common_of_root ha hra hmb
  · by_cases hrb : (new P b).norm = []
    · exact (common_of_root hb hrb hma).symm
    · rcases nested_of_overlaps ha hb h with hdown | hup
      · exact ⟨_, relPath_norm hrb, (covers_of_not_glob ha _).mpr hdown, covers_self hb⟩
      · exact ⟨_, relPath_norm hra, covers_self ha, (covers_of_not_glob hb _).mpr (Or.inr hup)⟩

/-! ### A literal path and a glob -/

theorem hasGlobMeta_append (s t : Text) : hasGlobMeta (s ++ t) = (hasGlobMeta s || hasGlobMeta t) :=
  any_append

/-- A path that the glob matches lies below every literal directory that the glob's text starts
with. -/
theorem common_of_directory (hg : LiteralDirectory P.globset) (ha : (new P a).isGlob = false)
    (hne : (new P a).norm ≠ []) (hb : (new P b).isGlob = true) (hmb : MatchesSomePath P b)
    (h : isDirectoryPrefix P.caseInsensitive (new P a).norm (new P b).norm = true) :
    Common P a b := by
  obtain ⟨p, hp, hcovers⟩ := hmb.2
  refine ⟨p, hp, ?_, hcovers⟩
  rw [covers_of_not_glob ha]
  right
  rw [isDirectoryPrefix_iff hne] at h ⊢
  obtain ⟨tail, htail⟩ := h
  -- the glob's own spelling of the directory
  obtain ⟨dir, rest, hnorm, hdir, hrest⟩ := map_eq_append_iff.mp htail
  obtain ⟨c, rest, rfl, hc, _⟩ := map_eq_cons_iff.mp hrest
  have hslash : c = '/' := (foldChar_slash _ c).mp hc
  subst hslash
  have hmeta : hasGlobMeta dir = false := by
    rw [← hasGlobMeta_fold P.caseInsensitive dir, fold, hdir, hasGlobMeta_fold]
    exact ha
  have hglob : hasGlobMeta rest = true := by
    have hwhole : hasGlobMeta (new P b).norm = true := hb
    rw [hnorm, hasGlobMeta_append, hmeta, Bool.false_or] at hwhole
    exact hwhole
  rw [covers_of_glob hb, matcherMatches] at hcovers
  have hmatcher : (new P b).matcher = P.globset.build P.caseInsensitive (new P b).norm := if_pos hb
  rw [hmatcher] at hcovers
  cases hbuild : P.globset.build P.caseInsensitive (new P b).norm with
  | none =>
    rw [hbuild] at hcovers
    cases hcovers
  | some m =>
    rw [hbuild] at hcovers
    rw [hnorm] at hbuild
    have hback : '\\' ∉ dir ++ '/' :: rest := by
      rw [← hnorm]
      exact backslash_notMem_resolveText _
    obtain ⟨tail', htail'⟩ := hg _ dir rest m p hbuild hback hmeta hglob hcovers
    refine ⟨tail', ?_⟩
    rw [htail']
    exact congrArg (· ++ '/' :: tail') hdir

/-- A glob all of whose pieces are read against literal components has pieces that compile. -/
theorem builds_of_accepts {w : List Text} (hw : ∀ s ∈ w, hasGlobMeta s = false)
    (h : RepeatPattern.accepts PatternSegment.isRecursive
      (PatternSegment.matchesLiteral P.caseInsensitive) (new P b).segments w = true) :
    ∀ piece ∈ splitSlash (new P b).norm, isRecursive piece = false → hasGlobMeta piece = true →
      (P.globset.build P.caseInsensitive piece).isSome = true := by
  intro piece hpiece hrec hmeta
  cases hbuild : P.globset.build P.caseInsensitive piece with
  | some m => rfl
  | none =>
    have hne : piece ≠ ['*', '*'] := beq_eq_false_iff_ne.mp hrec
    have hseg : compileSegment P piece = .literal piece := by
      rw [compileSegment, if_neg hne, if_pos hmeta, hbuild]
    have hmem : PatternSegment.literal piece ∈ (new P b).segments :=
      mem_map.mpr ⟨piece, hpiece, hseg⟩
    -- kept as literal text, the piece would equal a component without metacharacters
    obtain ⟨s, hs, hmatch⟩ := RepeatPattern.exists_of_accepts _ _ h hmem rfl
    have hfold : fold P.caseInsensitive piece = fold P.caseInsensitive s :=
      (textEq_iff _ _ _).mp hmatch
    have hsame := congrArg hasGlobMeta hfold
    rw [hasGlobMeta_fold, hasGlobMeta_fold, hmeta, hw s hs] at hsame
    cases hsame

/-- Segments that accept components accept them as pieces of the glob. -/
theorem accepts_pieces {w : List Text}
    (hbuilds : ∀ piece ∈ splitSlash (new P b).norm, isRecursive piece = false →
      hasGlobMeta piece = true → (P.globset.build P.caseInsensitive piece).isSome = true)
    (h : RepeatPattern.accepts PatternSegment.isRecursive
      (PatternSegment.matchesLiteral P.caseInsensitive) (new P b).segments w = true) :
    RepeatPattern.accepts isRecursive (P.globset.pieceMatches P.caseInsensitive)
      (splitSlash (new P b).norm) w = true := by
  change RepeatPattern.accepts _ _ ((splitSlash (new P b).norm).map (compileSegment P)) w = true at h
  rwa [RepeatPattern.accepts_map _ _ (compileSegment P) isRecursive
    (P.globset.pieceMatches P.caseInsensitive) _ w
    (fun piece _ => isRecursive_compileSegment P piece)] at h
  intro piece hpiece hrec s _
  apply matchesLiteral_compileSegment hrec
  exact fun hmeta => Option.isSome_iff_exists.mp (hbuilds piece hpiece hrec hmeta)

theorem pieceMatches_star (hstar : StarMatchesAll P.globset) {s : Text} (hs : '/' ∉ s) :
    P.globset.pieceMatches P.caseInsensitive ['*'] s = true := by
  obtain ⟨m, hbuild, hall⟩ := hstar P.caseInsensitive
  rw [Globset.pieceMatches, hbuild]
  exact hall s hs

/-- One more component is accepted where the trailing `**` asks for one. -/
theorem accepts_expandTrailing (hstar : StarMatchesAll P.globset) {pieces w : List Text} {s : Text}
    (hexpand : Globset.expandTrailing pieces ≠ pieces) (hw : ∀ t ∈ w ++ [s], '/' ∉ t)
    (h : RepeatPattern.accepts isRecursive (P.globset.pieceMatches P.caseInsensitive) pieces w =
      true) :
    RepeatPattern.accepts isRecursive (P.globset.pieceMatches P.caseInsensitive)
      (Globset.expandTrailing pieces) (w ++ [s]) = true := by
  obtain ⟨tail, hpieces, _⟩ := rdropWhile_append_all pieces
  rw [hpieces] at h
  obtain ⟨u, v, rfl, hstem, _⟩ := RepeatPattern.exists_of_accepts_append _ _ h
  unfold Globset.expandTrailing at hexpand ⊢
  dsimp only at hexpand ⊢
  split at hexpand
  · exact absurd rfl hexpand
  · next hcut =>
    rw [if_neg hcut, append_assoc]
    refine RepeatPattern.accepts_append _ _ hstem ?_
    obtain ⟨t, rest, hrest⟩ := exists_cons_of_ne_nil
      (append_ne_nil_of_right_ne_nil v (cons_ne_nil s []))
    have ht : '/' ∉ t := by
      apply hw t
      rw [append_assoc, hrest]
      simp
    rw [hrest, RepeatPattern.accepts_item _ _ rfl, pieceMatches_star hstar ht,
      RepeatPattern.accepts_of_all_repeat _ _ rfl]
    rfl

theorem splitSlash_below (t : Text) (s : Char) (hs : s ≠ '/') :
    splitSlash (t ++ ['/', s]) = splitSlash t ++ [[s]] := by
  rw [splitSlash_append_slash]
  congr 1
  unfold splitSlash
  rw [splitOn_eq_singleton]
  simpa using hs.symm

/-- Where the pieces accept the components of a literal path, the glob matches it or an entry below
it. -/
theorem common_of_segments (hg : MatchesAsDocumented P.globset) (ha : (new P a).isGlob = false)
    (hne : (new P a).norm ≠ []) (hb : (new P b).isGlob = true) (hmb : MatchesSomePath P b)
    (h : RepeatPattern.accepts PatternSegment.isRecursive
      (PatternSegment.matchesLiteral P.caseInsensitive) (new P b).segments
      (splitSlash (new P a).norm) = true) : Common P a b := by
  have hliteral : ∀ s ∈ splitSlash (new P a).norm, hasGlobMeta s = false := by
    intro s hs
    by_contra hmeta
    have hwhole := hasGlobMeta_of_mem_splitSlash hs (Bool.not_eq_false _ ▸ hmeta)
    change (new P a).isGlob = true at hwhole
    rw [ha] at hwhole
    cases hwhole
  have hbuilds := builds_of_accepts hliteral h
  have hpieces := accepts_pieces hbuilds h
  have hmatcher : (new P b).matcher = P.globset.build P.caseInsensitive (new P b).norm := if_pos hb
  obtain ⟨m, hbuild⟩ : ∃ m, P.globset.build P.caseInsensitive (new P b).norm = some m := by
    have hsome := hmb.1
    rw [isMatchable, hb, Bool.not_true, Bool.false_or, hmatcher] at hsome
    exact Option.isSome_iff_exists.mp hsome
  have hcovers (p : Text) (hp : RelPath p) (haccepts : RepeatPattern.accepts isRecursive
      (P.globset.pieceMatches P.caseInsensitive)
      (Globset.expandTrailing (splitSlash (new P b).norm)) (splitSlash p) = true) :
      (new P b).covers P.caseInsensitive p = true := by
    rw [covers_of_glob hb, matcherMatches, hmatcher, hbuild]
    exact hg.documented.complete _ _ m p hbuild (backslash_notMem_resolveText _) hbuilds hp haccepts
  by_cases hexpand : Globset.expandTrailing (splitSlash (new P b).norm) = splitSlash (new P b).norm
  · refine ⟨(new P a).norm, relPath_norm hne, covers_self ha, hcovers _ (relPath_norm hne) ?_⟩
    rwa [hexpand]
  · have hbelow := splitSlash_below (new P a).norm 'x' (by decide)
    have hrel : RelPath ((new P a).norm ++ ['/', 'x']) := by
      rw [RelPath, hbelow]
      intro hmem
      rcases mem_append.mp hmem with hold | hnew
      · exact relPath_norm hne hold
      · cases mem_singleton.mp hnew
    refine ⟨(new P a).norm ++ ['/', 'x'], hrel, ?_, hcovers _ hrel ?_⟩
    · rw [covers_of_not_glob ha, isDirectoryPrefix_iff hne]
      refine Or.inr ⟨fold P.caseInsensitive ['x'], ?_⟩
      rw [fold_append, fold_cons, foldChar_slash_self]
    · rw [hbelow]
      apply accepts_expandTrailing hg.starMatchesAll hexpand ?_ hpieces
      intro t ht
      rw [← hbelow] at ht
      exact slash_notMem_of_mem_splitSlash ht

theorem common_of_glob (hg : MatchesAsDocumented P.globset) (ha : (new P a).isGlob = false)
    (hb : (new P b).isGlob = true) (hmb : MatchesSomePath P b)
    (h : (new P a).overlaps P.caseInsensitive (new P b) = true) : Common P a b := by
  by_cases hroot : (new P a).norm = []
  · exact common_of_root ha hroot hmb
  · rw [overlaps_iff_globReaches ha hb hmb.1, GlobReaches] at h
    rcases h with hdir | hmatch | hsegments
    · exact common_of_directory hg.literalDirectory ha hroot hb hmb hdir
    · refine ⟨(new P a).norm, relPath_norm hroot, covers_self ha, ?_⟩
      rwa [covers_of_glob hb]
    · exact common_of_segments hg ha hroot hb hmb hsegments

/-- What the reservations of two agents prove is a path that both have reserved. -/
theorem common_of_proved (P : Platform) (hg : MatchesAsDocumented P.globset)
    (senders recipients : List Text) (hsenders : ∀ a ∈ senders, MatchesSomePath P a)
    (hrecipients : ∀ b ∈ recipients, MatchesSomePath P b)
    (h : reservationsProveSharedScopeForContact P.caseInsensitive (senders.map (new P))
      (recipients.map (new P)) = true) :
    ∃ a ∈ senders, ∃ b ∈ recipients, ∃ p, RelPath p ∧
      (new P a).covers P.caseInsensitive p = true ∧ (new P b).covers P.caseInsensitive p = true := by
  rw [reservationsProveSharedScopeForContact, any_map, any_eq_true] at h
  obtain ⟨a, ha, h⟩ := h
  rw [Function.comp_apply, any_map, any_eq_true] at h
  obtain ⟨b, hb, h⟩ := h
  rw [Function.comp_apply] at h
  refine ⟨a, ha, b, hb, ?_⟩
  have hma := hsenders a ha
  have hmb := hrecipients b hb
  split at h
  · next hnorm =>
    rw [beq_iff_eq] at hnorm
    obtain ⟨p, hp, hcovers⟩ := hmb.2
    have hsame : new P a = new P b := by
      change ofNorm P (new P a).norm = ofNorm P (new P b).norm
      rw [hnorm]
    exact ⟨p, hp, by rw [hsame]; exact hcovers, hcovers⟩
  · split at h
    · cases h
    · next hglobs =>
      cases hga : (new P a).isGlob with
      | false =>
        cases hgb : (new P b).isGlob with
        | false => exact common_of_literals hga hgb hmb hma h
        | true => exact common_of_glob hg hga hgb hmb h
      | true =>
        cases hgb : (new P b).isGlob with
        | false =>
          rw [overlaps_comm] at h
          exact (common_of_glob hg hgb hga hma h).symm
        | true =>
          rw [hga, hgb] at hglobs
          exact absurd rfl hglobs

/-! ### The reference globs -/

theorem simpleGlobset_starMatchesAll : StarMatchesAll simpleGlobset := by
  intro ci
  refine ⟨_, rfl, fun s hs => ?_⟩
  have hpieces : Globset.expandTrailing (splitSlash ['*']) = [['*']] := by decide
  have hsplit : splitSlash s = [s] := splitOn_eq_singleton hs
  have hany : starMatch ci ['*'] s = true :=
    RepeatPattern.accepts_of_all_repeat (· == '*') _ rfl s
  rw [hpieces, hsplit, RepeatPattern.accepts_item isRecursive _ rfl, hany]
  rfl

/-- Literal components take the first components of a word. -/
theorem accepts_literals {ci : Bool} {stem rest w : List Text}
    (hstem : ∀ s ∈ stem, hasGlobMeta s = false)
    (h : RepeatPattern.accepts isRecursive (starMatch ci) (stem ++ rest) w = true) :
    ∃ u v, w = u ++ v ∧ u.map (fold ci) = stem.map (fold ci) ∧
      RepeatPattern.accepts isRecursive (starMatch ci) rest v = true := by
  induction stem generalizing w with
  | nil => exact ⟨[], w, rfl, rfl, h⟩
  | cons piece stem ih =>
    rw [forall_mem_cons] at hstem
    have hrec : isRecursive piece = false := by
      rw [isRecursive, beq_eq_false_iff_ne]
      rintro rfl
      cases hstem.1
    rw [cons_append] at h
    cases w with
    | nil =>
      rw [RepeatPattern.accepts_cons_nil, hrec] at h
      cases h
    | cons s w =>
      rw [RepeatPattern.accepts_item _ _ hrec, Bool.and_eq_true, starMatch_eq_textEq hstem.1,
        textEq_iff] at h
      obtain ⟨u, v, rfl, hu, hv⟩ := ih hstem.2 h.2
      exact ⟨s :: u, v, rfl, by rw [map_cons, map_cons, h.1, hu], hv⟩

theorem simpleGlobset_literalDirectory : LiteralDirectory simpleGlobset := by
  intro ci dir rest m p hbuild _ hmeta _ hm
  have hliteral : ∀ s ∈ splitSlash dir, hasGlobMeta s = false := by
    intro s hs
    by_contra hglob
    have hwhole := hasGlobMeta_of_mem_splitSlash hs (Bool.not_eq_false _ ▸ hglob)
    rw [hmeta] at hwhole
    cases hwhole
  have hstem : ∀ s ∈ splitSlash dir, isRecursive s = false := by
    intro s hs
    rw [isRecursive, beq_eq_false_iff_ne]
    rintro rfl
    cases hliteral _ hs
  obtain ⟨rest', hexpand, hasks⟩ := expandTrailing_append hstem (splitSlash_ne_nil dir)
    (splitSlash_ne_nil rest)
  rw [simpleGlobset_build hbuild] at hm
  dsimp only at hm
  rw [splitSlash_append_slash, hexpand] at hm
  obtain ⟨u, v, hsplit, hu, hv⟩ := accepts_literals hliteral hm
  cases v with
  | nil =>
    rw [RepeatPattern.accepts_nil_right, hasks] at hv
    cases hv
  | cons t v =>
    refine ⟨joinSlash ((t :: v).map (fold ci)), ?_⟩
    apply splitSlash_injective
    have hfree : ∀ s ∈ (t :: v).map (fold ci), '/' ∉ s := by
      intro s hs
      have hmem : s ∈ splitSlash (fold ci p) := by
        rw [splitSlash_fold, hsplit, map_append]
        exact mem_append_right _ hs
      exact slash_notMem_of_mem_splitSlash hmem
    rw [splitSlash_append_slash, splitSlash_joinSlash hfree (cons_ne_nil _ _), splitSlash_fold,
      splitSlash_fold, hsplit, map_append, hu]

theorem simpleGlobset_matchesAsDocumented : MatchesAsDocumented simpleGlobset where
  documented := simpleGlobset_documented
  starMatchesAll := simpleGlobset_starMatchesAll
  literalDirectory := simpleGlobset_literalDirectory

theorem common_of_proved_src :
    ∃ a ∈ ["src".toList], ∃ b ∈ ["docs/*.md".toList, "src/**".toList], ∃ p, RelPath p ∧
      (new exactPlatform a).covers exactPlatform.caseInsensitive p = true ∧
      (new exactPlatform b).covers exactPlatform.caseInsensitive p = true := by
  refine common_of_proved exactPlatform simpleGlobset_matchesAsDocumented ["src".toList]
    ["docs/*.md".toList, "src/**".toList] ?_ ?_ (by decide +kernel)
  · rw [forall_mem_singleton]
    exact ⟨by decide +kernel, "src".toList, by unfold RelPath; decide +kernel, by decide +kernel⟩
  · rw [forall_mem_cons, forall_mem_singleton]
    exact ⟨⟨by decide +kernel, "docs/a.md".toList, by unfold RelPath; decide +kernel,
        by decide +kernel⟩,
      ⟨by decide +kernel, "src/a".toList, by unfold RelPath; decide +kernel, by decide +kernel⟩⟩

end AgentMail.Contact
