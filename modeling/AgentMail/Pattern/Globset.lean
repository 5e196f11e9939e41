import AgentMail.Base.Text
import AgentMail.Lib.RepeatPattern

/-!
# The glob library

Reservation patterns are compiled with the `globset` crate, always with
`literal_separator(true)`. The crate is outside the repository, so the model takes it as a
parameter, `Globset`, and states the documented behaviour that a result relies on as a
named property. `simpleGlobset` implements the documented matching of `*`, `?` and whole
`**` segments and refuses classes and alternations; it satisfies all of these properties.
-/

namespace AgentMail.Pattern

open Base Lib List

/-- `has_glob_meta`, `pattern_overlap.rs:258`; the guard's `contains_glob` is the same test. -/
def hasGlobMeta (s : Text) : Bool := s.any fun c => c == '*' || c == '?' || c == '[' || c == '{'

/-- The glob library: `build` is `GlobBuilder::new(text).literal_separator(true)
.case_insensitive(ci).build()` with its compiled matcher, `none` for a build error. -/
structure Globset where
  build : Bool → Text → Option (Text → Bool)

/-- A `**` component. -/
def isRecursive (piece : Text) : Bool := piece == ['*', '*']

/-- Concrete relative paths: no component is empty. -/
def RelPath (p : Text) : Prop := [] ∉ splitSlash p

/-- Documented reading of a glob without classes or alternations against text without a
separator: `*` is any run of characters, `?` any one character, the rest is itself. -/
def starMatch (ci : Bool) (piece s : Text) : Bool :=
  RepeatPattern.accepts (· == '*') (fun c ch => c == '?' || foldChar ci c == foldChar ci ch) piece s

namespace Globset

variable (g : Globset)

/-- One component of a glob against one path component: through its own matcher when it has
metacharacters, literally otherwise. -/
def pieceMatches (ci : Bool) (piece s : Text) : Bool :=
  if hasGlobMeta piece then (g.build ci piece).elim false (· s) else textEq ci piece s

/-- Every component compiles by itself and then matches no text with a separator in it. A brace
that spans a slash is not separable, and neither is a class that contains the slash. -/
def Separable (ci : Bool) (text : Text) : Prop :=
  ∀ piece ∈ splitSlash text, isRecursive piece = false → hasGlobMeta piece = true →
    ∃ m, g.build ci piece = some m ∧ ∀ s, m s = true → '/' ∉ s

/-- A separable glob only matches relative paths that its components match in order, a `**`
component standing for zero or more whole components. The backslash is the escape character of
the crate, and no normalised pattern contains one. -/
def SegmentSound : Prop :=
  ∀ ci text m p, g.build ci text = some m → '\\' ∉ text → g.Separable ci text → RelPath p →
    m p = true →
    RepeatPattern.accepts isRecursive (g.pieceMatches ci) (splitSlash text) (splitSlash p) = true

/-- A single component built from `*`, `?` and literal characters matches as documented. -/
def SimpleSound : Prop :=
  ∀ ci piece m s, g.build ci piece = some m → '/' ∉ piece → '\\' ∉ piece →
    (∀ c ∈ piece, c ≠ '[' ∧ c ≠ ']' ∧ c ≠ '{' ∧ c ≠ '}') → m s = true → starMatch ci piece s = true

/-- Under `case_insensitive(true)` a matcher ignores the ASCII case of the path. -/
def FoldsCase : Prop :=
  ∀ ci text m p q, g.build ci text = some m → fold ci p = fold ci q → m p = m q

/-- A glob whose first component `s` is literal matches only `s/...` paths. -/
def FirstLiteral : Prop :=
  ∀ ci text m p s rest, g.build ci text = some m → '\\' ∉ text → hasGlobMeta text = true →
    splitSlash text = s :: rest → hasGlobMeta s = false → m p = true →
    ∃ tail, fold ci p = fold ci s ++ '/' :: tail

/-- A trailing `/**` matches all sub-entries, so it stands for at least one component; a glob
made of `**` only matches everything. -/
def expandTrailing (pieces : List Text) : List Text :=
  let stem := pieces.rdropWhile isRecursive
  if stem.length = pieces.length ∨ stem = [] then pieces else stem ++ [['*'], ['*', '*']]

/-- What the guard relies on when it hands every reserved text to the library, glob or not. -/
structure Documented : Prop where
  foldsCase : g.FoldsCase
  /-- A glob matches the relative paths that its components match in order. -/
  complete : ∀ ci text m p, g.build ci text = some m → '\\' ∉ text →
    (∀ piece ∈ splitSlash text, isRecursive piece = false → hasGlobMeta piece = true →
      (g.build ci piece).isSome = true) → RelPath p →
    RepeatPattern.accepts isRecursive (g.pieceMatches ci) (expandTrailing (splitSlash text))
      (splitSlash p) = true → m p = true
  /-- A text without metacharacters builds, unless it has an unopened alternation. -/
  literalBuilds : ∀ ci text, hasGlobMeta text = false → '\\' ∉ text → '}' ∉ text →
    (g.build ci text).isSome = true
  /-- An unopened alternation is a build error. -/
  unopened : ∀ ci text, hasGlobMeta text = false → '\\' ∉ text → '}' ∈ text → g.build ci text = none
  /-- A text without metacharacters matches only itself. -/
  literalExact : ∀ ci text m p, g.build ci text = some m → hasGlobMeta text = false →
    '\\' ∉ text → m p = true → fold ci text = fold ci p
  /-- Ignoring case only adds matches, unless a class may be negated. -/
  caseWidens : ∀ text m, '[' ∉ text → g.build false text = some m →
    ∃ m', g.build true text = some m' ∧ ∀ p, m p = true → m' p = true
  /-- Under `case_insensitive(true)` the ASCII case of a glob without classes is irrelevant. -/
  foldsPattern : ∀ text, '[' ∉ text → g.build true (fold true text) = g.build true text

end Globset

/-! ### A concrete instance -/

open Globset in
/-- `*`, `?` and `**` as documented; classes, alternations and unopened alternations are
refused. -/
def simpleGlobset : Globset where
  build ci text :=
    if text.any (fun c => c == '[' || c == '{' || c == '}') then none
    else some fun p =>
      RepeatPattern.accepts isRecursive (starMatch ci) (expandTrailing (splitSlash text))
        (splitSlash p)

open Globset

theorem starMatch_nil_cons (ci : Bool) (c : Char) (piece : Text) :
    starMatch ci (c :: piece) [] = (c == '*' && starMatch ci piece []) := rfl

theorem starMatch_item {c : Char} (hc : c ≠ '*') (ci : Bool) (piece : Text) (d : Char)
    (s : Text) :
    starMatch ci (c :: piece) (d :: s) =
      ((c == '?' || foldChar ci c == foldChar ci d) && starMatch ci piece s) :=
  RepeatPattern.accepts_item (· == '*') _ (beq_eq_false_iff_ne.mpr hc) piece d s

/-- Without metacharacters the documented reading is text equality. -/
theorem starMatch_eq_textEq {ci : Bool} {piece : Text} (h : hasGlobMeta piece = false) (s : Text) :
    starMatch ci piece s = textEq ci piece s := by
  induction piece generalizing s with
  | nil => cases s <;> cases ci <;> rfl
  | cons c piece ih =>
    simp only [hasGlobMeta, any_cons, Bool.or_eq_false_iff] at h
    obtain ⟨⟨⟨⟨hs, hq⟩, _⟩, _⟩, ht⟩ := h
    cases s with
    | nil =>
      rw [starMatch_nil_cons, hs]
      cases ci <;> rfl
    | cons d s =>
      rw [starMatch_item (beq_eq_false_iff_ne.mp hs), hq, Bool.false_or, ih ht s]
      apply Bool.eq_iff_iff.mpr
      simp [textEq_iff]

theorem simpleGlobset_build {ci : Bool} {text : Text} {m : Text → Bool}
    (h : simpleGlobset.build ci text = some m) :
    m = fun p => RepeatPattern.accepts isRecursive (starMatch ci)
      (expandTrailing (splitSlash text)) (splitSlash p) := by
  simp only [simpleGlobset] at h
  split at h
  · cases h
  · exact (Option.some.inj h).symm

theorem expandTrailing_singleton (piece : Text) : expandTrailing [piece] = [piece] := by
  unfold expandTrailing
  cases h : isRecursive piece <;> simp [List.rdropWhile, h]

theorem splitSlash_of_notMem {t : Text} (h : '/' ∉ t) : splitSlash t = [t] :=
  splitOn_eq_singleton h

theorem simpleGlobset_piece {ci : Bool} {piece s : Text} (hp : '/' ∉ piece) (hs : '/' ∉ s)
    (hr : isRecursive piece = false) (hb : hasGlobMeta piece = true →
      (simpleGlobset.build ci piece).isSome = true) :
    simpleGlobset.pieceMatches ci piece s = starMatch ci piece s := by
  unfold Globset.pieceMatches
  split
  · next hm =>
    obtain ⟨m, hbuild⟩ := Option.isSome_iff_exists.mp (hb hm)
    rw [hbuild, simpleGlobset_build hbuild]
    change RepeatPattern.accepts _ _ _ _ = _
    rw [splitSlash_of_notMem hp, splitSlash_of_notMem hs, expandTrailing_singleton,
      RepeatPattern.accepts_item _ _ hr, RepeatPattern.accepts_nil_nil, Bool.and_true]
  · next hm => rw [starMatch_eq_textEq (Bool.not_eq_true _ ▸ hm)]

/-- The recursive pieces at the end, cut off. -/
theorem rdropWhile_append_all (pieces : List Text) :
    ∃ tail, pieces = pieces.rdropWhile isRecursive ++ tail ∧ tail.all isRecursive = true := by
  refine ⟨pieces.rtakeWhile isRecursive, ?_, ?_⟩
  · rw [List.rdropWhile, List.rtakeWhile, ← reverse_append, takeWhile_append_dropWhile,
      reverse_reverse]
  · rw [all_eq_true]
    intro x hx
    exact mem_rtakeWhile_imp hx

/-- The expansion of a trailing `**` only shrinks the language. -/
theorem accepts_of_expandTrailing {acc : Text → Text → Bool} (pieces w : List Text)
    (h : RepeatPattern.accepts isRecursive acc (expandTrailing pieces) w = true) :
    RepeatPattern.accepts isRecursive acc pieces w = true := by
  unfold expandTrailing at h
  dsimp only at h
  split at h
  · exact h
  · next hn =>
    obtain ⟨tail, he, hall⟩ := rdropWhile_append_all pieces
    cases tail with
    | nil =>
      rw [append_nil] at he
      exact absurd (.inl (congrArg List.length he.symm)) hn
    | cons a tail =>
      have hmono := RepeatPattern.accepts_append_mono isRecursive acc
        (fun w (_ : RepeatPattern.accepts isRecursive acc [['*'], ['*', '*']] w = true) =>
          RepeatPattern.accepts_of_all_repeat isRecursive acc hall w) _ _ h
      rwa [← he] at hmono

theorem simpleGlobset_segmentSound : simpleGlobset.SegmentSound := by
  intro ci text m p hb _ hsep _ hm
  rw [simpleGlobset_build hb] at hm
  have hm := accepts_of_expandTrailing _ _ hm
  have hpiece : ∀ b ∈ splitSlash text, isRecursive b = false → ∀ s ∈ splitSlash p,
      simpleGlobset.pieceMatches ci (id b) s = starMatch ci b s := by
    intro b hbm hr s hs
    apply simpleGlobset_piece (slash_notMem_of_mem_splitSlash hbm)
      (slash_notMem_of_mem_splitSlash hs) hr
    intro hmeta
    obtain ⟨m', hb', _⟩ := hsep b hbm hr hmeta
    exact Option.isSome_iff_exists.mpr ⟨m', hb'⟩
  have hc := RepeatPattern.accepts_map isRecursive (simpleGlobset.pieceMatches ci) id isRecursive
    (starMatch ci) (splitSlash text) (splitSlash p) (fun _ _ => rfl) hpiece
  rw [map_id] at hc
  rw [hc]
  exact hm

theorem starMatch_recursive (ci : Bool) (s : Text) : starMatch ci ['*', '*'] s = true :=
  RepeatPattern.accepts_of_all_repeat (· == '*') _ rfl s

theorem simpleGlobset_simpleSound : simpleGlobset.SimpleSound := by
  intro ci piece m s hb hp _ _ hm
  rw [simpleGlobset_build hb] at hm
  dsimp only at hm
  rw [splitSlash_of_notMem hp, expandTrailing_singleton] at hm
  cases hr : isRecursive piece with
  | true =>
    rw [isRecursive, beq_iff_eq] at hr
    rw [hr]
    exact starMatch_recursive ci s
  | false =>
    -- A single mandatory component leaves no room for a separator in `s`.
    obtain ⟨t, ts, he⟩ := exists_cons_of_ne_nil (splitSlash_ne_nil s)
    rw [he, RepeatPattern.accepts_item _ _ hr, Bool.and_eq_true] at hm
    cases ts with
    | nil =>
      have hs : s = t := by
        rw [← joinSlash_splitSlash s, he, joinSlash_singleton]
      rw [hs]
      exact hm.1
    | cons u us => exact absurd hm.2 Bool.false_ne_true

theorem starMatch_fold {ci : Bool} {p q : Text} (h : fold ci p = fold ci q) (piece : Text) :
    starMatch ci piece p = starMatch ci piece q := by
  have hfold (t : Text) : starMatch ci piece (fold ci t) = starMatch ci piece t := by
    induction piece generalizing t with
    | nil => cases t <;> rfl
    | cons c piece ih =>
      induction t with
      | nil => rfl
      | cons d t iht =>
        unfold starMatch at ih iht ⊢
        rw [fold_cons, RepeatPattern.accepts_cons_cons, RepeatPattern.accepts_cons_cons,
          ← fold_cons, ih, iht, ih, foldChar_idem]
  rw [← hfold p, h, hfold]

theorem simpleGlobset_foldsCase : simpleGlobset.FoldsCase := by
  intro ci text m p q hb h
  have hcomp (t : Text) : m (fold ci t) = m t := by
    rw [simpleGlobset_build hb]
    dsimp only
    rw [splitSlash_fold]
    generalize expandTrailing (splitSlash text) = pieces
    generalize splitSlash t = w
    induction pieces generalizing w with
    | nil => cases w <;> rfl
    | cons piece pieces ih =>
      induction w with
      | nil => rfl
      | cons s w ihw =>
        rw [map_cons, RepeatPattern.accepts_cons_cons, RepeatPattern.accepts_cons_cons,
          ← map_cons, ih, ihw, ih, starMatch_fold (fold_idem ci s)]
  rw [← hcomp p, h, hcomp]

/-- Below components that are no `**`, a glob keeps them in front and asks for something more. -/
theorem expandTrailing_append {stem rest : List Text} (hstem : ∀ s ∈ stem, isRecursive s = false)
    (hne : stem ≠ []) (hrest : rest ≠ []) :
    ∃ rest', expandTrailing (stem ++ rest) = stem ++ rest' ∧ rest'.all isRecursive = false := by
  have hkept : stem.rdropWhile isRecursive = stem := by
    rw [rdropWhile_eq_self_iff]
    intro hl
    rw [hstem _ (getLast_mem hl)]
    exact Bool.false_ne_true
  have hsuffix : ([['*'], ['*', '*']] : List Text).all isRecursive = false := by decide
  have hdrop : (stem ++ rest).rdropWhile isRecursive =
      if (rest.rdropWhile isRecursive).isEmpty then stem else stem ++ rest.rdropWhile isRecursive := by
    rw [List.rdropWhile, reverse_append, dropWhile_append]
    split
    · next hempty =>
      rw [← List.rdropWhile, hkept]
      rw [List.rdropWhile, isEmpty_reverse, if_pos hempty]
    · next hempty =>
      rw [reverse_append, reverse_reverse]
      rw [List.rdropWhile, isEmpty_reverse, if_neg hempty]
  unfold expandTrailing
  dsimp only
  rw [hdrop]
  split
  · next hempty =>
    have hlength : stem.length ≠ (stem ++ rest).length := by
      have hpos := length_pos_iff.mpr hrest
      rw [length_append]
      omega
    rw [if_neg (not_or.mpr ⟨hlength, hne⟩)]
    exact ⟨_, rfl, hsuffix⟩
  · next hsome =>
    have hboth : stem ++ rest.rdropWhile isRecursive ≠ [] := append_ne_nil_of_left_ne_nil hne _
    split
    · refine ⟨rest, rfl, ?_⟩
      rw [List.isEmpty_iff, rdropWhile_eq_nil_iff] at hsome
      rw [← Bool.not_eq_true, all_eq_true]
      exact hsome
    · refine ⟨rest.rdropWhile isRecursive ++ [['*'], ['*', '*']], by rw [append_assoc], ?_⟩
      rw [all_append, hsuffix, Bool.and_false]

theorem expandTrailing_cons {s : Text} {rest : List Text} (hs : isRecursive s = false)
    (hr : rest ≠ []) :
    ∃ rest', expandTrailing (s :: rest) = s :: rest' ∧ rest'.all isRecursive = false :=
  expandTrailing_append (forall_mem_singleton.mpr hs) (cons_ne_nil s []) hr

theorem simpleGlobset_firstLiteral : simpleGlobset.FirstLiteral := by
  intro ci text m p s rest hb _ hmeta hsplit hs hm
  have hrec : isRecursive s = false := by
    rw [isRecursive, beq_eq_false_iff_ne]
    rintro rfl
    cases hs
  have hrest : rest ≠ [] := by
    rintro rfl
    rw [← joinSlash_splitSlash text, hsplit, joinSlash_singleton, hs] at hmeta
    cases hmeta
  obtain ⟨rest', he, hall⟩ := expandTrailing_cons hrec hrest
  rw [simpleGlobset_build hb] at hm
  dsimp only at hm
  obtain ⟨t, ts, hp⟩ := exists_cons_of_ne_nil (splitSlash_ne_nil p)
  rw [hsplit, he, hp, RepeatPattern.accepts_item _ _ hrec, Bool.and_eq_true,
    starMatch_eq_textEq hs, textEq_iff] at hm
  cases ts with
  | nil =>
    rw [RepeatPattern.accepts_nil_right, hall] at hm
    exact absurd hm.2 Bool.false_ne_true
  | cons u us =>
    refine ⟨fold ci (joinSlash (u :: us)), ?_⟩
    have hj := joinSlash_append (cons_ne_nil t []) (cons_ne_nil u us)
    rw [← joinSlash_splitSlash p, hp, ← singleton_append, hj, fold_append, fold_cons,
      foldChar_slash_self, joinSlash_singleton, hm.1]

theorem mem_expandTrailing {pieces : List Text} {s : Text} (h : s ∈ expandTrailing pieces) :
    s ∈ pieces ∨ s = ['*'] ∨ s = ['*', '*'] := by
  unfold expandTrailing at h
  dsimp only at h
  split at h
  · exact .inl h
  · rcases mem_append.mp h with h | h
    · exact .inl ((List.rdropWhile_prefix isRecursive pieces).subset h)
    · simp only [mem_cons, not_mem_nil, or_false] at h
      exact .inr h

theorem expandTrailing_of_not_recursive {pieces : List Text}
    (h : ∀ s ∈ pieces, isRecursive s = false) : expandTrailing pieces = pieces := by
  obtain ⟨tail, he, hall⟩ := rdropWhile_append_all pieces
  have htail : tail = [] := by
    cases tail with
    | nil => rfl
    | cons s tail =>
      rw [all_cons, Bool.and_eq_true] at hall
      have hs := h s (by rw [he]; simp)
      rw [hs] at hall
      exact absurd hall.1 Bool.false_ne_true
  rw [htail, append_nil] at he
  unfold expandTrailing
  dsimp only
  rw [if_pos (.inl (by rw [← he]))]

theorem isRecursive_of_not_meta {s : Text} (h : hasGlobMeta s = false) :
    isRecursive s = false := by
  rw [isRecursive, beq_eq_false_iff_ne]
  rintro rfl
  cases h

theorem hasGlobMeta_of_mem {t s : Text} (h : s ∈ splitSlash t)
    (ht : hasGlobMeta t = false) : hasGlobMeta s = false := by
  rw [hasGlobMeta, any_eq_false] at ht ⊢
  intro c hc
  exact ht c (mem_of_mem_splitSlash h hc)

theorem simpleGlobset_complete (ci : Bool) (text : Text) (m : Text → Bool) (p : Text)
    (hb : simpleGlobset.build ci text = some m)
    (hsep : ∀ piece ∈ splitSlash text, isRecursive piece = false → hasGlobMeta piece = true →
      (simpleGlobset.build ci piece).isSome = true)
    (h : RepeatPattern.accepts isRecursive (simpleGlobset.pieceMatches ci)
      (expandTrailing (splitSlash text)) (splitSlash p) = true) : m p = true := by
  rw [simpleGlobset_build hb]
  dsimp only
  have hpiece : ∀ b ∈ expandTrailing (splitSlash text), isRecursive b = false →
      ∀ s ∈ splitSlash p, simpleGlobset.pieceMatches ci (id b) s = starMatch ci b s := by
    intro b hbm hr s hs
    rcases mem_expandTrailing hbm with hbm | rfl | rfl
    · exact simpleGlobset_piece (slash_notMem_of_mem_splitSlash hbm)
        (slash_notMem_of_mem_splitSlash hs) hr (hsep b hbm hr)
    · exact simpleGlobset_piece (by decide) (slash_notMem_of_mem_splitSlash hs) hr (fun _ => rfl)
    · cases hr
  have hc := RepeatPattern.accepts_map isRecursive (simpleGlobset.pieceMatches ci) id isRecursive
    (starMatch ci) (expandTrailing (splitSlash text)) (splitSlash p) (fun _ _ => rfl) hpiece
  rw [map_id] at hc
  rw [← hc]
  exact h

theorem simpleGlobset_literalExact (ci : Bool) (text : Text) (m : Text → Bool) (p : Text)
    (hb : simpleGlobset.build ci text = some m) (hmeta : hasGlobMeta text = false)
    (h : m p = true) : fold ci text = fold ci p := by
  have hrec : ∀ s ∈ splitSlash text, isRecursive s = false :=
    fun s hs => isRecursive_of_not_meta (hasGlobMeta_of_mem hs hmeta)
  rw [simpleGlobset_build hb] at h
  dsimp only at h
  rw [expandTrailing_of_not_recursive hrec, RepeatPattern.accepts_items _ _ hrec] at h
  apply splitSlash_injective
  rw [splitSlash_fold, splitSlash_fold]
  have hlit : ∀ s ∈ splitSlash text, hasGlobMeta s = false := fun s hs => hasGlobMeta_of_mem hs hmeta
  clear hrec
  generalize splitSlash text = pieces at h hlit ⊢
  generalize splitSlash p = components at h ⊢
  induction h with
  | nil => rfl
  | cons hst _ ih =>
    rw [forall_mem_cons] at hlit
    rw [starMatch_eq_textEq hlit.1, textEq_iff] at hst
    rw [map_cons, map_cons, hst, ih hlit.2]

theorem starMatch_widens {piece s : Text} (h : starMatch false piece s = true) :
    starMatch true piece s = true := by
  apply RepeatPattern.accepts_mono _ _ _ h
  intro c ch hc
  simp only [Bool.or_eq_true, beq_iff_eq] at hc ⊢
  rcases hc with hc | hc
  · exact .inl hc
  · right
    have hch : c = ch := hc
    rw [hch]

theorem starMatch_fold_left (piece s : Text) :
    starMatch true (fold true piece) s = starMatch true piece s := by
  apply RepeatPattern.accepts_map
  · intro c _
    have hc : foldChar true c = '*' ↔ c = '*' := foldChar_eq_iff (.inl (by decide)) true c
    apply Bool.eq_iff_iff.mpr
    simp only [beq_iff_eq, hc]
  · intro c _ _ ch _
    have hc : foldChar true c = '?' ↔ c = '?' := foldChar_eq_iff (.inl (by decide)) true c
    apply Bool.eq_iff_iff.mpr
    simp only [Bool.or_eq_true, beq_iff_eq, hc, foldChar_idem]

theorem isRecursive_fold (s : Text) : isRecursive (fold true s) = isRecursive s := by
  have hstar (c : Char) : foldChar true c = '*' ↔ c = '*' := foldChar_eq_iff (.inl (by decide)) true c
  apply Bool.eq_iff_iff.mpr
  simp only [isRecursive, beq_iff_eq]
  cases s with
  | nil => simp
  | cons a s =>
    cases s with
    | nil => simp
    | cons b s => simp [hstar]

theorem expandTrailing_fold (pieces : List Text) :
    expandTrailing (pieces.map (fold true)) = (expandTrailing pieces).map (fold true) := by
  have hdrop : (pieces.map (fold true)).rdropWhile isRecursive =
      (pieces.rdropWhile isRecursive).map (fold true) := by
    rw [List.rdropWhile, List.rdropWhile, ← map_reverse, dropWhile_map, ← map_reverse]
    have hcomp : isRecursive ∘ fold true = isRecursive := funext isRecursive_fold
    rw [hcomp]
  unfold expandTrailing
  dsimp only
  simp only [hdrop, length_map, map_eq_nil_iff]
  split
  · rfl
  · rw [map_append]
    rfl

theorem simpleGlobset_foldsPattern (text : Text) :
    simpleGlobset.build true (fold true text) = simpleGlobset.build true text := by
  have hany : (fold true text).any (fun c => c == '[' || c == '{' || c == '}') =
      text.any (fun c => c == '[' || c == '{' || c == '}') := by
    rw [fold, any_map]
    congr 1
    funext c
    have hchar (x : Char) (hx : x.val.toNat < 65 ∨ 122 < x.val.toNat ∨
        (90 < x.val.toNat ∧ x.val.toNat < 97)) : (foldChar true c == x) = (c == x) := by
      apply Bool.eq_iff_iff.mpr
      rw [beq_iff_eq, beq_iff_eq, foldChar_eq_iff hx]
    simp only [Function.comp_apply]
    rw [hchar '[' (by decide), hchar '{' (by decide), hchar '}' (by decide)]
  simp only [simpleGlobset, hany, splitSlash_fold, expandTrailing_fold]
  congr 2
  funext p
  apply RepeatPattern.accepts_map
  · intro b _
    exact isRecursive_fold b
  · intro b _ _ s _
    exact starMatch_fold_left b s

/-- The reference globs behave as documented. -/
theorem simpleGlobset_documented : simpleGlobset.Documented where
  foldsCase := simpleGlobset_foldsCase
  complete ci text m p hb _ hsep _ h := simpleGlobset_complete ci text m p hb hsep h
  literalBuilds ci text hmeta _ hbrace := by
    have hany : text.any (fun c => c == '[' || c == '{' || c == '}') = false := by
      rw [any_eq_false]
      intro c hc
      simp only [hasGlobMeta, any_eq_false, Bool.or_eq_true, beq_iff_eq, not_or] at hmeta
      have hm := hmeta c hc
      simp only [Bool.or_eq_true, beq_iff_eq, not_or]
      refine ⟨⟨hm.1.2, hm.2⟩, ?_⟩
      rintro rfl
      exact hbrace hc
    simp only [simpleGlobset, hany]
    rfl
  unopened ci text _ _ hbrace := by
    have hany : text.any (fun c => c == '[' || c == '{' || c == '}') = true := by
      rw [any_eq_true]
      exact ⟨'}', hbrace, by simp⟩
    simp only [simpleGlobset, hany]
    rfl
  literalExact ci text m p hb hmeta _ h := simpleGlobset_literalExact ci text m p hb hmeta h
  caseWidens text m _ hb := by
    have hm := simpleGlobset_build hb
    have hsome : (simpleGlobset.build true text).isSome = (simpleGlobset.build false text).isSome := by
      simp only [simpleGlobset]
      split <;> rfl
    rw [hb] at hsome
    obtain ⟨m', hb'⟩ := Option.isSome_iff_exists.mp hsome
    refine ⟨m', hb', fun p hp => ?_⟩
    rw [simpleGlobset_build hb']
    rw [hm] at hp
    exact RepeatPattern.accepts_mono _ _ (fun _ _ => starMatch_widens) hp
  foldsPattern text _ := simpleGlobset_foldsPattern text

end AgentMail.Pattern
