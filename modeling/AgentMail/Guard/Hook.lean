import AgentMail.Guard.Archive

/-!
# The installed hook

The Python hook that the guard installs checks the staged paths itself:
`crates/mcp-agent-mail-guard/src/lib.rs:1482–1679`. It builds a regular expression from each
reserved text. The results compare the paths it flags with those of the guard, for
reservations and paths without glob metacharacters.
-/

namespace AgentMail.Guard

open Base Pattern List

namespace Hook

/-! ### Globs as regular expressions -/

/-- `str.replace`: the leftmost occurrences, without overlap. `skip` counts the characters of
the current occurrence that are still to be passed over. -/
def replaceFrom (old new : Text) (skip : Nat) : Text → Text
  | [] => []
  | c :: t =>
    if 0 < skip then replaceFrom old new (skip - 1) t
    else if old.isPrefixOf (c :: t) then new ++ replaceFrom old new (old.length - 1) t
    else c :: replaceFrom old new 0 t

def replace (t old new : Text) : Text := replaceFrom old new 0 t

/-- `re.escape` on one character. -/
def escape (c : Char) : Text :=
  if c ∈ "()[]\x7b\x7d?*+-|^$\\.&~# \t\n\r\x0b\x0c".toList then ['\\', c] else [c]

/-- The class that starts after a `[`: its inner text and what follows its `]`, or `none` if it
is not terminated. -/
def readClass (t : Text) : Option (Text × Text) :=
  let negation := t.take (if t.head?.any fun c => c == '!' || c == '^' then 1 else 0)
  let t := t.drop negation.length
  let bracket := t.take (if t.head? == some ']' then 1 else 0)
  let t := t.drop bracket.length
  match t.dropWhile (· != ']') with
  | [] => none
  | _ :: rest => some (negation ++ bracket ++ t.takeWhile (· != ']'), rest)

/-- `"^" + inner[1:]` for a leading `!`, then backslashes doubled. -/
def classBody (inner : Text) : Text :=
  let inner := match inner with
    | '!' :: rest => '^' :: rest
    | _ => inner
  inner.flatMap fun c => if c = '\\' then ['\\', '\\'] else [c]

/-- The loop of `_glob_translate_body`, with one turn at most for each character. -/
def translateFrom : Nat → Text → Text
  | 0, _ => []
  | _, [] => []
  | fuel + 1, c :: t =>
    if c = '*' then
      let run := t.takeWhile (· == '*')
      (if run.isEmpty then ".*".toList else ['\x00']) ++ translateFrom fuel (t.drop run.length)
    else if c = '?' then '.' :: translateFrom fuel t
    else if c = '[' then
      match readClass t with
      | none => "\\[".toList ++ translateFrom fuel t
      | some (inner, rest) => '[' :: classBody inner ++ ']' :: translateFrom fuel rest
    else if c = '{' ∨ c = '}' then '\\' :: c :: translateFrom fuel t
    else if c = ',' then ',' :: translateFrom fuel t
    else escape c ++ translateFrom fuel t

/-- `_glob_translate_body`. -/
def globTranslateBody (pattern : Text) : Text := translateFrom pattern.length pattern

/-- What follows `\\?\}` at the start of the text, if it matches. -/
def closing : Text → Option Text
  | '\\' :: '}' :: rest => some rest
  | '}' :: rest => some rest
  | _ => none

/-- `(.+?)\\?\}`: the shortest group and what follows it. -/
def lazyGroup : Text → Option (Text × Text)
  | [] => none
  | c :: t =>
    if c = '\n' then none
    else
      match closing t with
      | some rest => some ([c], rest)
      | none => (lazyGroup t).map fun r => (c :: r.1, r.2)

/-- The group as an alternation. -/
def alternation (group : Text) : Text :=
  '(' :: replace group [','] ['|'] ++ [')']

/-- `re.sub` of `\\?\{(.+?)\\?\}`. -/
def expandBraces : Nat → Text → Text
  | 0, _ => []
  | _, [] => []
  | fuel + 1, '\\' :: '{' :: t =>
    match lazyGroup t with
    | some (group, rest) => alternation group ++ expandBraces fuel rest
    | none => '\\' :: expandBraces fuel ('{' :: t)
  | fuel + 1, '{' :: t =>
    match lazyGroup t with
    | some (group, rest) => alternation group ++ expandBraces fuel rest
    | none => '{' :: expandBraces fuel t
  | fuel + 1, c :: t => c :: expandBraces fuel t

/-- `glob_to_regex`. -/
def globToRegex (pattern : Text) : Text :=
  let regex := globTranslateBody pattern
  let regex := replace regex ".*".toList "[^/]*".toList
  let regex := replace regex ['/', '\x00', '/'] "(?:/|/.+/)".toList
  let regex :=
    if ['\x00', '/'].isPrefixOf regex then "(?:.+/|)".toList ++ regex.drop 2 else regex
  let regex := replace regex ['\x00'] ".*".toList
  expandBraces regex.length regex

/-! ### The check -/

/-- Python's `re`: `compile` gives the `fullmatch` test of an expression, or an error. -/
structure Re where
  compile : Text → Option (Text → Bool)

/-- `re.escape` makes an expression that matches the text itself and nothing else. -/
def Re.Escapes (re : Re) : Prop :=
  ∀ t, ∃ m, re.compile (t.flatMap escape) = some m ∧ ∀ s, m s = true ↔ s = t

/-- `normalize_match_input`. -/
def normalizeMatchInput (L : Lowercase) (ignorecase : Bool) (value : Text) : Text :=
  let slashed := value.map fun c => if c = '\\' then '/' else c
  let val := (slashed.dropWhile (· == '/')).rdropWhile (· == '/')
  let val := joinSlash ((val.splitOn '/').foldl pushComponent [])
  L.lower ignorecase val

/-- `is_default_exempt_path`. -/
def isDefaultExemptPath (L : Lowercase) (ignorecase : Bool) (path : Text) : Bool :=
  let normalized := normalizeMatchInput L ignorecase path
  normalized == ".beads".toList || ".beads/".toList.isPrefixOf normalized

/-- One tuple of `compile_reservations`. -/
structure Compiled where
  pattern : Text
  holder : Text
  normalizedPattern : Text
  matcher : Option (Text → Bool)
  hasGlob : Bool

section

variable (L : Lowercase) (re : Re) (ignorecase : Bool)

/-- `compile_reservations`; `selfAgent` is in lower case already. -/
def compileReservations (reservations : List Reservation) (selfAgent : Text) : List Compiled :=
  reservations.filterMap fun res =>
    if L.toLowercase res.agentName == selfAgent then none
    else
      let normalizedPattern := normalizeMatchInput L ignorecase res.pathPattern
      if normalizedPattern.isEmpty then none
      else some {
        pattern := res.pathPattern
        holder := res.agentName
        normalizedPattern := normalizedPattern
        matcher := re.compile (globToRegex normalizedPattern)
        hasGlob := hasGlobMeta res.pathPattern }

/-- The four tests of `check_conflicts` on one path and one reservation. -/
def conflicts (normalizedF : Text) (res : Compiled) : Bool :=
  (normalizedF == res.normalizedPattern || (res.normalizedPattern ++ ['/']).isPrefixOf normalizedF) ||
    res.matcher.elim true (· normalizedF) ||
    (normalizedF ++ ['/']).isPrefixOf res.normalizedPattern ||
    (!res.hasGlob && (res.normalizedPattern ++ ['/']).isPrefixOf normalizedF)

/-- `check_conflicts`: path, pattern and holder of each conflict. -/
def checkConflicts (paths : List Text) (reservations : List Reservation) (selfAgent : Text) :
    List (Text × Text × Text) :=
  let compiled := compileReservations L re ignorecase reservations (L.toLowercase selfAgent)
  paths.filterMap fun f =>
    if isDefaultExemptPath L ignorecase f then none
    else
      let normalizedF := normalizeMatchInput L ignorecase f
      if normalizedF.isEmpty then none
      else (compiled.find? (conflicts normalizedF)).map fun res => (f, res.pattern, res.holder)

end

/-! ### Normalisation agrees -/

theorem foldl_splitOn_dropWhile (t : Text) (parts : List Text) :
    ((t.dropWhile (· == '/')).splitOn '/').foldl pushComponent parts =
      (t.splitOn '/').foldl pushComponent parts := by
  induction t with
  | nil => rfl
  | cons c t ih =>
    by_cases hc : c = '/'
    · subst hc
      have hsplit : ('/' :: t).splitOn '/' = [] :: t.splitOn '/' := splitSlash_append_slash [] t
      rw [dropWhile_cons_of_pos (by rfl), ih, hsplit, foldl_cons]
      rfl
    · rw [dropWhile_cons_of_neg (by simpa using hc)]

theorem foldl_splitOn_rdropWhile (t : Text) (parts : List Text) :
    ((t.rdropWhile (· == '/')).splitOn '/').foldl pushComponent parts =
      (t.splitOn '/').foldl pushComponent parts := by
  induction t using reverseRecOn with
  | nil => rfl
  | append_singleton t c ih =>
    by_cases hc : c = '/'
    · subst hc
      have hsplit : (t ++ ['/']).splitOn '/' = t.splitOn '/' ++ [[]] := splitSlash_append_slash t []
      rw [rdropWhile_concat_pos _ _ _ (by rfl), ih, hsplit, foldl_append]
      rfl
    · rw [rdropWhile_concat_neg _ _ _ (by simpa using hc)]

/-- Replacing backslashes first or cutting at both slashes is the same. -/
theorem splitOn_map_backslash (t : Text) :
    (t.map fun c => if c = '\\' then '/' else c).splitOn '/' =
      t.splitOnP fun c => c == '/' || c == '\\' := by
  induction t with
  | nil => rfl
  | cons c t ih =>
    rw [map_cons, splitOn_cons_eq_if_modifyHead, splitOnP_cons_eq_if_modifyHead, ih]
    by_cases hb : c = '\\'
    · subst hb
      rfl
    · rw [if_neg hb]
      simp [hb]

theorem normalizeMatchInput_eq (L : Lowercase) (ignorecase : Bool) (value : Text) :
    normalizeMatchInput L ignorecase value = normalizePath L ignorecase value := by
  unfold normalizeMatchInput normalizePath resolveText resolveComponents
  dsimp only
  rw [foldl_splitOn_rdropWhile, foldl_splitOn_dropWhile, splitOn_map_backslash]

theorem isDefaultExemptPath_eq (L : Lowercase) (ignorecase : Bool) (path : Text) :
    isDefaultExemptPath L ignorecase path = Guard.isDefaultExemptPath L ignorecase path := by
  unfold isDefaultExemptPath Guard.isDefaultExemptPath defaultExemptPathPrefixes
  rw [normalizeMatchInput_eq]
  simp only [any_cons, any_nil, Bool.or_false]
  rfl

/-! ### The expression of a plain text -/

/-- A replacement does nothing where a character of the old text does not occur. -/
theorem replace_of_notMem {t old new : Text} {x : Char} (hx : x ∈ old) (ht : x ∉ t) :
    replace t old new = t := by
  unfold replace
  induction t with
  | nil => rfl
  | cons c t ih =>
    have hstarts : old.isPrefixOf (c :: t) = false := by
      rw [← Bool.not_eq_true, List.isPrefixOf_iff_prefix]
      exact fun h => ht (h.subset hx)
    rw [replaceFrom, if_neg (Nat.lt_irrefl 0), hstarts, if_neg Bool.false_ne_true,
      ih (fun h => ht (mem_cons_of_mem c h))]

theorem expandBraces_of_notMem {t : Text} (h : '{' ∉ t) : expandBraces t.length t = t := by
  induction t with
  | nil => rfl
  | cons c t ih =>
    rw [mem_cons, not_or] at h
    rw [length_cons, expandBraces, ih h.2]
    · rintro rest rfl rfl
      exact h.2 (mem_cons_self ..)
    · rintro rfl
      exact h.1 rfl

theorem mem_escape {t : Text} {c : Char} (h : c ∈ t.flatMap escape) : c = '\\' ∨ c ∈ t := by
  rw [mem_flatMap] at h
  obtain ⟨d, hd, hc⟩ := h
  unfold escape at hc
  split at hc
  · simp only [mem_cons, not_mem_nil, or_false] at hc
    rcases hc with hc | rfl
    · exact .inl hc
    · exact .inr hd
  · rw [mem_singleton] at hc
    exact .inr (hc ▸ hd)

theorem globTranslateBody_plain {t : Text} (h : hasGlobMeta t = false) :
    globTranslateBody t = t.flatMap escape := by
  unfold globTranslateBody
  induction t with
  | nil => rfl
  | cons c t ih =>
    simp only [hasGlobMeta, any_cons, Bool.or_eq_false_iff, beq_eq_false_iff_ne] at h
    obtain ⟨⟨⟨⟨hstar, hquery⟩, hclass⟩, hbrace⟩, ht⟩ := h
    rw [length_cons, translateFrom, if_neg hstar, if_neg hquery, if_neg hclass, ih ht, flatMap_cons]
    by_cases hclose : c = '}'
    · rw [if_pos (.inr hclose), hclose]
      rfl
    · rw [if_neg (by rintro (h | h) <;> contradiction)]
      by_cases hcomma : c = ','
      · rw [if_pos hcomma, hcomma]
        rfl
      · rw [if_neg hcomma]

/-- Without metacharacters and without the sentinel, the expression is the escaped text. -/
theorem globToRegex_plain {t : Text} (h : hasGlobMeta t = false) (hnul : '\x00' ∉ t) :
    globToRegex t = t.flatMap escape := by
  have hfree {c : Char} (hc : c ∉ t) (hs : c ≠ '\\') : c ∉ t.flatMap escape :=
    fun hm => (mem_escape hm).elim hs hc
  have hnone : '*' ∉ t ∧ '{' ∉ t := by
    rw [← Bool.not_eq_true, hasGlobMeta_iff] at h
    exact ⟨fun hc => h (.inl hc), fun hc => h (.inr (.inr (.inr hc)))⟩
  have hnul' := hfree hnul (by decide)
  unfold globToRegex
  dsimp only
  rw [globTranslateBody_plain h,
    replace_of_notMem (x := '*') (by decide) (hfree hnone.1 (by decide)),
    replace_of_notMem (x := '\x00') (by decide) hnul']
  have hhead : ['\x00', '/'].isPrefixOf (t.flatMap escape) = false := by
    rw [← Bool.not_eq_true, List.isPrefixOf_iff_prefix]
    exact fun hp => hnul' (hp.subset (mem_cons_self ..))
  rw [hhead, if_neg Bool.false_ne_true, replace_of_notMem (x := '\x00') (by decide) hnul',
    expandBraces_of_notMem (hfree hnone.2 (by decide))]

end Hook

end AgentMail.Guard
