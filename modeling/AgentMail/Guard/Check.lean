import AgentMail.Pattern.Routing

/-!
# The pre-commit guard

`crates/mcp-agent-mail-guard/src/lib.rs:2278–2455`: the guard reads reservations from the
archive and checks the paths of a commit against them, with a normalisation and a matching of
its own. The results compare it with the overlap test of the server. A set of globs is
matched glob by glob.
-/

namespace AgentMail.Guard

open Base Lib Pattern List

/-- `str::to_lowercase`, the Unicode mapping, with the properties of it that matter for paths.
It is applied to paths only when the repository sets `core.ignorecase`. -/
structure Lowercase where
  toLowercase : Text → Text
  /-- A slash is not cased, and separates the contexts of the mapping. -/
  append_slash : ∀ a b, toLowercase (a ++ '/' :: b) = toLowercase a ++ '/' :: toLowercase b
  idem : ∀ a, toLowercase (toLowercase a) = toLowercase a
  /-- ASCII letters are mapped like the other cased letters. -/
  ascii : ∀ a, toLowercase (fold true a) = toLowercase a
  /-- ASCII characters other than letters are neither created nor removed. -/
  punctuation : ∀ (c : Char) (a : Text), c.val.toNat < 128 → c.isAlpha = false →
    (c ∈ toLowercase a ↔ c ∈ a)
  eq_nil : ∀ a, toLowercase a = [] ↔ a = []

/-- The mapping on ASCII and on the capital sigma, whose lower case depends on whether a letter
follows. -/
def lowerSigma : Text → Text
  | [] => []
  | c :: t =>
    (if c = 'Σ' then if t.head?.any fun d => (foldChar true d).isLower then 'σ' else 'ς'
      else foldChar true c) :: lowerSigma t

theorem foldChar_sigma (c : Char) : foldChar true c = 'Σ' ↔ c = 'Σ' :=
  foldChar_eq_iff (.inr (.inl (by decide))) true c

theorem lowerSigma_append_slash (a b : Text) :
    lowerSigma (a ++ '/' :: b) = lowerSigma a ++ '/' :: lowerSigma b := by
  induction a with
  | nil => rfl
  | cons c a ih =>
    have hhead : (a ++ '/' :: b).head?.any (fun d => (foldChar true d).isLower) =
        a.head?.any (fun d => (foldChar true d).isLower) := by
      cases a <;> rfl
    simp only [cons_append, lowerSigma, hhead, ih]

theorem lowerSigma_idem (a : Text) : lowerSigma (lowerSigma a) = lowerSigma a := by
  induction a with
  | nil => rfl
  | cons c a ih =>
    have hfixed (x : Char) (t : Text) (hx : x ≠ 'Σ') (hf : foldChar true x = x) :
        lowerSigma (x :: t) = x :: lowerSigma t := by
      simp only [lowerSigma, if_neg hx, hf]
    rw [lowerSigma]
    split
    · split
      · rw [hfixed 'σ' _ (by decide) rfl, ih]
      · rw [hfixed 'ς' _ (by decide) rfl, ih]
    · next hc => rw [hfixed _ _ (mt (foldChar_sigma c).mp hc) (foldChar_idem true c), ih]

theorem lowerSigma_fold (a : Text) : lowerSigma (fold true a) = lowerSigma a := by
  induction a with
  | nil => rfl
  | cons c a ih =>
    have hhead : (fold true a).head?.any (fun d => (foldChar true d).isLower) =
        a.head?.any (fun d => (foldChar true d).isLower) := by
      cases a with
      | nil => rfl
      | cons d a => rw [fold_cons, List.head?_cons, List.head?_cons, Option.any_some,
          Option.any_some, foldChar_idem]
    simp only [fold_cons, lowerSigma, foldChar_sigma, foldChar_idem, hhead, ih]

theorem mem_lowerSigma {c : Char} (hc : c.val.toNat < 128) (ha : c.isAlpha = false)
    (a : Text) : c ∈ lowerSigma a ↔ c ∈ a := by
  have hletter : c.val.toNat < 65 ∨ 122 < c.val.toNat ∨ (90 < c.val.toNat ∧ c.val.toNat < 97) := by
    replace ha : (decide (c.val ≥ 'A'.val ∧ c.val ≤ 'Z'.val) ||
        (decide (c.val ≥ 'a'.val) && decide (c.val ≤ 'z'.val))) = false := ha
    simp only [Bool.or_eq_false_iff, Bool.and_eq_false_iff, decide_eq_false_iff_not, not_and_or,
      ge_iff_le, UInt32.le_iff_toNat_le] at ha
    have hA : 'A'.val.toNat = 65 := rfl
    have hZ : 'Z'.val.toNat = 90 := rfl
    have ha' : 'a'.val.toNat = 97 := rfl
    have hz : 'z'.val.toNat = 122 := rfl
    omega
  have hne (x : Char) (hx : 128 ≤ x.val.toNat) : c ≠ x := by
    rintro rfl
    omega
  induction a with
  | nil => rfl
  | cons d a ih =>
    simp only [lowerSigma, mem_cons, ih]
    split
    · next hd =>
      have hsmall := hne 'σ' (by decide)
      have hfinal := hne 'ς' (by decide)
      have hcapital := hne 'Σ' (by decide)
      rw [hd]
      split
      · simp only [hsmall, hcapital]
      · simp only [hfinal, hcapital]
    · rw [eq_comm, foldChar_eq_iff hletter, eq_comm]

/-- A lowering that agrees with `str::to_lowercase` on ASCII text and on words with a sigma. -/
def sigmaLowercase : Lowercase where
  toLowercase := lowerSigma
  append_slash := lowerSigma_append_slash
  idem := lowerSigma_idem
  ascii := lowerSigma_fold
  punctuation _ a hc ha := mem_lowerSigma hc ha a
  eq_nil a := by cases a <;> simp [lowerSigma]

/-- `if ignorecase { t.to_lowercase() } else { t }`. -/
def Lowercase.lower (L : Lowercase) (ignorecase : Bool) (t : Text) : Text :=
  if ignorecase then L.toLowercase t else t

/-- `normalize_path`. -/
def normalizePath (L : Lowercase) (ignorecase : Bool) (path : Text) : Text :=
  L.lower ignorecase (resolveText path)

/-- `FileReservationRecord`, as `read_active_reservations_from_archive` builds it: the pattern is
trimmed and `normalized_pattern` is `normalize_path` of it. -/
structure FileReservationRecord where
  pathPattern : Text
  agentName : Text
  exclusive : Bool
  expiresTs : Text
  trimmed : trim pathPattern = pathPattern

def FileReservationRecord.normalizedPattern (L : Lowercase) (ignorecase : Bool)
    (r : FileReservationRecord) : Text := normalizePath L ignorecase r.pathPattern

/-- `GuardConflict`. -/
structure GuardConflict where
  path : Text
  pattern : Text
  holder : Text
  expiresTs : Text
  deriving DecidableEq

/-- `DEFAULT_EXEMPT_PATH_PREFIXES`. -/
def defaultExemptPathPrefixes : List Text := [".beads".toList]

/-- `is_default_exempt_path`. -/
def isDefaultExemptPath (L : Lowercase) (ignorecase : Bool) (path : Text) : Bool :=
  let normalized := normalizePath L ignorecase path
  defaultExemptPathPrefixes.any fun exempt =>
    normalized == exempt || (exempt ++ ['/']).isPrefixOf normalized

/-- `t.starts_with(dir) && (dir.is_empty() || t[dir.len()] == '/')`. -/
def isBelow (dir t : Text) : Bool :=
  dir.isPrefixOf t && (dir.isEmpty || t[dir.length]? == some '/')

/-- The two literal comparisons of a path with a reserved text. -/
def touches (L : Lowercase) (ignorecase : Bool) (normalized : Text) (res : FileReservationRecord) :
    Bool :=
  let resPattern := L.lower ignorecase (res.normalizedPattern L ignorecase)
  isBelow normalized resPattern || (normalized == resPattern || isBelow resPattern normalized)

section

variable (L : Lowercase) (g : Globset) (ignorecase : Bool) (reservations : List FileReservationRecord)
  (selfAgent : Text)

/-- The exclusive reservations of other agents whose text builds as a glob, with its matcher. -/
def activeIndices : List (FileReservationRecord × (Text → Bool)) :=
  reservations.filterMap fun res =>
    if res.exclusive && !eqIgnoreAsciiCase res.agentName selfAgent then
      (g.build ignorecase (res.normalizedPattern L ignorecase)).map fun glob => (res, glob)
    else none

/-- The reservation reported for a path: the first glob match, or the first literal one. -/
def conflictingReservation (path : Text) : Option FileReservationRecord :=
  if isDefaultExemptPath L ignorecase path then none
  else
    let normalized := normalizePath L ignorecase path
    let active := activeIndices L g ignorecase reservations selfAgent
    match active.find? fun e => e.2 normalized with
    | some e => some e.1
    | none => (active.find? fun e => touches L ignorecase normalized e.1).map (·.1)

/-- `check_path_conflicts`. -/
def checkPathConflicts (paths : List Text) : List GuardConflict :=
  paths.filterMap fun path =>
    (conflictingReservation L g ignorecase reservations selfAgent path).map fun res =>
      { path := path, pattern := res.pathPattern, holder := res.agentName,
        expiresTs := res.expiresTs }

end

/-- The result of `invalid_file_reservation_pattern`, with the two texts it can return
(`crates/mcp-agent-mail-tools/src/reservations.rs:190–201`). -/
def invalidFileReservationPattern (P : Platform) (pattern : Text) : Option String :=
  if ".".toList ++ ".".toList <:+: pattern then
    some "Pattern contains parent directory traversal ('..'). Use simple project-relative paths."
  else
    let compiled := CompiledPattern.new P pattern
    if compiled.isGlob && !compiled.isMatchable then
      some ("Pattern '" ++ String.ofList pattern ++ "' is not a valid glob pattern. Check for " ++
        "unescaped special characters or mismatched brackets.")
    else none

/-! ### Lowering -/

namespace Lowercase

variable (L : Lowercase) (ignorecase : Bool)

theorem lower_append_slash (a b : Text) :
    L.lower ignorecase (a ++ '/' :: b) = L.lower ignorecase a ++ '/' :: L.lower ignorecase b := by
  cases ignorecase with
  | false => rfl
  | true => exact L.append_slash a b

@[simp] theorem lower_lower (t : Text) :
    L.lower ignorecase (L.lower ignorecase t) = L.lower ignorecase t := by
  cases ignorecase with
  | false => rfl
  | true => exact L.idem t

/-- Lowering forgets what the server's folding forgets, if it is on wherever folding is. -/
theorem lower_fold {ci : Bool} (h : ci = true → ignorecase = true) (t : Text) :
    L.lower ignorecase (fold ci t) = L.lower ignorecase t := by
  cases ci with
  | false => rw [fold_false]
  | true =>
    rw [h rfl]
    exact L.ascii t

@[simp] theorem lower_eq_nil (t : Text) : L.lower ignorecase t = [] ↔ t = [] := by
  cases ignorecase with
  | false => rfl
  | true => exact L.eq_nil t

theorem mem_lower {c : Char} (hc : c.val.toNat < 128) (ha : c.isAlpha = false) (t : Text) :
    c ∈ L.lower ignorecase t ↔ c ∈ t := by
  cases ignorecase with
  | false => rfl
  | true => exact L.punctuation c t hc ha

@[simp] theorem hasGlobMeta_lower (t : Text) :
    hasGlobMeta (L.lower ignorecase t) = hasGlobMeta t := by
  apply Bool.eq_iff_iff.mpr
  rw [hasGlobMeta_iff, hasGlobMeta_iff, L.mem_lower ignorecase (by decide) (by decide),
    L.mem_lower ignorecase (by decide) (by decide), L.mem_lower ignorecase (by decide) (by decide),
    L.mem_lower ignorecase (by decide) (by decide)]

theorem backslash_notMem_lower (t : Text) : '\\' ∉ L.lower ignorecase (resolveText t) := by
  rw [L.mem_lower ignorecase (by decide) (by decide)]
  exact backslash_notMem_resolveText t

end Lowercase

/-- The boundary test of the two prefix comparisons. -/
theorem isBelow_iff {dir t : Text} :
    isBelow dir t = true ↔ dir = [] ∨ ∃ tail, t = dir ++ '/' :: tail := by
  unfold isBelow
  rw [Bool.and_eq_true, List.isPrefixOf_iff_prefix, Bool.or_eq_true, List.isEmpty_iff, beq_iff_eq]
  constructor
  · rintro ⟨⟨rest, rfl⟩, hd | hd⟩
    · exact .inl hd
    · rw [List.getElem?_append_right (Nat.le_refl _), Nat.sub_self] at hd
      cases rest with
      | nil => cases hd
      | cons c rest =>
        have hc : c = '/' := by simpa using hd
        exact .inr ⟨rest, by rw [hc]⟩
  · rintro (rfl | ⟨tail, rfl⟩)
    · exact ⟨List.nil_prefix, .inl rfl⟩
    · refine ⟨prefix_append _ _, .inr ?_⟩
      rw [List.getElem?_append_right (Nat.le_refl _), Nat.sub_self]
      rfl

/-- Two texts meet as paths: they are equal or one is a directory above the other. -/
def Meets (a b : Text) : Prop := a = b ∨ isBelow a b = true ∨ isBelow b a = true

theorem touches_iff {L : Lowercase} {ignorecase : Bool} {normalized : Text}
    {res : FileReservationRecord} :
    touches L ignorecase normalized res = true ↔
      Meets (res.normalizedPattern L ignorecase) normalized := by
  unfold touches FileReservationRecord.normalizedPattern normalizePath Meets
  dsimp only
  rw [L.lower_lower, Bool.or_eq_true, Bool.or_eq_true, beq_iff_eq, eq_comm]
  tauto

/-! ### What the guard reports -/

section

variable {L : Lowercase} {g : Globset} {ignorecase : Bool}
  {reservations : List FileReservationRecord} {selfAgent : Text}

theorem mem_activeIndices {e : FileReservationRecord × (Text → Bool)} :
    e ∈ activeIndices L g ignorecase reservations selfAgent ↔
      e.1 ∈ reservations ∧ e.1.exclusive = true ∧ eqIgnoreAsciiCase e.1.agentName selfAgent = false ∧
        g.build ignorecase (e.1.normalizedPattern L ignorecase) = some e.2 := by
  obtain ⟨res, m⟩ := e
  simp only [activeIndices, mem_filterMap]
  constructor
  · rintro ⟨r, hr, h⟩
    split at h
    · next hc =>
      rw [Bool.and_eq_true, Bool.not_eq_true'] at hc
      rw [Option.map_eq_some_iff] at h
      obtain ⟨m', hb, he⟩ := h
      cases he
      exact ⟨hr, hc.1, hc.2, hb⟩
    · cases h
  · rintro ⟨hr, hex, hother, hb⟩
    refine ⟨res, hr, ?_⟩
    rw [hex, hother, if_pos (by rfl), hb]
    rfl

/-- A path is reported when some active reservation matches it or touches it. -/
theorem conflictingReservation_isSome {path : Text} :
    (conflictingReservation L g ignorecase reservations selfAgent path).isSome = true ↔
      isDefaultExemptPath L ignorecase path = false ∧
      ∃ e ∈ activeIndices L g ignorecase reservations selfAgent,
        e.2 (normalizePath L ignorecase path) = true ∨
          touches L ignorecase (normalizePath L ignorecase path) e.1 = true := by
  unfold conflictingReservation
  cases hexempt : isDefaultExemptPath L ignorecase path with
  | true => simp
  | false =>
    dsimp only
    rw [if_neg Bool.false_ne_true]
    split
    · next e he =>
      have hm := List.find?_some he
      exact iff_of_true rfl ⟨rfl, e, mem_of_find?_eq_some he, .inl hm⟩
    · next hnone =>
      rw [Option.isSome_map, List.find?_isSome]
      rw [List.find?_eq_none] at hnone
      constructor
      · rintro ⟨e, he, ht⟩
        exact ⟨rfl, e, he, .inr ht⟩
      · rintro ⟨_, e, he, hm | ht⟩
        · exact absurd hm (hnone e he)
        · exact ⟨e, he, ht⟩

/-- The reservation that is reported matches the path or touches it. -/
theorem conflictingReservation_some {path : Text} {res : FileReservationRecord}
    (h : conflictingReservation L g ignorecase reservations selfAgent path = some res) :
    ∃ m, (res, m) ∈ activeIndices L g ignorecase reservations selfAgent ∧
      (m (normalizePath L ignorecase path) = true ∨
        touches L ignorecase (normalizePath L ignorecase path) res = true) := by
  unfold conflictingReservation at h
  split at h
  · cases h
  · dsimp only at h
    split at h
    · next e he =>
      cases h
      have hm := List.find?_some he
      exact ⟨e.2, mem_of_find?_eq_some he, .inl hm⟩
    · rw [Option.map_eq_some_iff] at h
      obtain ⟨e, he, rfl⟩ := h
      have ht := List.find?_some he
      exact ⟨e.2, mem_of_find?_eq_some he, .inr ht⟩

end

end AgentMail.Guard
