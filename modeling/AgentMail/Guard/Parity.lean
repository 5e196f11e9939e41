import AgentMail.Guard.Hook

/-!
# The hook against the guard

Which staged paths the installed hook flags and which the guard flags, from the same artifacts,
agent and instant (`crates/mcp-agent-mail-guard/src/lib.rs:1279–1679` and `2278–2658`).
Reservations and paths are free of glob metacharacters.
-/

namespace AgentMail.Guard

open Base Pattern List

section

variable (L : Lowercase) (g : Globset) (re : Hook.Re) (K : Clock) (ignorecase : Bool)
  (selfAgent : Text)

/-- The paths that the hook flags. -/
def hookFlagged (records : List Artifact) (paths : List Text) : List Text :=
  (Hook.checkConflicts L re ignorecase paths (records.filterMap (Hook.readReservation L K))
    selfAgent).map (·.1)

/-- The paths that the guard flags. -/
def guardFlagged (records : List Artifact) (paths : List Text) : List Text :=
  (checkPathConflicts L g ignorecase (records.filterMap (readReservation K)) selfAgent paths).map
    (·.path)

/-- No artifact holds a glob for either reader. -/
def PlainRecords (records : List Artifact) : Prop :=
  ∀ r ∈ records, (∀ res, Hook.readReservation L K r = some res → hasGlobMeta res.pathPattern = false) ∧
    ∀ res, readReservation K r = some res → hasGlobMeta res.pathPattern = false

/-- The artifact counts for the hook on a normalised path: it is live, its holder has another name
in lower case, its text is not the root, and it meets the path. A text with the sentinel of the
globstar is read as an expression. -/
def HookSees (path : Text) (r : Artifact) : Prop :=
  ∃ res, Hook.readReservation L K r = some res ∧
    L.toLowercase res.agentName ≠ L.toLowercase selfAgent ∧
    normalizePath L ignorecase res.pathPattern ≠ [] ∧
    (Meets (normalizePath L ignorecase res.pathPattern) path ∨
      ('\x00' ∈ normalizePath L ignorecase res.pathPattern ∧
        (re.compile (Hook.globToRegex (normalizePath L ignorecase res.pathPattern))).elim true
          (· path) = true))

/-- The artifact counts for the guard on a normalised path: it is live and exclusive, its holder has
another name up to ASCII case, its text has no unopened alternation, and it meets the path. -/
def GuardSees (path : Text) (r : Artifact) : Prop :=
  ∃ res, readReservation K r = some res ∧ res.exclusive = true ∧
    eqIgnoreAsciiCase res.agentName selfAgent = false ∧
    '}' ∉ normalizePath L ignorecase res.pathPattern ∧
    Meets (normalizePath L ignorecase res.pathPattern) path

/-- The two readers agree on the artifact: both drop it, or both keep it exclusive with the same
text and holder, take the holder for the agent itself alike, and the text is not the root and has
neither an unopened alternation nor the sentinel of the globstar. -/
def ReadsAlike (r : Artifact) : Prop :=
  match Hook.readReservation L K r, readReservation K r with
  | none, none => True
  | none, some res => res.exclusive = false
  | some _, none => False
  | some h, some res =>
    h.pathPattern = res.pathPattern ∧ h.agentName = res.agentName ∧ res.exclusive = true ∧
      (L.toLowercase res.agentName = L.toLowercase selfAgent ↔
        eqIgnoreAsciiCase res.agentName selfAgent = true) ∧
      normalizePath L ignorecase res.pathPattern ≠ [] ∧
      '}' ∉ normalizePath L ignorecase res.pathPattern ∧
      '\x00' ∉ normalizePath L ignorecase res.pathPattern

instance (r : Artifact) : Decidable (ReadsAlike L K ignorecase selfAgent r) := by
  unfold ReadsAlike
  split <;> infer_instance

end

variable {L : Lowercase} {g : Globset} {re : Hook.Re} {K : Clock} {ignorecase : Bool}
  {selfAgent : Text} {records : List Artifact} {paths : List Text}

/-! ### The hook -/

theorem isPrefixOf_slash {dir t : Text} :
    (dir ++ ['/']).isPrefixOf t = true ↔ ∃ tail, t = dir ++ '/' :: tail := by
  rw [List.isPrefixOf_iff_prefix]
  constructor
  · rintro ⟨tail, rfl⟩
    exact ⟨tail, by simp⟩
  · rintro ⟨tail, rfl⟩
    exact ⟨tail, by simp⟩

theorem isBelow_iff_isPrefixOf {dir t : Text} (hd : dir ≠ []) :
    isBelow dir t = true ↔ (dir ++ ['/']).isPrefixOf t = true := by
  rw [isBelow_iff, isPrefixOf_slash]
  exact or_iff_right hd

/-- The four tests of the hook on a plain text. -/
theorem Hook.conflicts_iff (hre : re.Escapes) {path : Text} {res : Hook.Compiled}
    (hplain : hasGlobMeta res.normalizedPattern = false) (hne : res.normalizedPattern ≠ [])
    (hpath : path ≠ []) (hm : res.matcher = re.compile (Hook.globToRegex res.normalizedPattern)) :
    Hook.conflicts path res = true ↔ Meets res.normalizedPattern path ∨
        ('\x00' ∈ res.normalizedPattern ∧ res.matcher.elim true (· path) = true) := by
  have hmatch : res.matcher.elim true (· path) = true → '\x00' ∉ res.normalizedPattern →
      res.normalizedPattern = path := by
    intro h hnul
    obtain ⟨m, hcompile, hliteral⟩ := hre res.normalizedPattern
    rw [hm, Hook.globToRegex_plain hplain hnul, hcompile] at h
    exact ((hliteral path).mp h).symm
  unfold Hook.conflicts Meets
  rw [isBelow_iff_isPrefixOf hne, isBelow_iff_isPrefixOf hpath]
  simp only [Bool.or_eq_true, Bool.and_eq_true, beq_iff_eq]
  constructor
  · rintro ((((h | h) | h) | h) | ⟨_, h⟩)
    · exact .inl (.inl h.symm)
    · exact .inl (.inr (.inl h))
    · by_cases hnul : '\x00' ∈ res.normalizedPattern
      · exact .inr ⟨hnul, h⟩
      · exact .inl (.inl (hmatch h hnul))
    · exact .inl (.inr (.inr h))
    · exact .inl (.inr (.inl h))
  · rintro ((h | h | h) | ⟨_, h⟩)
    · exact .inl (.inl (.inl (.inl h.symm)))
    · exact .inl (.inl (.inl (.inr h)))
    · exact .inl (.inr h)
    · exact .inl (.inl (.inr h))

/-- The hook flags the paths that are not exempt, not the root, and that it sees reserved. -/
theorem mem_hookFlagged (hre : re.Escapes) (hplain : PlainRecords L K records) {p : Text} :
    p ∈ hookFlagged L re K ignorecase selfAgent records paths ↔
      p ∈ paths ∧ isDefaultExemptPath L ignorecase p = false ∧ normalizePath L ignorecase p ≠ [] ∧
      ∃ r ∈ records, HookSees L re K ignorecase selfAgent (normalizePath L ignorecase p) r := by
  have hcompiled (path : Text) (hpath : path ≠ []) :
      ((Hook.compileReservations L re ignorecase (records.filterMap (Hook.readReservation L K))
        (L.toLowercase selfAgent)).find? (Hook.conflicts path)).isSome = true ↔
      ∃ r ∈ records, HookSees L re K ignorecase selfAgent path r := by
    rw [List.find?_isSome]
    simp only [Hook.compileReservations, mem_filterMap, Hook.normalizeMatchInput_eq]
    constructor
    · rintro ⟨c, ⟨res, ⟨r, hr, hread⟩, hc⟩, hconf⟩
      split at hc
      · cases hc
      · next hother =>
        split at hc
        · cases hc
        · next hne =>
          cases hc
          rw [beq_iff_eq] at hother
          rw [List.isEmpty_iff] at hne
          have hmeta : hasGlobMeta (normalizePath L ignorecase res.pathPattern) = false :=
            (L.hasGlobMeta_lower ignorecase _).trans
              (hasGlobMeta_resolveText ((hplain r hr).1 res hread))
          exact ⟨r, hr, res, hread, hother, hne, (Hook.conflicts_iff hre hmeta hne hpath rfl).mp hconf⟩
    · rintro ⟨r, hr, res, hread, hother, hne, hsees⟩
      have hmeta : hasGlobMeta (normalizePath L ignorecase res.pathPattern) = false :=
        (L.hasGlobMeta_lower ignorecase _).trans
          (hasGlobMeta_resolveText ((hplain r hr).1 res hread))
      let c : Hook.Compiled :=
        ⟨res.pathPattern, res.agentName, normalizePath L ignorecase res.pathPattern,
          re.compile (Hook.globToRegex (normalizePath L ignorecase res.pathPattern)),
          hasGlobMeta res.pathPattern⟩
      have hconf : Hook.conflicts path c = true :=
        (Hook.conflicts_iff hre hmeta hne hpath rfl).mpr hsees
      refine ⟨c, ⟨res, ⟨r, hr, hread⟩, ?_⟩, hconf⟩
      rw [if_neg (by rwa [beq_iff_eq]), if_neg (by rwa [List.isEmpty_iff])]
  simp only [hookFlagged, Hook.checkConflicts, mem_map, mem_filterMap,
    Hook.normalizeMatchInput_eq, Hook.isDefaultExemptPath_eq]
  constructor
  · rintro ⟨c, ⟨f, hf, hc⟩, rfl⟩
    split at hc
    · cases hc
    · next hexempt =>
      split at hc
      · cases hc
      · next hne =>
        rw [List.isEmpty_iff] at hne
        rw [Option.map_eq_some_iff] at hc
        obtain ⟨res, hfind, rfl⟩ := hc
        exact ⟨hf, Bool.not_eq_true _ ▸ hexempt, hne,
          (hcompiled _ hne).mp (Option.isSome_iff_exists.mpr ⟨res, hfind⟩)⟩
  · rintro ⟨hf, hexempt, hne, hsees⟩
    obtain ⟨res, hfind⟩ := Option.isSome_iff_exists.mp ((hcompiled _ hne).mpr hsees)
    refine ⟨(p, res.pattern, res.holder), ⟨p, hf, ?_⟩, rfl⟩
    rw [hexempt, if_neg Bool.false_ne_true, if_neg (by rwa [List.isEmpty_iff]), hfind]
    rfl

/-! ### The guard -/

/-- On lowered texts the glob library's equality is equality. -/
theorem normalizePath_eq_of_fold {a b : Text}
    (h : fold ignorecase (normalizePath L ignorecase a) =
      fold ignorecase (normalizePath L ignorecase b)) :
    normalizePath L ignorecase a = normalizePath L ignorecase b := by
  have hlower (t : Text) : L.lower ignorecase (fold ignorecase (normalizePath L ignorecase t)) =
      normalizePath L ignorecase t := by
    rw [L.lower_fold ignorecase id]
    exact L.lower_lower ignorecase _
  rw [← hlower a, h, hlower b]

/-- The guard flags the paths that are not exempt and that it sees reserved. -/
theorem mem_guardFlagged (hg : g.Documented) (hplain : PlainRecords L K records) {p : Text} :
    p ∈ guardFlagged L g K ignorecase selfAgent records paths ↔
      p ∈ paths ∧ isDefaultExemptPath L ignorecase p = false ∧
      ∃ r ∈ records, GuardSees L K ignorecase selfAgent (normalizePath L ignorecase p) r := by
  have hmem : p ∈ guardFlagged L g K ignorecase selfAgent records paths ↔ p ∈ paths ∧
      (conflictingReservation L g ignorecase (records.filterMap (readReservation K)) selfAgent
        p).isSome = true := by
    simp only [guardFlagged, checkPathConflicts, mem_map, mem_filterMap,
      Option.map_eq_some_iff, Option.isSome_iff_exists]
    constructor
    · rintro ⟨c, ⟨f, hf, res, hres, rfl⟩, rfl⟩
      exact ⟨hf, res, hres⟩
    · rintro ⟨hf, res, hres⟩
      exact ⟨_, ⟨p, hf, res, hres, rfl⟩, rfl⟩
  rw [hmem, conflictingReservation_isSome]
  have hmeta {r : Artifact} (hr : r ∈ records) {res : FileReservationRecord}
      (hread : readReservation K r = some res) :
      hasGlobMeta (res.normalizedPattern L ignorecase) = false :=
    (L.hasGlobMeta_lower ignorecase _).trans (hasGlobMeta_resolveText ((hplain r hr).2 res hread))
  apply and_congr_right
  intro _
  apply and_congr_right
  intro _
  constructor
  · rintro ⟨e, he, hsee⟩
    obtain ⟨hres, hexclusive, hother, hbuild⟩ := mem_activeIndices.mp he
    obtain ⟨r, hr, hread⟩ := mem_filterMap.mp hres
    refine ⟨r, hr, e.1, hread, hexclusive, hother, ?_, ?_⟩
    · intro hbrace
      have hnone := hg.unopened ignorecase _ (hmeta hr hread) (L.backslash_notMem_lower ignorecase _)
        hbrace
      rw [hnone] at hbuild
      cases hbuild
    · rcases hsee with hsee | hsee
      · left
        exact normalizePath_eq_of_fold (hg.literalExact ignorecase _ _ _ hbuild (hmeta hr hread)
          (L.backslash_notMem_lower ignorecase _) hsee)
      · exact touches_iff.mp hsee
  · rintro ⟨r, hr, res, hread, hexclusive, hother, hbrace, hmeets⟩
    have hbuild := hg.literalBuilds ignorecase _ (hmeta hr hread)
      (L.backslash_notMem_lower ignorecase _) hbrace
    obtain ⟨m, hm⟩ := Option.isSome_iff_exists.mp hbuild
    refine ⟨(res, m), mem_activeIndices.mpr ⟨?_, hexclusive, hother, hm⟩, .inr ?_⟩
    · exact mem_filterMap.mpr ⟨r, hr, hread⟩
    · exact touches_iff.mpr hmeets

/-! ### Agreement -/

/-- An artifact that both read alike counts for both or for neither. -/
theorem hookSees_iff_guardSees {r : Artifact} (h : ReadsAlike L K ignorecase selfAgent r)
    (path : Text) :
    HookSees L re K ignorecase selfAgent path r ↔ GuardSees L K ignorecase selfAgent path r := by
  unfold ReadsAlike at h
  unfold HookSees GuardSees
  cases hhook : Hook.readReservation L K r with
  | none =>
    cases hguard : readReservation K r with
    | none => simp
    | some res =>
      rw [hhook, hguard] at h
      have hexclusive : res.exclusive = false := h
      simp [hexclusive]
  | some hres =>
    cases hguard : readReservation K r with
    | none =>
      rw [hhook, hguard] at h
      exact h.elim
    | some res =>
      rw [hhook, hguard] at h
      obtain ⟨hpattern, hname, hexclusive, hself, hne, hbrace, hnul⟩ := h
      simp only [Option.some.injEq, exists_eq_left', hpattern, hname, hexclusive, true_and]
      rw [ne_eq, hself, Bool.not_eq_true]
      simp only [hne, hbrace, hnul, not_false_eq_true, true_and, false_and, or_false, ne_eq]

theorem escape_injective {a b : Text} (h : a.flatMap Hook.escape = b.flatMap Hook.escape) :
    a = b := by
  have hcases (c : Char) : Hook.escape c = ['\\', c] ∨ (Hook.escape c = [c] ∧ c ≠ '\\') := by
    unfold Hook.escape
    split
    · exact .inl rfl
    · next hc =>
      right
      refine ⟨rfl, ?_⟩
      rintro rfl
      exact hc (by decide)
  have hnil (c : Char) (t : Text) : Hook.escape c ++ t ≠ [] := by
    rcases hcases c with hc | ⟨hc, _⟩ <;> rw [hc] <;> exact cons_ne_nil _ _
  induction a generalizing b with
  | nil =>
    cases b with
    | nil => rfl
    | cons d b => exact absurd h.symm (hnil d _)
  | cons c a ih =>
    cases b with
    | nil => exact absurd h (hnil c _)
    | cons d b =>
      rw [flatMap_cons, flatMap_cons] at h
      rcases hcases c with hc | ⟨hc, hcb⟩ <;> rcases hcases d with hd | ⟨hd, hdb⟩ <;>
        rw [hc, hd] at h <;> simp only [cons_append, nil_append, List.cons.injEq] at h
      · rw [h.2.1, ih h.2.2]
      · exact absurd h.1.symm hdb
      · exact absurd h.1 hcb
      · rw [h.1, ih h.2]

/-- The expressions that are an escaped text, with the matching they have. -/
def literalRe : Hook.Re where
  compile expression := some fun s => s.flatMap Hook.escape == expression

theorem literalRe_escapes : literalRe.Escapes := by
  intro t
  refine ⟨_, rfl, fun s => ?_⟩
  rw [beq_iff_eq]
  exact ⟨escape_injective, fun h => by rw [h]⟩

/-- An instant at the epoch, with the date `2099-01-01T00:00:00Z`. -/
def epochClock : Clock where
  nowNanos := 0
  hookNow := 0
  pyStr _ := []
  pyIsDigit := Char.isDigit
  pyFloat _ := none
  pyFromIsoformat t :=
    if t = "2099-01-01T00:00:00+00:00".toList then some (4070908800 * 10 ^ 6) else none
  parseF64 _ := none
  parseI64 _ := none
  parseRfc3339 t := if t = "2099-01-01T00:00:00Z".toList then some (4070908800 * 10 ^ 9) else none
  parseNaiveFraction _ := none
  parseNaive _ := none
  toRfc3339 _ := none

/-- The artifact of an exclusive reservation of `BlueLake` until 2099. -/
def blueLakeArtifact (pattern : Text) : Artifact where
  pathPattern := .str pattern
  path := .null
  agentName := .str "BlueLake".toList
  agent := .null
  exclusive := .bool true
  expiresTs := .str "2099-01-01T00:00:00Z".toList
  releasedTs := .null

theorem readsAlike_src :
    ReadsAlike sigmaLowercase epochClock false "GreenHill".toList (blueLakeArtifact "src".toList) := by
  decide +kernel

theorem plainRecords_src :
    PlainRecords sigmaLowercase epochClock [blueLakeArtifact "src".toList] := by
  intro r hr
  rw [mem_singleton] at hr
  subst hr
  have hhook : Hook.readReservation sigmaLowercase epochClock (blueLakeArtifact "src".toList) =
      some ⟨"src".toList, "BlueLake".toList⟩ := by decide +kernel
  have hguard : (readReservation epochClock (blueLakeArtifact "src".toList)).map (·.pathPattern) =
      some "src".toList := by decide +kernel
  constructor
  · intro res hres
    rw [hhook] at hres
    cases hres
    rfl
  · intro res hres
    rw [hres, Option.map_some, Option.some.injEq] at hguard
    rw [hguard]
    rfl

end AgentMail.Guard
