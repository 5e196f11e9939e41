import AgentMail.Search.SearchPlanner

/-!
# Whether the text of a query filters

The plan of a message search asks `extract_like_terms` whether the text has a term, and takes its
conditions from `like_conditions`, which reads prefixes, dashes and operators. Where the first finds
a term and the second finds no word to search for, the text filters nothing.
-/

namespace AgentMail.Search

open Base Lib Lib.Placeholders List

/-! ### Words -/

/-- A token that `extract_like_terms` keeps. -/
def IsTerm (token : Text) : Prop :=
  2 ≤ token.length ∧ stopwords.any (eqIgnoreAsciiCase · token) = false

instance (token : Text) : Decidable (IsTerm token) := inferInstanceAs (Decidable (_ ∧ _))

/-- The words that are no conditions. -/
def operators : List Text :=
  ["NOT".toList, "AND".toList, "OR".toList, "NEAR".toList, "&&".toList, "||".toList]

/-- What is searched for, without the prefix of a column. -/
def valueOf (raw : Text) : Text := (fieldOf .subjectAndBody raw).2

/-- A word is searched for when it is no operator and, without its column, a quoted phrase of two
characters or a word with a term. -/
def Searchable (raw : Text) : Prop :=
  raw ∉ operators ∧ if ['"'].isPrefixOf (valueOf raw) then
      2 ≤ ([' '].intercalate (splitWhitespace (trimChar '"' (valueOf raw)))).length
    else ∃ token ∈ ((valueOf raw).rdropWhile (· == '*')).splitOnP cutsTerm, IsTerm token

instance (raw : Text) : Decidable (Searchable raw) := by
  unfold Searchable
  infer_instance

/-- The parts of a condition that `AND` joins. -/
def conjuncts : Cond PlanTest → List (Cond PlanTest)
  | .and l r => conjuncts l ++ conjuncts r
  | c => [c]

/-- The condition of a word in the statement. -/
def LikeCondition.pushed (c : LikeCondition) : Pushed PlanTest.arity PlanParam :=
  if c.negated then (likeAny c.columns.columns c.needle).not else likeAny c.columns.columns c.needle

/-- The plan returns nothing, or a condition on the text is part of its `WHERE`. -/
def FiltersText (q : SearchQuery) (plan : SearchPlan) : Prop :=
  plan.method = .empty ∨ ∃ c ∈ likeConditions q.text q.textFields.columns 5,
    ∃ statement, plan.sql = some statement ∧
      ∃ clause ∈ statement.whereClauses, c.pushed.clause ∈ conjuncts clause

/-! ### Terms -/

theorem likeTermsLoop_ne_nil_of (maxTerms : Nat) (tokens : List Text) {terms : List Text}
    (h : terms ≠ []) : likeTermsLoop maxTerms tokens terms ≠ [] := by
  induction tokens generalizing terms with
  | nil => exact h
  | cons token rest ih =>
    have hmore : (if terms.any (eqIgnoreAsciiCase · token) then terms else terms ++ [token]) ≠ [] := by
      split
      · exact h
      · simp
    rw [likeTermsLoop]
    split
    · exact ih h
    · dsimp only
      generalize (if terms.any (eqIgnoreAsciiCase · token) then terms else terms ++ [token]) = more
        at hmore ⊢
      split
      · exact hmore
      · exact ih hmore

variable {maxTerms : Nat}

theorem likeTermsLoop_ne_nil_iff {tokens : List Text} :
    likeTermsLoop maxTerms tokens [] ≠ [] ↔ ∃ token ∈ tokens, IsTerm token := by
  induction tokens with
  | nil => simp [likeTermsLoop]
  | cons token rest ih =>
    rw [likeTermsLoop, exists_mem_cons_iff, ← ih]
    split
    · next hdropped =>
      have hnot : ¬ IsTerm token := by
        rw [IsTerm]
        simp only [Bool.or_eq_true, decide_eq_true_eq] at hdropped
        intro hterm
        rcases hdropped with hshort | hstop
        · omega
        · rw [hterm.2] at hstop
          cases hstop
      simp [hnot]
    · next hkept =>
      have hterm : IsTerm token := by
        rw [IsTerm]
        simp only [Bool.or_eq_true, decide_eq_true_eq, not_or, Bool.not_eq_true] at hkept
        exact ⟨by omega, hkept.2⟩
      refine iff_of_true ?_ (.inl hterm)
      show (if maxTerms ≤ [token].length then [token] else likeTermsLoop maxTerms rest [token]) ≠ []
      split
      · exact cons_ne_nil _ _
      · exact likeTermsLoop_ne_nil_of maxTerms rest (cons_ne_nil _ _)

theorem extractLikeTerms_ne_nil_iff (maxTerms : Nat) {query : Text} :
    extractLikeTerms query maxTerms ≠ [] ↔ ∃ token ∈ query.splitOnP cutsTerm, IsTerm token :=
  likeTermsLoop_ne_nil_iff

theorem length_of_mem_likeTermsLoop {tokens terms : List Text}
    (h : ∀ term ∈ terms, 2 ≤ term.length) :
    ∀ term ∈ likeTermsLoop maxTerms tokens terms, 2 ≤ term.length := by
  induction tokens generalizing terms with
  | nil => exact h
  | cons token rest ih =>
    rw [likeTermsLoop]
    split
    · exact ih h
    · next hkept =>
      have hmore : ∀ term ∈ (if terms.any (eqIgnoreAsciiCase · token) then terms
          else terms ++ [token]), 2 ≤ term.length := by
        split
        · exact h
        · rw [forall_mem_append, forall_mem_singleton]
          simp only [Bool.or_eq_true, decide_eq_true_eq, not_or] at hkept
          exact ⟨h, by omega⟩
      dsimp only
      generalize (if terms.any (eqIgnoreAsciiCase · token) then terms else terms ++ [token]) = more
        at hmore ⊢
      split
      · exact hmore
      · exact ih hmore

/-! ### Conditions -/

theorem pushCondition_ne_nil_iff (hmax : 0 < maxTerms) {columns : TextColumns} {negated : Bool}
    {conditions : List LikeCondition} {needle : Text} :
    pushCondition maxTerms columns negated conditions needle ≠ [] ↔
      conditions ≠ [] ∨ 2 ≤ needle.length := by
  unfold pushCondition
  cases conditions with
  | nil =>
    by_cases hshort : needle.length < 2
    · simp [hshort]
    · have hlong : 2 ≤ needle.length := Nat.not_lt.mp hshort
      simp [hshort, hlong, Nat.ne_of_gt hmax]
  | cons c conditions =>
    refine iff_of_true ?_ (.inl (cons_ne_nil _ _))
    split
    · exact cons_ne_nil _ _
    · split
      · exact cons_ne_nil _ _
      · simp

theorem foldl_pushCondition_ne_nil_iff (hmax : 0 < maxTerms) {columns : TextColumns}
    {negated : Bool} (needles : List Text) {conditions : List LikeCondition} :
    needles.foldl (pushCondition maxTerms columns negated) conditions ≠ [] ↔
      conditions ≠ [] ∨ ∃ needle ∈ needles, 2 ≤ needle.length := by
  induction needles generalizing conditions with
  | nil => simp
  | cons needle rest ih =>
    rw [foldl_cons, ih, pushCondition_ne_nil_iff hmax, exists_mem_cons_iff, or_assoc]

theorem fieldOf_value (defaultColumns : TextColumns) (raw : Text) :
    (fieldOf defaultColumns raw).2 = valueOf raw := by
  unfold valueOf fieldOf
  cases splitOnce [':'] raw with
  | none => rfl
  | some parts =>
    dsimp only
    split
    · rfl
    · split
      · rfl
      · rfl

/-- The needles of a word that are long enough. -/
theorem exists_needle_iff {raw : Text} :
    (∃ needle ∈ needlesOf (valueOf raw) maxTerms, 2 ≤ needle.length) ↔
      if ['"'].isPrefixOf (valueOf raw) then
        2 ≤ ([' '].intercalate (splitWhitespace (trimChar '"' (valueOf raw)))).length
      else ∃ token ∈ ((valueOf raw).rdropWhile (· == '*')).splitOnP cutsTerm, IsTerm token := by
  rw [needlesOf]
  split
  · simp
  · rw [← extractLikeTerms_ne_nil_iff maxTerms]
    constructor
    · rintro ⟨needle, hneedle, -⟩
      exact ne_nil_of_mem hneedle
    · intro hne
      obtain ⟨needle, hneedle⟩ := exists_mem_of_ne_nil _ hne
      exact ⟨needle, hneedle,
        length_of_mem_likeTermsLoop (fun _ h => absurd h not_mem_nil) needle hneedle⟩

theorem likeConditionsLoop_ne_nil_iff {defaultColumns : TextColumns} (hmax : 0 < maxTerms)
    (words : List Lexeme) {conditions : List LikeCondition} {negateNext : Bool} :
    likeConditionsLoop defaultColumns maxTerms words conditions negateNext ≠ [] ↔
      conditions ≠ [] ∨ ∃ raw, .word raw ∈ words ∧ Searchable raw := by
  induction words generalizing conditions negateNext with
  | nil => simp [likeConditionsLoop]
  | cons lexeme rest ih =>
    have hmem (raw : Text) : Lexeme.word raw ∈ lexeme :: rest ↔
        lexeme = .word raw ∨ .word raw ∈ rest := by
      rw [mem_cons, eq_comm]
    simp only [hmem]
    unfold likeConditionsLoop
    split
    · next hfull =>
      have hne : conditions ≠ [] := by
        rintro rfl
        exact absurd hfull (Nat.not_le.mpr hmax)
      exact iff_of_true hne (.inl hne)
    · cases lexeme with
      | dash =>
        dsimp only
        rw [ih]
        simp
      | word raw =>
        simp only [Lexeme.word.injEq]
        have hsplit : (∃ raw', (raw = raw' ∨ .word raw' ∈ rest) ∧ Searchable raw') ↔
            Searchable raw ∨ ∃ raw', .word raw' ∈ rest ∧ Searchable raw' := by
          simp only [or_and_right, exists_or, exists_eq_left']
        rw [hsplit]
        split
        · next hnot =>
          have hoperator : ¬ Searchable raw := fun h => h.1 (by rw [hnot]; decide)
          rw [ih]
          simp [hoperator]
        · next hnot =>
          split
          · next hoperator =>
            have hoperator' : ¬ Searchable raw := fun h => h.1 (mem_cons_of_mem _ hoperator)
            rw [ih]
            simp [hoperator']
          · next hoperator =>
            have hword : raw ∉ operators := by
              rw [operators, mem_cons, not_or]
              exact ⟨hnot, hoperator⟩
            rw [ih, foldl_pushCondition_ne_nil_iff hmax, fieldOf_value, exists_needle_iff, or_assoc]
            simp [Searchable, hword]

theorem likeConditions_ne_nil_iff {text : Text} {defaultColumns : TextColumns}
    (hmax : 0 < maxTerms) : likeConditions text defaultColumns maxTerms ≠ [] ↔
      ∃ raw, .word raw ∈ lexemes none text ∧ Searchable raw := by
  rw [likeConditions, likeConditionsLoop_ne_nil_iff hmax]
  simp

/-! ### The plan -/

theorem mem_conjuncts_all {c : Cond PlanTest} {cs : List (Cond PlanTest)} (hc : c ∈ cs)
    (hself : c ∈ conjuncts c) : c ∈ conjuncts (Cond.all cs) := by
  induction cs with
  | nil => cases hc
  | cons d cs ih =>
    rw [Cond.all, conjuncts, mem_append]
    rcases mem_cons.mp hc with rfl | hrest
    · exact .inl hself
    · exact .inr (ih hrest)

/-- A text condition is joined to others, and not itself joined of parts. -/
theorem LikeCondition.mem_conjuncts_self (c : LikeCondition) :
    c.pushed.clause ∈ conjuncts c.pushed.clause := by
  rw [LikeCondition.pushed]
  cases c.negated with
  | true => exact mem_singleton_self _
  | false =>
    cases c.columns with
    | subject => exact mem_singleton_self _
    | body => exact mem_singleton_self _
    | subjectAndBody => exact mem_singleton_self _

theorem mem_whereClauses {q : SearchQuery} (hmethod : messageMethod q = .like)
    (hne : likeParts q ≠ []) :
    ∃ statement, (planMessageSearch q).sql = some statement ∧
      Cond.all (Pushed.clauses (likeParts q)) ∈ statement.whereClauses := by
  have hparts : (likeParts q).isEmpty = false := isEmpty_eq_false_iff.mpr hne
  have hsome : messageMethod q ≠ .empty := by
    rw [hmethod]
    decide
  have hpiece : (⟨.all (likeParts q), []⟩ : Piece) ∈ messagePieces q := by
    simp [messagePieces, hmethod, textPieces, hparts]
  rw [planMessageSearch, if_neg hsome]
  exact ⟨_, rfl, mem_map_of_mem (mem_map_of_mem hpiece)⟩

/-- With a condition, the text is part of the plan's `WHERE`. -/
theorem filtersText_of_conditions {q : SearchQuery} (hmethod : messageMethod q = .like)
    (hne : likeConditions q.text q.textFields.columns 5 ≠ []) :
    FiltersText q (planMessageSearch q) := by
  obtain ⟨c, hc⟩ := exists_mem_of_ne_nil _ hne
  have hpart : c.pushed ∈ likeParts q := mem_map_of_mem hc
  obtain ⟨statement, hsql, hclause⟩ := mem_whereClauses hmethod (ne_nil_of_mem hpart)
  have hmem : c.pushed.clause ∈ Pushed.clauses (likeParts q) := mem_map_of_mem hpart
  exact .inr ⟨c, hc, statement, hsql, _, hclause, mem_conjuncts_all hmem c.mem_conjuncts_self⟩

/-- A text that has a term is searched for with `LIKE`, any other with nothing. -/
theorem messageMethod_of_text {q : SearchQuery} (htext : q.text ≠ []) :
    messageMethod q = if extractLikeTerms q.text 5 = [] then .empty else .like := by
  have hsome : (!q.text.isEmpty) = true := by simpa using htext
  rw [messageMethod, if_pos hsome]
  simp only [List.isEmpty_iff]

theorem planMessageSearch_method (q : SearchQuery) :
    (planMessageSearch q).method = messageMethod q := by
  rw [planMessageSearch]
  split
  · next hempty => exact hempty.symm
  · rfl

/-- The text of a query filters exactly when it has no term, so that nothing is returned, or when
one of its words is searched for. -/
theorem text_filters_iff {q : SearchQuery} (htext : trim q.text ≠ []) :
    FiltersText q (planMessageSearch q) ↔ (∀ token ∈ q.text.splitOnP cutsTerm, ¬ IsTerm token) ∨
        ∃ raw, .word raw ∈ lexemes none q.text ∧ Searchable raw := by
  have hne : q.text ≠ [] := by
    rintro hempty
    rw [hempty] at htext
    exact htext rfl
  have hterms : (∀ token ∈ q.text.splitOnP cutsTerm, ¬ IsTerm token) ↔
      extractLikeTerms q.text 5 = [] := by
    rw [← not_iff_not, ← ne_eq, extractLikeTerms_ne_nil_iff 5]
    simp
  have hwords : likeConditions q.text q.textFields.columns 5 ≠ [] ↔
      ∃ raw, .word raw ∈ lexemes none q.text ∧ Searchable raw :=
    likeConditions_ne_nil_iff (by decide)
  have hmethod := messageMethod_of_text hne
  rw [hterms, ← hwords]
  by_cases hnone : extractLikeTerms q.text 5 = []
  · rw [if_pos hnone] at hmethod
    exact iff_of_true (.inl ((planMessageSearch_method q).trans hmethod)) (.inl hnone)
  · rw [if_neg hnone] at hmethod
    constructor
    · rintro (hempty | ⟨c, hc, -⟩)
      · rw [planMessageSearch_method, hmethod] at hempty
        cases hempty
      · exact .inr (ne_nil_of_mem hc)
    · rintro (habsurd | hconditions)
      · exact absurd habsurd hnone
      · exact filtersText_of_conditions hmethod hconditions

/-- A field without a word to look for is a term of the text and no condition. -/
theorem field_alone_unfiltered :
    let q : SearchQuery := { SearchQuery.default with text := "subject:x".toList }
    trim q.text ≠ [] ∧ ¬ FiltersText q (planMessageSearch q) := by
  intro q
  have hconditions : likeConditions q.text q.textFields.columns 5 = [] := by decide
  have hmethod : (planMessageSearch q).method ≠ .empty := by
    rw [planMessageSearch_method]
    decide
  refine ⟨by decide, ?_⟩
  rintro (hempty | ⟨c, hc, -⟩)
  · exact hmethod hempty
  · rw [hconditions] at hc
    exact absurd hc not_mem_nil

theorem text_filters_iff_subject :
    let q : SearchQuery := { SearchQuery.default with text := "subject:plan -AND".toList }
    FiltersText q (planMessageSearch q) :=
  (text_filters_iff (by decide)).mpr (.inr ⟨"subject:plan".toList, by decide, by decide⟩)

end AgentMail.Search
