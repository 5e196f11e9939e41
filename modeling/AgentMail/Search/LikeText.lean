import AgentMail.Base.Text
import AgentMail.Lib.RepeatPattern

/-!
# Text conditions of the SQL plan

What the planner makes of the free text of a query (`extract_like_terms` of `queries.rs` and
`like_conditions` of `search_planner.rs`), and the database's side of it: `LIKE … ESCAPE '\'`,
`instr`, `lower` and `COLLATE NOCASE`, which all fold ASCII letters only.
-/

namespace AgentMail.Search

open Base Lib List

/-! ### Terms -/

/-- The characters at which `extract_like_terms` cuts. -/
def cutsTerm (c : Char) : Bool :=
  !c.isAlphanum && c != '.' && c != '_' && c != '/' && c != '-'

/-- `STOPWORDS`. -/
def stopwords : List Text := ["AND".toList, "OR".toList, "NOT".toList, "NEAR".toList]

/-- The loop of `extract_like_terms`. -/
def likeTermsLoop (maxTerms : Nat) : List Text → List Text → List Text
  | [], terms => terms
  | token :: rest, terms =>
    if token.length < 2 || stopwords.any (eqIgnoreAsciiCase · token) then
      likeTermsLoop maxTerms rest terms
    else
      let terms := if terms.any (eqIgnoreAsciiCase · token) then terms else terms ++ [token]
      if maxTerms ≤ terms.length then terms else likeTermsLoop maxTerms rest terms

/-- `extract_like_terms`; the tokens are ASCII, so that their characters are their bytes. -/
def extractLikeTerms (query : Text) (maxTerms : Nat) : List Text :=
  likeTermsLoop maxTerms (query.splitOnP cutsTerm) []

/-! ### Conditions -/

/-- The columns a condition may name: `SUBJECT_COLUMN`, `BODY_COLUMN`,
`SUBJECT_AND_BODY_COLUMNS`. -/
inductive TextColumns where
  | subject | body | subjectAndBody
deriving DecidableEq

/-- `LikeCondition`. -/
structure LikeCondition where
  needle : Text
  columns : TextColumns
  negated : Bool

/-- What the scanner of `like_conditions` stops at: a dash before a word, or a word. -/
inductive Lexeme where
  | dash
  | word (raw : Text)
deriving DecidableEq

/-- The scanner, between two words or inside one, with its `raw` and `in_quotes`. White space ends a
word outside quotes. -/
def lexemes : Option (Text × Bool) → Text → List Lexeme
  | none, [] => []
  | none, c :: rest =>
    if isWhitespace c then lexemes none rest
    else if c = '-' then .dash :: lexemes none rest
    else lexemes (some ([c], decide (c = '"'))) rest
  | some (raw, _), [] => [.word raw]
  | some (raw, inQuotes), c :: rest =>
    if isWhitespace c && !inQuotes then .word raw :: lexemes none rest
    else lexemes (some (raw ++ [c], if c = '"' then !inQuotes else inQuotes)) rest

/-- `str::split_whitespace`. -/
def splitWhitespace (t : Text) : List Text := (t.splitOnP isWhitespace).filter (!·.isEmpty)

/-- `trim_matches` of a character. -/
def trimChar (c : Char) (t : Text) : Text := (t.dropWhile (· == c)).rdropWhile (· == c)

/-- The needles of one word: a phrase in quotes is one, other words are cut at punctuation. -/
def needlesOf (value : Text) (maxTerms : Nat) : List Text :=
  if ['"'].isPrefixOf value then
    [[' '].intercalate (splitWhitespace (trimChar '"' value))]
  else extractLikeTerms (value.rdropWhile (· == '*')) maxTerms

/-- The columns and the value of a word. -/
def fieldOf (defaultColumns : TextColumns) (raw : Text) : TextColumns × Text :=
  match splitOnce [':'] raw with
  | some (field, value) =>
    if eqIgnoreAsciiCase field "subject".toList then (.subject, value)
    else if eqIgnoreAsciiCase field "body".toList || eqIgnoreAsciiCase field "body_md".toList then
      (.body, value)
    else (defaultColumns, raw)
  | none => (defaultColumns, raw)

/-- One needle; short needles, needles beyond the limit and repeated ones are dropped. -/
def pushCondition (maxTerms : Nat) (columns : TextColumns) (negated : Bool)
    (conditions : List LikeCondition) (needle : Text) : List LikeCondition :=
  if needle.length < 2 || decide (maxTerms ≤ conditions.length) then conditions
  else if conditions.any fun seen => eqIgnoreAsciiCase seen.needle needle &&
      decide (seen.columns = columns) && decide (seen.negated = negated) then conditions
  else conditions ++ [⟨needle, columns, negated⟩]

/-- The loop of `like_conditions`, with `conditions` and `negate_next`. -/
def likeConditionsLoop (defaultColumns : TextColumns) (maxTerms : Nat) :
    List Lexeme → List LikeCondition → Bool → List LikeCondition
  | [], conditions, _ => conditions
  | lexeme :: rest, conditions, negateNext =>
    if maxTerms ≤ conditions.length then conditions
    else match lexeme with
      | .dash => likeConditionsLoop defaultColumns maxTerms rest conditions true
      | .word raw =>
        if raw = "NOT".toList then likeConditionsLoop defaultColumns maxTerms rest conditions true
        else if raw ∈ ["AND".toList, "OR".toList, "NEAR".toList, "&&".toList, "||".toList] then
          likeConditionsLoop defaultColumns maxTerms rest conditions negateNext
        else
          let (columns, value) := fieldOf defaultColumns raw
          likeConditionsLoop defaultColumns maxTerms rest
            ((needlesOf value maxTerms).foldl (pushCondition maxTerms columns negateNext) conditions)
            false

/-- `like_conditions`. -/
def likeConditions (text : Text) (defaultColumns : TextColumns) (maxTerms : Nat) :
    List LikeCondition :=
  likeConditionsLoop defaultColumns maxTerms (lexemes none text) [] false

/-! ### Patterns -/

/-- `str::replace` of a character. -/
def replaceChar (c : Char) (by' : Text) (t : Text) : Text :=
  t.flatMap fun d => if d = c then by' else [d]

/-- The escaping of a needle. -/
def likeEscape (needle : Text) : Text :=
  replaceChar '_' ['\\', '_'] (replaceChar '%' ['\\', '%'] (replaceChar '\\' ['\\', '\\'] needle))

/-- `%needle%`. -/
def likePattern (needle : Text) : Text := '%' :: likeEscape needle ++ ['%']

/-- A piece of a pattern. -/
inductive LikePiece where
  | run
  | anyChar
  | lit (c : Char)
  | broken
deriving DecidableEq

/-- A pattern with `ESCAPE '\'`; with nothing after an escape it matches nothing. -/
def likePieces : Text → List LikePiece
  | [] => []
  | ['\\'] => [.broken]
  | '\\' :: c :: rest => .lit c :: likePieces rest
  | '%' :: rest => .run :: likePieces rest
  | '_' :: rest => .anyChar :: likePieces rest
  | c :: rest => .lit c :: likePieces rest

def LikePiece.isRun (p : LikePiece) : Bool := decide (p = .run)

def LikePiece.takes : LikePiece → Char → Bool
  | anyChar, _ => true
  | lit c, d => c.toLower == d.toLower
  | _, _ => false

/-- `t LIKE pattern ESCAPE '\'`. -/
def like (pattern t : Text) : Bool :=
  RepeatPattern.accepts LikePiece.isRun LikePiece.takes (likePieces pattern) t

/-! ### A needle and its pattern -/

theorem likePieces_literal {c : Char} (hback : c ≠ '\\') (hpercent : c ≠ '%') (hline : c ≠ '_')
    (rest : Text) : likePieces (c :: rest) = .lit c :: likePieces rest := by
  conv =>
    lhs
    unfold likePieces
  split <;> simp_all

theorem likePieces_likeEscape (needle rest : Text) :
    likePieces (likeEscape needle ++ rest) = needle.map .lit ++ likePieces rest := by
  induction needle with
  | nil => rfl
  | cons c needle ih =>
    have happend (a b : Text) : likeEscape (a ++ b) = likeEscape a ++ likeEscape b := by
      simp only [likeEscape, replaceChar, flatMap_append]
    have hcons : likeEscape (c :: needle) = likeEscape [c] ++ likeEscape needle := happend [c] needle
    rw [hcons, append_assoc, map_cons, cons_append, ← ih]
    -- the three characters that are escaped, and the others
    by_cases hback : c = '\\'
    · rw [hback]
      rfl
    by_cases hpercent : c = '%'
    · rw [hpercent]
      rfl
    by_cases hline : c = '_'
    · rw [hline]
      rfl
    have hself : likeEscape [c] = [c] := by
      simp [likeEscape, replaceChar, hback, hpercent, hline]
    rw [hself, singleton_append, likePieces_literal hback hpercent hline]

/-- After a run a pattern may stand at any place. -/
theorem accepts_run {l : List LikePiece} {t : Text} :
    RepeatPattern.accepts LikePiece.isRun LikePiece.takes (.run :: l) t = true ↔
      ∃ tail, tail <:+ t ∧ RepeatPattern.accepts LikePiece.isRun LikePiece.takes l tail = true := by
  induction t with
  | nil =>
    rw [RepeatPattern.accepts_cons_nil]
    simp [LikePiece.isRun]
  | cons c t ih =>
    rw [RepeatPattern.accepts_repeat _ _ rfl, Bool.or_eq_true, ih]
    constructor
    · rintro (h | ⟨tail, htail, h⟩)
      · exact ⟨c :: t, suffix_rfl, h⟩
      · exact ⟨tail, htail.trans (suffix_cons c t), h⟩
    · rintro ⟨tail, htail, h⟩
      rcases suffix_cons_iff.mp htail with rfl | htail
      · exact .inl h
      · exact .inr ⟨tail, htail, h⟩

theorem accepts_literals {needle t : Text} :
    RepeatPattern.accepts LikePiece.isRun LikePiece.takes (needle.map .lit ++ [.run]) t = true ↔
      fold true needle <+: fold true t := by
  induction needle generalizing t with
  | nil =>
    have hall : RepeatPattern.accepts LikePiece.isRun LikePiece.takes [.run] t = true :=
      RepeatPattern.accepts_of_all_repeat _ _ rfl t
    simp [hall]
  | cons c needle ih =>
    cases t with
    | nil => simp [LikePiece.isRun]
    | cons d t =>
      rw [map_cons, cons_append, RepeatPattern.accepts_item _ _ rfl, Bool.and_eq_true, ih,
        fold_cons, fold_cons, cons_prefix_cons]
      exact and_congr_left fun _ => beq_iff_eq

/-- The pattern of a needle matches the texts that contain it, up to ASCII letter case. -/
theorem like_likePattern {needle t : Text} :
    like (likePattern needle) t = true ↔ fold true needle <:+: fold true t := by
  have hpieces : likePieces (likePattern needle) = .run :: (needle.map .lit ++ [.run]) := by
    change LikePiece.run :: likePieces (likeEscape needle ++ ['%']) = _
    rw [likePieces_likeEscape]
    rfl
  rw [like, hpieces, accepts_run]
  constructor
  · rintro ⟨tail, htail, h⟩
    have hfold : fold true tail <:+ fold true t := htail.map _
    exact (accepts_literals.mp h).isInfix.trans hfold.isInfix
  · rintro ⟨front, back, h⟩
    have hlength : front.length ≤ t.length := by
      have := congrArg List.length h
      simp only [length_append, length_fold] at this
      omega
    refine ⟨t.drop front.length, drop_suffix _ _, accepts_literals.mpr ⟨back, ?_⟩⟩
    have hdrop : fold true (t.drop front.length) = (fold true t).drop front.length := map_drop
    rw [hdrop, ← h, append_assoc, drop_left]

/-- `lower`. -/
def lower (t : Text) : Text := fold true t

/-- `instr(lower(t), lower(needle)) > 0`. -/
def instrLower (t needle : Text) : Bool := (findFrom (lower needle) (lower t) 0).isSome

end AgentMail.Search
