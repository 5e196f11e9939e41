import AgentMail.Search.SearchCursor
import AgentMail.Search.SearchQuery

/-!
# Hints leave the rest of a query alone

`parse_query_assistance` (`crates/mcp-agent-mail-db/src/query_assistance.rs:121–155, 282–328`)
takes the recognised hints out of a query and joins the other tokens again. Reading the rest once
more finds the same tokens, since each keeps its quotes.
-/

namespace AgentMail.Search

open Base List

/-! ### Trailing whitespace -/

/-- A text without the whitespace at its end. -/
def trimEnd (t : Text) : Text := t.rdropWhile isWhitespace

theorem trimEnd_append {s t : Text} (h : trimEnd t ≠ []) : trimEnd (s ++ t) = s ++ trimEnd t := by
  unfold trimEnd rdropWhile at h ⊢
  rw [reverse_append, dropWhile_append, if_neg, reverse_append, reverse_reverse]
  simpa using h

theorem trimEnd_cons {c : Char} (hc : isWhitespace c = false) (t : Text) :
    trimEnd (c :: t) = c :: trimEnd t := by
  rw [trimEnd, rdropWhile, reverse_cons, dropWhile_append]
  split
  · next hnil => simp [trimEnd, rdropWhile, List.isEmpty_iff.mp hnil, hc]
  · simp [trimEnd, rdropWhile]

theorem trim_trimEnd (t : Text) : trim (trimEnd t) = trim t := by
  simp only [trim, trimEnd, dropWhile_rdropWhile, rdropWhile_idempotent]

/-! ### Tokens -/

section

/-- The step of `split_query_tokens`. -/
def tokenStep : List Text × Text × Bool → Char → List Text × Text × Bool
  | (tokens, current, inQuotes), ch =>
    if ch = '"' then (tokens, current ++ [ch], !inQuotes)
    else if isWhitespace ch && !inQuotes then
      if current.isEmpty then (tokens, current, inQuotes) else (tokens ++ [current], [], inQuotes)
    else (tokens, current ++ [ch], inQuotes)

theorem splitQueryTokens_eq (q : Text) : splitQueryTokens q =
    (q.foldl tokenStep ([], [], false)).1 ++
      (if (q.foldl tokenStep ([], [], false)).2.1.isEmpty then []
      else [(q.foldl tokenStep ([], [], false)).2.1]) := by
  unfold splitQueryTokens
  dsimp only
  change (if (q.foldl tokenStep ([], [], false)).2.1.isEmpty then _ else _) = _
  split
  · exact (append_nil _).symm
  · rfl

/-- The text is read as one token, perhaps up to an open quote. -/
structure Token (t : Text) (inQuotes : Bool) : Prop where
  reads : ∀ tokens, t.foldl tokenStep (tokens, [], false) = (tokens, t, inQuotes)
  head : ∀ c ∈ t.head?, isWhitespace c = false

variable {t : Text} {inQuotes : Bool} {c : Char}

theorem Token.nil : Token [] false := ⟨fun _ => rfl, nofun⟩

/-- A character either belongs to the token or ends it. -/
theorem Token.step (h : Token t inQuotes) (c : Char) :
    (isWhitespace c = true ∧ inQuotes = false ∧
      ∀ tokens, tokenStep (tokens, t, inQuotes) c =
        ((if t.isEmpty then tokens else tokens ++ [t]), [], false)) ∨
    (∃ after, Token (t ++ [c]) after ∧ (isWhitespace c = true → inQuotes = true ∧ after = true) ∧
      ∀ tokens, tokenStep (tokens, t, inQuotes) c = (tokens, t ++ [c], after)) := by
  have hgrows (after : Bool) (hc : t = [] → isWhitespace c = false)
      (hstep : ∀ tokens, tokenStep (tokens, t, inQuotes) c = (tokens, t ++ [c], after)) :
      Token (t ++ [c]) after := by
    refine ⟨fun tokens => ?_, fun d hd => ?_⟩
    · rw [foldl_append, h.reads tokens]
      exact hstep tokens
    · cases t with
      | nil =>
        cases hd
        exact hc rfl
      | cons e t => exact h.head d hd
  by_cases hquote : c = '"'
  · subst hquote
    have hstep (tokens : List Text) : tokenStep (tokens, t, inQuotes) '"' = (tokens, t ++ ['"'], !inQuotes) := rfl
    exact .inr ⟨_, hgrows _ (fun _ => rfl) hstep, nofun, hstep⟩
  · by_cases hends : (isWhitespace c && !inQuotes) = true
    · rw [Bool.and_eq_true, Bool.not_eq_true'] at hends
      refine .inl ⟨hends.1, hends.2, fun tokens => ?_⟩
      cases t <;> simp [tokenStep, hquote, hends]
    · have hstep (tokens : List Text) : tokenStep (tokens, t, inQuotes) c = (tokens, t ++ [c], inQuotes) := by
        simp only [tokenStep, if_neg hquote, if_neg hends]
      have hopen : isWhitespace c = true → inQuotes = true := by simpa using hends
      refine .inr ⟨_, hgrows _ (fun hnil => ?_) hstep, fun hc => ⟨hopen hc, hopen hc⟩, hstep⟩
      rw [Bool.eq_false_iff]
      intro hc
      have hreads := h.reads []
      rw [hnil, hopen hc] at hreads
      cases hreads

/-- Reading leaves finished tokens and the one being read. -/
theorem foldl_tokenStep (q : Text) : ∃ front current inQuotes,
    q.foldl tokenStep ([], [], false) = (front, current, inQuotes) ∧ Token current inQuotes ∧
      ∀ t ∈ front, t ≠ [] ∧ Token t false := by
  induction q using reverseRecOn with
  | nil => exact ⟨[], [], false, rfl, .nil, nofun⟩
  | append_singleton q c ih =>
    obtain ⟨front, current, inQuotes, hread, hcurrent, hfront⟩ := ih
    rw [foldl_append, hread]
    rcases hcurrent.step c with ⟨-, rfl, hstep⟩ | ⟨after, hafter, -, hstep⟩
    · refine ⟨_, _, _, hstep front, .nil, ?_⟩
      split
      · exact hfront
      · next hne =>
        intro t ht
        rcases mem_append.mp ht with ht | ht
        · exact hfront t ht
        · rw [mem_singleton.mp ht]
          exact ⟨fun hnil => hne (hnil ▸ rfl), hcurrent⟩
    · exact ⟨_, _, _, hstep front, hafter, hfront⟩

theorem Token.of_concat {s : Text} (h : Token (s ++ [c]) inQuotes) : ∃ before, Token s before := by
  obtain ⟨front, current, before, hread, hcurrent, -⟩ := foldl_tokenStep s
  have hreads := h.reads []
  rw [foldl_append, hread] at hreads
  rcases hcurrent.step c with ⟨-, rfl, hstep⟩ | ⟨after, -, -, hstep⟩
  · have hnil := congrArg (·.2.1) ((hstep front).symm.trans hreads)
    simp at hnil
  · have heq := congrArg (·.2.1) ((hstep front).symm.trans hreads)
    exact ⟨before, append_cancel_right heq ▸ hcurrent⟩

theorem Token.trimEnd (h : Token t inQuotes) : ∃ before, Token (trimEnd t) before := by
  induction t using reverseRecOn generalizing inQuotes with
  | nil => exact ⟨_, .nil⟩
  | append_singleton s c ih =>
    rw [Search.trimEnd, rdropWhile_concat]
    split
    · obtain ⟨before, hs⟩ := h.of_concat
      exact ih hs
    · exact ⟨_, h⟩

/-- Tokens of which only the last may have an open quote. -/
structure Tokens (ts : List Text) : Prop where
  token : ∀ t ∈ ts, t ≠ [] ∧ ∃ inQuotes, Token t inQuotes
  closed : ts.Pairwise fun t _ => Token t false

theorem tokens_splitQueryTokens (q : Text) : Tokens (splitQueryTokens q) := by
  obtain ⟨front, current, inQuotes, hread, hcurrent, hfront⟩ := foldl_tokenStep q
  rw [splitQueryTokens_eq, hread]
  dsimp only
  have hclosed : front.Pairwise fun t _ => Token t false :=
    pairwise_of_forall_mem_list fun t ht _ _ => (hfront t ht).2
  split
  · rw [append_nil]
    exact ⟨fun t ht => ⟨(hfront t ht).1, false, (hfront t ht).2⟩, hclosed⟩
  · next hne =>
    refine ⟨fun t ht => ?_, pairwise_append.mpr ⟨hclosed, pairwise_singleton .., fun t ht _ _ => (hfront t ht).2⟩⟩
    rcases mem_append.mp ht with ht | ht
    · exact ⟨(hfront t ht).1, false, (hfront t ht).2⟩
    · rw [mem_singleton.mp ht]
      exact ⟨fun hnil => hne (hnil ▸ rfl), inQuotes, hcurrent⟩

/-- `join(" ")`. -/
def joinTokens (ts : List Text) : Text := [' '].intercalate ts

theorem joinTokens_cons_cons (t u : Text) (ts : List Text) :
    joinTokens (t :: u :: ts) = t ++ ' ' :: joinTokens (u :: ts) := by
  simp [joinTokens, intercalate]

variable {ts : List Text}

theorem Tokens.tail (h : Tokens (t :: ts)) : Tokens ts :=
  ⟨fun u hu => h.token u (mem_cons_of_mem _ hu), h.closed.of_cons⟩

theorem Tokens.splitQueryTokens_join (h : Tokens ts) : splitQueryTokens (joinTokens ts) = ts := by
  have hread (tokens : List Text) : ∃ front current inQuotes,
      (joinTokens ts).foldl tokenStep (tokens, [], false) = (front, current, inQuotes) ∧
        front ++ (if current.isEmpty then [] else [current]) = tokens ++ ts := by
    induction ts generalizing tokens with
    | nil => exact ⟨tokens, [], false, rfl, rfl⟩
    | cons t ts ih =>
      obtain ⟨hne, inQuotes, ht⟩ := h.token t mem_cons_self
      cases ts with
      | nil =>
        refine ⟨tokens, t, inQuotes, ?_, ?_⟩
        · rw [joinTokens, intercalate_singleton]
          exact ht.reads tokens
        · rw [if_neg (by simpa using hne)]
      | cons u ts =>
        have hclosed : Token t false := (pairwise_cons.mp h.closed).1 u mem_cons_self
        obtain ⟨front, current, quoted, hread, hresult⟩ := ih h.tail (tokens ++ [t])
        refine ⟨front, current, quoted, ?_, by rw [hresult, append_assoc]; rfl⟩
        rw [joinTokens_cons_cons, foldl_append, hclosed.reads, foldl_cons]
        have hstep : tokenStep (tokens, t, false) ' ' = (tokens ++ [t], [], false) := by
          simp only [tokenStep]
          rw [if_neg (by decide), if_pos (by decide), if_neg (by simpa using hne)]
        rw [hstep]
        exact hread
  obtain ⟨front, current, inQuotes, hread, hresult⟩ := hread []
  rw [splitQueryTokens_eq, hread]
  exact hresult

/-- The last token without the whitespace at its end. -/
def trimLast : List Text → List Text
  | [] => []
  | [t] => [trimEnd t]
  | t :: u :: ts => t :: trimLast (u :: ts)

theorem mem_trimLast {u : Text} (h : u ∈ trimLast ts) : ∃ t ∈ ts, u = t ∨ u = trimEnd t := by
  fun_induction trimLast ts with
  | case1 => cases h
  | case2 t => exact ⟨t, mem_cons_self, .inr (mem_singleton.mp h)⟩
  | case3 t v ts ih =>
    rcases mem_cons.mp h with rfl | h
    · exact ⟨u, mem_cons_self, .inl rfl⟩
    · obtain ⟨w, hw, hu⟩ := ih h
      exact ⟨w, mem_cons_of_mem _ hw, hu⟩

theorem Tokens.trimLast (h : Tokens ts) : Tokens (trimLast ts) := by
  refine ⟨fun u hu => ?_, ?_⟩
  · obtain ⟨t, ht, hu⟩ := mem_trimLast hu
    obtain ⟨hne, inQuotes, htoken⟩ := h.token t ht
    obtain ⟨c, t, rfl⟩ := exists_cons_of_ne_nil hne
    rcases hu with rfl | rfl
    · exact ⟨hne, inQuotes, htoken⟩
    · exact ⟨by rw [trimEnd_cons (htoken.head c rfl)]; nofun, htoken.trimEnd⟩
  · have hclosed := h.closed
    clear h
    fun_induction Search.trimLast ts with
    | case1 => exact .nil
    | case2 t => exact pairwise_singleton ..
    | case3 t u ts ih =>
      obtain ⟨ht, hrest⟩ := pairwise_cons.mp hclosed
      exact pairwise_cons.mpr ⟨fun _ _ => ht u mem_cons_self, ih hrest⟩

theorem Tokens.joinTokens_eq_cons (h : Tokens (t :: ts)) :
    ∃ c s, joinTokens (t :: ts) = c :: s ∧ isWhitespace c = false := by
  obtain ⟨hne, _, ht⟩ := h.token t mem_cons_self
  obtain ⟨c, t, rfl⟩ := exists_cons_of_ne_nil hne
  cases ts with
  | nil => exact ⟨c, t, by simp [joinTokens], ht.head c rfl⟩
  | cons u ts => exact ⟨c, _, joinTokens_cons_cons .., ht.head c rfl⟩

/-- Only the last token loses whitespace where joined tokens are trimmed. -/
theorem Tokens.trim_joinTokens (h : Tokens ts) : trim (joinTokens ts) = joinTokens (Search.trimLast ts) := by
  have hhead : (joinTokens ts).dropWhile isWhitespace = joinTokens ts := by
    cases ts with
    | nil => rfl
    | cons t ts =>
      obtain ⟨c, s, hjoin, hc⟩ := h.joinTokens_eq_cons
      rw [hjoin, dropWhile_cons_of_neg (by simp [hc])]
  rw [trim, hhead]
  clear hhead
  change trimEnd (joinTokens ts) = _
  fun_induction Search.trimLast ts with
  | case1 => rfl
  | case2 t => simp [joinTokens]
  | case3 t u ts ih =>
    obtain ⟨c, s, hjoin, hc⟩ := h.tail.joinTokens_eq_cons
    have hne : trimEnd (joinTokens (u :: ts)) ≠ [] := by
      rw [hjoin, trimEnd_cons hc]
      exact cons_ne_nil _ _
    have hspace : trimEnd (' ' :: joinTokens (u :: ts)) = ' ' :: trimEnd (joinTokens (u :: ts)) :=
      trimEnd_append (s := [' ']) hne
    rw [joinTokens_cons_cons, trimEnd_append (by rw [hspace]; exact cons_ne_nil _ _), hspace, ih h.tail]
    cases ts <;> exact (joinTokens_cons_cons ..).symm

end

/-! ### Hints -/

/-- The hint that a token is taken for. -/
def TokenKind.hint? : TokenKind → Option AppliedFilterHint
  | .hint found => some found
  | _ => none

theorem splitOnce_colon_trimEnd (t : Text) :
    (splitOnce ":".toList t = none ∧ splitOnce ":".toList (trimEnd t) = none) ∨
    ∃ field value, splitOnce ":".toList t = some (field, value) ∧
      splitOnce ":".toList (trimEnd t) = some (field, trimEnd value) := by
  have hnone {s : Text} (h : ':' ∉ s) : splitOnce ":".toList s = none := by
    rw [splitOnce, findFrom, Option.map_eq_none_iff, find?_eq_none]
    intro i _ hprefix
    have hmem := (List.isPrefixOf_iff_prefix.mp hprefix).subset (mem_cons_self (a := ':'))
    exact h (mem_of_mem_drop hmem)
  by_cases h : ':' ∈ t
  · obtain ⟨field, value, rfl, hfield⟩ := eq_append_cons_of_mem h
    have hsplit (back : Text) : splitOnce ":".toList (field ++ ':' :: back) = some (field, back) := by
      rw [← singleton_append, ← append_assoc]
      exact splitOnce_append rfl hfield
    have hcolon := trimEnd_cons (c := ':') rfl value
    refine .inr ⟨field, value, hsplit value, ?_⟩
    rw [trimEnd_append (by rw [hcolon]; exact cons_ne_nil _ _), hcolon]
    exact hsplit _
  · exact .inl ⟨hnone h, hnone fun hmem => h ((List.rdropWhile_prefix ..).subset hmem)⟩

theorem classifyToken_trimEnd (C : Chrono) (t : Text) :
    (classifyToken C (trimEnd t)).hint? = (classifyToken C t).hint? := by
  rcases splitOnce_colon_trimEnd t with ⟨ht, hend⟩ | ⟨field, value, ht, hend⟩
  · rw [classifyToken, classifyToken, ht, hend]
  · have hvalue : normalizeHintValue (trimEnd value) = normalizeHintValue value := by
      simp only [normalizeHintValue, trim_trimEnd]
    rw [classifyToken, classifyToken, ht, hend]
    dsimp only
    rw [trim_trimEnd, hvalue]
    split
    · rfl
    · split
      · rfl
      · cases normalizeHintField field with
        | some canonical => rfl
        | none => cases suggestHintField field <;> rfl

section

variable (C : Chrono)

/-- The tokens that stay in the query. -/
def plainTokens (q : Text) : List Text :=
  (splitQueryTokens q).filter fun t => (classifyToken C t).hint?.isNone

theorem tokens_plainTokens (q : Text) : Tokens (plainTokens C q) :=
  have h := tokens_splitQueryTokens q
  ⟨fun t ht => h.token t (mem_of_mem_filter ht), h.closed.filter _⟩

theorem queryText_eq (q : Text) :
    (parseQueryAssistance C q).queryText = trim (joinTokens (plainTokens C q)) := by
  rw [parseQueryAssistance, plainTokens]
  refine congrArg (fun ts => trim (joinTokens ts)) (filter_congr fun t _ => ?_)
  cases classifyToken C t <;> rfl

theorem appliedFilterHints_eq (q : Text) : (parseQueryAssistance C q).appliedFilterHints =
    (splitQueryTokens q).filterMap fun t => (classifyToken C t).hint? := by
  refine filterMap_congr fun t _ => ?_
  cases classifyToken C t <;> rfl

/-- The rest of a query is split into its tokens. -/
theorem splitQueryTokens_queryText (q : Text) :
    splitQueryTokens (parseQueryAssistance C q).queryText = trimLast (plainTokens C q) := by
  have hplain := tokens_plainTokens C q
  rw [queryText_eq, hplain.trim_joinTokens, hplain.trimLast.splitQueryTokens_join]

theorem hint?_queryText {q t : Text} (ht : t ∈ splitQueryTokens (parseQueryAssistance C q).queryText) :
    (classifyToken C t).hint? = none := by
  rw [splitQueryTokens_queryText] at ht
  obtain ⟨u, hu, ht⟩ := mem_trimLast ht
  have hnone := Option.isNone_iff_eq_none.mp (mem_filter.mp hu).2
  rcases ht with rfl | rfl
  · exact hnone
  · rw [classifyToken_trimEnd, hnone]

/-- An interleaving of two lists. -/
inductive Interleaved {α : Type} : List α → List α → List α → Prop
  | nil : Interleaved [] [] []
  | left {a : α} {as bs cs : List α} : Interleaved as bs cs → Interleaved (a :: as) bs (a :: cs)
  | right {b : α} {as bs cs : List α} : Interleaved as bs cs → Interleaved as (b :: bs) (b :: cs)

end

end AgentMail.Search
