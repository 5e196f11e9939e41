import AgentMail.Base.Text
import AgentMail.Lib.RepeatPattern

/-!
# Sequence intersection and simple segment globs

`crates/mcp-agent-mail-core/src/pattern_overlap.rs:126–256`. Character globs and path
segments share one decision procedure: mandatory items are stripped from both ends and
the residue is decided by a dynamic programme that keeps a single suffix row. The row
computes the recurrence of `Lib.RepeatPattern`, so every later proof uses `overlap`.
-/

namespace AgentMail.Pattern

open Base Lib List

universe u

section

variable {α : Type u} (isRepeat : α → Bool) (compatible : α → α → Bool)

/-- First loop of `sequence_patterns_overlap`: consume mandatory first items.
`none` is the early `return false` on an incompatible pair. -/
def stripFront : List α → List α → Option (List α × List α)
  | a :: restA, b :: restB =>
    if isRepeat a || isRepeat b then some (a :: restA, b :: restB)
    else if !compatible a b then none
    else stripFront restA restB
  | left, right => some (left, right)

/-- Second loop: the same from the other end, through `split_last`. -/
def stripBack (left right : List α) : Option (List α × List α) :=
  (stripFront isRepeat compatible left.reverse right.reverse).map
    fun rest => (rest.1.reverse, rest.2.reverse)

/-- The row before any row item is read: `row[j]` says that `columns[j..]` is all repeats. -/
def initialRow : List α → List Bool
  | [] => [true]
  | item :: columns =>
    let row := initialRow columns
    (isRepeat item && row.headD false) :: row

/-- One pass of the inner loop, right to left: the old row is read at `j` (`below`) and at
`j + 1` (`diagonal`), the new one at `j + 1`. -/
def stepRow (a : α) : List α → List Bool → List Bool
  | [], row => [isRepeat a && row.headD false]
  | b :: columns, row =>
    let next := stepRow a columns row.tail
    let below := row.headD false
    let diagonal := row.tail.headD false
    (if isRepeat a || isRepeat b then below || next.headD false
      else diagonal && compatible a b) :: next

/-- `sequence_patterns_overlap`. -/
def sequencePatternsOverlap (left right : List α) : Bool :=
  match stripFront isRepeat compatible left right with
  | none => false
  | some (left, right) =>
    match stripBack isRepeat compatible left right with
    | none => false
    | some (left, right) =>
      if left.isEmpty then right.all isRepeat
      else if right.isEmpty then left.all isRepeat
      else if left.all isRepeat || right.all isRepeat then true
      else
        -- The shorter residue is the retained row.
        let (rows, columns) := if left.length ≥ right.length then (left, right) else (right, left)
        (rows.foldr (fun a row => stepRow isRepeat compatible a columns row)
          (initialRow isRepeat columns)).headD false

variable {isRepeat compatible}

theorem stripFront_overlap (l r : List α) :
    RepeatPattern.overlap isRepeat compatible l r = match stripFront isRepeat compatible l r with
      | none => false
      | some (l, r) => RepeatPattern.overlap isRepeat compatible l r := by
  induction l generalizing r with
  | nil => cases r <;> rfl
  | cons a l ih =>
    cases r with
    | nil => rfl
    | cons b r =>
      rw [stripFront]
      cases h : isRepeat a || isRepeat b with
      | true => rfl
      | false =>
        rw [RepeatPattern.overlap_item h, if_neg Bool.false_ne_true]
        cases hc : compatible a b with
        | true => simpa using ih r
        | false => rfl

theorem stripFront_reverse_overlap (l r : List α) :
    RepeatPattern.overlap isRepeat compatible l.reverse r.reverse =
      match stripFront isRepeat compatible l r with
      | none => false
      | some (l, r) => RepeatPattern.overlap isRepeat compatible l.reverse r.reverse := by
  induction l generalizing r with
  | nil => cases r <;> rfl
  | cons a l ih =>
    cases r with
    | nil => rfl
    | cons b r =>
      rw [stripFront]
      cases h : isRepeat a || isRepeat b with
      | true => rfl
      | false =>
        rw [Bool.or_eq_false_iff] at h
        rw [reverse_cons, reverse_cons, RepeatPattern.overlap_append_item h.1 h.2,
          if_neg Bool.false_ne_true]
        cases hc : compatible a b with
        | true => simpa using ih r
        | false => simp

theorem stripBack_overlap (l r : List α) :
    RepeatPattern.overlap isRepeat compatible l r = match stripBack isRepeat compatible l r with
      | none => false
      | some (l, r) => RepeatPattern.overlap isRepeat compatible l r := by
  have h := @stripFront_reverse_overlap _ isRepeat compatible l.reverse r.reverse
  rw [reverse_reverse, reverse_reverse] at h
  rw [h, stripBack]
  cases stripFront isRepeat compatible l.reverse r.reverse with
  | none => rfl
  | some rest => rfl

/-- The values of the recurrence on all suffixes of the columns, longest suffix first. -/
def rowOf (isRepeat : α → Bool) (compatible : α → α → Bool) (l columns : List α) :
    List Bool :=
  columns.tails.map (RepeatPattern.overlap isRepeat compatible l)

theorem rowOf_cons (l : List α) (b : α) (columns : List α) :
    rowOf isRepeat compatible l (b :: columns) =
      RepeatPattern.overlap isRepeat compatible l (b :: columns) ::
        rowOf isRepeat compatible l columns := rfl

theorem rowOf_head (l columns : List α) :
    (rowOf isRepeat compatible l columns).headD false =
      RepeatPattern.overlap isRepeat compatible l columns := by
  cases columns <;> rfl

theorem initialRow_eq (columns : List α) :
    initialRow isRepeat columns = rowOf isRepeat compatible [] columns := by
  induction columns with
  | nil => rfl
  | cons b columns ih =>
    rw [initialRow, ih, rowOf_cons, rowOf_head, RepeatPattern.overlap_nil_left,
      RepeatPattern.overlap_nil_left, all_cons]

theorem stepRow_eq (a : α) (l columns : List α) :
    stepRow isRepeat compatible a columns (rowOf isRepeat compatible l columns) =
      rowOf isRepeat compatible (a :: l) columns := by
  induction columns with
  | nil => rfl
  | cons b columns ih =>
    rw [rowOf_cons, stepRow, tail_cons, ih, rowOf_cons, rowOf_head, rowOf_head,
      headD_cons, RepeatPattern.overlap_cons_cons, Bool.and_comm]

theorem foldRows_eq (rows columns : List α) :
    rows.foldr (fun a row => stepRow isRepeat compatible a columns row)
        (initialRow isRepeat columns) = rowOf isRepeat compatible rows columns := by
  induction rows with
  | nil => exact initialRow_eq columns
  | cons a rows ih => rw [foldr_cons, ih, stepRow_eq]

/-- The procedure computes the recurrence, for every symmetric compatibility. -/
theorem sequencePatternsOverlap_eq (hc : ∀ a b, compatible a b = compatible b a)
    (left right : List α) :
    sequencePatternsOverlap isRepeat compatible left right =
      RepeatPattern.overlap isRepeat compatible left right := by
  rw [stripFront_overlap, sequencePatternsOverlap]
  cases stripFront isRepeat compatible left right with
  | none => rfl
  | some front =>
    obtain ⟨left, right⟩ := front
    dsimp only
    rw [stripBack_overlap]
    cases stripBack isRepeat compatible left right with
    | none => rfl
    | some back =>
      obtain ⟨left, right⟩ := back
      dsimp only
      cases left with
      | nil => rfl
      | cons a l =>
        cases right with
        | nil => rw [RepeatPattern.overlap_nil_right]; rfl
        | cons b r =>
          rw [isEmpty_cons, isEmpty_cons, if_neg Bool.false_ne_true, if_neg Bool.false_ne_true]
          split
          · next h =>
            rcases Bool.or_eq_true_iff.mp h with h | h
            · rw [RepeatPattern.overlap_of_all_repeat h]
            · rw [RepeatPattern.overlap_comm hc, RepeatPattern.overlap_of_all_repeat h]
          · split
            · rw [foldRows_eq, rowOf_head]
            · rw [foldRows_eq, rowOf_head, RepeatPattern.overlap_comm hc]

end

/-! ### Simple character globs -/

/-- `SimpleGlobToken`. -/
inductive SimpleGlobToken where
  | literal (c : Char)
  | anyChar
  | anyString
  deriving DecidableEq

namespace SimpleGlobToken

def isAnyString : SimpleGlobToken → Bool
  | .anyString => true
  | _ => false

/-- The compatibility closure of `simple_glob_tokens_overlap`. -/
def compatible : SimpleGlobToken → SimpleGlobToken → Bool
  | .literal a, .literal b => a == b
  | _, _ => true

theorem compatible_comm (a b : SimpleGlobToken) : compatible a b = compatible b a := by
  cases a <;> cases b <;> simp [compatible, Bool.beq_comm]

end SimpleGlobToken

/-- `parse_simple_glob_tokens`, with the tokens pushed so far as the accumulator. -/
def parseSimpleGlobTokensFrom (caseInsensitive : Bool) :
    List SimpleGlobToken → Text → Option (List SimpleGlobToken)
  | tokens, [] => some tokens
  | tokens, ch :: rest =>
    if ch = '*' then
      if tokens.getLast? = some .anyString then parseSimpleGlobTokensFrom caseInsensitive tokens rest
      else parseSimpleGlobTokensFrom caseInsensitive (tokens ++ [.anyString]) rest
    else if ch = '?' then parseSimpleGlobTokensFrom caseInsensitive (tokens ++ [.anyChar]) rest
    else if ch = '[' ∨ ch = ']' ∨ ch = '{' ∨ ch = '}' then none
    else parseSimpleGlobTokensFrom caseInsensitive
      (tokens ++ [.literal (foldChar caseInsensitive ch)]) rest

/-- `parse_simple_glob_tokens`. -/
def parseSimpleGlobTokens (caseInsensitive : Bool) (segment : Text) :
    Option (List SimpleGlobToken) :=
  parseSimpleGlobTokensFrom caseInsensitive [] segment

/-- `simple_glob_tokens_overlap`. -/
def simpleGlobTokensOverlap (left right : List SimpleGlobToken) : Bool :=
  sequencePatternsOverlap SimpleGlobToken.isAnyString SimpleGlobToken.compatible left right

/-- `simple_glob_patterns_overlap`; `none` when either side needs more than `*` and `?`. -/
def simpleGlobPatternsOverlap (caseInsensitive : Bool) (left right : Text) : Option Bool := do
  let leftTokens ← parseSimpleGlobTokens caseInsensitive left
  let rightTokens ← parseSimpleGlobTokens caseInsensitive right
  some (simpleGlobTokensOverlap leftTokens rightTokens)

theorem simpleGlobPatternsOverlap_comm (ci : Bool) (left right : Text) :
    simpleGlobPatternsOverlap ci left right = simpleGlobPatternsOverlap ci right left := by
  unfold simpleGlobPatternsOverlap
  cases parseSimpleGlobTokens ci left with
  | none => cases parseSimpleGlobTokens ci right <;> rfl
  | some l =>
    cases parseSimpleGlobTokens ci right with
    | none => rfl
    | some r =>
      change some (simpleGlobTokensOverlap l r) = some (simpleGlobTokensOverlap r l)
      unfold simpleGlobTokensOverlap
      rw [sequencePatternsOverlap_eq SimpleGlobToken.compatible_comm,
        sequencePatternsOverlap_eq SimpleGlobToken.compatible_comm,
        RepeatPattern.overlap_comm SimpleGlobToken.compatible_comm]

end AgentMail.Pattern
