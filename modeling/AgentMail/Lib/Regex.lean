import Mathlib.Data.List.Basic

/-!
# Regular expressions with priorities

Backtracking search: the ends of the matches at a place in order of preference, the preferred match
at the leftmost place, and the replacement of all matches from left to right. `Matches` says which
texts match, whatever the preference.
-/

namespace AgentMail.Lib

open List

universe u

/-- Patterns; `edge` stands between a word character and another one. -/
inductive Regex (α : Type u) where
  | empty
  | one (p : α → Bool)
  | seq (r s : Regex α)
  | alt (r s : Regex α)
  | star (greedy : Bool) (r : Regex α)
  | edge (word : α → Bool)

/-- A place in a text: the character before it and what follows. -/
structure Place (α : Type u) where
  prev : Option α
  rest : List α

namespace Regex

variable {α : Type u}

/-! ### Searching -/

/-- One repetition after the other, each of which takes something. -/
def repeatFrom (once : Place α → List (Place α)) (greedy : Bool) : Nat → Place α → List (Place α)
  | 0, a => [a]
  | n + 1, a =>
    let more := ((once a).filter fun b => b.rest.length < a.rest.length).flatMap
      (repeatFrom once greedy n)
    if greedy then more ++ [a] else a :: more

/-- Where the matches at a place end, the preferred one first. -/
def ends : Regex α → Place α → List (Place α)
  | .empty, a => [a]
  | .one p, a =>
    match a.rest with
    | [] => []
    | c :: rest => if p c then [⟨some c, rest⟩] else []
  | .seq r s, a => (r.ends a).flatMap s.ends
  | .alt r s, a => r.ends a ++ s.ends a
  | .star greedy r, a => repeatFrom r.ends greedy a.rest.length a
  | .edge word, a => if a.prev.any word != a.rest.head?.any word then [a] else []

/-- Replace the matches that take something, and count them; the fuel is the length of the text. -/
def scan (r : Regex α) (mark : List α) : Nat → Place α → List α × Nat
  | 0, a => (a.rest, 0)
  | n + 1, a =>
    match a.rest with
    | [] => ([], 0)
    | c :: rest =>
      match (r.ends a).head? with
      | some b =>
        if b.rest.length ≤ rest.length then
          let out := r.scan mark n b
          (mark ++ out.1, out.2 + 1)
        else
          let out := r.scan mark n ⟨some c, rest⟩
          (c :: out.1, out.2)
      | none =>
        let out := r.scan mark n ⟨some c, rest⟩
        (c :: out.1, out.2)

/-- `find_iter(..).count()`. -/
def findCount (r : Regex α) (t : List α) : Nat := (r.scan [] t.length ⟨none, t⟩).2

/-- `replace_all`. -/
def replaceAll (r : Regex α) (mark t : List α) : List α := (r.scan mark t.length ⟨none, t⟩).1

/-! ### Building patterns -/

/-- One of some characters after the other. -/
def chain : List (α → Bool) → Regex α
  | [] => .empty
  | p :: ps => .seq (.one p) (chain ps)

/-- `r{n,}`. -/
def atLeast (r : Regex α) : Nat → Regex α
  | 0 => .star true r
  | n + 1 => .seq r (r.atLeast n)

/-- `r{n}`. -/
def times (r : Regex α) : Nat → Regex α
  | 0 => .empty
  | n + 1 => .seq r (r.times n)

/-- `r?`. -/
def optional (r : Regex α) : Regex α := .alt r .empty

/-- One of several patterns, the first one preferred. -/
def oneOf : List (Regex α) → Regex α
  | [] => .one fun _ => false
  | [r] => r
  | r :: rs => .alt r (oneOf rs)

/-! ### What matches -/

/-- The character before a place after some text. -/
def lastOr (w : List α) (prev : Option α) : Option α := w.getLast?.or prev

/-- The character after a place before some text. -/
def headOr (w : List α) (next : Option α) : Option α := w.head?.or next

@[simp] theorem lastOr_nil (prev : Option α) : lastOr [] prev = prev := rfl

@[simp] theorem headOr_nil (next : Option α) : headOr [] next = next := rfl

@[simp] theorem headOr_cons (c : α) (w : List α) (next : Option α) :
    headOr (c :: w) next = some c := rfl

@[simp] theorem lastOr_singleton (c : α) (prev : Option α) : lastOr [c] prev = some c := rfl

theorem lastOr_append (w v : List α) (prev : Option α) :
    lastOr (w ++ v) prev = lastOr v (lastOr w prev) := by
  simp only [lastOr, List.getLast?_append, Option.or_assoc]

theorem head?_append (w v : List α) : (w ++ v).head? = headOr w v.head? :=
  List.head?_append

/-- A text matches between two characters. -/
inductive Matches : Regex α → Option α → List α → Option α → Prop where
  | empty {prev next} : Matches .empty prev [] next
  | one {p c prev next} : p c = true → Matches (.one p) prev [c] next
  | seq {r s w v prev next} : Matches r prev w (headOr v next) → Matches s (lastOr w prev) v next →
      Matches (.seq r s) prev (w ++ v) next
  | left {r s w prev next} : Matches r prev w next → Matches (.alt r s) prev w next
  | right {r s w prev next} : Matches s prev w next → Matches (.alt r s) prev w next
  | stop {greedy r prev next} : Matches (.star greedy r) prev [] next
  | more {greedy r w v prev next} : w ≠ [] → Matches r prev w (headOr v next) →
      Matches (.star greedy r) (lastOr w prev) v next → Matches (.star greedy r) prev (w ++ v) next
  | edge {word prev next} : (prev.any word != next.any word) = true →
      Matches (.edge word) prev [] next

/-- The text between two places matches. -/
def Leads (r : Regex α) (a b : Place α) : Prop :=
  ∃ w, a.rest = w ++ b.rest ∧ b.prev = lastOr w a.prev ∧ Matches r a.prev w b.rest.head?

variable {r : Regex α}

theorem leads_star_iff {greedy : Bool} {a b : Place α} :
    Leads (.star greedy r) a b ↔ b = a ∨ ∃ c, Leads r a c ∧ c.rest.length < a.rest.length ∧
      Leads (.star greedy r) c b := by
  obtain ⟨prev, rest⟩ := a
  obtain ⟨prev', rest'⟩ := b
  constructor
  · rintro ⟨w, hrest, hprev, hmatches⟩
    dsimp only at hrest hprev hmatches
    subst hrest hprev
    cases hmatches with
    | stop => exact Or.inl rfl
    | @more _ _ w v _ _ hne hfirst hothers =>
      refine Or.inr ⟨⟨lastOr w prev, v ++ rest'⟩, ⟨w, by simp, rfl, ?_⟩, ?_, ⟨v, rfl, ?_, hothers⟩⟩
      · rwa [head?_append]
      · have hpos := length_pos_iff.mpr hne
        simp only [length_append]
        omega
      · exact lastOr_append w v prev
  · rintro (heq | ⟨c, ⟨w, hrest, hprev, hfirst⟩, hlt, ⟨v, hrest', hprev', hothers⟩⟩)
    · cases heq
      exact ⟨[], rfl, rfl, .stop⟩
    · obtain ⟨mid, crest⟩ := c
      dsimp only at hrest hprev hfirst hlt hrest' hprev' hothers
      subst hrest hprev hrest' hprev'
      have hne : w ≠ [] := by
        rintro rfl
        simp at hlt
      rw [head?_append] at hfirst
      exact ⟨w ++ v, by simp, (lastOr_append w v prev).symm, .more hne hfirst hothers⟩

theorem mem_repeatFrom {greedy : Bool} (ih : ∀ a b, b ∈ r.ends a ↔ Leads r a b) {n : Nat}
    {a b : Place α} (hn : a.rest.length ≤ n) :
    b ∈ repeatFrom r.ends greedy n a ↔ Leads (.star greedy r) a b := by
  induction n generalizing a with
  | zero =>
    have hrest : a.rest = [] := length_eq_zero_iff.mp (Nat.le_zero.mp hn)
    rw [leads_star_iff, repeatFrom, mem_singleton]
    constructor
    · exact Or.inl
    · rintro (heq | ⟨c, _, hlt, _⟩)
      · exact heq
      · rw [hrest] at hlt
        exact absurd hlt (Nat.not_lt_zero _)
  | succ n ihn =>
    have hmore : b ∈ ((r.ends a).filter fun c => c.rest.length < a.rest.length).flatMap
        (repeatFrom r.ends greedy n) ↔
          ∃ c, Leads r a c ∧ c.rest.length < a.rest.length ∧ Leads (.star greedy r) c b := by
      rw [mem_flatMap]
      constructor
      · rintro ⟨c, hc, hb⟩
        rw [mem_filter, decide_eq_true_iff] at hc
        exact ⟨c, (ih a c).mp hc.1, hc.2, (ihn (by omega)).mp hb⟩
      · rintro ⟨c, hlead, hlt, hb⟩
        refine ⟨c, mem_filter.mpr ⟨(ih a c).mpr hlead, decide_eq_true hlt⟩, ?_⟩
        exact (ihn (by omega)).mpr hb
    rw [leads_star_iff, repeatFrom]
    split
    · rw [mem_append, mem_singleton, hmore, or_comm]
    · rw [mem_cons, hmore]

/-- The search finds what matches. -/
theorem mem_ends (r : Regex α) (a b : Place α) : b ∈ r.ends a ↔ Leads r a b := by
  induction r generalizing a b with
  | empty =>
    rw [ends, mem_singleton]
    constructor
    · rintro rfl
      exact ⟨[], rfl, rfl, .empty⟩
    · rintro ⟨w, hrest, hprev, hmatches⟩
      cases hmatches
      obtain ⟨prev, rest⟩ := a
      obtain ⟨prev', rest'⟩ := b
      dsimp only [lastOr_nil, nil_append] at hrest hprev
      rw [hrest, hprev]
  | one p =>
    obtain ⟨prev, rest⟩ := a
    obtain ⟨prev', rest'⟩ := b
    rw [ends]
    constructor
    · intro h
      dsimp only at h
      cases rest with
      | nil => cases h
      | cons c rest =>
        dsimp only at h
        split at h
        · next hp =>
          rw [mem_singleton] at h
          cases h
          exact ⟨[c], rfl, rfl, .one hp⟩
        · cases h
    · rintro ⟨w, hrest, hprev, hmatches⟩
      cases hmatches with
      | @one _ c _ _ hp =>
        dsimp only [singleton_append, lastOr_singleton] at hrest hprev
        subst hrest hprev
        dsimp only
        rw [if_pos hp]
        exact mem_singleton_self _
  | seq r s ihr ihs =>
    rw [ends, mem_flatMap]
    constructor
    · rintro ⟨c, hc, hb⟩
      obtain ⟨w, hrest, hprev, hr⟩ := (ihr a c).mp hc
      obtain ⟨v, hrest', hprev', hs⟩ := (ihs c b).mp hb
      rw [hrest', head?_append] at hr
      rw [hprev] at hs
      refine ⟨w ++ v, by rw [hrest, hrest', append_assoc], ?_, .seq hr hs⟩
      rw [hprev', hprev, lastOr_append]
    · rintro ⟨x, hrest, hprev, hmatches⟩
      cases hmatches with
      | @seq _ _ w v _ _ hr hs =>
        refine ⟨⟨lastOr w a.prev, v ++ b.rest⟩, (ihr _ _).mpr ⟨w, ?_, rfl, ?_⟩,
          (ihs _ _).mpr ⟨v, rfl, ?_, hs⟩⟩
        · rw [hrest, append_assoc]
        · rwa [head?_append]
        · rw [hprev, lastOr_append]
  | alt r s ihr ihs =>
    rw [ends, mem_append, ihr, ihs]
    constructor
    · rintro (⟨w, hrest, hprev, h⟩ | ⟨w, hrest, hprev, h⟩)
      · exact ⟨w, hrest, hprev, .left h⟩
      · exact ⟨w, hrest, hprev, .right h⟩
    · rintro ⟨w, hrest, hprev, hmatches⟩
      cases hmatches with
      | left h => exact Or.inl ⟨w, hrest, hprev, h⟩
      | right h => exact Or.inr ⟨w, hrest, hprev, h⟩
  | star greedy r ih => exact mem_repeatFrom ih (Nat.le_refl _)
  | edge word =>
    rw [ends]
    constructor
    · intro h
      split at h
      · next hedge =>
        rw [mem_singleton] at h
        subst h
        exact ⟨[], rfl, rfl, .edge hedge⟩
      · cases h
    · rintro ⟨w, hrest, hprev, hmatches⟩
      cases hmatches with
      | edge hedge =>
        obtain ⟨prev, rest⟩ := a
        obtain ⟨prev', rest'⟩ := b
        dsimp only [lastOr_nil, nil_append] at hrest hprev hedge
        subst hrest hprev
        rw [if_pos hedge]
        exact mem_singleton_self _

/-! ### Characters of a match -/

/-- A character that can stand in a match. -/
def accepts (c : α) : Regex α → Bool
  | .empty => false
  | .one p => p c
  | .seq r s => r.accepts c || s.accepts c
  | .alt r s => r.accepts c || s.accepts c
  | .star _ r => r.accepts c
  | .edge _ => false

variable {w : List α}

theorem accepts_of_matches {prev next : Option α} (h : Matches r prev w next) :
    ∀ c ∈ w, r.accepts c = true := by
  induction h with
  | empty => exact forall_mem_nil _
  | one hp => exact forall_mem_singleton.mpr hp
  | seq _ _ ihr ihs =>
    rw [forall_mem_append]
    exact ⟨fun c hc => Bool.or_eq_true_iff.mpr (Or.inl (ihr c hc)),
      fun c hc => Bool.or_eq_true_iff.mpr (Or.inr (ihs c hc))⟩
  | left _ ih => exact fun c hc => Bool.or_eq_true_iff.mpr (Or.inl (ih c hc))
  | right _ ih => exact fun c hc => Bool.or_eq_true_iff.mpr (Or.inr (ih c hc))
  | stop => exact forall_mem_nil _
  | more _ _ _ ihr ihs => exact forall_mem_append.mpr ⟨ihr, ihs⟩
  | edge _ => exact forall_mem_nil _

/-- Whether some of these characters may be enough for a match. -/
def within (cs : List α) : Regex α → Bool
  | .empty => true
  | .one p => cs.any p
  | .seq r s => r.within cs && s.within cs
  | .alt r s => r.within cs || s.within cs
  | .star _ _ => true
  | .edge _ => true

theorem within_of_matches {cs : List α} {prev next : Option α} (h : Matches r prev w next)
    (hw : ∀ c ∈ w, c ∈ cs) : r.within cs = true := by
  induction h with
  | empty => rfl
  | one hp => exact any_eq_true.mpr ⟨_, hw _ (mem_singleton_self _), hp⟩
  | seq _ _ ihr ihs =>
    rw [forall_mem_append] at hw
    exact Bool.and_eq_true_iff.mpr ⟨ihr hw.1, ihs hw.2⟩
  | left _ ih => exact Bool.or_eq_true_iff.mpr (Or.inl (ih hw))
  | right _ ih => exact Bool.or_eq_true_iff.mpr (Or.inr (ih hw))
  | stop => rfl
  | more _ _ _ _ _ => rfl
  | edge _ => rfl

/-- A pattern that does not look around. -/
def edgeFree : Regex α → Bool
  | .empty => true
  | .one _ => true
  | .seq r s => r.edgeFree && s.edgeFree
  | .alt r s => r.edgeFree && s.edgeFree
  | .star _ r => r.edgeFree
  | .edge _ => false

theorem Matches.anywhere {prev next : Option α} (h : Matches r prev w next)
    (hr : r.edgeFree = true) (prev' next' : Option α) : Matches r prev' w next' := by
  induction h generalizing prev' next' with
  | empty => exact .empty
  | one hp => exact .one hp
  | seq _ _ ihr ihs =>
    rw [edgeFree, Bool.and_eq_true] at hr
    exact .seq (ihr hr.1 _ _) (ihs hr.2 _ _)
  | left _ ih =>
    rw [edgeFree, Bool.and_eq_true] at hr
    exact .left (ih hr.1 _ _)
  | right _ ih =>
    rw [edgeFree, Bool.and_eq_true] at hr
    exact .right (ih hr.2 _ _)
  | stop => exact .stop
  | more hne _ _ ihr ihs => exact .more hne (ihr hr _ _) (ihs hr _ _)
  | edge _ => cases hr

/-! ### Runs of one class -/

theorem matches_seq {s : Regex α} {prev next : Option α} {x : List α} :
    Matches (.seq r s) prev x next ↔ ∃ w v, x = w ++ v ∧ Matches r prev w (headOr v next) ∧
      Matches s (lastOr w prev) v next := by
  constructor
  · intro h
    cases h with
    | seq hr hs => exact ⟨_, _, rfl, hr, hs⟩
  · rintro ⟨w, v, rfl, hr, hs⟩
    exact .seq hr hs

variable {p : α → Bool}

theorem matches_one {prev next : Option α} :
    Matches (.one p) prev w next ↔ ∃ c, w = [c] ∧ p c = true := by
  constructor
  · intro h
    cases h with
    | one hp => exact ⟨_, rfl, hp⟩
  · rintro ⟨c, rfl, hp⟩
    exact .one hp

theorem matches_star_one {greedy : Bool} {prev next : Option α} :
    Matches (.star greedy (.one p)) prev w next ↔ ∀ c ∈ w, p c = true := by
  constructor
  · exact accepts_of_matches
  · intro h
    induction w generalizing prev with
    | nil => exact .stop
    | cons c w ih =>
      rw [forall_mem_cons] at h
      exact .more (cons_ne_nil c []) (.one h.1) (ih h.2)

theorem matches_atLeast_one {n : Nat} {prev next : Option α} :
    Matches ((Regex.one p).atLeast n) prev w next ↔ n ≤ w.length ∧ ∀ c ∈ w, p c = true := by
  induction n generalizing prev w with
  | zero =>
    rw [atLeast, matches_star_one]
    exact ⟨fun h => ⟨Nat.zero_le _, h⟩, fun h => h.2⟩
  | succ n ih =>
    rw [atLeast, matches_seq]
    constructor
    · rintro ⟨x, v, rfl, hone, hrest⟩
      obtain ⟨c, rfl, hp⟩ := matches_one.mp hone
      obtain ⟨hlen, hall⟩ := ih.mp hrest
      refine ⟨?_, forall_mem_cons.mpr ⟨hp, hall⟩⟩
      rw [length_append, length_singleton]
      omega
    · rintro ⟨hlen, hall⟩
      cases w with
      | nil => exact absurd hlen (Nat.not_succ_le_zero n)
      | cons c v =>
        rw [forall_mem_cons] at hall
        exact ⟨[c], v, rfl, .one hall.1, ih.mpr ⟨Nat.le_of_succ_le_succ hlen, hall.2⟩⟩

theorem repeatFrom_ne_nil (once : Place α → List (Place α)) (greedy : Bool) (n : Nat) (a : Place α) :
    repeatFrom once greedy n a ≠ [] := by
  cases n with
  | zero => exact cons_ne_nil a []
  | succ n =>
    rw [repeatFrom]
    split
    · exact append_ne_nil_of_right_ne_nil _ (cons_ne_nil a [])
    · exact cons_ne_nil a _

/-- A greedy run is as long as can be. -/
theorem head?_repeatFrom {n : Nat} {a b : Place α} (hn : a.rest.length ≤ n)
    (h : (repeatFrom (Regex.one p).ends true n a).head? = some b) : b.rest.head?.any p = false := by
  induction n generalizing a with
  | zero =>
    have hrest : a.rest = [] := length_eq_zero_iff.mp (Nat.le_zero.mp hn)
    cases h
    rw [hrest]
    rfl
  | succ n ih =>
    obtain ⟨prev, rest⟩ := a
    rw [repeatFrom] at h
    dsimp only at h
    rw [if_pos rfl] at h
    cases rest with
    | nil =>
      cases h
      rfl
    | cons c rest =>
      rw [ends] at h
      dsimp only at h
      by_cases hp : p c = true
      · have hfilter : [(⟨some c, rest⟩ : Place α)].filter
            (fun b => b.rest.length < (c :: rest).length) = [⟨some c, rest⟩] := by simp
        rw [if_pos hp, hfilter, flatMap_cons, flatMap_nil, append_nil] at h
        rw [List.head?_append_of_ne_nil _ (repeatFrom_ne_nil _ _ _ _)] at h
        exact ih (Nat.le_of_succ_le_succ hn) h
      · rw [if_neg hp] at h
        cases h
        exact Bool.not_eq_true _ ▸ hp

/-- A run at the end of the preferred match is as long as can be. -/
theorem head?_ends_atLeast {n : Nat} {a b : Place α}
    (h : (((Regex.one p).atLeast n).ends a).head? = some b) : b.rest.head?.any p = false := by
  induction n generalizing a with
  | zero => exact head?_repeatFrom (Nat.le_refl _) h
  | succ n ih =>
    rw [atLeast, ends, List.head?_flatMap, List.findSome?_eq_some_iff] at h
    obtain ⟨_, c, _, _, hc, _⟩ := h
    exact ih hc

/-- The preferred match of a sequence ends with a preferred match. -/
theorem head?_ends_seq {s : Regex α} {a b : Place α} (h : ((Regex.seq r s).ends a).head? = some b) :
    ∃ c ∈ r.ends a, (s.ends c).head? = some b := by
  rw [ends, List.head?_flatMap, List.findSome?_eq_some_iff] at h
  obtain ⟨front, c, back, hsplit, hc, _⟩ := h
  exact ⟨c, by simp [hsplit], hc⟩

/-! ### Occurrences -/

/-- No match starts at a place. -/
def Misses (r : Regex α) (a : Place α) : Prop :=
  ∀ w rest, a.rest = w ++ rest → w ≠ [] → ¬ Matches r a.prev w rest.head?

/-- Something that is not empty matches somewhere after a place. -/
def Occurs (r : Regex α) (a : Place α) : Prop :=
  ∃ u w v, a.rest = u ++ w ++ v ∧ w ≠ [] ∧ Matches r (lastOr u a.prev) w v.head?

theorem not_occurs_cons {a : Place α} {c : α} {rest : List α} (hrest : a.rest = c :: rest)
    (hmiss : r.Misses a) (h : ¬ r.Occurs ⟨some c, rest⟩) : ¬ r.Occurs a := by
  rintro ⟨u, w, v, hsplit, hne, hmatches⟩
  cases u with
  | nil => exact hmiss w v hsplit hne hmatches
  | cons d u =>
    rw [hrest, cons_append, cons_append, List.cons.injEq] at hsplit
    obtain ⟨rfl, hsplit⟩ := hsplit
    refine h ⟨u, w, v, hsplit, hne, ?_⟩
    rwa [← singleton_append, lastOr_append, lastOr_singleton] at hmatches

/-- What replacing has done, place by place. -/
inductive Scanned (r : Regex α) (mark : List α) : Place α → List α → Nat → Prop where
  | done {a} : a.rest = [] → Scanned r mark a [] 0
  | keep {a c rest out n} : a.rest = c :: rest → r.Misses a → Scanned r mark ⟨some c, rest⟩ out n →
      Scanned r mark a (c :: out) n
  | hit {a b out n} : b.rest.length < a.rest.length → (r.ends a).head? = some b →
      Scanned r mark b out n → Scanned r mark a (mark ++ out) (n + 1)

/-- A pattern that does not match nothing. -/
theorem misses_of_none {a : Place α} (h : (r.ends a).head? = none) : r.Misses a := by
  intro w rest hrest _ hmatches
  have hmem : (⟨lastOr w a.prev, rest⟩ : Place α) ∈ r.ends a :=
    (mem_ends r a _).mpr ⟨w, hrest, rfl, hmatches⟩
  rw [List.head?_eq_none_iff] at h
  rw [h] at hmem
  cases hmem

theorem ne_nil_of_matches (hr : r.within [] = false) {prev next : Option α}
    (h : Matches r prev w next) : w ≠ [] := by
  rintro rfl
  have hwithin : r.within [] = true := within_of_matches h (forall_mem_nil _)
  rw [hr] at hwithin
  cases hwithin

theorem scanned_scan (hr : r.within [] = false) (mark : List α) {n : Nat} {a : Place α}
    (hn : a.rest.length ≤ n) : Scanned r mark a (r.scan mark n a).1 (r.scan mark n a).2 := by
  induction n generalizing a with
  | zero =>
    have hrest : a.rest = [] := length_eq_zero_iff.mp (Nat.le_zero.mp hn)
    rw [scan, hrest]
    exact .done hrest
  | succ n ih =>
    rw [scan]
    cases hrest : a.rest with
    | nil => exact .done hrest
    | cons c rest =>
      rw [hrest, length_cons] at hn
      dsimp only
      cases hfirst : (r.ends a).head? with
      | none => exact .keep hrest (misses_of_none hfirst) (ih (Nat.le_of_succ_le_succ hn))
      | some b =>
        obtain ⟨w, hsplit, _, hmatches⟩ := (mem_ends r a b).mp (mem_of_head? hfirst)
        have hpos := length_pos_iff.mpr (ne_nil_of_matches hr hmatches)
        have hlength := congrArg List.length hsplit
        rw [hrest, length_cons, length_append] at hlength
        have hle : b.rest.length ≤ rest.length := by omega
        dsimp only
        rw [if_pos hle]
        exact .hit (by rw [hrest, length_cons]; omega) hfirst (ih (by omega))

/-- No replacement was made where nothing occurs. -/
theorem Scanned.of_not_occurs {mark : List α} {a : Place α} {out : List α} {n : Nat}
    (h : Scanned r mark a out n) (hnone : ¬ r.Occurs a) : out = a.rest ∧ n = 0 := by
  induction h with
  | done hrest => exact ⟨hrest.symm, rfl⟩
  | @keep a c rest out n hrest _ _ ih =>
    have hlater : ¬ r.Occurs ⟨some c, rest⟩ := by
      rintro ⟨u, w, v, hsplit, hne, hmatches⟩
      dsimp only at hsplit hmatches
      refine hnone ⟨c :: u, w, v, ?_, hne, ?_⟩
      · rw [hrest, hsplit]
        rfl
      · rwa [← singleton_append, lastOr_append, lastOr_singleton]
    obtain ⟨hout, hn⟩ := ih hlater
    exact ⟨by rw [hrest, hout], hn⟩
  | @hit a b out n hlt hfirst _ _ =>
    obtain ⟨w, hsplit, _, hmatches⟩ := (mem_ends r a b).mp (mem_of_head? hfirst)
    have hne : w ≠ [] := by
      rintro rfl
      rw [hsplit, nil_append] at hlt
      exact absurd hlt (Nat.lt_irrefl _)
    exact absurd ⟨[], w, b.rest, hsplit, hne, hmatches⟩ hnone

theorem Scanned.not_occurs {mark : List α} {a : Place α} {out : List α} {n : Nat}
    (h : Scanned r mark a out n) (hn : n = 0) : ¬ r.Occurs a := by
  induction h with
  | done hrest =>
    rintro ⟨u, w, v, hsplit, hne, _⟩
    rw [hrest] at hsplit
    exact hne (append_eq_nil_iff.mp (append_eq_nil_iff.mp hsplit.symm).1).2
  | keep hrest hmiss _ ih => exact not_occurs_cons hrest hmiss (ih hn)
  | hit _ _ _ _ => exact absurd hn (Nat.succ_ne_zero _)

theorem findCount_eq_zero (hr : r.within [] = false) {t : List α} :
    r.findCount t = 0 ↔ ¬ r.Occurs ⟨none, t⟩ :=
  have hscan := scanned_scan hr [] (a := ⟨none, t⟩) (Nat.le_refl _)
  ⟨hscan.not_occurs, fun h => (hscan.of_not_occurs h).2⟩

theorem replaceAll_of_not_occurs (hr : r.within [] = false) (mark : List α) {t : List α}
    (h : ¬ r.Occurs ⟨none, t⟩) : r.replaceAll mark t = t :=
  ((scanned_scan hr mark (a := ⟨none, t⟩) (Nat.le_refl _)).of_not_occurs h).1

end Regex

end AgentMail.Lib
