import AgentMail.Lib.Regex

/-!
# Replacing matches by a bracketed mark

What the matches of one pattern after the other leave of a text when each is replaced by the same
mark, for patterns that cannot reach into a mark.
-/

namespace AgentMail.Lib

open List

universe u v

variable {α : Type u}

/-- A mark: letters between two brackets. -/
structure BracketMark (α : Type u) where
  opening : α
  letters : List α
  closing : α

def BracketMark.text (m : BracketMark α) : List α := m.opening :: m.letters ++ [m.closing]

theorem BracketMark.text_ne_nil (m : BracketMark α) : m.text ≠ [] := cons_ne_nil _ _

theorem BracketMark.lastOr_text (m : BracketMark α) (prev : Option α) :
    Regex.lastOr m.text prev = some m.closing := by
  rw [BracketMark.text, Regex.lastOr_append, Regex.lastOr_singleton]

namespace Regex

/-- No match of the pattern has a bracket of the mark or only letters of it. -/
structure AvoidsMark (m : BracketMark α) (r : Regex α) : Prop where
  opening : r.accepts m.opening = false
  closing : r.accepts m.closing = false
  letters : r.within m.letters = false

variable {m : BracketMark α} {r r' : Regex α} {prev next : Option α}

theorem within_mono {cs ds : List α} (h : ∀ c ∈ cs, c ∈ ds) (hr : r.within cs = true) :
    r.within ds = true := by
  induction r with
  | empty => rfl
  | one p =>
    rw [within, any_eq_true] at hr ⊢
    obtain ⟨c, hc, hp⟩ := hr
    exact ⟨c, h c hc, hp⟩
  | seq r s ihr ihs =>
    rw [within, Bool.and_eq_true] at hr ⊢
    exact ⟨ihr hr.1, ihs hr.2⟩
  | alt r s ihr ihs =>
    rw [within, Bool.or_eq_true] at hr ⊢
    exact hr.imp ihr ihs
  | star greedy r _ => rfl
  | edge word => rfl

section

variable (hr : AvoidsMark m r)
include hr

theorem AvoidsMark.edge {p : α → Bool} : AvoidsMark m (.seq (.edge p) r) where
  opening := hr.opening
  closing := hr.closing
  letters := hr.letters

theorem AvoidsMark.within_nil : r.within [] = false := by
  cases hnil : r.within [] with
  | false => rfl
  | true =>
    have hletters := hr.letters
    rw [within_mono (forall_mem_nil _) hnil] at hletters
    cases hletters

theorem AvoidsMark.ne_nil {w : List α} (h : Matches r prev w next) :
    w ≠ [] := ne_nil_of_matches hr.within_nil h

theorem AvoidsMark.not_mem_opening {w : List α} (h : Matches r prev w next) :
    m.opening ∉ w := by
  intro hmem
  have hacc := accepts_of_matches h _ hmem
  rw [hr.opening] at hacc
  cases hacc

theorem AvoidsMark.not_mem_closing {w : List α} (h : Matches r prev w next) :
    m.closing ∉ w := by
  intro hmem
  have hacc := accepts_of_matches h _ hmem
  rw [hr.closing] at hacc
  cases hacc

/-- No match starts inside a mark. -/
theorem AvoidsMark.not_in_mark {w : List α} (h : Matches r prev w next)
    {x y z : List α} (hx : x ≠ []) (hsuffix : x <:+ m.text) (heq : x ++ y = w ++ z) : False := by
  have hne := hr.ne_nil h
  obtain ⟨before, htext⟩ := hsuffix
  obtain ⟨front, rfl⟩ : ∃ front, x = front ++ [m.closing] := by
    obtain ⟨front, d, hd⟩ := eq_nil_or_concat x |>.resolve_left hx
    rw [concat_eq_append] at hd
    rw [hd, BracketMark.text, ← append_assoc] at htext
    have hlast := append_inj_right' htext rfl
    exact ⟨front, by rw [hd, hlast]⟩
  have hshort : w <+: front := by
    rw [append_assoc, append_eq_append_iff] at heq
    rcases heq with ⟨v, hw, hv⟩ | ⟨v, hfront, _⟩
    · cases v with
      | nil => exact ⟨[], by simp [hw]⟩
      | cons d v =>
        rw [singleton_append, cons_append, List.cons.injEq] at hv
        refine absurd ?_ (hr.not_mem_closing h)
        rw [hw, hv.1]
        simp
    · exact ⟨v, hfront.symm⟩
  obtain ⟨tail, rfl⟩ := hshort
  rw [BracketMark.text, ← append_assoc] at htext
  have hinner := append_inj_left' htext rfl
  cases before with
  | nil =>
    cases w with
    | nil => exact hne rfl
    | cons c w =>
      rw [nil_append, cons_append, List.cons.injEq] at hinner
      exact hr.not_mem_opening h (hinner.1 ▸ mem_cons_self)
  | cons d before =>
    rw [cons_append, List.cons.injEq] at hinner
    have hwithin : r.within m.letters = true := by
      apply within_of_matches h
      intro c hc
      rw [← hinner.2]
      simp [hc]
    rw [hr.letters] at hwithin
    cases hwithin

end

/-! ### What was there before -/

variable {out : List α} {a : Place α} {n : Nat}

/-- A part of the result without marks stood there. -/
theorem Scanned.kept (h : Scanned r' m.text a out n) {w v : List α} (hout : out = w ++ v)
    (hw : m.opening ∉ w) :
    ∃ rest n', a.rest = w ++ rest ∧ Scanned r' m.text ⟨lastOr w a.prev, rest⟩ v n' := by
  induction w generalizing a out n with
  | nil =>
    rw [hout, nil_append] at h
    exact ⟨a.rest, n, rfl, h⟩
  | cons c w ih =>
    rw [mem_cons, not_or] at hw
    cases h with
    | done _ => cases hout
    | @keep _ d rest out' _ hrest hmiss hnext =>
      rw [cons_append, List.cons.injEq] at hout
      obtain ⟨rfl, hout⟩ := hout
      obtain ⟨rest', n', hrest', hscan⟩ := ih hnext hout hw.2
      dsimp only at hrest' hscan
      refine ⟨rest', n', by rw [hrest, hrest']; rfl, ?_⟩
      rwa [← singleton_append, lastOr_append, lastOr_singleton]
    | hit _ _ _ =>
      simp only [BracketMark.text, cons_append, List.cons.injEq] at hout
      exact absurd hout.1 hw.1

/-- Where a place is right after a replaced match. -/
def AfterHit (r : Regex α) (b : Place α) : Prop := ∃ a, (r.ends a).head? = some b

/-- The character that the result has before a place: the one that was there, or the end of a mark. -/
def Before (m : BracketMark α) (r : Regex α) (b : Place α) (prev : Option α) : Prop :=
  prev = b.prev ∨ prev = some m.closing ∧ AfterHit r b

/-- A part of the result that a pattern matches which avoids the mark was kept. -/
theorem Scanned.origin (h : Scanned r' m.text a out n) (hr : AvoidsMark m r) {u w v : List α}
    (hout : out = u ++ w ++ v) (hmatches : Matches r prev w next) {p : Option α}
    (hp : Before m r' a p) :
    ∃ b front rest n', a.rest = front ++ b.rest ∧ b.prev = lastOr front a.prev ∧
      b.rest = w ++ rest ∧ r'.Misses b ∧ Before m r' b (lastOr u p) ∧
      Scanned r' m.text ⟨lastOr w b.prev, rest⟩ v n' := by
  induction h generalizing u p with
  | done _ =>
    have hnil := (append_eq_nil_iff.mp (append_eq_nil_iff.mp hout.symm).1).2
    exact absurd hnil (hr.ne_nil hmatches)
  | @keep a c rest out n hrest hmiss hnext ih =>
    cases u with
    | nil =>
      have hscan : Scanned r' m.text a (c :: out) n := .keep hrest hmiss hnext
      obtain ⟨rest', n', hrest', hlater⟩ := hscan.kept hout (hr.not_mem_opening hmatches)
      exact ⟨a, [], rest', n', rfl, rfl, hrest', hmiss, hp, hlater⟩
    | cons d u =>
      rw [cons_append, cons_append, List.cons.injEq] at hout
      obtain ⟨rfl, hout⟩ := hout
      obtain ⟨b, front, rest', n', hfront, hprev, hmid, hb, hbefore, hlater⟩ :=
        ih hout (p := some c) (Or.inl rfl)
      dsimp only at hfront hprev
      refine ⟨b, c :: front, rest', n', by rw [hrest, hfront]; rfl, ?_, hmid, hb, ?_, hlater⟩
      · rw [hprev, ← singleton_append, lastOr_append, lastOr_singleton]
      · rwa [← singleton_append, lastOr_append, lastOr_singleton]
  | @hit a b out n hlt hfirst hnext ih =>
    obtain ⟨x, hsplit, hprevb, _⟩ := (mem_ends r' a b).mp (mem_of_head? hfirst)
    rw [append_assoc, append_eq_append_iff] at hout
    rcases hout with ⟨u', rfl, hout⟩ | ⟨x', hmark, hout⟩
    · rw [← append_assoc] at hout
      obtain ⟨b', front, rest', n', hfront, hprev, hmid, hb, hbefore, hlater⟩ :=
        ih hout (p := some m.closing) (Or.inr ⟨rfl, a, hfirst⟩)
      refine ⟨b', x ++ front, rest', n', ?_, ?_, hmid, hb, ?_, hlater⟩
      · rw [hsplit, hfront, append_assoc]
      · rw [hprev, hprevb, lastOr_append]
      · rwa [lastOr_append, m.lastOr_text]
    · cases x' with
      | nil =>
        rw [append_nil] at hmark
        rw [nil_append] at hout
        obtain ⟨b', front, rest', n', hfront, hprev, hmid, hb, hbefore, hlater⟩ :=
          ih (u := []) hout.symm (p := some m.closing) (Or.inr ⟨rfl, a, hfirst⟩)
        refine ⟨b', x ++ front, rest', n', ?_, ?_, hmid, hb, ?_, hlater⟩
        · rw [hsplit, hfront, append_assoc]
        · rw [hprev, hprevb, lastOr_append]
        · rwa [← hmark, m.lastOr_text]
      | cons d x' =>
        exact (hr.not_in_mark hmatches (cons_ne_nil d x') ⟨u, hmark.symm⟩ hout.symm).elim

/-- Replacing brings no new occurrence of a pattern that avoids the mark. -/
theorem AvoidsMark.occurs_before (hr : AvoidsMark m r) (hfree : r.edgeFree = true)
    (h : Scanned r' m.text a out n) (hoccurs : r.Occurs ⟨prev, out⟩) : r.Occurs a := by
  obtain ⟨u, w, v, hout, hne, hmatches⟩ := hoccurs
  obtain ⟨b, front, rest, _, hfront, hprev, hrest, _, _, _⟩ :=
    h.origin hr hout hmatches (p := a.prev) (Or.inl rfl)
  refine ⟨front, w, rest, by rw [hfront, hrest, append_assoc], hne, ?_⟩
  exact hmatches.anywhere hfree _ _

/-- Nor does the pattern's own replacing leave one. -/
theorem AvoidsMark.not_occurs_after (hr : AvoidsMark m r) (hfree : r.edgeFree = true)
    (h : Scanned r m.text a out n) : ¬ r.Occurs ⟨prev, out⟩ := by
  rintro ⟨u, w, v, hout, hne, hmatches⟩
  obtain ⟨b, _, rest, _, _, _, hrest, hmiss, _, _⟩ :=
    h.origin hr hout hmatches (p := a.prev) (Or.inl rfl)
  exact hmiss w rest hrest hne (hmatches.anywhere hfree _ _)

/-! ### A block with anything between two ends -/

section

variable {first last : Regex α} {any : α → Bool}

/-- `first.*?last`, where the dot takes every character. -/
def block (first : Regex α) (any : α → Bool) (last : Regex α) : Regex α :=
  .seq first (.seq (.star false (.one any)) last)

theorem matches_block (hany : ∀ c, any c = true) {x : List α} :
    Matches (block first any last) prev x next ↔ ∃ w y v, x = w ++ (y ++ v) ∧
      Matches first prev w (headOr (y ++ v) next) ∧
      Matches last (lastOr y (lastOr w prev)) v next := by
  rw [block, matches_seq]
  constructor
  · rintro ⟨w, z, rfl, hfirst, hz⟩
    obtain ⟨y, v, rfl, _, hlast⟩ := matches_seq.mp hz
    exact ⟨w, y, v, rfl, hfirst, hlast⟩
  · rintro ⟨w, y, v, rfl, hfirst, hlast⟩
    refine ⟨w, y ++ v, rfl, hfirst, matches_seq.mpr ⟨y, v, rfl, ?_, hlast⟩⟩
    exact matches_star_one.mpr fun c _ => hany c

/-- Ends of a block that avoid the mark. -/
structure Encloses (m : BracketMark α) (first : Regex α) (any : α → Bool) (last : Regex α) : Prop where
  anything : ∀ c, any c = true
  atFirst : AvoidsMark m first
  atLast : AvoidsMark m last
  freeFirst : first.edgeFree = true
  freeLast : last.edgeFree = true

/-- Where the result has a block, there was one at a place that was kept. -/
theorem block_origin (hends : Encloses m first any last) (h : Scanned r' m.text a out n)
    (hoccurs : (block first any last).Occurs ⟨prev, out⟩) :
    ∃ b front x rest, a.rest = front ++ b.rest ∧ b.prev = lastOr front a.prev ∧
      b.rest = x ++ rest ∧ x ≠ [] ∧ r'.Misses b ∧
      Matches (block first any last) b.prev x rest.head? := by
  obtain ⟨u, x, z, hout, _, hmatches⟩ := hoccurs
  obtain ⟨w, y, v, rfl, hw, hv⟩ := (matches_block hends.anything).mp hmatches
  have hsplit : out = u ++ w ++ (y ++ v ++ z) := by
    dsimp only at hout
    rw [hout]
    simp only [append_assoc]
  obtain ⟨b, front, rest, n', hfront, hprev, hrest, hmiss, _, hlater⟩ :=
    h.origin hends.atFirst hsplit hw (p := a.prev) (Or.inl rfl)
  have hsecond : last.Occurs ⟨lastOr y (lastOr w prev), y ++ v ++ z⟩ :=
    ⟨y, v, z, rfl, hends.atLast.ne_nil hv, hv.anywhere hends.freeLast _ _⟩
  obtain ⟨y', v', z', hrest', _, hv'⟩ := hends.atLast.occurs_before hends.freeLast hlater hsecond
  dsimp only at hrest'
  refine ⟨b, front, w ++ (y' ++ v'), z', hfront, hprev, ?_, ?_, hmiss, ?_⟩
  · rw [hrest, hrest']
    simp only [append_assoc]
  · exact append_ne_nil_of_left_ne_nil (hends.atFirst.ne_nil hw) _
  · exact (matches_block hends.anything).mpr ⟨w, y', v', rfl, hw.anywhere hends.freeFirst _ _,
      hv'.anywhere hends.freeLast _ _⟩

theorem block_occurs_before (hends : Encloses m first any last) (h : Scanned r' m.text a out n)
    (hoccurs : (block first any last).Occurs ⟨prev, out⟩) : (block first any last).Occurs a := by
  obtain ⟨b, front, x, rest, hfront, hprev, hrest, hne, _, hmatches⟩ :=
    block_origin hends h hoccurs
  refine ⟨front, x, rest, by rw [hfront, hrest, append_assoc], hne, ?_⟩
  rwa [← hprev]

theorem block_not_occurs_after (hends : Encloses m first any last)
    (h : Scanned (block first any last) m.text a out n) :
    ¬ (block first any last).Occurs ⟨prev, out⟩ := by
  intro hoccurs
  obtain ⟨b, _, x, rest, _, _, hrest, hne, hmiss, hmatches⟩ :=
    block_origin hends h hoccurs
  exact hmiss x rest hrest hne hmatches

end

/-! ### A run behind a word's edge -/

/-- A pattern behind a word's edge whose matches go on to where no more of `value` stands: its own
replacing leaves no match, if the characters of words are values and the mark ends with none. -/
theorem edge_not_occurs_after {word value : α → Bool} {body : Regex α} (hbody : AvoidsMark m body)
    (hfree : body.edgeFree = true) (hword : ∀ c, word c = true → value c = true)
    (hclosing : word m.closing = false)
    (hgreedy : ∀ a b, (body.ends a).head? = some b → b.rest.head?.any value = false)
    (h : Scanned (.seq (.edge word) body) m.text a out n) (hprev : prev = a.prev) :
    ¬ (Regex.seq (.edge word) body).Occurs ⟨prev, out⟩ := by
  rintro ⟨u, x, v, hout, _, hmatches⟩
  obtain ⟨e, w, rfl, hedge, hw⟩ := matches_seq.mp hmatches
  cases hedge with
  | edge hedge =>
    rw [nil_append] at hout
    rw [lastOr_nil] at hw
    have hne := hbody.ne_nil hw
    obtain ⟨b, _, rest, _, _, _, hrest, hmiss, hbefore, _⟩ :=
      h.origin hbody hout hw (p := prev) (Or.inl hprev)
    dsimp only at hedge
    cases w with
    | nil => exact hne rfl
    | cons c w =>
      rcases hbefore with hsame | ⟨hmark, a', hhit⟩
      · rw [hsame] at hedge
        exact hmiss (c :: w) rest hrest hne (.seq (w := []) (.edge hedge) (hw.anywhere hfree _ _))
      · obtain ⟨a'', _, hlast⟩ := head?_ends_seq hhit
        have hvalue := hgreedy a'' b hlast
        rw [hrest, cons_append, List.head?_cons, Option.any_some] at hvalue
        have hnot : word c = false := by
          cases hc : word c with
          | false => rfl
          | true => rw [← hvalue, hword c hc]
        rw [hmark, Option.any_some, hclosing, headOr_cons, Option.any_some, hnot] at hedge
        cases hedge

end Regex

end AgentMail.Lib
