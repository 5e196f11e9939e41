import AgentMail.Lib.Redact

/-!
# What a redacted text has come from

A redacted text as the characters that were kept and the parts that a mark stands for, and the parts
again after the matches of a further pattern are replaced.
-/

namespace AgentMail.Lib

open List

universe u v

/-- A character that was kept, or a part that a mark stands for, with what has replaced it. -/
inductive Piece (α : Type u) (κ : Type v) where
  | kept (c : α)
  | gone (k : κ) (w : List α)

namespace Piece

variable {α : Type u} {κ : Type v}

/-- What a piece shows. -/
def face (m : BracketMark α) : Piece α κ → List α
  | .kept c => [c]
  | .gone _ _ => m.text

/-- What a piece was. -/
def origin : Piece α κ → List α
  | .kept c => [c]
  | .gone _ w => w

def shown (m : BracketMark α) (pieces : List (Piece α κ)) : List α := pieces.flatMap (face m)

def source (pieces : List (Piece α κ)) : List α := pieces.flatMap origin

variable {m : BracketMark α}

@[simp] theorem shown_nil : shown m ([] : List (Piece α κ)) = [] := rfl

@[simp] theorem shown_cons (p : Piece α κ) (pieces : List (Piece α κ)) :
    shown m (p :: pieces) = p.face m ++ shown m pieces := rfl

@[simp] theorem shown_append (x y : List (Piece α κ)) :
    shown m (x ++ y) = shown m x ++ shown m y := flatMap_append

@[simp] theorem source_nil : source ([] : List (Piece α κ)) = [] := rfl

@[simp] theorem source_cons (p : Piece α κ) (pieces : List (Piece α κ)) :
    source (p :: pieces) = p.origin ++ source pieces := rfl

@[simp] theorem source_append (x y : List (Piece α κ)) : source (x ++ y) = source x ++ source y :=
  flatMap_append

/-- A text of which everything is kept. -/
def plain (w : List α) : List (Piece α κ) := w.map .kept

@[simp] theorem shown_plain (w : List α) : shown m (plain w : List (Piece α κ)) = w := by
  induction w with
  | nil => rfl
  | cons c w ih => exact congrArg (c :: ·) ih

@[simp] theorem source_plain (w : List α) : source (plain w : List (Piece α κ)) = w := by
  induction w with
  | nil => rfl
  | cons c w ih => exact congrArg (c :: ·) ih

/-! ### Where a match stands -/

/-- What shows no mark was kept. -/
theorem split_plain {w rest : List α} {pieces : List (Piece α κ)} (hw : m.opening ∉ w)
    (h : shown m pieces = w ++ rest) :
    ∃ others, pieces = plain w ++ others ∧ shown m others = rest := by
  induction w generalizing pieces with
  | nil => exact ⟨pieces, rfl, h⟩
  | cons c w ih =>
    rw [mem_cons, not_or] at hw
    cases pieces with
    | nil => cases h
    | cons p pieces =>
      cases p with
      | kept d =>
        rw [shown_cons, face, singleton_append, cons_append, List.cons.injEq] at h
        obtain ⟨others, hpieces, hshown⟩ := ih hw.2 h.2
        exact ⟨others, by rw [hpieces, h.1]; rfl, hshown⟩
      | gone k v =>
        simp only [shown_cons, face, BracketMark.text, cons_append, List.cons.injEq] at h
        exact absurd h.1 hw.1

/-- A place where a pattern matches that avoids the mark is between two pieces. -/
theorem split_shown {r : Regex α} (hr : r.AvoidsMark m) {prev next : Option α} {w : List α}
    (hw : r.Matches prev w next) {y z : List α} {pieces : List (Piece α κ)}
    (h : shown m pieces = y ++ (w ++ z)) :
    ∃ front others, pieces = front ++ others ∧ shown m front = y ∧ shown m others = w ++ z := by
  induction pieces generalizing y with
  | nil =>
    have hnil := append_eq_nil_iff.mp h.symm
    exact ⟨[], [], rfl, hnil.1.symm, hnil.2.symm⟩
  | cons p pieces ih =>
    cases y with
    | nil => exact ⟨[], p :: pieces, rfl, rfl, h⟩
    | cons d y =>
      rw [shown_cons, append_eq_append_iff] at h
      rcases h with ⟨y', hy, hrest⟩ | ⟨x, hface, hrest⟩
      · obtain ⟨front, others, rfl, hfront, hothers⟩ := ih hrest
        exact ⟨p :: front, others, rfl, by rw [shown_cons, hfront, hy], hothers⟩
      · cases x with
        | nil =>
          rw [nil_append] at hrest
          rw [append_nil] at hface
          exact ⟨[p], pieces, rfl, by rw [shown_cons, shown_nil, append_nil, hface], hrest.symm⟩
        | cons e x =>
          cases p with
          | kept c =>
            rw [face, cons_append, List.cons.injEq] at hface
            exact absurd hface.2.symm (append_ne_nil_of_right_ne_nil y (cons_ne_nil e x))
          | gone k v =>
            refine (hr.not_in_mark hw (cons_ne_nil e x) ?_ hrest.symm).elim
            exact ⟨d :: y, hface.symm⟩

/-- A pattern whose matches neither start nor end inside a mark. -/
structure Aligned (m : BracketMark α) (r : Regex α) : Prop where
  within_nil : r.within [] = false
  outside : ∀ {prev next w x y z}, r.Matches prev w next → x ≠ [] → x <:+ m.text →
    x ++ y = w ++ z → False
  split : ∀ {κ : Type v} {prev next w rest} {pieces : List (Piece α κ)}, r.Matches prev w next →
    shown m pieces = w ++ rest →
    ∃ front others, pieces = front ++ others ∧ shown m front = w ∧ shown m others = rest

theorem aligned_of_avoids {r : Regex α} (hr : r.AvoidsMark m) : Aligned.{u, v} m r where
  within_nil := hr.within_nil
  outside hw hx hsuffix heq := hr.not_in_mark hw hx hsuffix heq
  split hw h := by
    obtain ⟨others, hpieces, hothers⟩ := split_plain (hr.not_mem_opening hw) h
    exact ⟨plain _, others, hpieces, shown_plain _, hothers⟩

/-- Between two patterns that avoid the mark anything may stand. -/
theorem split_between {first last : Regex α} (hfirst : first.AvoidsMark m)
    (hlast : last.AvoidsMark m) {prev next prev' next' : Option α} {w y v rest : List α}
    (hw : first.Matches prev w next) (hv : last.Matches prev' v next') {pieces : List (Piece α κ)}
    (h : shown m pieces = w ++ (y ++ v) ++ rest) : ∃ middle others,
      pieces = plain w ++ (middle ++ plain v) ++ others ∧ shown m middle = y ∧
        shown m others = rest := by
  rw [append_assoc] at h
  obtain ⟨pieces', hpieces, hshown⟩ := split_plain (hfirst.not_mem_opening hw) h
  rw [append_assoc] at hshown
  obtain ⟨middle, pieces'', hpieces', hmiddle, hshown'⟩ := split_shown hlast hv hshown
  obtain ⟨others, hpieces'', hothers⟩ := split_plain (hlast.not_mem_opening hv) hshown'
  refine ⟨middle, others, ?_, hmiddle, hothers⟩
  rw [hpieces, hpieces', hpieces'']
  simp only [append_assoc]

theorem aligned_between {first middle last : Regex α} (hfirst : first.AvoidsMark m)
    (hlast : last.AvoidsMark m) : Aligned.{u, v} m (.seq first (.seq middle last)) where
  within_nil := by
    rw [Regex.within, hfirst.within_nil, Bool.false_and]
  outside hx hne hsuffix heq := by
    obtain ⟨w, v, rfl, hw, _⟩ := Regex.matches_seq.mp hx
    rw [append_assoc] at heq
    exact hfirst.not_in_mark hw hne hsuffix heq
  split hx h := by
    obtain ⟨w, v, rfl, hw, hv⟩ := Regex.matches_seq.mp hx
    obtain ⟨y, v, rfl, _, hv⟩ := Regex.matches_seq.mp hv
    obtain ⟨inner, others, hpieces, hinner, hothers⟩ := split_between hfirst hlast hw hv h
    refine ⟨_, others, hpieces, ?_, hothers⟩
    rw [shown_append, shown_append, shown_plain, shown_plain, hinner]

/-! ### Coarser pieces -/

/-- Some neighbouring pieces have been taken together, each time for a reason in `late`. -/
inductive Coarser (late : κ → Prop) : List (Piece α κ) → List (Piece α κ) → Prop where
  | nil : Coarser late [] []
  | keep {p x y} : Coarser late x y → Coarser late (p :: x) (p :: y)
  | merge {k part x y} : part ≠ [] → late k → Coarser late x y →
      Coarser late (part ++ x) (.gone k (source part) :: y)

variable {late : κ → Prop} {x y : List (Piece α κ)}

theorem Coarser.refl (late : κ → Prop) (x : List (Piece α κ)) : Coarser late x x := by
  induction x with
  | nil => exact .nil
  | cons p x ih => exact .keep ih

theorem Coarser.mono {late' : κ → Prop} (h : Coarser late x y) (hlate : ∀ k, late k → late' k) :
    Coarser late' x y := by
  induction h with
  | nil => exact .nil
  | keep _ ih => exact .keep ih
  | merge hne hk _ ih => exact .merge hne (hlate _ hk) ih

theorem Coarser.source_eq (h : Coarser late x y) : source x = source y := by
  induction h with
  | nil => rfl
  | keep _ ih => rw [source_cons, source_cons, ih]
  | merge _ _ _ ih =>
    rw [source_append, source_cons, ih]
    rfl

theorem Coarser.split {y' : List (Piece α κ)} (h : Coarser late x (y ++ y')) :
    ∃ front back, x = front ++ back ∧ Coarser late front y ∧ Coarser late back y' := by
  induction y generalizing x with
  | nil => exact ⟨[], x, rfl, .nil, h⟩
  | cons p y ih =>
    rw [cons_append] at h
    cases h with
    | keep h =>
      obtain ⟨front, back, rfl, hfront, hback⟩ := ih h
      exact ⟨p :: front, back, rfl, .keep hfront, hback⟩
    | @merge k part _ _ hne hk h =>
      obtain ⟨front, back, rfl, hfront, hback⟩ := ih h
      exact ⟨part ++ front, back, (append_assoc ..).symm, .merge hne hk hfront, hback⟩

theorem Coarser.kept {c : α} (h : Coarser late x (.kept c :: y)) :
    ∃ back, x = .kept c :: back ∧ Coarser late back y := by
  cases h with
  | keep h => exact ⟨_, rfl, h⟩

theorem Coarser.eq_plain {w : List α} (h : Coarser late x (plain w)) : x = plain w := by
  induction w generalizing x with
  | nil =>
    cases h
    rfl
  | cons c w ih =>
    obtain ⟨back, rfl, hback⟩ := h.kept
    rw [ih hback]
    rfl

theorem Coarser.ne_nil (h : Coarser late x y) (hy : y ≠ []) : x ≠ [] := by
  cases h with
  | nil => exact hy
  | keep _ => exact cons_ne_nil _ _
  | merge hne _ _ => exact append_ne_nil_of_left_ne_nil hne _

theorem Coarser.trans {z : List (Piece α κ)} (h : Coarser late x y) (h' : Coarser late y z) :
    Coarser late x z := by
  induction h' generalizing x with
  | nil => exact h
  | @keep p y z h' ih =>
    cases h with
    | keep h => exact .keep (ih h)
    | merge hne hk h => exact .merge hne hk (ih h)
  | @merge k part y z hne hk _ ih =>
    obtain ⟨front, back, rfl, hfront, hback⟩ := h.split
    rw [← hfront.source_eq]
    exact .merge (hfront.ne_nil hne) hk (ih hback)

/-- What holds of the characters that are still kept and of those that were taken together holds of
the characters that were kept before. -/
theorem Coarser.forall_kept {ok : α → Prop} (h : Coarser late x y) (hkept : ∀ c, .kept c ∈ y → ok c)
    (hgone : ∀ k w, .gone k w ∈ y → late k → ∀ c ∈ w, ok c) : ∀ c, .kept c ∈ x → ok c := by
  induction h with
  | nil => exact fun c hc => absurd hc not_mem_nil
  | keep _ ih =>
    intro c hc
    rcases mem_cons.mp hc with hhead | htail
    · exact hkept c (hhead ▸ mem_cons_self)
    · exact ih (fun c hc => hkept c (mem_cons_of_mem _ hc))
        (fun k w hw => hgone k w (mem_cons_of_mem _ hw)) c htail
  | @merge k part x y _ hk _ ih =>
    intro c hc
    rcases mem_append.mp hc with hpart | hrest
    · apply hgone k (source part) mem_cons_self hk
      exact mem_flatMap.mpr ⟨_, hpart, mem_singleton_self c⟩
    · exact ih (fun c hc => hkept c (mem_cons_of_mem _ hc))
        (fun k w hw => hgone k w (mem_cons_of_mem _ hw)) c hrest

/-! ### Replacing the matches of one pattern -/

/-- The pieces after a pattern's matches are replaced. -/
inductive Swept (m : BracketMark α) (r : Regex α) (k : κ) : Option α → List (Piece α κ) →
    List (Piece α κ) → Prop where
  | nil {prev} : Swept m r k prev [] []
  | keep {p prev x y} : (∀ c, p = .kept c → r.Misses ⟨prev, shown m (p :: x)⟩) →
      Swept m r k (Regex.lastOr (p.face m) prev) x y → Swept m r k prev (p :: x) (p :: y)
  | hit {part prev x y} : part ≠ [] → r.Matches prev (shown m part) (shown m x).head? →
      r.AfterHit ⟨Regex.lastOr (shown m part) prev, shown m x⟩ →
      Swept m r k (Regex.lastOr (shown m part) prev) x y →
      Swept m r k prev (part ++ x) (.gone k (source part) :: y)

variable {r : Regex α} {k : κ} {prev : Option α}

theorem Swept.coarser (h : Swept m r k prev x y) : Coarser (· = k) x y := by
  induction h with
  | nil => exact .nil
  | keep _ _ ih => exact .keep ih
  | hit hne _ _ _ ih => exact .merge hne rfl ih

theorem Swept.split {y' : List (Piece α κ)} (h : Swept m r k prev x (y ++ y')) :
    ∃ front back prev', x = front ++ back ∧ Swept m r k prev' back y' := by
  induction y generalizing x prev with
  | nil => exact ⟨[], x, prev, rfl, h⟩
  | cons p y ih =>
    rw [cons_append] at h
    cases h with
    | keep _ h =>
      obtain ⟨front, back, prev', rfl, hback⟩ := ih h
      exact ⟨p :: front, back, prev', rfl, hback⟩
    | @hit part _ _ _ _ _ _ h =>
      obtain ⟨front, back, prev', rfl, hback⟩ := ih h
      exact ⟨part ++ front, back, prev', (append_assoc ..).symm, hback⟩

/-- No match starts at a character that is kept. -/
theorem Swept.misses {c : α} (h : Swept m r k prev x (.kept c :: y)) :
    r.Misses ⟨prev, shown m x⟩ := by
  cases h with
  | keep hmiss _ => exact hmiss c rfl

/-- A character that is kept right behind a replaced match is where the preferred match ended. -/
theorem Swept.after_hit {w : List α} {c : α} (h : Swept m r k prev x (.gone k w :: .kept c :: y))
    (hx : ∀ v, .gone k v ∉ x) : ∃ b, r.AfterHit b ∧ b.rest.head? = some c := by
  cases h with
  | keep _ _ => exact absurd mem_cons_self (hx w)
  | hit _ _ hafter h =>
    refine ⟨_, hafter, ?_⟩
    cases h with
    | keep _ _ => rfl

/-- All replaced parts are as they should be. -/
def Valid (fits : κ → List α → Prop) (pieces : List (Piece α κ)) : Prop :=
  ∀ k w, .gone k w ∈ pieces → fits k w

theorem Swept.valid {fits fits' : κ → List α → Prop} (h : Swept m r k prev x y)
    (hold : ∀ k w, fits k w → fits' k w)
    (hnew : ∀ part prev next, Valid fits part → r.Matches prev (shown m part) next →
      fits' k (source part)) (hx : Valid fits x) : Valid fits' y := by
  induction h with
  | nil => exact fun k w hw => hold k w (hx k w hw)
  | keep _ _ ih =>
    intro k' w hw
    rcases mem_cons.mp hw with hhead | htail
    · exact hold k' w (hx k' w (hhead ▸ mem_cons_self))
    · exact ih (fun k w hw => hx k w (mem_cons_of_mem _ hw)) k' w htail
  | @hit part prev x y _ hmatches _ _ ih =>
    intro k' w hw
    rcases mem_cons.mp hw with hhead | htail
    · cases hhead
      exact hnew part _ _ (fun k w hw => hx k w (mem_append_left _ hw)) hmatches
    · exact ih (fun k w hw => hx k w (mem_append_right _ hw)) k' w htail

/-- No match starts inside a mark. -/
theorem scanned_mark (hr : Aligned.{u, v} m r) {z t out : List α} {n : Nat} (hz : z <:+ m.text)
    (h : r.Scanned m.text ⟨prev, z ++ t⟩ out n) :
    ∃ out', out = z ++ out' ∧ r.Scanned m.text ⟨Regex.lastOr z prev, t⟩ out' n := by
  induction z generalizing prev out with
  | nil => exact ⟨out, rfl, h⟩
  | cons c z ih =>
    cases h with
    | done hrest => cases hrest
    | keep hrest _ hnext =>
      rw [cons_append, List.cons.injEq] at hrest
      obtain ⟨rfl, rfl⟩ := hrest
      obtain ⟨out', rfl, hscan⟩ := ih ((suffix_cons c z).trans hz) hnext
      refine ⟨out', rfl, ?_⟩
      rwa [← singleton_append, Regex.lastOr_append, Regex.lastOr_singleton]
    | hit _ hfirst _ =>
      obtain ⟨w, hsplit, _, hmatches⟩ := (Regex.mem_ends r _ _).mp (mem_of_head? hfirst)
      exact (hr.outside hmatches (cons_ne_nil c z) hz hsplit).elim

/-- The pieces of a text whose matches are replaced. -/
theorem exists_swept (hr : Aligned.{u, v} m r) (k : κ) {out : List α} {n : Nat}
    (h : r.Scanned m.text ⟨prev, shown m x⟩ out n) :
    ∃ y, Swept m r k prev x y ∧ shown m y = out := by
  induction hlen : x.length using Nat.strongRecOn generalizing x prev out n with
  | ind len ih =>
  subst hlen
  cases h with
  | done hrest =>
    cases x with
    | nil => exact ⟨[], .nil, rfl⟩
    | cons p x =>
      cases p with
      | kept c => cases hrest
      | gone k w => cases hrest
  | @keep _ c rest out n hrest hmiss hnext =>
    cases x with
    | nil => cases hrest
    | cons p x =>
      cases p with
      | kept d =>
        dsimp only [shown_cons, face, singleton_append] at hrest
        rw [List.cons.injEq] at hrest
        obtain ⟨rfl, rfl⟩ := hrest
        obtain ⟨y, hswept, hshown⟩ := ih x.length (Nat.lt_succ_self _) hnext rfl
        refine ⟨.kept d :: y, .keep (fun _ _ => hmiss) hswept, ?_⟩
        rw [shown_cons, hshown]
        rfl
      | gone k' w =>
        have hscan : r.Scanned m.text ⟨prev, m.text ++ shown m x⟩ (c :: out) n :=
          .keep hrest hmiss hnext
        obtain ⟨out', hout, hlater⟩ := scanned_mark hr suffix_rfl hscan
        obtain ⟨y, hswept, hshown⟩ := ih x.length (Nat.lt_succ_self _) hlater rfl
        refine ⟨.gone k' w :: y, .keep (fun _ h => ?_) hswept, ?_⟩
        · cases h
        · rw [shown_cons, hshown, hout]
          rfl
  | @hit _ b out n hlt hfirst hnext =>
    obtain ⟨w, hsplit, hprev, hmatches⟩ := (Regex.mem_ends r _ _).mp (mem_of_head? hfirst)
    dsimp only at hsplit hprev hmatches
    obtain ⟨part, others, rfl, hpart, hothers⟩ := hr.split hmatches hsplit
    have hne : part ≠ [] := by
      rintro rfl
      exact Regex.ne_nil_of_matches hr.within_nil hmatches hpart.symm
    have hshorter : others.length < (part ++ others).length := by
      have hpos := length_pos_iff.mpr hne
      rw [length_append]
      omega
    obtain ⟨bprev, brest⟩ := b
    dsimp only at hprev hothers hmatches
    subst hprev hothers
    obtain ⟨y, hswept, hshown⟩ := ih others.length hshorter hnext rfl
    refine ⟨.gone k (source part) :: y, .hit hne (hpart ▸ hmatches) ?_ (hpart ▸ hswept), ?_⟩
    · rw [hpart]
      exact ⟨_, hfirst⟩
    rw [shown_cons, hshown]
    rfl

end Piece

end AgentMail.Lib
