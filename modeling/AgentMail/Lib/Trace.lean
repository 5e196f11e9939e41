import Mathlib.Data.List.Chain

/-!
# Traces

What happens when events are offered to a system one after the other: an event that the system
cannot take at that moment does not happen, every other one is answered and may change the state.
-/

namespace AgentMail.Lib

open List

universe u v w

variable {σ : Type u} {ε : Type v} {ρ : Type w}

/-- One event as it happened. -/
structure Entry (σ : Type u) (ε : Type v) (ρ : Type w) where
  before : σ
  event : ε
  response : ρ
  after : σ

/-- What happens of the events. -/
def trace (step : σ → ε → Option (ρ × σ)) : σ → List ε → List (Entry σ ε ρ)
  | _, [] => []
  | s, e :: es =>
    match step s e with
    | none => trace step s es
    | some (r, s') => ⟨s, e, r, s'⟩ :: trace step s' es

variable {step : σ → ε → Option (ρ × σ)}

variable {s : σ}

theorem trace_cons_none {e : ε} (h : step s e = none) (es : List ε) :
    trace step s (e :: es) = trace step s es := by
  rw [trace, h]

theorem trace_cons_some {s' : σ} {e : ε} {r : ρ} (h : step s e = some (r, s')) (es : List ε) :
    trace step s (e :: es) = ⟨s, e, r, s'⟩ :: trace step s' es := by
  rw [trace, h]

/-- What every step preserves that fulfils a condition holds before and after every step, if all of
them do. -/
theorem forall_mem_trace_of {inv : σ → Prop} {holds : Entry σ ε ρ → Prop}
    (hstep : ∀ s e r s', inv s → step s e = some (r, s') → holds ⟨s, e, r, s'⟩ → inv s')
    (hs : inv s) (es : List ε) (hrun : ∀ x ∈ trace step s es, holds x) :
    ∀ x ∈ trace step s es,
      inv x.before ∧ step x.before x.event = some (x.response, x.after) ∧ inv x.after := by
  induction es generalizing s with
  | nil =>
    intro x hx
    cases hx
  | cons e es ih =>
    cases he : step s e with
    | none =>
      rw [trace_cons_none he] at hrun ⊢
      exact ih hs hrun
    | some taken =>
      obtain ⟨r, s'⟩ := taken
      rw [trace_cons_some he, forall_mem_cons] at hrun
      have hs' := hstep s e r s' hs he hrun.1
      rw [trace_cons_some he, forall_mem_cons]
      exact ⟨⟨hs, he, hs'⟩, ih hs' hrun.2⟩

/-- What every step preserves holds before and after every step. -/
theorem forall_mem_trace {inv : σ → Prop}
    (hstep : ∀ s e r s', inv s → step s e = some (r, s') → inv s') (hs : inv s) (es : List ε) :
    ∀ x ∈ trace step s es,
      inv x.before ∧ step x.before x.event = some (x.response, x.after) ∧ inv x.after := by
  have hwhatever (s : σ) (e : ε) (r : ρ) (s' : σ) (hs : inv s) (he : step s e = some (r, s'))
      (_ : True) : inv s' := hstep s e r s' hs he
  exact forall_mem_trace_of hwhatever hs es fun _ _ => trivial

variable {x : Entry σ ε ρ} {es : List ε}

/-- What comes after an entry starts from its state. -/
theorem trace_eq_append {front back : List (Entry σ ε ρ)}
    (h : trace step s es = front ++ x :: back) : ∃ es', trace step x.after es' = back := by
  induction es generalizing s front with
  | nil => simp [trace] at h
  | cons e es ih =>
    cases he : step s e with
    | none =>
      rw [trace_cons_none he] at h
      exact ih h
    | some taken =>
      obtain ⟨r, s'⟩ := taken
      rw [trace_cons_some he] at h
      cases front with
      | nil =>
        rw [nil_append, List.cons.injEq] at h
        obtain ⟨rfl, hback⟩ := h
        exact ⟨es, hback⟩
      | cons y front =>
        rw [cons_append, List.cons.injEq] at h
        exact ih h.2

/-- A relation between what has happened and the state, when every step extends it. -/
theorem history {inv : σ → Prop} {related : List (Entry σ ε ρ) → σ → Prop}
    (hstep : ∀ s e r s', inv s → step s e = some (r, s') → inv s')
    (hrelated : ∀ past s e r s', inv s → related past s → step s e = some (r, s') →
      related (past ++ [⟨s, e, r, s'⟩]) s')
    (hs : inv s) {past : List (Entry σ ε ρ)} (hnow : related past s)
    {front back : List (Entry σ ε ρ)}
    (h : trace step s es = front ++ x :: back) : related (past ++ front) x.before := by
  induction es generalizing s past front with
  | nil => simp [trace] at h
  | cons e es ih =>
    cases he : step s e with
    | none =>
      rw [trace_cons_none he] at h
      exact ih hs hnow h
    | some taken =>
      obtain ⟨r, s'⟩ := taken
      rw [trace_cons_some he] at h
      cases front with
      | nil =>
        rw [nil_append, List.cons.injEq] at h
        rw [← h.1, append_nil]
        exact hnow
      | cons y front =>
        rw [cons_append, List.cons.injEq] at h
        obtain ⟨rfl, hrest⟩ := h
        have hnext := ih (hstep s e r s' hs he) (hrelated past s e r s' hs hnow he) hrest
        rwa [append_assoc] at hnext

/-- A property that lasts as long as the entries fulfil a condition. -/
theorem lasts {inv lasting : σ → Prop} {holds : Entry σ ε ρ → Prop}
    (hstep : ∀ s e r s', inv s → step s e = some (r, s') → inv s')
    (hlasting : ∀ s e r s', inv s → lasting s → step s e = some (r, s') → holds ⟨s, e, r, s'⟩ →
      lasting s') (hs : inv s) (hnow : lasting s)
    {front back : List (Entry σ ε ρ)}
    (h : trace step s es = front ++ x :: back) (hfront : ∀ y ∈ front, holds y) :
    lasting x.before := by
  have hrelated (past : List (Entry σ ε ρ)) (s : σ) (e : ε) (r : ρ) (s' : σ) (hinv : inv s)
      (hpast : (∀ y ∈ past, holds y) → lasting s) (he : step s e = some (r, s'))
      (hall : ∀ y ∈ past ++ [⟨s, e, r, s'⟩], holds y) : lasting s' := by
    rw [forall_mem_append, forall_mem_singleton] at hall
    exact hlasting s e r s' hinv (hpast hall.1) he hall.2
  have hnone : (∀ y ∈ ([] : List (Entry σ ε ρ)), holds y) → lasting s := fun _ => hnow
  exact history hstep hrelated hs hnone h hfront

/-! ### Parts of a trace -/

/-- A trace begins at the state it starts from. -/
theorem before_of_head?_trace : ∀ x ∈ (trace step s es).head?, x.before = s := by
  induction es generalizing s with
  | nil => exact nofun
  | cons e es ih =>
    cases he : step s e with
    | none =>
      rw [trace_cons_none he]
      exact ih
    | some taken =>
      rw [trace_cons_some he]
      intro x hx
      rw [← Option.some.inj hx]

/-- Every entry starts from what the one before has left. -/
theorem chained_trace (step : σ → ε → Option (ρ × σ)) (s : σ) (es : List ε) :
    (trace step s es).IsChain fun x y => y.before = x.after := by
  induction es generalizing s with
  | nil => exact .nil
  | cons e es ih =>
    cases he : step s e with
    | none =>
      rw [trace_cons_none he]
      exact ih s
    | some taken =>
      rw [trace_cons_some he, isChain_cons]
      exact ⟨before_of_head?_trace, ih taken.2⟩

/-- A part of a trace is chained. -/
theorem chained_part {part : List (Entry σ ε ρ)} (h : part <:+: trace step s es) :
    part.IsChain fun x y => y.before = x.after := by
  obtain ⟨front, back, hrun⟩ := h
  have hall := chained_trace step s es
  rw [← hrun] at hall
  exact hall.left_of_append.right_of_append

/-- What every entry of a part keeps lasts over it. -/
theorem lasts_over (lasting : σ → Prop) {rest : List (Entry σ ε ρ)}
    (hchain : (x :: rest).IsChain fun x y => y.before = x.after)
    (hkeeps : ∀ y ∈ rest, lasting y.before → lasting y.after) (hx : lasting x.after) :
    ∀ y ∈ rest, lasting y.after := by
  induction rest generalizing x with
  | nil => exact forall_mem_nil _
  | cons y rest ih =>
    rw [isChain_cons_cons] at hchain
    rw [forall_mem_cons] at hkeeps ⊢
    have hy : lasting y.after := hkeeps.1 (hchain.1 ▸ hx)
    exact ⟨hy, ih hchain.2 hkeeps.2 hy⟩

end AgentMail.Lib
