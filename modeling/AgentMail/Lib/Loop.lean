import Mathlib.Data.List.Forall2

/-!
# Loops that can fail

A loop whose body stops with a result, continues with a new state or fails, and a fold whose body
can fail, each with its rule of total correctness.
-/

namespace AgentMail.Lib

open List

universe u v w x

variable {σ : Type u} {ρ : Type v} {ε : Type w} {α : Type x}

/-- Run `step` until it gives a result; `timeout` when the fuel is used up first. -/
def iterate (step : σ → Except ε (ρ ⊕ σ)) (timeout : ε) : Nat → σ → Except ε ρ
  | 0, _ => .error timeout
  | fuel + 1, s =>
    match step s with
    | .error e => .error e
    | .ok (.inl r) => .ok r
    | .ok (.inr s') => iterate step timeout fuel s'

/-- An invariant that every continuing step keeps while a measure falls. -/
theorem iterate_eq_ok {step : σ → Except ε (ρ ⊕ σ)} {timeout : ε} {I : σ → Prop} {Q : ρ → Prop}
    (measure : σ → Nat) (hstep : ∀ s, I s → (∃ r, step s = .ok (.inl r) ∧ Q r) ∨
      ∃ s', step s = .ok (.inr s') ∧ I s' ∧ measure s' < measure s)
    {fuel : Nat} {s : σ} (hfuel : measure s < fuel) (hs : I s) :
    ∃ r, iterate step timeout fuel s = .ok r ∧ Q r := by
  induction fuel generalizing s with
  | zero => exact absurd hfuel (Nat.not_lt_zero _)
  | succ fuel ih =>
    unfold iterate
    rcases hstep s hs with ⟨r, hr, hq⟩ | ⟨s', hs', hi, hlt⟩
    · rw [hr]
      exact ⟨r, rfl, hq⟩
    · rw [hs']
      exact ih (by omega) hi

variable {f : σ → α → Except ε σ} {l : List α}

/-- An invariant over the elements already folded. -/
theorem foldlM_eq_ok {I : List α → σ → Prop}
    (hstep : ∀ front a back s, l = front ++ a :: back → I front s →
      ∃ s', f s a = .ok s' ∧ I (front ++ [a]) s')
    {s : σ} (hs : I [] s) : ∃ s', l.foldlM f s = .ok s' ∧ I l s' := by
  have hrest (front back : List α) (t : σ) (hl : l = front ++ back) (ht : I front t) :
      ∃ s', back.foldlM f t = .ok s' ∧ I l s' := by
    induction back generalizing front t with
    | nil =>
      rw [append_nil] at hl
      rw [hl]
      exact ⟨t, rfl, ht⟩
    | cons a back ih =>
      obtain ⟨t', hf, hi⟩ := hstep front a back t hl ht
      rw [foldlM_cons, hf]
      exact ih (front ++ [a]) t' (by rw [hl, append_assoc, singleton_append]) hi
  exact hrest [] l s rfl hs

/-- A fold whose steps all succeed. -/
theorem foldlM_eq_foldl {g : σ → α → σ} (h : ∀ s, ∀ a ∈ l, f s a = .ok (g s a)) (s : σ) :
    l.foldlM f s = .ok (l.foldl g s) := by
  induction l generalizing s with
  | nil => rfl
  | cons a l ih =>
    rw [foldlM_cons, h s a (mem_cons_self ..)]
    exact ih (fun s b hb => h s b (mem_cons_of_mem _ hb)) _

/-- A fold over lists of elements is a fold over all elements. -/
theorem foldlM_flatMap {β : Type*} (g : β → List α) (l : List β) (s : σ) :
    l.foldlM (fun s b => (g b).foldlM f s) s = (l.flatMap g).foldlM f s := by
  induction l generalizing s with
  | nil => rfl
  | cons b l ih =>
    rw [foldlM_cons, flatMap_cons, foldlM_append]
    congr 1
    funext t
    exact ih t

/-! ### Runs that succeed -/

theorem bind_eq_ok {β : Type v} {x : Except ε α} {g : α → Except ε β} {b : β} :
    x.bind g = .ok b ↔ ∃ a, x = .ok a ∧ g a = .ok b := by
  cases x with
  | error e => simp [Except.bind]
  | ok a => simp [Except.bind]

/-- A successful fold over a list in two parts. -/
theorem foldlM_append_eq_ok {front back : List α} {s t : σ} :
    (front ++ back).foldlM f s = .ok t ↔
      ∃ r, front.foldlM f s = .ok r ∧ back.foldlM f r = .ok t := by
  rw [foldlM_append]
  exact bind_eq_ok

theorem foldlM_cons_eq_ok {a : α} {back : List α} {s t : σ} :
    (a :: back).foldlM f s = .ok t ↔ ∃ r, f s a = .ok r ∧ back.foldlM f r = .ok t := by
  rw [foldlM_cons]
  exact bind_eq_ok

/-- A map that succeeds has the result of every element. -/
theorem mapM_eq_ok {β : Type w} {ε : Type v} {f : α → Except ε β} {l' : List β} :
    l.mapM f = .ok l' ↔ Forall₂ (fun a b => f a = .ok b) l l' := by
  induction l generalizing l' with
  | nil =>
    rw [mapM_nil, List.forall₂_nil_left_iff]
    exact ⟨fun h => (Except.ok.inj h).symm, fun h => h ▸ rfl⟩
  | cons a l ih =>
    rw [mapM_cons, List.forall₂_cons_left_iff]
    constructor
    · intro h
      obtain ⟨b, hb, h⟩ := bind_eq_ok.mp h
      obtain ⟨bs, hbs, h⟩ := bind_eq_ok.mp h
      exact ⟨b, bs, hb, ih.mp hbs, (Except.ok.inj h).symm⟩
    · rintro ⟨b, bs, hb, hbs, rfl⟩
      exact bind_eq_ok.mpr ⟨b, hb, bind_eq_ok.mpr ⟨bs, ih.mpr hbs, rfl⟩⟩

/-- A loop without a result succeeds where every turn does. -/
theorem forM_eq_ok {ε : Type v} {f : α → Except ε PUnit.{w + 1}} :
    l.forM f = .ok ⟨⟩ ↔ ∀ a ∈ l, f a = .ok ⟨⟩ := by
  induction l with
  | nil => exact ⟨fun _ a ha => absurd ha not_mem_nil, fun _ => rfl⟩
  | cons a l ih =>
    rw [forall_mem_cons, ← ih]
    constructor
    · intro h
      obtain ⟨_, ha, hl⟩ := bind_eq_ok.mp h
      exact ⟨ha, hl⟩
    · rintro ⟨ha, hl⟩
      exact bind_eq_ok.mpr ⟨⟨⟩, ha, hl⟩

theorem forM_congr {m : Type v → Type w} [Monad m] {f g : α → m PUnit} (h : ∀ a ∈ l, f a = g a) :
    l.forM f = l.forM g := by
  induction l with
  | nil => rfl
  | cons a l ih =>
    rw [forall_mem_cons] at h
    show (f a >>= fun _ => l.forM f) = (g a >>= fun _ => l.forM g)
    rw [h.1, ih h.2]

/-- An invariant of a fold that succeeds. -/
theorem foldlM_invariant {I : List α → σ → Prop}
    (hstep : ∀ front a back s s', l = front ++ a :: back → I front s → f s a = .ok s' →
      I (front ++ [a]) s')
    {s t : σ} (hs : I [] s) (h : l.foldlM f s = .ok t) : I l t := by
  have hrest (front back : List α) (r : σ) (hl : l = front ++ back) (hr : I front r)
      (hback : back.foldlM f r = .ok t) : I l t := by
    induction back generalizing front r with
    | nil =>
      rw [append_nil] at hl
      cases hback
      exact hl ▸ hr
    | cons a back ih =>
      obtain ⟨r', hf, hrun⟩ := foldlM_cons_eq_ok.mp hback
      have hnext := hstep front a back r r' hl hr hf
      exact ih (front ++ [a]) r' (by rw [hl, append_assoc, singleton_append]) hnext hrun
  exact hrest [] l s rfl hs h

end AgentMail.Lib
