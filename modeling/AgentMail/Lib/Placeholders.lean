import Mathlib.Data.List.Basic

/-!
# Conditions with positional parameters

A statement is assembled from condition texts that hold `?` placeholders and, separately, from a flat
list of parameters; whoever runs it hands the parameters out from left to right. A condition that is
pushed together with as many parameters as it has placeholders gets back its own, whatever is pushed
before and after it.
-/

namespace AgentMail.Lib.Placeholders

open List

universe u v w

/-- Conditions over atomic tests `κ`. -/
inductive Cond (κ : Type u) where
  | const (b : Bool)
  | atom (test : κ)
  | not (c : Cond κ)
  | and (l r : Cond κ)
  | or (l r : Cond κ)
deriving Repr, DecidableEq

variable {κ : Type u} {π : Type v} {α : Type w} (arity : κ → Nat) (test : κ → List π → α → Bool)

/-- The placeholders of a condition. -/
def Cond.placeholders : Cond κ → Nat
  | const _ => 0
  | atom t => arity t
  | not c => c.placeholders
  | and l r => l.placeholders + r.placeholders
  | or l r => l.placeholders + r.placeholders

/-- A condition on a row; its parameters are taken from the left. -/
def Cond.eval : Cond κ → List π → α → Bool
  | const b, _, _ => b
  | atom t, params, row => test t (params.take (arity t)) row
  | not c, params, row => !c.eval params row
  | and l r, params, row => l.eval params row && r.eval (params.drop (l.placeholders arity)) row
  | or l r, params, row => l.eval params row || r.eval (params.drop (l.placeholders arity)) row

/-- Conditions joined by `AND`. -/
def Cond.all : List (Cond κ) → Cond κ
  | [] => const true
  | c :: cs => and c (all cs)

/-- Conditions joined by `OR`. -/
def Cond.any : List (Cond κ) → Cond κ
  | [] => const false
  | c :: cs => or c (any cs)

/-- A condition that is pushed, and the parameters that are pushed with it. -/
structure Pushed (π : Type v) where
  clause : Cond κ
  params : List π
  fits : params.length = clause.placeholders arity

variable {arity}

namespace Pushed

/-- The condition with its own parameters. -/
def holds (p : Pushed arity π) (row : α) : Bool := p.clause.eval arity test p.params row

def clauses (ps : List (Pushed arity π)) : List (Cond κ) := ps.map (·.clause)

/-- The flat parameter list. -/
def allParams (ps : List (Pushed arity π)) : List π := ps.flatMap (·.params)

end Pushed

variable {test}

/-- Only as many parameters are read as there are placeholders. -/
theorem Cond.eval_append (c : Cond κ) {params : List π} (h : c.placeholders arity ≤ params.length)
    (more : List π) (row : α) :
    c.eval arity test (params ++ more) row = c.eval arity test params row := by
  induction c generalizing params with
  | const b => rfl
  | atom t =>
    simp only [Cond.placeholders] at h
    simp only [Cond.eval, take_append_of_le_length h]
  | not c ih =>
    simp only [Cond.placeholders] at h
    simp only [Cond.eval, ih h]
  | and l r ihl ihr | or l r ihl ihr =>
    simp only [Cond.placeholders] at h
    have hl : l.placeholders arity ≤ params.length := by omega
    have hr : r.placeholders arity ≤ (params.drop (l.placeholders arity)).length := by
      rw [length_drop]
      omega
    simp only [Cond.eval, ihl hl, drop_append_of_le_length hl, ihr hr]

namespace Pushed

theorem eval_append (p : Pushed arity π) (more : List π) (row : α) :
    p.clause.eval arity test (p.params ++ more) row = p.holds test row :=
  p.clause.eval_append (Nat.le_of_eq p.fits.symm) more row

theorem drop_params (p : Pushed arity π) (more : List π) :
    (p.params ++ more).drop (p.clause.placeholders arity) = more := by
  rw [← p.fits, drop_left]

theorem length_allParams (ps : List (Pushed arity π)) :
    (allParams ps).length = (Cond.all (clauses ps)).placeholders arity := by
  induction ps with
  | nil => rfl
  | cons p ps ih =>
    change (p.params ++ allParams ps).length =
      p.clause.placeholders arity + (Cond.all (clauses ps)).placeholders arity
    rw [length_append, p.fits, ih]

theorem placeholders_any (ps : List (Pushed arity π)) :
    (Cond.any (clauses ps)).placeholders arity = (Cond.all (clauses ps)).placeholders arity := by
  induction ps with
  | nil => rfl
  | cons p ps ih =>
    change p.clause.placeholders arity + (Cond.any (clauses ps)).placeholders arity =
      p.clause.placeholders arity + (Cond.all (clauses ps)).placeholders arity
    rw [ih]

/-- Each condition of a conjunction is evaluated with its own parameters. -/
theorem eval_all (ps : List (Pushed arity π)) (row : α) :
    (Cond.all (clauses ps)).eval arity test (allParams ps) row = ps.all fun p => p.holds test row := by
  induction ps with
  | nil => rfl
  | cons p ps ih =>
    change (p.clause.eval arity test (p.params ++ allParams ps) row &&
      (Cond.all (clauses ps)).eval arity test
        ((p.params ++ allParams ps).drop (p.clause.placeholders arity)) row) = _
    rw [p.eval_append, p.drop_params, ih, all_cons]

/-- Each condition of a disjunction is evaluated with its own parameters. -/
theorem eval_any (ps : List (Pushed arity π)) (row : α) :
    (Cond.any (clauses ps)).eval arity test (allParams ps) row = ps.any fun p => p.holds test row := by
  induction ps with
  | nil => rfl
  | cons p ps ih =>
    change (p.clause.eval arity test (p.params ++ allParams ps) row ||
      (Cond.any (clauses ps)).eval arity test
        ((p.params ++ allParams ps).drop (p.clause.placeholders arity)) row) = _
    rw [p.eval_append, p.drop_params, ih, any_cons]

/-- Pushing a conjunction as one condition. -/
def all (ps : List (Pushed arity π)) : Pushed arity π :=
  ⟨Cond.all (clauses ps), allParams ps, length_allParams ps⟩

/-- Pushing a disjunction as one condition. -/
def any (ps : List (Pushed arity π)) : Pushed arity π :=
  ⟨Cond.any (clauses ps), allParams ps, (length_allParams ps).trans (placeholders_any ps).symm⟩

/-- Pushing a negated condition. -/
def not (p : Pushed arity π) : Pushed arity π := ⟨p.clause.not, p.params, p.fits⟩

/-- Pushing an atomic test. -/
def atom (t : κ) (params : List π) (fits : params.length = arity t) : Pushed arity π :=
  ⟨.atom t, params, fits⟩

/-- Pushing a condition without placeholders. -/
def const (b : Bool) : Pushed arity π := ⟨.const b, [], rfl⟩

@[simp] theorem holds_all (ps : List (Pushed arity π)) (row : α) :
    (all ps).holds test row = ps.all fun p => p.holds test row := eval_all ps row

@[simp] theorem holds_any (ps : List (Pushed arity π)) (row : α) :
    (any ps).holds test row = ps.any fun p => p.holds test row := eval_any ps row

@[simp] theorem holds_not (p : Pushed arity π) (row : α) :
    p.not.holds test row = !p.holds test row := rfl

@[simp] theorem holds_const (b : Bool) (row : α) :
    (const b : Pushed arity π).holds test row = b := rfl

@[simp] theorem holds_atom {t : κ} {params : List π} {fits : params.length = arity t} {row : α} :
    (atom t params fits).holds test row = test t params row := by
  change test t (params.take (arity t)) row = _
  rw [← fits, take_length]

end Pushed

end AgentMail.Lib.Placeholders
