import Mathlib.Data.List.Perm.Basic

/-!
# Splitting work

Work that is too large is split into parts, and each part is split again until it can be done at once.
What is done in the end are the leaves, one after another; what holds of work if and only if it holds
of one of its parts can be asked of the leaves.
-/

namespace AgentMail.Lib

open List

universe u v w

/-- How work is split: the parts are smaller. -/
structure Splitter (α : Type u) where
  split : α → Option (List α)
  size : α → Nat
  smaller : ∀ {a parts}, split a = some parts → ∀ p ∈ parts, size p < size a

namespace Splitter

variable {α : Type u} (S : Splitter α)

/-- The parts that are not split any more, in order. -/
def leaves (a : α) : List α :=
  match _h : S.split a with
  | none => [a]
  | some parts => parts.attach.flatMap fun p => leaves p.1
termination_by S.size a
decreasing_by exact S.smaller _h p.1 p.2

theorem leaves_of_none {a : α} (h : S.split a = none) : S.leaves a = [a] := by
  unfold leaves
  split
  · rfl
  · next parts hparts =>
    rw [h] at hparts
    cases hparts

theorem leaves_of_some {a : α} {parts : List α} (h : S.split a = some parts) :
    S.leaves a = parts.flatMap S.leaves := by
  conv_lhs => unfold leaves
  split
  · next hnone =>
    rw [h] at hnone
    cases hnone
  · next parts' hparts =>
    obtain rfl := Option.some.inj (h.symm.trans hparts)
    rw [flatMap_def, flatMap_def, attach_map_val]

/-- Induction over the splitting. -/
theorem induct {P : α → Prop} (hleaf : ∀ a, S.split a = none → P a)
    (hparts : ∀ a parts, S.split a = some parts → (∀ p ∈ parts, P p) → P a) (a : α) : P a := by
  cases h : S.split a with
  | none => exact hleaf a h
  | some parts => exact hparts a parts h fun p hp => induct hleaf hparts p
termination_by S.size a
decreasing_by exact S.smaller h p hp

theorem split_eq_none_of_mem {a l : α} (h : l ∈ S.leaves a) : S.split l = none := by
  induction a using S.induct with
  | hleaf a hnone =>
    rw [S.leaves_of_none hnone, mem_singleton] at h
    rwa [h]
  | hparts a parts hsome ih =>
    rw [S.leaves_of_some hsome] at h
    obtain ⟨p, hp, hl⟩ := mem_flatMap.mp h
    exact ih p hp hl

/-- What the work and its parts agree on. -/
theorem exists_leaf_iff {P : α → Prop}
    (hparts : ∀ a parts, S.split a = some parts → (P a ↔ ∃ p ∈ parts, P p)) (a : α) :
    (∃ l ∈ S.leaves a, P l) ↔ P a := by
  induction a using S.induct with
  | hleaf a hnone =>
    rw [S.leaves_of_none hnone]
    simp
  | hparts a parts hsome ih =>
    rw [S.leaves_of_some hsome, hparts a parts hsome]
    constructor
    · rintro ⟨l, hl, hP⟩
      obtain ⟨p, hp, hlp⟩ := mem_flatMap.mp hl
      exact ⟨p, hp, (ih p hp).mp ⟨l, hlp, hP⟩⟩
    · rintro ⟨p, hp, hP⟩
      obtain ⟨l, hl, hPl⟩ := (ih p hp).mpr hP
      exact ⟨l, mem_flatMap.mpr ⟨p, hp, hl⟩, hPl⟩

/-! ### Doing the work -/

variable {σ : Type v} {ρ : Type w}

/-- The steps for a list of works, with what they put out. -/
def runAll (step : σ → α → List ρ × σ) (work : List α) (s : σ) : List ρ × σ :=
  work.foldl (fun acc a => (acc.1 ++ (step acc.2 a).1, (step acc.2 a).2)) ([], s)

/-- The recursion: a leaf is done, and the parts of other work one after another. -/
def run (step : σ → α → List ρ × σ) (a : α) (s : σ) : List ρ × σ :=
  match _h : S.split a with
  | none => step s a
  | some parts =>
    parts.attach.foldl (fun acc p =>
      let done := run step p.1 acc.2
      (acc.1 ++ done.1, done.2)) ([], s)
termination_by S.size a
decreasing_by exact S.smaller _h p.1 p.2

theorem runAll_cons (step : σ → α → List ρ × σ) (a : α) (work : List α) (s : σ) :
    runAll step (a :: work) s =
      ((step s a).1 ++ (runAll step work (step s a).2).1, (runAll step work (step s a).2).2) := by
  have hfold (out : List ρ) (s : σ) (work : List α) :
      work.foldl (fun acc a => (acc.1 ++ (step acc.2 a).1, (step acc.2 a).2)) (out, s) =
        (out ++ (runAll step work s).1, (runAll step work s).2) := by
    unfold runAll
    induction work generalizing out s with
    | nil => simp
    | cons a work ih =>
      rw [foldl_cons, foldl_cons, ih, ih ([] ++ _)]
      simp
  rw [runAll, foldl_cons, hfold, nil_append]

theorem runAll_append (step : σ → α → List ρ × σ) (front back : List α) (s : σ) :
    runAll step (front ++ back) s =
      ((runAll step front s).1 ++ (runAll step back (runAll step front s).2).1,
        (runAll step back (runAll step front s).2).2) := by
  induction front generalizing s with
  | nil => rfl
  | cons a front ih =>
    rw [cons_append, runAll_cons, ih, runAll_cons, append_assoc]

theorem run_of_none {step : σ → α → List ρ × σ} {a : α} (h : S.split a = none) (s : σ) :
    S.run step a s = step s a := by
  unfold run
  split
  · rfl
  · next parts hparts =>
    rw [h] at hparts
    cases hparts

theorem run_of_some {step : σ → α → List ρ × σ} {a : α} {parts : List α}
    (h : S.split a = some parts) (s : σ) :
    S.run step a s = runAll (fun s p => S.run step p s) parts s := by
  conv_lhs => unfold run
  split
  · next hnone =>
    rw [h] at hnone
    cases hnone
  · next parts' hparts =>
    obtain rfl := Option.some.inj (h.symm.trans hparts)
    unfold runAll
    exact foldl_attach (f := fun acc p =>
      (acc.1 ++ (S.run step p acc.2).1, (S.run step p acc.2).2))

/-- The recursion does the leaves one after another. -/
theorem run_eq_runAll (step : σ → α → List ρ × σ) (a : α) (s : σ) :
    S.run step a s = runAll step (S.leaves a) s := by
  induction a using S.induct generalizing s with
  | hleaf a hnone =>
    rw [S.run_of_none hnone, S.leaves_of_none hnone, runAll_cons]
    simp [runAll]
  | hparts a parts hsome ih =>
    rw [S.run_of_some hsome, S.leaves_of_some hsome]
    clear hsome
    induction parts generalizing s with
    | nil => rfl
    | cons p parts ihparts =>
      rw [forall_mem_cons] at ih
      rw [flatMap_cons, runAll_cons, runAll_append, ih.1, ihparts ih.2]

end Splitter

/-! ### Steps that take out of a list -/

namespace Splitter

variable {α : Type u} {β : Type v} (test : α → β → Bool)

/-- Work that takes out of a list what its test admits. -/
def take (items : List β) (a : α) : List β × List β :=
  (items.filter (test a), items.filter fun b => !test a b)

/-- What is left over is admitted by no test, and what was taken by some. -/
theorem runAll_take (work : List α) (items : List β) :
    (runAll (take test) work items).1.Perm (items.filter fun b => work.any (test · b)) ∧
      (runAll (take test) work items).2 = items.filter fun b => !work.any (test · b) := by
  induction work generalizing items with
  | nil => simp [runAll]
  | cons a work ih =>
    obtain ⟨htaken, hleft⟩ := ih (items.filter fun b => !test a b)
    rw [runAll_cons]
    constructor
    · have hsplit := filter_append_perm (test a) (items.filter fun b => (a :: work).any (test · b))
      rw [filter_filter, filter_filter] at hsplit
      rw [filter_filter] at htaken
      refine List.Perm.trans ?_ hsplit
      refine List.Perm.append (.of_eq ?_) (htaken.trans (.of_eq ?_))
      · apply filter_congr
        intro b _
        cases h : test a b <;> simp [h]
      · apply filter_congr
        intro b _
        cases h : test a b <;> simp [h]
    · refine hleft.trans ?_
      rw [filter_filter]
      apply filter_congr
      intro b _
      rw [any_cons, Bool.not_or, Bool.and_comm]

/-- Two kinds of steps that agree on a view of their states put out the same. -/
theorem runAll_view {σ σ' ρ γ : Type*} (step : σ → α → List ρ × σ) (step' : σ' → α → List ρ × σ')
    (view : σ → σ') (seen : ρ → γ)
    (h : ∀ s a, (step s a).1.map seen = (step' (view s) a).1.map seen ∧
      view (step s a).2 = (step' (view s) a).2) (work : List α) (s : σ) :
    (runAll step work s).1.map seen = (runAll step' work (view s)).1.map seen ∧
      view (runAll step work s).2 = (runAll step' work (view s)).2 := by
  induction work generalizing s with
  | nil => exact ⟨rfl, rfl⟩
  | cons a work ih =>
    obtain ⟨hout, hstate⟩ := h s a
    obtain ⟨hrest, hend⟩ := ih (step s a).2
    rw [runAll_cons, runAll_cons, map_append, map_append, hout, hrest, hend, hstate]
    exact ⟨rfl, rfl⟩

/-- What every step keeps, the work keeps. -/
theorem runAll_keeps {σ ρ : Type*} {step : σ → α → List ρ × σ} {P : σ → Prop}
    (h : ∀ s a, P s → P (step s a).2) (work : List α) {s : σ} (hs : P s) :
    P (runAll step work s).2 := by
  induction work generalizing s with
  | nil => exact hs
  | cons a work ih =>
    rw [runAll_cons]
    exact ih (h s a hs)

end Splitter

end AgentMail.Lib
