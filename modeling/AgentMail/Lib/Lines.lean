import Mathlib.Data.List.Basic
import Mathlib.Data.List.Induction

/-!
# Lines

A sequence cut after every delimiter. A line keeps the delimiter that ends it; only the last one
may lack it.
-/

namespace AgentMail.Lib

open List

universe u

variable {α : Type u} [DecidableEq α]

/-- The lines of a sequence. -/
def lines (d : α) : List α → List (List α)
  | [] => []
  | a :: as =>
    if a = d then [a] :: lines d as
    else
      match lines d as with
      | [] => [[a]]
      | l :: ls => (a :: l) :: ls

/-- No line is open at the end. -/
def Closed (d : α) (as : List α) : Prop := as = [] ∨ ∃ front, as = front ++ [d]

variable {d : α}

theorem lines_cons_of_ne {a : α} (h : a ≠ d) (as : List α) :
    lines d (a :: as) = (match lines d as with
      | [] => [[a]]
      | l :: ls => (a :: l) :: ls) := by
  rw [lines, if_neg h]

variable {as : List α}

theorem lines_ne_nil (h : as ≠ []) : lines d as ≠ [] := by
  cases as with
  | nil => exact absurd rfl h
  | cons a as =>
    rw [lines]
    split
    · exact cons_ne_nil _ _
    · split
      · exact cons_ne_nil _ _
      · exact cons_ne_nil _ _

/-- Lines do not reach over a delimiter. -/
theorem lines_append_delim (front back : List α) :
    lines d (front ++ [d] ++ back) = lines d (front ++ [d]) ++ lines d back := by
  induction front with
  | nil =>
    show lines d (d :: back) = lines d [d] ++ lines d back
    rw [lines, if_pos rfl, lines, if_pos rfl]
    rfl
  | cons a front ih =>
    rw [cons_append, cons_append]
    by_cases ha : a = d
    · rw [lines, if_pos ha, ih, lines, if_pos ha, cons_append]
    · rw [lines_cons_of_ne ha, lines_cons_of_ne ha, ih]
      cases hfront : lines d (front ++ [d]) with
      | nil =>
        exact absurd hfront (lines_ne_nil (by simp))
      | cons l ls => rfl

theorem Closed.lines_append {front : List α} (h : Closed d front) (back : List α) :
    lines d (front ++ back) = lines d front ++ lines d back := by
  rcases h with rfl | ⟨front, rfl⟩
  · rfl
  · exact lines_append_delim front back

theorem lines_of_not_mem (h : d ∉ as) (hne : as ≠ []) : lines d as = [as] := by
  induction as with
  | nil => exact absurd rfl hne
  | cons a as ih =>
    rw [mem_cons, not_or] at h
    rw [lines_cons_of_ne (Ne.symm h.1)]
    by_cases has : as = []
    · rw [has]
      rfl
    · rw [ih h.2 has]

theorem lines_concat_of_not_mem (h : d ∉ as) : lines d (as ++ [d]) = [as ++ [d]] := by
  induction as with
  | nil => rw [nil_append, lines, if_pos rfl, lines]
  | cons a as ih =>
    rw [mem_cons, not_or] at h
    rw [cons_append, lines_cons_of_ne (Ne.symm h.1), ih h.2]

/-- A sequence is closed up to its last line. -/
theorem exists_closed (d : α) (as : List α) :
    ∃ front tail, as = front ++ tail ∧ Closed d front ∧ d ∉ tail := by
  induction as using reverseRecOn with
  | nil => exact ⟨[], [], rfl, .inl rfl, not_mem_nil⟩
  | append_singleton as a ih =>
    by_cases ha : a = d
    · exact ⟨as ++ [a], [], by simp, .inr ⟨as, by rw [ha]⟩, not_mem_nil⟩
    · obtain ⟨front, tail, rfl, hclosed, hmem⟩ := ih
      refine ⟨front, tail ++ [a], by simp, hclosed, ?_⟩
      rw [mem_append, mem_singleton, not_or]
      exact ⟨hmem, Ne.symm ha⟩

/-! ### Pieces between delimiters -/

/-- Only the last piece of the front goes on in the back. -/
theorem splitOn_append (front back : List α) :
    (front ++ back).splitOn d =
      (front.splitOn d).dropLast ++ ((front.splitOn d).getLastD [] ++ back).splitOn d := by
  induction front with
  | nil => rw [splitOn_nil]; rfl
  | cons a front ih =>
    rw [cons_append, splitOn_cons_eq_if_modifyHead, splitOn_cons_eq_if_modifyHead, ih]
    have hne := splitOn_ne_nil d front
    split
    · rw [dropLast_cons_of_ne_nil hne, cons_append]
      congr 3
      cases hfront : front.splitOn d with
      | nil => exact absurd hfront hne
      | cons piece pieces => rfl
    · next ha =>
      cases hfront : front.splitOn d with
      | nil => exact absurd hfront hne
      | cons piece pieces =>
        cases pieces with
        | nil =>
          show _ = ((a :: piece) ++ back).splitOn d
          rw [cons_append, splitOn_cons_eq_if_modifyHead, if_neg ha]
          rfl
        | cons next pieces => rfl

theorem getLastD_splitOn_append (front back : List α) :
    ((front ++ back).splitOn d).getLastD [] =
      (((front.splitOn d).getLastD [] ++ back).splitOn d).getLastD [] := by
  rw [splitOn_append]
  generalize hback : ((front.splitOn d).getLastD [] ++ back).splitOn d = pieces
  have hne : pieces ≠ [] := hback ▸ splitOn_ne_nil d _
  rw [getLastD_eq_getLast?, getLastD_eq_getLast?, List.getLast?_append_of_ne_nil _ hne]

/-- The first delimiter ends the first piece. -/
theorem splitOn_of_findIdx? {n : Nat} (h : as.findIdx? (· == d) = some n) :
    as.splitOn d = as.take n :: (as.drop (n + 1)).splitOn d := by
  obtain ⟨hn, hget, hbefore⟩ := List.findIdx?_eq_some_iff_getElem.mp h
  have hmem : d ∉ as.take n := by
    intro hmem
    obtain ⟨j, hj, heq⟩ := getElem_of_mem hmem
    rw [length_take] at hj
    rw [getElem_take] at heq
    exact hbefore j (by omega) (beq_iff_eq.mpr heq)
  calc as.splitOn d
      = (as.take n ++ d :: as.drop (n + 1)).splitOn d := by
        rw [← eq_of_beq hget, getElem_cons_drop, take_append_drop]
    _ = as.take n :: (as.drop (n + 1)).splitOn d :=
        splitOn_append_cons_self_of_not_mem hmem _

/-- A closed sequence ends with an empty piece. -/
theorem Closed.splitOn_eq (h : Closed d as) : as.splitOn d = (as.splitOn d).dropLast ++ [[]] := by
  rcases h with rfl | ⟨front, rfl⟩
  · rw [splitOn_nil]
    rfl
  · rw [splitOn_append_cons_self, splitOn_nil, dropLast_concat]

end AgentMail.Lib
