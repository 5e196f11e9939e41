import Mathlib.Order.Lattice
import Mathlib.Data.List.Induction
import Mathlib.Order.Basic

/-!
# Paging through ties

A listing in descending order of a key that is not unique. A reader remembers the key of the last
element that it has read and how many elements with this key it has read; the next page is what is
left of the listing below this ceiling after that many elements.
-/

namespace AgentMail.Lib

open List

universe u v

/-- The position of a reader. -/
structure Mark (κ : Type v) where
  ceiling : Option κ
  skip : Nat

variable {α : Type u} {κ : Type v} [LinearOrder κ] (key : α → κ)

/-- The position after one more element. -/
def Mark.advance (mark : Mark κ) (x : α) : Mark κ :=
  if mark.ceiling = some (key x) then { mark with skip := mark.skip + 1 }
  else { ceiling := some (key x), skip := 1 }

/-- The position after the elements read so far. -/
def markAfter (read : List α) : Mark κ := read.foldl (Mark.advance key) { ceiling := none, skip := 0 }

/-- What is left of a listing at a position. -/
def remaining (listing : List α) (mark : Mark κ) : List α :=
  (listing.filter fun x => mark.ceiling.all fun c => decide (key x ≤ c)).drop mark.skip

variable {key} {l read rest : List α}

theorem markAfter_append : markAfter key (read ++ l) = l.foldl (Mark.advance key) (markAfter key read) :=
  foldl_append

theorem markAfter_concat {x : α} : markAfter key (read ++ [x]) = (markAfter key read).advance key x := by
  rw [markAfter_append, foldl_cons, foldl_nil]

theorem ceiling_markAfter : (markAfter key l).ceiling = l.getLast?.map key := by
  induction l using reverseRecOn with
  | nil => rfl
  | append_singleton front x _ =>
    rw [markAfter_concat, Mark.advance, List.getLast?_concat, Option.map_some]
    split
    · next hsame => exact hsame
    · rfl

/-- The ceiling is the least key read. -/
theorem ceiling_le {c : κ} (h : l.Pairwise fun a b => key b ≤ key a)
    (hc : (markAfter key l).ceiling = some c) {x : α} (hx : x ∈ l) : c ≤ key x := by
  rw [ceiling_markAfter, Option.map_eq_some_iff] at hc
  obtain ⟨last, hlast, rfl⟩ := hc
  rw [List.getLast?_eq_some_iff] at hlast
  obtain ⟨front, rfl⟩ := hlast
  rw [pairwise_append] at h
  rcases mem_append.mp hx with hfront | hback
  · exact h.2.2 x hfront last (mem_singleton_self last)
  · rw [mem_singleton.mp hback]

/-- The reader counts the elements at its ceiling. -/
theorem skip_markAfter (h : l.Pairwise fun a b => key b ≤ key a) :
    (markAfter key l).skip =
      (l.filter fun x => decide ((markAfter key l).ceiling = some (key x))).length := by
  induction l using reverseRecOn with
  | nil => rfl
  | append_singleton front last ih =>
    have hfront := (pairwise_append.mp h).1
    have hlast (x : α) (hx : x ∈ front) : key last ≤ key x :=
      (pairwise_append.mp h).2.2 x hx last (mem_singleton_self last)
    rw [markAfter_concat, Mark.advance]
    split
    · next hsame =>
      rw [hsame] at ih
      rw [filter_append, length_append, ih hfront, hsame]
      simp
    · next hnew =>
      -- Nothing read before is at the new ceiling: the last key before was already higher.
      have hnone : front.filter (fun x => decide (some (key last) = some (key x))) = [] := by
        rw [filter_eq_nil_iff]
        intro x hx heq
        rw [decide_eq_true_eq, Option.some.injEq] at heq
        cases hc : (markAfter key front).ceiling with
        | none =>
          rw [ceiling_markAfter, Option.map_eq_none_iff, List.getLast?_eq_none_iff] at hc
          rw [hc] at hx
          exact absurd hx not_mem_nil
        | some c =>
          have hle : c ≤ key last := heq ▸ ceiling_le hfront hc hx
          have hge : key last ≤ c := by
            rw [ceiling_markAfter, Option.map_eq_some_iff] at hc
            obtain ⟨y, hy, rfl⟩ := hc
            exact hlast y (mem_of_getLast? hy)
          exact hnew (by rw [hc, le_antisymm hle hge])
      dsimp only
      rw [filter_append, hnone, nil_append]
      simp

/-- At the position after the elements read, exactly the others are left. -/
theorem remaining_markAfter (h : (read ++ rest).Pairwise fun a b => key b ≤ key a) :
    remaining key (read ++ rest) (markAfter key read) = rest := by
  have hread := (pairwise_append.mp h).1
  unfold remaining
  cases hc : (markAfter key read).ceiling with
  | none =>
    have hnil : read = [] := by
      rwa [ceiling_markAfter, Option.map_eq_none_iff, List.getLast?_eq_none_iff] at hc
    rw [hnil, nil_append]
    exact filter_eq_self.mpr fun _ _ => rfl
  | some c =>
    have hties : read.filter (fun x => (some c).all fun c => decide (key x ≤ c)) =
        read.filter fun x => decide ((markAfter key read).ceiling = some (key x)) := by
      apply filter_congr
      intro x hx
      rw [hc, Option.all_some, decide_eq_decide, Option.some.injEq]
      constructor
      · intro hle
        exact le_antisymm (ceiling_le hread hc hx) hle
      · intro heq
        exact le_of_eq heq.symm
    have hrest : rest.filter (fun x => (some c).all fun c => decide (key x ≤ c)) = rest := by
      rw [filter_eq_self]
      intro x hx
      rw [ceiling_markAfter, Option.map_eq_some_iff] at hc
      obtain ⟨last, hlast, rfl⟩ := hc
      exact decide_eq_true ((pairwise_append.mp h).2.2 last (mem_of_getLast? hlast) x hx)
    rw [filter_append, hties, hrest, skip_markAfter hread, drop_left]

/-! ### Reading from a ceiling on -/

/-- The position after the elements read from a ceiling on. -/
def markFrom (c : κ) (key : α → κ) (read : List α) : Mark κ :=
  read.foldl (Mark.advance key) { ceiling := some c, skip := 0 }

variable {c : κ}

theorem markFrom_append : markFrom c key (read ++ l) = l.foldl (Mark.advance key) (markFrom c key read) :=
  foldl_append

/-- After the first element, the ceiling at the start plays no part. -/
theorem markFrom_of_ne_nil (h : l ≠ []) : markFrom c key l = markAfter key l := by
  cases l with
  | nil => exact absurd rfl h
  | cons x l =>
    have hfirst : Mark.advance key { ceiling := some c, skip := 0 } x =
        Mark.advance key { ceiling := none, skip := 0 } x := by
      unfold Mark.advance
      dsimp only
      split
      · next hsame => rw [hsame, if_neg (Option.some_ne_none _).symm]
      · rfl
    rw [markFrom, markAfter, foldl_cons, foldl_cons, hfirst]

theorem ceiling_markFrom : (markFrom c key l).ceiling = some ((l.getLast?.map key).getD c) := by
  cases hl : l.getLast? with
  | none =>
    rw [List.getLast?_eq_none_iff.mp hl]
    rfl
  | some last =>
    have hne : l ≠ [] := by
      rintro rfl
      cases hl
    rw [markFrom_of_ne_nil hne, ceiling_markAfter, hl]
    rfl

theorem skip_markFrom_le (h : l.Pairwise fun a b => key b ≤ key a) :
    (markFrom c key l).skip ≤ l.length := by
  by_cases hl : l = []
  · rw [hl]
    exact Nat.le_refl 0
  · rw [markFrom_of_ne_nil hl, skip_markAfter h]
    exact length_filter_le ..

/-- Below the ceiling at the start, exactly the elements that were not read are left. -/
theorem remaining_markFrom (h : (read ++ rest).Pairwise fun a b => key b ≤ key a)
    (hc : ∀ x ∈ read ++ rest, key x ≤ c) :
    remaining key (read ++ rest) (markFrom c key read) = rest := by
  by_cases hread : read = []
  · rw [hread, nil_append] at hc ⊢
    exact filter_eq_self.mpr fun x hx => decide_eq_true (hc x hx)
  · rw [markFrom_of_ne_nil hread, remaining_markAfter h]

end AgentMail.Lib
