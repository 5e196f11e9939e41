import Mathlib.Data.List.Destutter
import Mathlib.Data.List.Sort

/-!
# Sorting without repetitions, and binary search

A list is sorted and its adjacent repetitions are dropped; a binary search in the result finds
exactly its members.
-/

namespace AgentMail.Lib

open List

variable {α : Type*} [LinearOrder α]

/-- Sort, then drop adjacent repetitions. -/
def sortDedup (l : List α) : List α := (l.insertionSort (· ≤ ·)).destutter (· ≠ ·)

/-- Search for `x` between two places, halving the interval; the fuel bounds its length. -/
def searchBetween (l : List α) (x : α) : Nat → Nat → Nat → Bool
  | 0, _, _ => false
  | fuel + 1, low, high =>
    if low < high then
      let mid := low + (high - low) / 2
      match l[mid]? with
      | none => false
      | some y =>
        if y = x then true
        else if y < x then searchBetween l x fuel (mid + 1) high
        else searchBetween l x fuel low mid
    else false

def binarySearch (l : List α) (x : α) : Bool := searchBetween l x l.length 0 l.length

/-! ### Sorting -/

theorem mem_destutter'_ne {x a : α} {l : List α} :
    x ∈ l.destutter' (· ≠ ·) a ↔ x = a ∨ x ∈ l := by
  induction l generalizing a with
  | nil => simp
  | cons b l ih =>
    rw [destutter'_cons]
    split
    · rw [mem_cons, ih, mem_cons]
    · rename_i hab
      rw [ih, mem_cons, not_not.mp hab]
      simp

@[simp] theorem mem_sortDedup {x : α} {l : List α} : x ∈ sortDedup l ↔ x ∈ l := by
  have hmem : x ∈ l.insertionSort (· ≤ ·) ↔ x ∈ l := (perm_insertionSort _ l).mem_iff
  rw [sortDedup, ← hmem]
  cases l.insertionSort (· ≤ ·) with
  | nil => rfl
  | cons a l => rw [destutter_cons', mem_destutter'_ne, mem_cons]

/-- The result ascends strictly: neighbours differ, and the order is kept. -/
theorem pairwise_sortDedup (l : List α) : (sortDedup l).Pairwise (· < ·) := by
  have hle : (sortDedup l).Pairwise (· ≤ ·) :=
    (pairwise_insertionSort (· ≤ ·) l).sublist (destutter_sublist _ _)
  have hne : (sortDedup l).IsChain (· ≠ ·) := isChain_destutter _ _
  rw [← isChain_iff_pairwise] at hle ⊢
  rw [isChain_iff_getElem] at *
  exact fun i hi => lt_of_le_of_ne (hle i hi) (hne i hi)

/-! ### Searching -/

/-- In an ascending list a halved interval keeps every place that can hold the value. -/
theorem searchBetween_iff {l : List α} (hl : l.Pairwise (· < ·)) (x : α) {fuel low high : Nat}
    (hfuel : high - low ≤ fuel) (hhigh : high ≤ l.length) :
    searchBetween l x fuel low high = true ↔ ∃ i, low ≤ i ∧ i < high ∧ l[i]? = some x := by
  have hlt {i j : Nat} {a b : α} (hij : i < j) (ha : l[i]? = some a) (hb : l[j]? = some b) :
      a < b := by
    obtain ⟨hi, rfl⟩ := List.getElem?_eq_some_iff.mp ha
    obtain ⟨hj, rfl⟩ := List.getElem?_eq_some_iff.mp hb
    exact pairwise_iff_getElem.mp hl i j hi hj hij
  induction fuel generalizing low high with
  | zero =>
    rw [searchBetween]
    have hempty : ¬ ∃ i, low ≤ i ∧ i < high ∧ l[i]? = some x := by
      intro ⟨i, h₁, h₂, _⟩
      omega
    simp [hempty]
  | succ fuel ih =>
    rw [searchBetween]
    by_cases hne : low < high
    · have hmid : low + (high - low) / 2 < l.length := by omega
      rw [if_pos hne]
      obtain ⟨y, hy⟩ : ∃ y, l[low + (high - low) / 2]? = some y :=
        ⟨_, List.getElem?_eq_getElem hmid⟩
      generalize hm : low + (high - low) / 2 = mid at hy
      simp only [hy]
      split
      · rename_i heq
        rw [heq] at hy
        exact iff_of_true rfl ⟨mid, by omega, by omega, hy⟩
      · rename_i hyx
        split
        · rename_i hlow
          refine (ih (by omega) hhigh).trans ?_
          constructor
          · intro ⟨i, h₁, h₂, hi⟩
            exact ⟨i, by omega, h₂, hi⟩
          · intro ⟨i, h₁, h₂, hi⟩
            refine ⟨i, ?_, h₂, hi⟩
            -- A place up to the middle holds at most the middle value.
            by_contra hle
            rcases Nat.lt_or_eq_of_le (show i ≤ mid by omega) with hlt' | rfl
            · exact absurd (hlt hlt' hi hy) (not_lt_of_gt hlow)
            · exact hyx (Option.some.inj (hy.symm.trans hi))
        · rename_i hlow
          refine (ih (by omega) (by omega)).trans ?_
          constructor
          · intro ⟨i, h₁, h₂, hi⟩
            exact ⟨i, h₁, by omega, hi⟩
          · intro ⟨i, h₁, h₂, hi⟩
            refine ⟨i, h₁, ?_, hi⟩
            by_contra hle
            rcases Nat.lt_or_eq_of_le (show mid ≤ i by omega) with hlt' | rfl
            · exact absurd (hlt hlt' hy hi) hlow
            · exact hyx (Option.some.inj (hy.symm.trans hi))
    · rw [if_neg hne]
      have hempty : ¬ ∃ i, low ≤ i ∧ i < high ∧ l[i]? = some x := by
        intro ⟨i, h₁, h₂, _⟩
        omega
      simp [hempty]

theorem binarySearch_iff {l : List α} (hl : l.Pairwise (· < ·)) {x : α} :
    binarySearch l x = true ↔ x ∈ l := by
  rw [binarySearch, searchBetween_iff hl x (by omega) le_rfl, mem_iff_getElem?]
  constructor
  · intro ⟨i, _, _, hi⟩
    exact ⟨i, hi⟩
  · intro ⟨i, hi⟩
    exact ⟨i, Nat.zero_le i, (List.getElem?_eq_some_iff.mp hi).1, hi⟩

end AgentMail.Lib
