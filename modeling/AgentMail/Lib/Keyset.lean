import Mathlib.Data.List.Basic

/-!
# Pages resumed after an element

A listing is read in pages. A page is resumed after the last element of the page before it, by a
test that need not know the listing, and the reading ends with a page that is not full. The pages
are the listing if the test tells, for every element, what stands behind it.
-/

namespace AgentMail.Lib.Resume

open List

universe u

variable {α : Type u} (after : α → α → Bool) (limits : Nat → Nat) (l : List α)

/-- What is left to read after an element. -/
def rest (last : Option α) : List α :=
  match last with
  | none => l
  | some a => l.filter (after a)

/-- The pages from one on; there may be too little fuel to end. -/
def pages : Nat → Nat → Option α → Option (List (List α))
  | 0, _, _ => none
  | fuel + 1, n, last =>
    let page := (rest after l last).take (limits n)
    if page.length < limits n then some [page]
    else (pages fuel (n + 1) page.getLast?).map (page :: ·)

variable {after limits l}

/-- Behind an element is what the test tells. -/
theorem filter_after {front back : List α} {a : α}
    (h : (front ++ a :: back).Pairwise fun x y => after x y = true ∧ after y x = false)
    (hself : after a a = false) : (front ++ a :: back).filter (after a) = back := by
  rw [pairwise_append, pairwise_cons] at h
  have hfront : front.filter (after a) = [] := by
    rw [filter_eq_nil_iff]
    intro x hx
    rw [(h.2.2 x hx a mem_cons_self).2]
    exact Bool.false_ne_true
  have hback : back.filter (after a) = back := by
    rw [filter_eq_self]
    intro x hx
    exact (h.2.1.1 x hx).1
  rw [filter_append, hfront, nil_append, filter_cons_of_neg (by rw [hself]; exact Bool.false_ne_true),
    hback]

/-- With enough fuel the pages end, and together they are what was left to read. -/
theorem pages_eq (hlimits : ∀ n, 1 ≤ limits n)
    (h : l.Pairwise fun x y => after x y = true ∧ after y x = false)
    (hself : ∀ a ∈ l, after a a = false) {front back : List α} (hl : l = front ++ back)
    {last : Option α} (hlast : rest after l last = back) {fuel n : Nat} (hfuel : back.length < fuel) :
    ∃ ps, pages after limits l fuel n last = some ps ∧ ps.flatten = back := by
  induction fuel generalizing front back last n with
  | zero => omega
  | succ fuel ih =>
    have hpos := hlimits n
    rw [pages, hlast]
    by_cases hshort : (back.take (limits n)).length < limits n
    · rw [if_pos hshort]
      refine ⟨_, rfl, ?_⟩
      rw [length_take] at hshort
      rw [flatten_cons, flatten_nil, append_nil, take_of_length_le (by omega)]
    · rw [if_neg hshort]
      -- a full page is not empty; the reading goes on after its last element
      have hne : back.take (limits n) ≠ [] := by
        intro hnil
        rw [hnil, length_nil] at hshort
        omega
      obtain ⟨init, a, htake⟩ := (eq_nil_or_concat _).resolve_left hne
      rw [concat_eq_append] at htake
      have hsplit : l = (front ++ init) ++ a :: back.drop (limits n) := by
        have hback := take_append_drop (limits n) back
        rw [htake, append_assoc, singleton_append] at hback
        rw [hl, append_assoc, hback]
      have hrest : rest after l (some a) = back.drop (limits n) := by
        rw [hsplit] at h hself ⊢
        exact filter_after h (hself a (by simp))
      have hlength : (back.drop (limits n)).length < fuel := by
        rw [length_take] at hshort
        rw [length_drop]
        omega
      have hfront : l = (front ++ init ++ [a]) ++ back.drop (limits n) := by
        rw [hsplit, append_assoc _ [a], singleton_append]
      obtain ⟨ps, hps, hflat⟩ := ih (n := n + 1) hfront hrest hlength
      rw [htake, List.getLast?_concat, hps]
      refine ⟨_, rfl, ?_⟩
      rw [flatten_cons, hflat, ← htake, take_append_drop]

/-- The pages are the listing. -/
theorem pages_all (hlimits : ∀ n, 1 ≤ limits n)
    (h : l.Pairwise fun x y => after x y = true ∧ after y x = false)
    (hself : ∀ a ∈ l, after a a = false) {fuel : Nat} (hfuel : l.length < fuel) :
    ∃ ps, pages after limits l fuel 0 none = some ps ∧ ps.flatten = l :=
  pages_eq hlimits h hself (nil_append l).symm rfl hfuel

end AgentMail.Lib.Resume

/-!
## Reading a table in batches by key

A table in ascending order of its keys is read in batches: each query takes the first rows above the
last key that was read, and the reading ends with a batch that is not full. Together the batches are
the table.
-/

namespace AgentMail.Lib

open List

universe u

variable {α : Type u} (key : α → Int) (batch : Nat) (table : List α)

/-- `WHERE key > floor ORDER BY key LIMIT batch`; there is no floor before the first batch. -/
def nextBatch (floor : Option Int) : List α :=
  (table.filter fun r => floor.all fun f => f < key r).take batch

/-- The reading loop, with a bound on the number of batches. -/
def readBatches : Nat → Option Int → List α
  | 0, _ => []
  | fuel + 1, floor =>
    let rows := nextBatch key batch table floor
    if rows.isEmpty then []
    else if rows.length < batch then rows
    else rows ++ readBatches fuel (rows.getLast?.map key)

variable {key batch table}

theorem filter_above_last {front back : List α} {last : α}
    (h : (front ++ last :: back).Pairwise fun a b => key a < key b) :
    (front ++ last :: back).filter (fun r => key last < key r) = back := by
  rw [pairwise_append, pairwise_cons] at h
  rw [filter_append, filter_cons_of_neg (by simp)]
  have hfront : front.filter (fun r => key last < key r) = [] := by
    rw [filter_eq_nil_iff]
    intro r hr
    have hlt := h.2.2 r hr last mem_cons_self
    simp only [decide_eq_true_eq]
    omega
  have hback : back.filter (fun r => key last < key r) = back := by
    rw [filter_eq_self]
    intro r hr
    exact decide_eq_true (h.2.1.1 r hr)
  rw [hfront, hback, nil_append]

/-- What is above the floor is read, if the bound is not reached. -/
theorem readBatches_eq (hbatch : 0 < batch) (h : table.Pairwise fun a b => key a < key b)
    (front : List α) {back : List α} (htable : table = front ++ back) (fuel : Nat) (floor : Option Int)
    (hfloor : table.filter (fun r => floor.all fun f => f < key r) = back)
    (hfuel : back.length < fuel) : readBatches key batch table fuel floor = back := by
  induction fuel generalizing front back floor with
  | zero => omega
  | succ fuel ih =>
    unfold readBatches nextBatch
    rw [hfloor]
    cases hback : back with
    | nil => simp
    | cons r rest =>
      have hne : (r :: rest).take batch ≠ [] := by
        intro hnil
        rw [take_eq_nil_iff] at hnil
        rcases hnil with hzero | hnil
        · omega
        · cases hnil
      simp only [isEmpty_eq_false_iff.mpr hne]
      by_cases hshort : ((r :: rest).take batch).length < batch
      · rw [if_neg (by simp), if_pos hshort, take_of_length_le]
        rw [length_take] at hshort
        omega
      · rw [if_neg (by simp), if_neg hshort]
        -- the last row of a full batch is the next floor
        obtain ⟨init, last, htake⟩ := (eq_nil_or_concat _).resolve_left hne
        rw [concat_eq_append] at htake
        have hsplit : table = (front ++ init) ++ last :: (r :: rest).drop batch := by
          have hrows := take_append_drop batch (r :: rest)
          rw [htake] at hrows
          rw [append_assoc, singleton_append] at hrows
          rw [htable, hback, append_assoc, hrows]
        have hnext : table.filter (fun s => (some (key last)).all fun f => f < key s) =
            (r :: rest).drop batch := by
          rw [hsplit] at h ⊢
          simpa using filter_above_last h
        have hlength : ((r :: rest).drop batch).length < fuel := by
          rw [hback] at hfuel
          rw [length_drop]
          simp only [length_cons] at hfuel ⊢
          omega
        have hlast : ((r :: rest).take batch).getLast?.map key = some (key last) := by
          rw [htake, List.getLast?_concat, Option.map_some]
        rw [hlast, ih (front ++ init ++ [last]) (by rw [hsplit]; simp) _ hnext hlength,
          take_append_drop]

/-- The batches are the table. -/
theorem readBatches_all (hbatch : 0 < batch) (h : table.Pairwise fun a b => key a < key b) :
    readBatches key batch table (table.length + 1) none = table :=
  readBatches_eq hbatch h [] rfl _ none (by simp) (Nat.lt_succ_self _)

end AgentMail.Lib
