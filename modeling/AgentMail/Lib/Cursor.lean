import Mathlib.Order.Lattice
import Mathlib.Data.List.Perm.Subperm
import Mathlib.Order.Basic

/-!
# Reading an ascending list with a cursor

A reader holds a key up to which it has read, takes the next few keys above it and moves to the
last of them. What it has read between two cursors is a range of the list.
-/

namespace AgentMail.Lib.Cursor

open List

universe u

variable {κ : Type u} [LinearOrder κ]

/-- The keys above the cursor. -/
def above (cursor : κ) (l : List κ) : List κ := l.filter fun k => decide (cursor < k)

/-- The keys above `low` and not above `high`. -/
def range (low high : κ) (l : List κ) : List κ :=
  l.filter fun k => decide (low < k) && decide (k ≤ high)

/-- The cursor after a page. -/
def next (cursor : κ) (page : List κ) : κ := page.getLast?.getD cursor

variable {l : List κ} {low mid high cursor k : κ}

theorem mem_range : k ∈ range low high l ↔ k ∈ l ∧ low < k ∧ k ≤ high := by
  rw [range, mem_filter, Bool.and_eq_true, decide_eq_true_eq, decide_eq_true_eq]

theorem mem_above : k ∈ above cursor l ↔ k ∈ l ∧ cursor < k := by
  rw [above, mem_filter, decide_eq_true_eq]

theorem above_above {cursor' : κ} (h : cursor ≤ cursor') : above cursor' (above cursor l) = above cursor' l := by
  unfold above
  rw [filter_filter]
  apply filter_congr
  intro k _
  by_cases hk : cursor' < k
  · rw [decide_eq_true hk, decide_eq_true (lt_of_le_of_lt h hk)]
    rfl
  · rw [decide_eq_false hk, Bool.false_and]

theorem range_self : range low low l = [] := by
  rw [eq_nil_iff_forall_not_mem]
  intro k hk
  rw [mem_range] at hk
  exact absurd hk.2.1 (not_lt_of_ge hk.2.2)

theorem range_eq_filter_above : range low high l = (above low l).filter fun k => decide (k ≤ high) := by
  rw [above, filter_filter, range]
  apply filter_congr
  intro k _
  rw [Bool.and_comm]

/-- Keys added above a bound do not enter a range below it. -/
theorem range_append_of_above {l' : List κ} (h : ∀ k ∈ l', high < k) :
    range low high (l ++ l') = range low high l := by
  have hnil : range low high l' = [] := by
    rw [eq_nil_iff_forall_not_mem]
    intro k hk
    rw [mem_range] at hk
    exact absurd (h k hk.1) (not_lt_of_ge hk.2.2)
  rw [range, filter_append, ← range, ← range, hnil, append_nil]

/-- Adjacent ranges join. -/
theorem range_append_range (hl : l.Pairwise (· < ·)) (hlow : low ≤ mid) (hhigh : mid ≤ high) :
    range low mid l ++ range mid high l = range low high l := by
  unfold range
  induction l with
  | nil => rfl
  | cons d l ih =>
    rw [pairwise_cons] at hl
    by_cases hmid : d ≤ mid
    · -- `d` is not in the second range, and in the first exactly when it is in the whole.
      have hsecond : (decide (mid < d) && decide (d ≤ high)) = false := by
        rw [decide_eq_false (not_lt_of_ge hmid), Bool.false_and]
      have hfirst : (decide (low < d) && decide (d ≤ mid)) = (decide (low < d) && decide (d ≤ high)) := by
        rw [decide_eq_true hmid, decide_eq_true (le_trans hmid hhigh)]
      rw [filter_cons, filter_cons, filter_cons, hsecond, hfirst,
        if_neg Bool.false_ne_true, ← ih hl.2]
      split <;> rfl
    · -- Everything from `d` on lies above `mid`.
      have habove (x : κ) (hx : x ∈ d :: l) : mid < x := by
        rcases mem_cons.mp hx with rfl | hx
        · exact not_le.mp hmid
        · exact lt_trans (not_le.mp hmid) (hl.1 x hx)
      have hnone : ((d :: l).filter fun k => decide (low < k) && decide (k ≤ mid)) = [] := by
        rw [filter_eq_nil_iff]
        intro x hx
        rw [decide_eq_false (not_le_of_gt (habove x hx)), Bool.and_false]
        exact Bool.false_ne_true
      rw [hnone, nil_append]
      apply filter_congr
      intro x hx
      rw [decide_eq_true (habove x hx), decide_eq_true (lt_of_le_of_lt hlow (habove x hx))]

theorem le_getLast {last : κ} (hl : l.Pairwise (· < ·)) (hlast : l.getLast? = some last)
    (hk : k ∈ l) : k ≤ last := by
  rw [List.getLast?_eq_some_iff] at hlast
  obtain ⟨front, rfl⟩ := hlast
  rw [pairwise_append] at hl
  rcases mem_append.mp hk with hfront | hback
  · exact le_of_lt (hl.2.2 k hfront last (mem_singleton_self last))
  · rw [mem_singleton.mp hback]

theorem le_next {n : Nat} : cursor ≤ next cursor ((above cursor l).take n) := by
  unfold next
  cases hlast : ((above cursor l).take n).getLast? with
  | none => exact le_refl _
  | some last =>
    have hmem := mem_of_mem_take (mem_of_getLast? hlast)
    exact le_of_lt (mem_above.mp hmem).2

/-- The next cursor is the old one or a key of the list. -/
theorem next_mem {n : Nat} : next cursor ((above cursor l).take n) = cursor ∨
    next cursor ((above cursor l).take n) ∈ l := by
  unfold next
  cases hlast : ((above cursor l).take n).getLast? with
  | none => exact .inl rfl
  | some last =>
    exact .inr (mem_above.mp (mem_of_mem_take (mem_of_getLast? hlast))).1

/-- A key of the list is on its first page or above everything on it. -/
theorem mem_take_or_above (h : l.Pairwise (· < ·)) (hk : k ∈ l) (n : Nat) :
    k ∈ l.take n ∨ ∀ x ∈ l.take n, x < k := by
  rw [← take_append_drop n l] at h hk
  rcases mem_append.mp hk with hk | hk
  · exact .inl hk
  · exact .inr fun x hx => (pairwise_append.mp h).2.2 x hx k hk

/-- A page is the range from the cursor to the next one, and what remains is what it left out. -/
theorem take_above {n : Nat} (hn : 1 ≤ n) (hl : l.Pairwise (· < ·)) :
    (above cursor l).take n = range cursor (next cursor ((above cursor l).take n)) l ∧
      (above cursor l).drop n = above (next cursor ((above cursor l).take n)) l := by
  rw [← above_above le_next, range_eq_filter_above]
  have hsorted : (above cursor l).Pairwise (· < ·) := hl.sublist filter_sublist
  generalize above cursor l = keys at hsorted ⊢
  unfold above next
  cases hlast : (keys.take n).getLast? with
  | none =>
    rw [List.getLast?_eq_none_iff] at hlast
    have hnil : keys = [] := by
      rcases take_eq_nil_iff.mp hlast with hzero | hnil
      · omega
      · exact hnil
    rw [hnil, take_nil, drop_nil, filter_nil, filter_nil]
    exact ⟨rfl, rfl⟩
  | some last =>
    rw [← take_append_drop n keys, pairwise_append] at hsorted
    have hmem : last ∈ keys.take n := mem_of_getLast? hlast
    have hread (k : κ) (hk : k ∈ keys.take n) : k ≤ last := le_getLast hsorted.1 hlast hk
    have hleft (k : κ) (hk : k ∈ keys.drop n) : last < k := hsorted.2.2 last hmem k hk
    have hsplit (p : κ → Bool) :
        keys.filter p = (keys.take n).filter p ++ (keys.drop n).filter p := by
      rw [← filter_append, take_append_drop]
    rw [Option.getD_some, hsplit, hsplit]
    constructor
    · rw [filter_eq_self.mpr fun k hk => decide_eq_true (hread k hk),
        filter_eq_nil_iff.mpr, append_nil]
      intro k hk
      rw [decide_eq_false (not_le_of_gt (hleft k hk))]
      exact Bool.false_ne_true
    · rw [filter_eq_self.mpr fun k hk => decide_eq_true (hleft k hk),
        filter_eq_nil_iff.mpr, nil_append]
      intro k hk
      rw [decide_eq_false (not_lt_of_ge (hread k hk))]
      exact Bool.false_ne_true

end AgentMail.Lib.Cursor

/-!
## A lap over a listing that changes

A reader goes once through an ascending listing, a few keys at a visit, and may leave a part of what
it is shown for the next visit. Between two visits keys come and go. The lap ends with the visit
that leaves nothing.
-/

namespace AgentMail.Lib.Cursor

open List

universe u

variable {κ : Type u} [LinearOrder κ]

/-- The listing as it is at a visit; `size` keys are shown and no more than `taken` of them are
taken. -/
structure Visit (κ : Type u) where
  listing : List κ
  size : Nat
  taken : Nat

def Visit.takes (v : Visit κ) (cursor : κ) : List κ :=
  ((above cursor v.listing).take v.size).take v.taken

/-- Everything was shown, and everything shown was taken. -/
def Visit.ends (v : Visit κ) (cursor : κ) : Bool :=
  decide ((above cursor v.listing).length ≤ v.size) &&
    decide (((above cursor v.listing).take v.size).length ≤ v.taken)

/-- The visits of a lap with what they took, and whether the lap ended. -/
def lap (cursor : κ) : List (Visit κ) → List (Visit κ × List κ) × Bool
  | [] => ([], false)
  | v :: vs =>
    if v.ends cursor then ([(v, v.takes cursor)], true)
    else
      let rest := lap (next cursor (v.takes cursor)) vs
      ((v, v.takes cursor) :: rest.1, rest.2)

variable {v : Visit κ} {vs : List (Visit κ)} {cursor k : κ}

theorem lap_cons_ends (h : v.ends cursor = true) :
    lap cursor (v :: vs) = ([(v, v.takes cursor)], true) := by
  rw [lap, if_pos h]

theorem lap_cons (h : ¬ v.ends cursor = true) : lap cursor (v :: vs) =
    ((v, v.takes cursor) :: (lap (next cursor (v.takes cursor)) vs).1,
      (lap (next cursor (v.takes cursor)) vs).2) := by
  rw [lap, if_neg h]

theorem lap_cons_ne_nil : (lap cursor (v :: vs)).1 ≠ [] := by
  rw [lap]
  split <;> exact cons_ne_nil _ _

theorem takes_eq (cursor : κ) :
    v.takes cursor = (above cursor v.listing).take (min v.taken v.size) := by
  rw [Visit.takes, take_take]

theorem mem_of_mem_takes (h : k ∈ v.takes cursor) : k ∈ v.listing ∧ cursor < k := by
  rw [takes_eq] at h
  exact mem_above.mp (mem_of_mem_take h)

theorem takes_sorted (h : v.listing.Pairwise (· < ·)) : (v.takes cursor).Pairwise (· < ·) := by
  rw [takes_eq]
  exact (h.sublist filter_sublist).sublist (take_sublist _ _)

/-- The next cursor is at or above whatever was taken. -/
theorem le_next_of_mem_takes (h : v.listing.Pairwise (· < ·)) (hk : k ∈ v.takes cursor) :
    k ≤ next cursor (v.takes cursor) := by
  have hsorted : (v.takes cursor).Pairwise (· < ·) := takes_sorted h
  obtain ⟨front, last, hlast⟩ := (eq_nil_or_concat _).resolve_left (ne_nil_of_mem hk)
  rw [concat_eq_append] at hlast
  rw [hlast] at hsorted hk
  rw [hlast, next, List.getLast?_concat, Option.getD_some]
  rcases mem_append.mp hk with hfront | hback
  · exact le_of_lt ((pairwise_append.mp hsorted).2.2 k hfront last (mem_singleton_self _))
  · exact le_of_eq (mem_singleton.mp hback)

/-- What is above the old cursor was taken or is above the new one. -/
theorem mem_takes_or_next_lt (h : v.listing.Pairwise (· < ·)) (hk : k ∈ v.listing)
    (hcursor : cursor < k) : k ∈ v.takes cursor ∨ next cursor (v.takes cursor) < k := by
  rw [takes_eq]
  rcases Nat.eq_zero_or_pos (min v.taken v.size) with hzero | hpos
  · right
    rw [hzero, take_zero]
    exact hcursor
  · have hmem : k ∈ above cursor v.listing := mem_above.mpr ⟨hk, hcursor⟩
    rw [← take_append_drop (min v.taken v.size) (above cursor v.listing), mem_append,
      (take_above hpos h).2] at hmem
    exact hmem.imp_right fun hdrop => (mem_above.mp hdrop).2

/-- What a lap takes comes from the listings of its visits. -/
theorem mem_of_mem_lap {p : Visit κ × List κ} (hp : p ∈ (lap cursor vs).1) :
    p.1 ∈ vs ∧ ∀ k ∈ p.2, k ∈ p.1.listing ∧ cursor < k := by
  induction vs generalizing cursor with
  | nil => cases hp
  | cons v vs ih =>
    by_cases hends : v.ends cursor = true
    · rw [lap_cons_ends hends, mem_singleton] at hp
      subst hp
      exact ⟨mem_cons_self, fun k hk => mem_of_mem_takes hk⟩
    · rw [lap_cons hends, mem_cons] at hp
      rcases hp with rfl | hp
      · exact ⟨mem_cons_self, fun k hk => mem_of_mem_takes hk⟩
      · refine ⟨mem_cons_of_mem _ (ih hp).1, fun k hk => ?_⟩
        have hnext : cursor ≤ next cursor (v.takes cursor) := by
          rw [takes_eq]
          exact le_next
        exact ⟨((ih hp).2 k hk).1, lt_of_le_of_lt hnext ((ih hp).2 k hk).2⟩

/-- A lap takes nothing twice. -/
theorem lap_sorted (h : ∀ v ∈ vs, v.listing.Pairwise (· < ·)) :
    ((lap cursor vs).1.flatMap Prod.snd).Pairwise (· < ·) := by
  induction vs generalizing cursor with
  | nil => exact .nil
  | cons v vs ih =>
    rw [forall_mem_cons] at h
    by_cases hends : v.ends cursor = true
    · rw [lap_cons_ends hends, flatMap_singleton]
      exact takes_sorted h.1
    · rw [lap_cons hends, flatMap_cons, pairwise_append]
      refine ⟨takes_sorted h.1, ih h.2, fun k hk k' hk' => ?_⟩
      obtain ⟨p, hp, hk'⟩ := mem_flatMap.mp hk'
      exact lt_of_le_of_lt (le_next_of_mem_takes h.1 hk) ((mem_of_mem_lap hp).2 k' hk').2

/-- A lap that ended has taken every key that was in the listing at all its visits. -/
theorem lap_complete (h : ∀ v ∈ vs, v.listing.Pairwise (· < ·)) (hends : (lap cursor vs).2 = true)
    (hcursor : cursor < k) (hk : ∀ p ∈ (lap cursor vs).1, k ∈ p.1.listing) :
    k ∈ (lap cursor vs).1.flatMap Prod.snd := by
  induction vs generalizing cursor with
  | nil => cases hends
  | cons v vs ih =>
    rw [forall_mem_cons] at h
    by_cases hlast : v.ends cursor = true
    · rw [lap_cons_ends hlast, forall_mem_singleton] at hk
      rw [lap_cons_ends hlast, flatMap_singleton]
      rw [Visit.ends, Bool.and_eq_true, decide_eq_true_eq, decide_eq_true_eq] at hlast
      rw [Visit.takes, take_of_length_le hlast.2, take_of_length_le hlast.1]
      exact mem_above.mpr ⟨hk, hcursor⟩
    · rw [lap_cons hlast] at hends hk ⊢
      rw [forall_mem_cons] at hk
      rw [flatMap_cons, mem_append]
      exact (mem_takes_or_next_lt h.1 hk.1 hcursor).imp_right fun hnext => ih h.2 hends hnext hk.2

omit [LinearOrder κ] in
theorem productive_le_length (l : List (Visit κ × List κ)) :
    (l.filter fun p => !p.2.isEmpty).length ≤ (l.flatMap Prod.snd).length := by
  induction l with
  | nil => exact Nat.le_refl 0
  | cons p l ih =>
    rw [flatMap_cons, length_append]
    cases hp : p.2 with
    | nil =>
      rw [filter_cons_of_neg (by simp [hp])]
      exact Nat.le_trans ih (Nat.le_add_left _ _)
    | cons k rest =>
      rw [filter_cons_of_pos (by simp [hp]), length_cons, length_cons]
      omega

/-- No more visits take something than there are keys. -/
theorem productive_le {keys : List κ} (h : ∀ v ∈ vs, v.listing.Pairwise (· < ·))
    (hkeys : ∀ k ∈ (lap cursor vs).1.flatMap Prod.snd, k ∈ keys) :
    ((lap cursor vs).1.filter fun p => !p.2.isEmpty).length ≤ keys.length := by
  have hnodup : ((lap cursor vs).1.flatMap Prod.snd).Nodup :=
    (lap_sorted h).imp fun hlt => ne_of_lt hlt
  exact Nat.le_trans (productive_le_length _) (subperm_of_subset hnodup hkeys).length_le

theorem takes_ne_nil (hsize : 0 < v.size) (htaken : 0 < v.taken) (h : ¬ v.ends cursor = true) :
    v.takes cursor ≠ [] := by
  intro hnil
  rw [takes_eq, take_eq_nil_iff] at hnil
  rcases hnil with hzero | hnil
  · omega
  · apply h
    rw [Visit.ends, hnil]
    simp

/-- Every visit of a lap that goes on takes something, when it may. -/
theorem productive_of_unfinished (hpos : ∀ v ∈ vs, 0 < v.size ∧ 0 < v.taken)
    (h : (lap cursor vs).2 = false) :
    ((lap cursor vs).1.filter fun p => !p.2.isEmpty).length = vs.length := by
  induction vs generalizing cursor with
  | nil => rfl
  | cons v vs ih =>
    rw [forall_mem_cons] at hpos
    by_cases hends : v.ends cursor = true
    · rw [lap_cons_ends hends] at h
      cases h
    · have htakes := takes_ne_nil hpos.1.1 hpos.1.2 hends
      rw [lap_cons hends] at h ⊢
      rw [filter_cons_of_pos (by simpa using htakes), length_cons, length_cons, ih hpos.2 h]

/-- A lap ends when it may take something at more visits than there are keys. -/
theorem lap_ends {keys : List κ} (h : ∀ v ∈ vs, v.listing.Pairwise (· < ·))
    (hpos : ∀ v ∈ vs, 0 < v.size ∧ 0 < v.taken) (hkeys : ∀ v ∈ vs, ∀ k ∈ v.listing, k ∈ keys)
    (hmany : keys.length < vs.length) : (lap cursor vs).2 = true := by
  by_contra hunfinished
  rw [Bool.not_eq_true] at hunfinished
  have hall : ∀ k ∈ (lap cursor vs).1.flatMap Prod.snd, k ∈ keys := by
    intro k hk
    obtain ⟨p, hp, hk⟩ := mem_flatMap.mp hk
    obtain ⟨hv, hlisted⟩ := mem_of_mem_lap hp
    exact hkeys p.1 hv k (hlisted k hk).1
  have hfew := productive_le h hall
  rw [productive_of_unfinished hpos hunfinished] at hfew
  omega

end AgentMail.Lib.Cursor
