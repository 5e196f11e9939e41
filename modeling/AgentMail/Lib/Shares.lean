import Mathlib.Algebra.BigOperators.Group.Multiset.Basic
import Mathlib.Algebra.Order.BigOperators.Group.List
import Mathlib.Algebra.Order.Ring.Nat

/-!
# What a group of parties holds together

Every party of a list holds a share, and a step changes one party at a time. The total is a sum in
any commutative monoid with cancellation: a number, or a multiset of things that are handed around.
-/

namespace AgentMail.Lib

open List

universe u v

variable {α : Type u} {M : Type v}

variable {l : List α}

section

variable [AddCommMonoid M] (share : α → M)

theorem sum_map_set {i : Nat} {a : α} (h : l[i]? = some a) (b : α) :
    ((l.set i b).map share).sum + share a = (l.map share).sum + share b := by
  induction l generalizing i with
  | nil => cases h
  | cons c l ih =>
    cases i with
    | zero =>
      rw [List.getElem?_cons_zero, Option.some.injEq] at h
      subst h
      rw [set_cons_zero, map_cons, map_cons, sum_cons, sum_cons]
      exact (add_right_comm ..).trans (congrArg (· + _) (add_comm ..) |>.trans (add_right_comm ..))
    | succ i =>
      rw [List.getElem?_cons_succ] at h
      rw [set_cons_succ, map_cons, map_cons, sum_cons, sum_cons, add_assoc, ih h, add_assoc]

end

/-- What the parties hold, as lists. -/
theorem coe_flatMap (hold : α → List M) (l : List α) :
    (l.flatMap hold : Multiset M) = (l.map fun a => (hold a : Multiset M)).sum := by
  induction l with
  | nil => rfl
  | cons a l ih =>
    rw [flatMap_cons, map_cons, sum_cons, ← ih, Multiset.coe_add]

theorem flatMap_set_perm (hold : α → List M) {i : Nat} {a : α} (h : l[i]? = some a) (b : α) :
    ((l.set i b).flatMap hold ++ hold a).Perm (l.flatMap hold ++ hold b) := by
  rw [← Multiset.coe_eq_coe, ← Multiset.coe_add, ← Multiset.coe_add, coe_flatMap, coe_flatMap]
  exact sum_map_set (fun a => (hold a : Multiset M)) h b

theorem map_set_of_eq {β : Type v} {f : α → β} {i : Nat} {a b : α} (h : l[i]? = some a)
    (hb : f b = f a) : (l.set i b).map f = l.map f := by
  obtain ⟨hi, rfl⟩ := List.getElem?_eq_some_iff.mp h
  rw [map_set, hb, ← getElem_map (f := f) (h := by simpa using hi), set_getElem_self]

theorem getElem?_set_cases {i j : Nat} {b x : α} (h : (l.set i b)[j]? = some x) :
    j = i ∧ x = b ∨ j ≠ i ∧ l[j]? = some x := by
  by_cases hj : j = i
  · subst hj
    rw [List.getElem?_set_self'] at h
    obtain ⟨_, _, rfl⟩ := Option.map_eq_some_iff.mp h
    exact .inl ⟨rfl, rfl⟩
  · exact .inr ⟨hj, by rwa [List.getElem?_set_ne (Ne.symm hj)] at h⟩

theorem getElem?_append_of_some {j : Nat} {x : α} (h : l[j]? = some x) (b : α) :
    (l ++ [b])[j]? = some x := by
  rw [List.getElem?_append_left (List.getElem?_eq_some_iff.mp h).1, h]

theorem getElem?_append_cases {j : Nat} {b x : α} (h : (l ++ [b])[j]? = some x) :
    l[j]? = some x ∨ l.length ≤ j ∧ x = b := by
  rw [List.getElem?_append] at h
  split at h
  · exact .inl h
  · next hlen => exact .inr ⟨Nat.le_of_not_lt hlen, mem_singleton.mp (mem_of_getElem? h)⟩

theorem countP_set_add (p : α → Bool) {i : Nat} {a : α} (h : l[i]? = some a) (b : α) :
    (l.set i b).countP p + (if p a then 1 else 0) = l.countP p + if p b then 1 else 0 := by
  obtain ⟨hi, rfl⟩ := List.getElem?_eq_some_iff.mp h
  have hpos : (if p l[i] then 1 else 0) ≤ l.countP p := by
    split
    · next hp => exact countP_pos_iff.mpr ⟨l[i], getElem_mem hi, hp⟩
    · exact Nat.zero_le _
  rw [countP_set hi]
  omega

/-- Two parties hold no more than all together. -/
theorem add_le_sum_map (share : α → Nat) {i j : Nat} {a b : α} (hij : i ≠ j) (hi : l[i]? = some a)
    (hj : l[j]? = some b) : share a + share b ≤ (l.map share).sum := by
  have hone {l : List α} {k : Nat} {c : α} (h : l[k]? = some c) : share c ≤ (l.map share).sum :=
    le_sum_of_mem (mem_map_of_mem (mem_of_getElem? h))
  induction l generalizing i j with
  | nil => cases hi
  | cons c l ih =>
    rw [map_cons, sum_cons]
    cases i with
    | zero =>
      cases j with
      | zero => exact absurd rfl hij
      | succ j =>
        rw [List.getElem?_cons_zero, Option.some.injEq] at hi
        rw [List.getElem?_cons_succ] at hj
        subst hi
        have hb := hone hj
        omega
    | succ i =>
      rw [List.getElem?_cons_succ] at hi
      cases j with
      | zero =>
        rw [List.getElem?_cons_zero, Option.some.injEq] at hj
        subst hj
        have ha := hone hi
        omega
      | succ j =>
        rw [List.getElem?_cons_succ] at hj
        have hboth := ih (by omega) hi hj
        omega

/-! ### Things that are filed under keys -/

section

variable {κ : Type v} [DecidableEq κ]

def ofKey (k : κ) (l : List (κ × α)) : List α := (l.filter (·.1 = k)).map Prod.snd

@[simp] theorem ofKey_append (k : κ) (l l' : List (κ × α)) :
    ofKey k (l ++ l') = ofKey k l ++ ofKey k l' := by
  simp [ofKey]

theorem ofKey_map_mk (k key : κ) (l : List α) :
    ofKey k (l.map (key, ·)) = if k = key then l else [] := by
  split
  · next h => simp [ofKey, filter_map, Function.comp_def, h]
  · next h => simp [ofKey, filter_map, Function.comp_def, Ne.symm h]

theorem perm_ofKey {l l' : List (κ × α)} (h : l.Perm l') (k : κ) : (ofKey k l).Perm (ofKey k l') :=
  (h.filter _).map _

theorem count_ofKey [DecidableEq α] (k : κ) (l : List (κ × α)) (a : α) :
    (ofKey k l).count a = l.count (k, a) := by
  induction l with
  | nil => rfl
  | cons x l ih =>
    by_cases hk : x.1 = k
    · rw [ofKey, filter_cons_of_pos (by simpa using hk), map_cons, count_cons,
        count_cons, ← ih, ofKey]
      congr 1
      simp only [beq_iff_eq, Prod.ext_iff, hk, true_and]
    · rw [ofKey, filter_cons_of_neg (by simpa using hk), count_cons_of_ne, ← ih, ofKey]
      exact fun hx => hk (congrArg Prod.fst hx)

theorem length_le_of_ofKey [DecidableEq α] {l l' : List (κ × α)}
    (h : ∀ k, (ofKey k l : Multiset α) ≤ ofKey k l') : l.length ≤ l'.length := by
  have hle : (l : Multiset (κ × α)) ≤ l' := by
    rw [Multiset.le_iff_count]
    intro x
    have hx := Multiset.le_iff_count.mp (h x.1) x.2
    rw [Multiset.coe_count, Multiset.coe_count, count_ofKey, count_ofKey] at hx
    rw [Multiset.coe_count, Multiset.coe_count]
    convert hx
  exact Multiset.card_le_card hle

end

end AgentMail.Lib
