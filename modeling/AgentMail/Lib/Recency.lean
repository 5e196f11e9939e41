import Mathlib.Data.List.Nodup
import Mathlib.Data.List.TakeDrop

/-!
# The newest entry of every key

A log, newest entry first, of which the last entry of a key counts. Two logs that agree on the newest
`n` keys stay so whatever is written to both, and cutting a log down to its newest `n` keys is one
way to agree with it.
-/

namespace AgentMail.Lib

open List

universe u v

variable {α : Type u} {κ : Type v} [DecidableEq κ]

/-- The newest entry of every key. -/
def newest (key : α → κ) : List α → List α
  | [] => []
  | a :: log => a :: (newest key log).filter fun b => key b ≠ key a

/-- The newest `n` keys have the same newest entries. -/
def SameRecent (key : α → κ) (n : Nat) (log log' : List α) : Prop :=
  (newest key log).take n = (newest key log').take n

variable {key : α → κ}

theorem mem_of_mem_newest {a : α} {log : List α} (h : a ∈ newest key log) : a ∈ log := by
  induction log with
  | nil => exact h
  | cons b log ih =>
    rw [newest, mem_cons, mem_filter] at h
    rcases h with rfl | ⟨h, _⟩
    · exact mem_cons_self
    · exact mem_cons_of_mem _ (ih h)

theorem nodup_newest (log : List α) : ((newest key log).map key).Nodup := by
  induction log with
  | nil => exact nodup_nil
  | cons a log ih =>
    rw [newest, map_cons, nodup_cons]
    constructor
    · intro hmem
      obtain ⟨b, hb, hkey⟩ := mem_map.mp hmem
      have hne := (mem_filter.mp hb).2
      rw [decide_eq_true_eq] at hne
      exact hne hkey
    · exact ih.sublist (filter_sublist.map key)

/-- A log without repeated keys is its newest entries. -/
theorem newest_of_nodup {log : List α} (h : (log.map key).Nodup) : newest key log = log := by
  induction log with
  | nil => rfl
  | cons a log ih =>
    rw [map_cons, nodup_cons] at h
    rw [newest, ih h.2, filter_eq_self.mpr]
    intro b hb
    rw [decide_eq_true_eq]
    intro hkey
    exact h.1 (hkey ▸ mem_map_of_mem hb)

theorem newest_take (n : Nat) (log : List α) :
    newest key ((newest key log).take n) = (newest key log).take n := by
  apply newest_of_nodup
  rw [map_take]
  exact (nodup_newest log).sublist (take_sublist n _)

/-- The keys are those of the log of keys. -/
theorem map_newest (log : List α) : (newest key log).map key = newest id (log.map key) := by
  induction log with
  | nil => rfl
  | cons a log ih =>
    rw [newest, map_cons, map_cons, newest, ← ih, filter_map]
    rfl

theorem find?_newest (k : κ) (log : List α) :
    (newest key log).find? (fun a => key a = k) = log.find? fun a => key a = k := by
  induction log with
  | nil => rfl
  | cons a log ih =>
    by_cases ha : key a = k
    · rw [newest, List.find?_cons_of_pos (by simpa using ha),
        List.find?_cons_of_pos (by simpa using ha)]
    · rw [newest, List.find?_cons_of_neg (by simpa using ha),
        List.find?_cons_of_neg (by simpa using ha), ← ih, List.find?_filter]
      congr 1
      funext b
      by_cases hb : key b = k
      · have hne : k ≠ key a := fun h => ha h.symm
        simp [hb, hne]
      · simp [hb]

/-- The entries of a key that is among the newest `n` are found there. -/
theorem find?_take_newest {n : Nat} {k : κ} {log : List α}
    (h : k ∈ ((newest key log).take n).map key) :
    ((newest key log).take n).find? (fun a => key a = k) = log.find? fun a => key a = k := by
  rw [← find?_newest k log]
  conv_rhs => rw [← take_append_drop n (newest key log), List.find?_append]
  obtain ⟨a, ha, hkey⟩ := mem_map.mp h
  cases hfind : ((newest key log).take n).find? fun a => key a = k with
  | some b => rfl
  | none =>
    have := List.find?_eq_none.mp hfind a ha
    rw [decide_eq_true_eq] at this
    exact absurd hkey this

/-- Without one key, `n` of a list of distinct keys are among its first `n + 1`. -/
theorem take_filter_ne {l : List α} (hnodup : (l.map key).Nodup) (k : κ) (n : Nat) :
    (l.filter fun b => key b ≠ k).take n = ((l.take (n + 1)).filter fun b => key b ≠ k).take n := by
  induction l generalizing n with
  | nil => rfl
  | cons a l ih =>
    rw [map_cons, nodup_cons] at hnodup
    rw [take_succ_cons]
    by_cases ha : key a = k
    · have hall : ∀ b ∈ l, decide (key b ≠ k) = true := by
        intro b hb
        rw [decide_eq_true_eq]
        intro hkey
        exact hnodup.1 (ha.trans hkey.symm ▸ mem_map_of_mem hb)
      rw [filter_cons_of_neg (by simpa using ha), filter_cons_of_neg (by simpa using ha),
        filter_eq_self.mpr hall,
        filter_eq_self.mpr fun b hb => hall b (mem_of_mem_take hb), take_take, Nat.min_self]
    · rw [filter_cons_of_pos (by simpa using ha), filter_cons_of_pos (by simpa using ha)]
      cases n with
      | zero => rfl
      | succ n => rw [take_succ_cons, take_succ_cons, ih hnodup.2]

namespace SameRecent

variable {n : Nat} {log log' : List α}

theorem cons (h : SameRecent key n log log') (a : α) : SameRecent key n (a :: log) (a :: log') := by
  unfold SameRecent
  cases n with
  | zero => rfl
  | succ n =>
    rw [newest, newest, take_succ_cons, take_succ_cons, take_filter_ne (nodup_newest log),
      take_filter_ne (nodup_newest log'), h]

/-- Only the newest `n` keys are kept. -/
theorem cut (h : SameRecent key n log log') : SameRecent key n log ((newest key log').take n) := by
  unfold SameRecent
  rw [newest_take, take_take, Nat.min_self]
  exact h

/-- What is asked of the newest `n` keys has the same answer. -/
theorem find? (h : SameRecent key n log log') {k : κ} (hk : k ∈ (newest id (log.map key)).take n) :
    log'.find? (fun a => key a = k) = log.find? fun a => key a = k := by
  rw [← map_newest, ← map_take] at hk
  rw [← find?_take_newest hk, ← find?_take_newest (h ▸ hk), h]

end SameRecent

end AgentMail.Lib
