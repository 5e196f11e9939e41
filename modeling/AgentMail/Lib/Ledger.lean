import Mathlib.Data.Int.Order.Basic
import Mathlib.Data.List.Perm.Subperm
import AgentMail.Lib.Table

/-!
# Tables with automatic numbers

A table whose rows carry unique numbers. A row is stored under a number of the caller's choice,
if that is free, or under an issued one: one more than the largest number that was ever used.
-/

namespace AgentMail.Lib

open List

universe u

/-- The rows in the order of their insertion, and the largest number ever used. -/
structure Ledger (β : Type u) where
  rows : List (Int × β)
  top : Int
  nodup : (rows.map Prod.fst).Nodup
  le_top : ∀ n ∈ rows.map Prod.fst, n ≤ top

namespace Ledger

variable {β : Type u}

def empty : Ledger β where
  rows := []
  top := 0
  nodup := nodup_nil
  le_top := by simp

def numbers (L : Ledger β) : List Int := L.rows.map Prod.fst

def items (L : Ledger β) : List β := L.rows.map Prod.snd

/-- The row under a number. -/
def get? (L : Ledger β) (n : Int) : Option β := Assoc.get? n L.rows

theorem top_succ_notMem {rows : List (Int × β)} {top : Int}
    (h : ∀ n ∈ rows.map Prod.fst, n ≤ top) : top + 1 ∉ rows.map Prod.fst := by
  intro hmem
  have := h _ hmem
  omega

variable {n : Int} {b : β}

theorem nodup_append_row {rows : List (Int × β)} (h : (rows.map Prod.fst).Nodup)
    (hn : n ∉ rows.map Prod.fst) : ((rows ++ [(n, b)]).map Prod.fst).Nodup := by
  rw [map_append]
  exact h.append (nodup_singleton n) (disjoint_singleton.mpr hn)

theorem le_append_row {rows : List (Int × β)} {top top' : Int}
    (h : ∀ m ∈ rows.map Prod.fst, m ≤ top) (htop : top ≤ top') (hn : n ≤ top') :
    ∀ m ∈ (rows ++ [(n, b)]).map Prod.fst, m ≤ top' := by
  intro m hm
  rw [map_append, map_singleton, mem_append, mem_singleton] at hm
  rcases hm with hm | rfl
  · exact le_trans (h m hm) htop
  · exact hn

/-- Store a row under an issued number. -/
def issue (L : Ledger β) (b : β) : Ledger β where
  rows := L.rows ++ [(L.top + 1, b)]
  top := L.top + 1
  nodup := nodup_append_row L.nodup (top_succ_notMem L.le_top)
  le_top := le_append_row L.le_top (by omega) le_rfl

/-- Store a row under a chosen number; under a taken number it fails and the table stays. -/
def insertAt (L : Ledger β) (n : Int) (b : β) : Ledger β :=
  if h : n ∈ L.numbers then L
  else {
    rows := L.rows ++ [(n, b)]
    top := max L.top n
    nodup := nodup_append_row L.nodup h
    le_top := le_append_row L.le_top (le_max_left _ _) (le_max_right _ _) }

/-- Store a row under a chosen number in place of the row that had it. -/
def replaceAt (L : Ledger β) (n : Int) (b : β) : Ledger β where
  rows := L.rows.filter (fun r => r.1 != n) ++ [(n, b)]
  top := max L.top n
  nodup := by
    refine nodup_append_row (L.nodup.sublist (filter_sublist.map _)) ?_
    simp
  le_top := by
    refine le_append_row ?_ (le_max_left _ _) (le_max_right _ _)
    intro m hm
    exact L.le_top m ((filter_sublist.map _).subset hm)

/-- Change the row under a number. -/
def update (L : Ledger β) (n : Int) (f : β → β) : Ledger β :=
  have hfst : (L.rows.map fun r => if r.1 = n then (r.1, f r.2) else r).map Prod.fst =
      L.rows.map Prod.fst := by
    rw [map_map]
    apply map_congr_left
    intro r _
    simp only [Function.comp_apply]
    split <;> rfl
  { rows := L.rows.map fun r => if r.1 = n then (r.1, f r.2) else r
    top := L.top
    nodup := hfst ▸ L.nodup
    le_top := hfst ▸ L.le_top }

/-! ### What is stored -/

variable {L : Ledger β}

theorem le_top_of_mem (h : (n, b) ∈ L.rows) : n ≤ L.top :=
  L.le_top n (mem_map_of_mem h)

theorem mem_numbers : n ∈ L.numbers ↔ ∃ b, (n, b) ∈ L.rows := by
  rw [numbers, mem_map]
  constructor
  · rintro ⟨⟨m, b⟩, hr, rfl⟩
    exact ⟨b, hr⟩
  · rintro ⟨b, hr⟩
    exact ⟨(n, b), hr, rfl⟩

theorem mem_items : b ∈ L.items ↔ ∃ n, (n, b) ∈ L.rows := by
  rw [items, mem_map]
  constructor
  · rintro ⟨⟨n, c⟩, hr, rfl⟩
    exact ⟨n, hr⟩
  · rintro ⟨n, hr⟩
    exact ⟨(n, b), hr, rfl⟩

theorem get?_eq_some : L.get? n = some b ↔ (n, b) ∈ L.rows := by
  rw [get?, Assoc.get?, Option.map_eq_some_iff]
  constructor
  · rintro ⟨⟨m, c⟩, hfind, rfl⟩
    obtain ⟨hmem, rfl⟩ := (find?_key_eq_some L.nodup).mp hfind
    exact hmem
  · intro hmem
    exact ⟨(n, b), (find?_key_eq_some L.nodup).mpr ⟨hmem, rfl⟩, rfl⟩

theorem get?_eq_none : L.get? n = none ↔ n ∉ L.numbers := by
  rw [Option.eq_none_iff_forall_ne_some, mem_numbers]
  constructor
  · rintro h ⟨b, hb⟩
    exact h b (get?_eq_some.mpr hb)
  · intro h b hb
    exact h ⟨b, get?_eq_some.mp hb⟩

/-- One number, one row. -/
theorem eq_of_mem {a : β} (ha : (n, a) ∈ L.rows) (hb : (n, b) ∈ L.rows) : a = b := by
  have h := get?_eq_some.mpr ha
  rw [get?_eq_some.mpr hb] at h
  exact (Option.some.inj h).symm

@[simp] theorem rows_empty : (empty : Ledger β).rows = [] := rfl

@[simp] theorem top_empty : (empty : Ledger β).top = 0 := rfl

/-! ### Storing -/

@[simp] theorem rows_issue (L : Ledger β) (b : β) :
    (L.issue b).rows = L.rows ++ [(L.top + 1, b)] := rfl

@[simp] theorem top_issue (L : Ledger β) (b : β) : (L.issue b).top = L.top + 1 := rfl

theorem rows_insertAt (h : n ∉ L.numbers) (b : β) : (L.insertAt n b).rows = L.rows ++ [(n, b)] := by
  rw [insertAt, dif_neg h]

theorem top_insertAt (h : n ∉ L.numbers) (b : β) : (L.insertAt n b).top = max L.top n := by
  rw [insertAt, dif_neg h]

@[simp] theorem rows_replaceAt (L : Ledger β) (n : Int) (b : β) :
    (L.replaceAt n b).rows = L.rows.filter (fun r => r.1 != n) ++ [(n, b)] := rfl

@[simp] theorem top_replaceAt (L : Ledger β) (n : Int) (b : β) :
    (L.replaceAt n b).top = max L.top n := rfl

@[simp] theorem top_update (L : Ledger β) (n : Int) (f : β → β) : (L.update n f).top = L.top := rfl

theorem mem_rows_issue {a : β} :
    (n, a) ∈ (L.issue b).rows ↔ (n, a) ∈ L.rows ∨ n = L.top + 1 ∧ a = b := by
  rw [rows_issue, mem_append, mem_singleton, Prod.mk.injEq]

theorem mem_rows_insertAt {a : β} {m : Int} (h : m ∉ L.numbers) :
    (n, a) ∈ (L.insertAt m b).rows ↔ (n, a) ∈ L.rows ∨ n = m ∧ a = b := by
  rw [rows_insertAt h, mem_append, mem_singleton, Prod.mk.injEq]

theorem mem_rows_replaceAt {a : β} {m : Int} :
    (n, a) ∈ (L.replaceAt m b).rows ↔ (n, a) ∈ L.rows ∧ n ≠ m ∨ n = m ∧ a = b := by
  rw [rows_replaceAt, mem_append, mem_filter, mem_singleton, Prod.mk.injEq, bne_iff_ne]

theorem mem_rows_update {m : Int} {f : β → β} :
    (n, b) ∈ (L.update m f).rows ↔ ∃ a, (n, a) ∈ L.rows ∧ b = if n = m then f a else a := by
  rw [update, mem_map]
  constructor
  · rintro ⟨⟨k, a⟩, hr, heq⟩
    by_cases hk : k = m
    · rw [if_pos hk, Prod.mk.injEq] at heq
      obtain ⟨rfl, rfl⟩ := heq
      exact ⟨a, hr, by rw [if_pos hk]⟩
    · rw [if_neg hk, Prod.mk.injEq] at heq
      obtain ⟨rfl, rfl⟩ := heq
      exact ⟨a, hr, by rw [if_neg hk]⟩
  · rintro ⟨a, hr, rfl⟩
    refine ⟨(n, a), hr, ?_⟩
    by_cases hn : n = m
    · rw [if_pos hn, if_pos hn]
    · rw [if_neg hn, if_neg hn]

@[simp] theorem numbers_update (L : Ledger β) (n : Int) (f : β → β) :
    (L.update n f).numbers = L.numbers := by
  rw [numbers, numbers, update, map_map]
  apply map_congr_left
  intro r _
  simp only [Function.comp_apply]
  split <;> rfl

theorem mem_numbers_issue : n ∈ (L.issue b).numbers ↔ n ∈ L.numbers ∨ n = L.top + 1 := by
  simp [numbers]

theorem mem_numbers_insertAt {m : Int} (h : m ∉ L.numbers) (b : β) :
    n ∈ (L.insertAt m b).numbers ↔ n ∈ L.numbers ∨ n = m := by
  simp [numbers, rows_insertAt h]

theorem mem_numbers_replaceAt {m : Int} :
    n ∈ (L.replaceAt m b).numbers ↔ n ∈ L.numbers ∨ n = m := by
  by_cases hn : n = m
  · simp [numbers, hn]
  · simp [numbers, hn]

/-- Nothing is replaced under a free number. -/
theorem filter_rows_of_notMem (h : n ∉ L.numbers) : L.rows.filter (fun r => r.1 != n) = L.rows := by
  rw [filter_eq_self]
  intro r hr
  rw [bne_iff_ne]
  rintro rfl
  exact h (mem_map_of_mem hr)

/-- An issued number was never used. -/
theorem top_succ_notMem_numbers (L : Ledger β) : L.top + 1 ∉ L.numbers :=
  top_succ_notMem L.le_top

end Ledger

end AgentMail.Lib
