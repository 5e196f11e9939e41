import Mathlib.Data.List.Basic

/-!
# Files that are kept until they are dealt with

An item is filed under a number of its own and lies on the desk. Attempts to deal with it may fail.
Its file leaves the desk when the item is done, or goes to the shelf when it was given up after
enough failures.
-/

namespace AgentMail.Lib

open List Function

universe u v

variable {ν : Type u} {α : Type v}

/-- `done`, `failures` and `givenUp` are records of what has happened. -/
structure Custody (ν : Type u) (α : Type v) where
  filed : List (ν × α)
  desk : ν → Option α
  shelf : ν → Option α
  done : List (ν × α)
  failures : List ν
  givenUp : List ν

namespace Custody

variable [DecidableEq ν]

def empty : Custody ν α := ⟨[], fun _ => none, fun _ => none, [], [], []⟩

/-- The files under `n` are those of items that are done. -/
def Dealt (c : Custody ν α) (n : ν) : Prop := ∀ a, (n, a) ∈ c.filed → (n, a) ∈ c.done

inductive Step (limit : Nat) (c : Custody ν α) : Custody ν α → Prop where
  | file (n : ν) (a : α) (h : ∀ b, (n, b) ∉ c.filed) :
      Step limit c { c with
        filed := c.filed ++ [(n, a)], desk := update c.desk n (some a) }
  | finish (x : ν × α) : Step limit c { c with done := c.done ++ [x] }
  | fail (n : ν) : Step limit c { c with failures := c.failures ++ [n] }
  | giveUp (n : ν) (h : limit ≤ c.failures.count n) :
      Step limit c { c with givenUp := c.givenUp ++ [n] }
  | clear (n : ν) (h : c.Dealt n) : Step limit c { c with desk := update c.desk n none }
  | shelve (n : ν) {a : α} (h : n ∈ c.givenUp) (ha : c.desk n = some a) :
      Step limit c { c with
        desk := update c.desk n none, shelf := update c.shelf n (some a) }

/-- The file is on the desk, or its item is done, or the item was given up after enough failures
and the file is on the shelf. -/
def Kept (limit : Nat) (c : Custody ν α) (x : ν × α) : Prop :=
  x ∈ c.done ∨ c.desk x.1 = some x.2 ∨
    x.1 ∈ c.givenUp ∧ limit ≤ c.failures.count x.1 ∧ c.shelf x.1 = some x.2

structure Inv (limit : Nat) (c : Custody ν α) : Prop where
  kept : ∀ x ∈ c.filed, Kept limit c x
  desk : ∀ n a, c.desk n = some a → (n, a) ∈ c.filed
  enough : ∀ n ∈ c.givenUp, limit ≤ c.failures.count n
  unique : ∀ n a b, (n, a) ∈ c.filed → (n, b) ∈ c.filed → a = b

variable {limit : Nat} {c c' : Custody ν α}

theorem inv_empty : Inv limit (empty : Custody ν α) where
  kept _ h := by cases h
  desk _ _ h := by cases h
  enough _ h := by cases h
  unique _ _ _ h := by cases h

theorem Inv.file (h : Inv limit c) {n : ν} {a : α} (hnew : ∀ b, (n, b) ∉ c.filed) :
    Inv limit { c with filed := c.filed ++ [(n, a)], desk := update c.desk n (some a) } := by
  have hother {x : ν × α} (hx : x ∈ c.filed) : x.1 ≠ n := fun hn => hnew x.2 (hn ▸ hx)
  have hmem {x : ν × α} (hx : x ∈ c.filed ++ [(n, a)]) : x ∈ c.filed ∨ x = (n, a) := by
    simpa using hx
  refine ⟨fun x hx => ?_, fun m b hm => ?_, h.enough, fun m b b' hb hb' => ?_⟩
  · rcases hmem hx with hx | rfl
    · refine (h.kept x hx).imp_right (Or.imp_left fun hdesk => ?_)
      exact (update_of_ne (hother hx) ..).trans hdesk
    · exact .inr (.inl (update_self ..))
  · replace hm : update c.desk n (some a) m = some b := hm
    rw [update_apply] at hm
    split at hm
    · next hmn =>
      cases hm
      rw [hmn]
      exact mem_append_right _ mem_cons_self
    · exact mem_append_left _ (h.desk m b hm)
  · rcases hmem hb with hb | hb
    · rcases hmem hb' with hb' | hb'
      · exact h.unique m b b' hb hb'
      · exact absurd (show m = n from congrArg Prod.fst hb') (hother hb)
    · rcases hmem hb' with hb' | hb'
      · exact absurd (show m = n from congrArg Prod.fst hb) (hother hb')
      · exact congrArg Prod.snd (hb.trans hb'.symm)

/-- What is on record stays on record. -/
theorem Kept.mono {x : ν × α} (h : Kept limit c x) (hdone : c.done ⊆ c'.done)
    (hgivenUp : c.givenUp ⊆ c'.givenUp) (hfailures : c.failures.Sublist c'.failures)
    (hdesk : c'.desk = c.desk) (hshelf : c'.shelf = c.shelf) : Kept limit c' x := by
  rcases h with h | h | ⟨hup, hcount, hon⟩
  · exact .inl (hdone h)
  · exact .inr (.inl (hdesk ▸ h))
  · exact .inr (.inr ⟨hgivenUp hup, Nat.le_trans hcount (hfailures.count_le x.1), hshelf ▸ hon⟩)

theorem step_inv (h : Inv limit c) (hstep : Step limit c c') : Inv limit c' := by
  cases hstep with
  | file n a hnew => exact h.file hnew
  | finish x =>
    refine ⟨fun y hy => ?_, h.desk, h.enough, h.unique⟩
    exact (h.kept y hy).mono (subset_append_left _ _) (List.Subset.refl _)
      (List.Sublist.refl _) rfl rfl
  | fail n =>
    have hmore : c.failures.Sublist (c.failures ++ [n]) := sublist_append_left _ _
    refine ⟨fun y hy => ?_, h.desk, fun y hy => ?_, h.unique⟩
    · exact (h.kept y hy).mono (List.Subset.refl _) (List.Subset.refl _) hmore rfl rfl
    · exact Nat.le_trans (h.enough y hy) (hmore.count_le y)
  | giveUp n hlimit =>
    refine ⟨fun y hy => ?_, h.desk, fun y hy => ?_, h.unique⟩
    · exact (h.kept y hy).mono (List.Subset.refl _) (subset_append_left _ _)
        (List.Sublist.refl _) rfl rfl
    · rcases mem_append.mp hy with hy | hy
      · exact h.enough y hy
      · rw [mem_singleton.mp hy]
        exact hlimit
  | clear n hdealt =>
    refine ⟨fun y hy => ?_, fun m b hm => ?_, h.enough, h.unique⟩
    · by_cases hyn : y.1 = n
      · subst hyn
        exact .inl (hdealt y.2 hy)
      · refine (h.kept y hy).imp_right (Or.imp_left fun hdesk => ?_)
        exact (update_of_ne hyn ..).trans hdesk
    · replace hm : update c.desk n none m = some b := hm
      rw [update_apply] at hm
      split at hm
      · cases hm
      · exact h.desk m b hm
  | shelve n hup ha =>
    next a =>
    have hfiled := h.desk n a ha
    refine ⟨fun y hy => ?_, fun m b hm => ?_, h.enough, h.unique⟩
    · by_cases hyn : y.1 = n
      · subst hyn
        have hsame : y.2 = a := h.unique y.1 y.2 a hy hfiled
        exact .inr (.inr ⟨hup, h.enough _ hup, hsame ▸ update_self ..⟩)
      · rcases h.kept y hy with hdone | hdesk | ⟨hup, hcount, hon⟩
        · exact .inl hdone
        · exact .inr (.inl ((update_of_ne hyn ..).trans hdesk))
        · exact .inr (.inr ⟨hup, hcount, (update_of_ne hyn ..).trans hon⟩)
    · replace hm : update c.desk n none m = some b := hm
      rw [update_apply] at hm
      split at hm
      · cases hm
      · exact h.desk m b hm

end Custody

end AgentMail.Lib
