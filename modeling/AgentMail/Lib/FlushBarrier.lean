import Mathlib.Data.List.Nodup

/-!
# A queue with flush barriers

Work is accepted into a line, one worker takes it from the front into its hand and executes it. A
flush travels in the same line; the worker answers the flushes that it has met when its hand is
empty. Whatever was accepted before a flush was called is executed when the flush is answered.
-/

namespace AgentMail.Lib

open List

universe u

/-- What stands in the line: work, a flush, or something that concerns only the worker. -/
inductive Item (α : Type u) where
  | work (a : α)
  | flush (f : Nat)
  | other

def Item.work? {α : Type u} : Item α → Option α
  | .work a => some a
  | _ => none

/-- The work among the items, in their order. -/
def works {α : Type u} (items : List (Item α)) : List α := items.filterMap Item.work?

/-- `owed f` is what had been accepted when the flush `f` was called. -/
structure Barrier (α : Type u) where
  accepted : List α
  content : List (Item α)
  hand : List α
  executed : List α
  waiters : List Nat
  acked : List Nat
  owed : Nat → List α
  called : Nat

namespace Barrier

variable {α : Type u}

def empty : Barrier α := ⟨[], [], [], [], [], [], fun _ => [], 0⟩

inductive Step (b : Barrier α) : Barrier α → Prop where
  | accept (a : α) (h : a ∉ b.accepted) :
      Step b { b with accepted := b.accepted ++ [a], content := b.content ++ [.work a] }
  | call : Step b { b with
      owed := Function.update b.owed b.called b.accepted, called := b.called + 1 }
  | ask (f : Nat) (h : f < b.called) : Step b { b with content := b.content ++ [.flush f] }
  | tell : Step b { b with content := b.content ++ [.other] }
  | take {a : α} {rest : List (Item α)} (h : b.content = .work a :: rest) :
      Step b { b with content := rest, hand := b.hand ++ [a] }
  | meet {f : Nat} {rest : List (Item α)} (h : b.content = .flush f :: rest) :
      Step b { b with content := rest, waiters := b.waiters ++ [f] }
  | lose {front back : List (Item α)} {item : Item α} (h : b.content = front ++ item :: back)
      (hitem : item.work? = none) : Step b { b with content := front ++ back }
  | execute {now later : List α} (h : b.hand = now ++ later) :
      Step b { b with executed := b.executed ++ now, hand := later }
  | answer (h : b.hand = []) : Step b { b with acked := b.acked ++ b.waiters, waiters := [] }
  | forget : Step b { b with waiters := [] }

/-- Nothing is lost, doubled or overtaken. -/
structure Inv (b : Barrier α) : Prop where
  kept : b.accepted = b.executed ++ b.hand ++ works b.content
  distinct : b.accepted.Nodup
  owed : ∀ f, b.owed f ⊆ b.accepted
  content : ∀ front f back, b.content = front ++ .flush f :: back →
    f < b.called ∧ b.owed f ⊆ b.executed ++ b.hand ++ works front
  waiters : ∀ f ∈ b.waiters, f < b.called ∧ b.owed f ⊆ b.executed ++ b.hand
  acked : ∀ f ∈ b.acked, f < b.called ∧ b.owed f ⊆ b.executed

theorem inv_empty : Inv (empty : Barrier α) where
  kept := rfl
  distinct := .nil
  owed _ := List.Subset.refl _
  content front f back h := by simp [empty] at h
  waiters _ h := by cases h
  acked _ h := by cases h

variable {b b' : Barrier α}

theorem works_append (l l' : List (Item α)) : works (l ++ l') = works l ++ works l' :=
  filterMap_append

/-- An item of a line with one more stands where it stood, or is the new one. -/
theorem append_split {content front back : List (Item α)} {item item' : Item α}
    (h : content ++ [item] = front ++ item' :: back) :
    (∃ back', content = front ++ item' :: back') ∨ content = front ∧ item = item' := by
  rcases eq_nil_or_concat back with rfl | ⟨back, last, rfl⟩
  · right
    exact append_inj' h rfl |>.imp_right fun hlast => singleton_injective hlast
  · left
    rw [concat_eq_append, ← cons_append, ← append_assoc] at h
    exact ⟨back, (append_inj' h rfl).1⟩

section

variable (h : Inv b)
include h

theorem Inv.append (item : Item α) (accepted : List α)
    (haccepted : accepted = b.accepted ++ works [item]) (hdistinct : accepted.Nodup)
    (hitem : ∀ f, item = .flush f → f < b.called) :
    Inv { b with accepted, content := b.content ++ [item] } := by
  have hmore : b.accepted ⊆ accepted := haccepted ▸ subset_append_left _ _
  refine ⟨?_, hdistinct, fun f => List.Subset.trans (h.owed f) hmore, ?_, h.waiters, h.acked⟩
  · show accepted = b.executed ++ b.hand ++ works (b.content ++ [item])
    rw [haccepted, works_append, ← append_assoc, ← h.kept]
  · intro front f back hsplit
    rcases append_split hsplit with ⟨back', hbefore⟩ | ⟨hfront, hnew⟩
    · exact h.content front f back' hbefore
    · refine ⟨hitem f hnew, ?_⟩
      show b.owed f ⊆ b.executed ++ b.hand ++ works front
      rw [← hfront, ← h.kept]
      exact h.owed f

theorem Inv.call : Inv { b with
    owed := Function.update b.owed b.called b.accepted, called := b.called + 1 } := by
  have hold {f : Nat} {l : List α} (hf : f < b.called ∧ b.owed f ⊆ l) :
      f < b.called + 1 ∧ Function.update b.owed b.called b.accepted f ⊆ l := by
    rw [Function.update_of_ne (Nat.ne_of_lt hf.1)]
    exact ⟨Nat.lt_succ_of_lt hf.1, hf.2⟩
  refine ⟨h.kept, h.distinct, fun f => ?_, fun front f back hsplit => ?_, fun f hf => ?_,
    fun f hf => ?_⟩
  · show Function.update b.owed b.called b.accepted f ⊆ b.accepted
    rw [Function.update_apply]
    split
    · exact List.Subset.refl _
    · exact h.owed f
  · exact hold (h.content front f back hsplit)
  · exact hold (h.waiters f hf)
  · exact hold (h.acked f hf)

theorem Inv.take {a : α} {rest : List (Item α)} (hfront : b.content = .work a :: rest) :
    Inv { b with content := rest, hand := b.hand ++ [a] } := by
  refine ⟨?_, h.distinct, h.owed, fun front f back hsplit => ?_, fun f hf => ?_, h.acked⟩
  · show b.accepted = b.executed ++ (b.hand ++ [a]) ++ works rest
    rw [h.kept, hfront]
    simp [works, Item.work?]
  · have hbefore := h.content (.work a :: front) f back
      (hfront.trans (congrArg (List.cons (.work a)) hsplit))
    refine ⟨hbefore.1, ?_⟩
    show b.owed f ⊆ b.executed ++ (b.hand ++ [a]) ++ works front
    simpa [works, Item.work?] using hbefore.2
  · refine ⟨(h.waiters f hf).1, List.Subset.trans (h.waiters f hf).2 ?_⟩
    show b.executed ++ b.hand ⊆ b.executed ++ (b.hand ++ [a])
    rw [← append_assoc]
    exact subset_append_left _ _

theorem Inv.meet {f : Nat} {rest : List (Item α)}
    (hfront : b.content = .flush f :: rest) :
    Inv { b with content := rest, waiters := b.waiters ++ [f] } := by
  refine ⟨?_, h.distinct, h.owed, fun front g back hsplit => ?_, fun g hg => ?_, h.acked⟩
  · rw [h.kept, hfront]
    rfl
  · exact h.content (.flush f :: front) g back
      (hfront.trans (congrArg (List.cons (.flush f)) hsplit))
  · rcases mem_append.mp hg with hg | hg
    · exact h.waiters g hg
    · rw [mem_singleton.mp hg]
      simpa [works] using h.content [] f rest hfront

theorem Inv.lose {front back : List (Item α)} {item : Item α}
    (hcontent : b.content = front ++ item :: back) (hitem : item.work? = none) :
    Inv { b with content := front ++ back } := by
  have hworks (l : List (Item α)) : works (item :: l) = works l := filterMap_cons_none hitem
  refine ⟨?_, h.distinct, h.owed, fun front' f back' hsplit => ?_, h.waiters, h.acked⟩
  · show b.accepted = b.executed ++ b.hand ++ works (front ++ back)
    rw [h.kept, hcontent, works_append, works_append, hworks]
  · rcases append_eq_append_iff.mp hsplit with ⟨more, hfront, hback⟩ | ⟨more, hfront, hback⟩
    · -- the flush stands behind what is lost
      have hbefore := h.content (front ++ item :: more) f back' (by
        rw [hcontent, hback, append_assoc, cons_append])
      rw [works_append, hworks, ← works_append, ← hfront] at hbefore
      exact hbefore
    · cases more with
      | nil =>
        have hbefore := h.content (front ++ [item]) f back' (by
          rw [hcontent, append_assoc]
          simpa using hback.symm)
        rw [works_append, hworks, ← works_append] at hbefore
        simpa [hfront] using hbefore
      | cons first more =>
        rw [cons_append, List.cons.injEq] at hback
        obtain ⟨rfl, rfl⟩ := hback
        exact h.content front' f (more ++ item :: back) (by rw [hcontent, hfront]; simp)

theorem Inv.execute {now later : List α} (hhand : b.hand = now ++ later) :
    Inv { b with executed := b.executed ++ now, hand := later } := by
  have hsame : b.executed ++ now ++ later = b.executed ++ b.hand := by
    rw [hhand, append_assoc]
  refine ⟨?_, h.distinct, h.owed, fun front f back hsplit => ?_, fun f hf => ?_, fun f hf => ?_⟩
  · show b.accepted = b.executed ++ now ++ later ++ works b.content
    rw [hsame]
    exact h.kept
  · show f < b.called ∧ b.owed f ⊆ b.executed ++ now ++ later ++ works front
    rw [hsame]
    exact h.content front f back hsplit
  · show f < b.called ∧ b.owed f ⊆ b.executed ++ now ++ later
    rw [hsame]
    exact h.waiters f hf
  · exact ⟨(h.acked f hf).1, List.Subset.trans (h.acked f hf).2 (subset_append_left _ _)⟩

theorem Inv.answer (hhand : b.hand = []) :
    Inv { b with acked := b.acked ++ b.waiters, waiters := [] } := by
  refine ⟨h.kept, h.distinct, h.owed, h.content, nofun, fun f hf => ?_⟩
  rcases mem_append.mp hf with hf | hf
  · exact h.acked f hf
  · have hwaits := h.waiters f hf
    rw [hhand, append_nil] at hwaits
    exact hwaits

theorem step_inv (hstep : Step b b') : Inv b' := by
  cases hstep with
  | accept a hnew =>
    refine h.append _ _ rfl ?_ nofun
    rw [(perm_append_singleton _ _).nodup_iff, nodup_cons]
    exact ⟨hnew, h.distinct⟩
  | call => exact h.call
  | ask f hf =>
    refine h.append _ _ (append_nil _).symm h.distinct fun g hg => ?_
    cases hg
    exact hf
  | tell => exact h.append _ _ (append_nil _).symm h.distinct nofun
  | take hfront => exact h.take hfront
  | meet hfront => exact h.meet hfront
  | lose hcontent hitem => exact h.lose hcontent hitem
  | execute hhand => exact h.execute hhand
  | answer hhand => exact h.answer hhand
  | forget => exact ⟨h.kept, h.distinct, h.owed, h.content, nofun, h.acked⟩

end

end Barrier

end AgentMail.Lib
