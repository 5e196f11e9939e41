import Mathlib.Algebra.Order.Ring.Nat
import Mathlib.Algebra.BigOperators.Group.List.Basic

/-!
# Prefix codes

A code whose words can be told from whatever follows them. Codes put after one another are a code
again, and so is a text after its own size or a list after its own length, whatever the text and
the items contain.
-/

namespace AgentMail.Lib

open List

universe u v w

variable {α : Type u} {γ : Type v} {β : Type w}

/-- What a text starts with determines what was encoded there. -/
def PrefixCode (enc : α → List β) : Prop :=
  ∀ a b r s, enc a ++ r = enc b ++ s → a = b ∧ r = s

namespace PrefixCode

variable {enc : α → List β}

section

variable (h : PrefixCode enc)
include h

theorem injective {a b : α} (heq : enc a = enc b) : a = b :=
  (h a b [] [] (by rw [heq])).1

theorem comp {g : γ → α} (hg : ∀ x y, g x = g y → x = y) :
    PrefixCode fun x => enc (g x) := by
  intro x y r s heq
  obtain ⟨hgxy, hrs⟩ := h _ _ _ _ heq
  exact ⟨hg x y hgxy, hrs⟩

/-- A fixed text in front. -/
theorem literal (label : List β) : PrefixCode fun a => label ++ enc a := by
  intro a b r s heq
  simp only [append_assoc, append_cancel_left_eq] at heq
  exact h a b r s heq

/-- A fixed text behind. -/
theorem closed (label : List β) : PrefixCode fun a => enc a ++ label := by
  intro a b r s heq
  simp only [append_assoc] at heq
  obtain ⟨hab, hrs⟩ := h a b _ _ heq
  exact ⟨hab, append_cancel_left hrs⟩

theorem pair {enc' : γ → List β} (h' : PrefixCode enc') :
    PrefixCode fun p : α × γ => enc p.1 ++ enc' p.2 := by
  intro p q r s heq
  simp only [append_assoc] at heq
  obtain ⟨hfst, hrest⟩ := h p.1 q.1 _ _ heq
  obtain ⟨hsnd, hrs⟩ := h' p.2 q.2 _ _ hrest
  exact ⟨Prod.ext hfst hsnd, hrs⟩

end

/-- The first separator is where a text is cut. -/
theorem append_sep_inj {sep : β} {l l' : List β} (hl : sep ∉ l) (hl' : sep ∉ l') {r s : List β} :
    l ++ sep :: r = l' ++ sep :: s ↔ l = l' ∧ r = s := by
  constructor
  · intro heq
    induction l generalizing l' with
    | nil =>
      cases l' with
      | nil => exact ⟨rfl, (List.cons.inj heq).2⟩
      | cons x l' =>
        rw [mem_cons, not_or] at hl'
        exact absurd (List.cons.inj heq).1 hl'.1
    | cons x l ih =>
      rw [mem_cons, not_or] at hl
      cases l' with
      | nil => exact absurd (List.cons.inj heq).1.symm hl.1
      | cons y l' =>
        rw [mem_cons, not_or] at hl'
        obtain ⟨rfl, htail⟩ := List.cons.inj heq
        obtain ⟨rfl, hrest⟩ := ih hl.2 hl'.2 htail
        exact ⟨rfl, hrest⟩
  · rintro ⟨rfl, rfl⟩
    rfl

/-- Words that end with a separator which is not in them. -/
theorem terminated {word : α → List β} {sep : β} (hsep : ∀ a, sep ∉ word a)
    (hword : ∀ a b, word a = word b → a = b) : PrefixCode fun a => word a ++ [sep] := by
  intro a b r s heq
  rw [append_assoc, append_assoc] at heq
  obtain ⟨hwords, hrest⟩ := (append_sep_inj (hsep a) (hsep b)).mp heq
  exact ⟨hword a b hwords, hrest⟩

/-- Two texts of the same size at the same place are the same text. -/
theorem eq_of_size {weight : β → Nat} (hpos : ∀ x, 0 < weight x) {l l' r s : List β}
    (hsize : (l.map weight).sum = (l'.map weight).sum) (heq : l ++ r = l' ++ s) :
    l = l' ∧ r = s := by
  induction l generalizing l' with
  | nil =>
    cases l' with
    | nil => exact ⟨rfl, heq⟩
    | cons y l' =>
      have := hpos y
      simp only [map_nil, sum_nil, map_cons, sum_cons] at hsize
      omega
  | cons x l ih =>
    cases l' with
    | nil =>
      have := hpos x
      simp only [map_nil, sum_nil, map_cons, sum_cons] at hsize
      omega
    | cons y l' =>
      simp only [cons_append, List.cons.injEq] at heq
      obtain ⟨rfl, htail⟩ := heq
      simp only [map_cons, sum_cons, Nat.add_left_cancel_iff] at hsize
      obtain ⟨rfl, hrs⟩ := ih hsize htail
      exact ⟨rfl, hrs⟩

/-- A text after its size. -/
theorem sized {number : Nat → List β} (h : PrefixCode number) {weight : β → Nat}
    (hpos : ∀ x, 0 < weight x) : PrefixCode fun l : List β => number (l.map weight).sum ++ l := by
  intro l l' r s heq
  simp only [append_assoc] at heq
  obtain ⟨hsize, hrest⟩ := h _ _ _ _ heq
  exact eq_of_size hpos hsize hrest

/-- The items of two lists of the same length. -/
theorem eq_of_length (h : PrefixCode enc) {l l' : List α} {r s : List β}
    (hlength : l.length = l'.length) (heq : l.flatMap enc ++ r = l'.flatMap enc ++ s) :
    l = l' ∧ r = s := by
  induction l generalizing l' with
  | nil =>
    cases l' with
    | nil => exact ⟨rfl, heq⟩
    | cons b l' => cases hlength
  | cons a l ih =>
    cases l' with
    | nil => cases hlength
    | cons b l' =>
      simp only [flatMap_cons, append_assoc] at heq
      obtain ⟨rfl, hrest⟩ := h a b _ _ heq
      obtain ⟨rfl, hrs⟩ := ih (Nat.succ.inj hlength) hrest
      exact ⟨rfl, hrs⟩

/-- A list after its length. -/
theorem counted {number : Nat → List β} (hnumber : PrefixCode number) (h : PrefixCode enc) :
    PrefixCode fun l : List α => number l.length ++ l.flatMap enc := by
  intro l l' r s heq
  simp only [append_assoc] at heq
  obtain ⟨hlength, hrest⟩ := hnumber _ _ _ _ heq
  exact h.eq_of_length hlength hrest

end PrefixCode

end AgentMail.Lib
