import AgentMail.Lib.Ledger

/-!
# Numbers that are claimed once

Items are stored one after the other. The first item that brings a number claims it and is stored
under it, in place of whatever has it; an item that brings a claimed number, or none, gets an
issued one. A claim is harmless unless the number was issued before.
-/

namespace AgentMail.Lib

open List

universe u

/-- The table and the numbers that were claimed. -/
structure Claiming (β : Type u) where
  ledger : Ledger β
  claimed : List Int

namespace Claiming

variable {β : Type u} (number : β → Option Int)

def empty : Claiming β := ⟨Ledger.empty, []⟩

def claim (S : Claiming β) (b : β) : Claiming β :=
  match number b with
  | none => { S with ledger := S.ledger.issue b }
  | some n =>
    if n ∈ S.claimed then { S with ledger := S.ledger.issue b }
    else ⟨S.ledger.replaceAt n b, S.claimed ++ [n]⟩

def run (bs : List β) : Claiming β := bs.foldl (claim number) empty

/-! ### Which numbers are used -/

/-- The item is the first that brings the number. -/
def FirstClaim (front : List β) (b : β) (n : Int) : Prop :=
  number b = some n ∧ ∀ a ∈ front, number a ≠ some n

/-- The largest number used, and the claimed numbers. -/
def tally (bs : List β) : Int × List Int :=
  bs.foldl (fun t b => match number b with
    | none => (t.1 + 1, t.2)
    | some n => if n ∈ t.2 then (t.1 + 1, t.2) else (max t.1 n, t.2 ++ [n])) (0, [])

/-- A number is issued to an item that claims none: one more than the largest used before. -/
def Issued (bs : List β) (n : Int) : Prop :=
  ∃ front b back, bs = front ++ b :: back ∧ (∀ m, ¬ FirstClaim number front b m) ∧
    n = (tally number front).1 + 1

/-- No item claims a number that was issued before. -/
def Undisturbed (bs : List β) : Prop :=
  ∀ front b back n, bs = front ++ b :: back → FirstClaim number front b n → ¬ Issued number front n

theorem run_concat (bs : List β) (b : β) :
    run number (bs ++ [b]) = claim number (run number bs) b := by
  rw [run, foldl_append]
  rfl

theorem tally_run (bs : List β) :
    tally number bs = ((run number bs).ledger.top, (run number bs).claimed) := by
  induction bs using reverseRecOn with
  | nil => rfl
  | append_singleton bs b ih =>
    rw [run_concat, tally, foldl_append, ← tally, ih]
    simp only [foldl_cons, foldl_nil, claim]
    cases number b with
    | none => rfl
    | some n => by_cases hn : n ∈ (run number bs).claimed <;> simp [hn]

variable {bs : List β}

theorem mem_claimed_run {n : Int} : n ∈ (run number bs).claimed ↔ ∃ b ∈ bs, number b = some n := by
  induction bs using reverseRecOn with
  | nil => simp [run, empty]
  | append_singleton bs b ih =>
    have hconcat : (∃ c ∈ bs ++ [b], number c = some n) ↔
        n ∈ (run number bs).claimed ∨ number b = some n := by
      simp [ih, or_and_right, exists_or]
    rw [hconcat, run_concat]
    unfold claim
    cases hb : number b with
    | none => simp
    | some m =>
      simp only [Option.some.injEq]
      split
      · next hm =>
        constructor
        · exact Or.inl
        · rintro (h | rfl)
          · exact h
          · exact hm
      · rw [mem_append, mem_singleton, eq_comm]

/-- Everything that a step can do. -/
theorem claim_cases (bs : List β) (b : β) :
    (∃ n, FirstClaim number bs b n ∧ run number (bs ++ [b]) =
      ⟨(run number bs).ledger.replaceAt n b, (run number bs).claimed ++ [n]⟩) ∨
    (∀ n, ¬ FirstClaim number bs b n) ∧ run number (bs ++ [b]) =
      { run number bs with ledger := (run number bs).ledger.issue b } := by
  have hfirst (n : Int) (hn : number b = some n) :
      FirstClaim number bs b n ↔ n ∉ (run number bs).claimed := by
    rw [mem_claimed_run, FirstClaim]
    constructor
    · rintro ⟨_, h⟩ ⟨a, ha, han⟩
      exact h a ha han
    · intro h
      exact ⟨hn, fun a ha han => h ⟨a, ha, han⟩⟩
  rw [run_concat, claim]
  cases hb : number b with
  | none => exact Or.inr ⟨fun n h => by simp [FirstClaim, hb] at h, rfl⟩
  | some n =>
    by_cases hn : n ∈ (run number bs).claimed
    · refine Or.inr ⟨?_, by simp only [if_pos hn]⟩
      intro m hm
      have hmn : m = n := Option.some.inj (hm.1.symm.trans hb)
      exact (hfirst m hm.1).mp hm (hmn ▸ hn)
    · exact Or.inl ⟨n, (hfirst n hb).mpr hn, by simp only [if_neg hn]⟩

theorem issued_concat {b : β} {n : Int} :
    Issued number (bs ++ [b]) n ↔ Issued number bs n ∨
      (∀ m, ¬ FirstClaim number bs b m) ∧ n = (run number bs).ledger.top + 1 := by
  constructor
  · rintro ⟨front, c, back, hsplit, hc, hn⟩
    obtain ⟨back', rfl, hbs⟩ | ⟨rfl, rfl, rfl⟩ := concat_eq_split.mp hsplit
    · exact Or.inl ⟨front, c, back', hbs, hc, hn⟩
    · exact Or.inr ⟨hc, by rw [hn, tally_run]⟩
  · rintro (⟨front, c, back, rfl, hc, hn⟩ | ⟨hb, hn⟩)
    · exact ⟨front, c, back ++ [b], by simp, hc, hn⟩
    · exact ⟨bs, b, [], rfl, hb, by rw [hn, tally_run]⟩

theorem mem_numbers_run {n : Int} :
    n ∈ (run number bs).ledger.numbers ↔ (∃ b ∈ bs, number b = some n) ∨ Issued number bs n := by
  induction bs using reverseRecOn with
  | nil => simp [run, empty, Ledger.numbers, Issued]
  | append_singleton bs b ih =>
    rw [issued_concat]
    obtain ⟨m, hm, heq⟩ | ⟨hm, heq⟩ := claim_cases number bs b
    · rw [heq, Ledger.mem_numbers_replaceAt, ih]
      constructor
      · rintro ((⟨c, hc, hn⟩ | hn) | rfl)
        · exact Or.inl ⟨c, mem_append_left _ hc, hn⟩
        · exact Or.inr (Or.inl hn)
        · exact Or.inl ⟨b, by simp, hm.1⟩
      · rintro (⟨c, hc, hn⟩ | hn | ⟨hnot, _⟩)
        · rw [mem_append, mem_singleton] at hc
          rcases hc with hc | rfl
          · exact Or.inl (Or.inl ⟨c, hc, hn⟩)
          · exact Or.inr (Option.some.inj (hn.symm.trans hm.1))
        · exact Or.inl (Or.inr hn)
        · exact absurd hm (hnot m)
    · rw [heq, Ledger.mem_numbers_issue, ih]
      constructor
      · rintro ((⟨c, hc, hn⟩ | hn) | hn)
        · exact Or.inl ⟨c, mem_append_left _ hc, hn⟩
        · exact Or.inr (Or.inl hn)
        · exact Or.inr (Or.inr ⟨hm, hn⟩)
      · rintro (⟨c, hc, hn⟩ | hn | ⟨_, hn⟩)
        · rw [mem_append, mem_singleton] at hc
          rcases hc with hc | rfl
          · exact Or.inl (Or.inl ⟨c, hc, hn⟩)
          · -- the number was brought before
            by_contra hno
            refine hm n ⟨hn, ?_⟩
            intro a ha han
            exact hno (Or.inl (Or.inl ⟨a, ha, han⟩))
        · exact Or.inl (Or.inr hn)
        · exact Or.inr hn

theorem Undisturbed.front {b : β} (h : Undisturbed number (bs ++ [b])) : Undisturbed number bs := by
  intro front c back n hsplit
  exact h front c (back ++ [b]) n (by rw [hsplit]; simp)

/-- An undisturbed claim finds its number free. -/
theorem Undisturbed.free {b : β} {n : Int} (h : Undisturbed number (bs ++ [b]))
    (hclaim : FirstClaim number bs b n) : n ∉ (run number bs).ledger.numbers := by
  rw [mem_numbers_run]
  rintro (⟨a, ha, han⟩ | hissued)
  · exact hclaim.2 a ha han
  · exact h bs b [] n rfl hclaim hissued

/-- Then every item is stored. -/
theorem items_run (h : Undisturbed number bs) : (run number bs).ledger.items = bs := by
  induction bs using reverseRecOn with
  | nil => rfl
  | append_singleton bs b ih =>
    have hfront := ih (h.front number)
    rw [Ledger.items] at hfront ⊢
    obtain ⟨n, hn, heq⟩ | ⟨_, heq⟩ := claim_cases number bs b
    · have hfree := h.free number hn
      rw [heq, Ledger.rows_replaceAt, Ledger.filter_rows_of_notMem hfree, map_append, hfront]
      rfl
    · rw [heq, Ledger.rows_issue, map_append, hfront]
      rfl

end Claiming

end AgentMail.Lib
