import AgentMail.Lib.Ledger

/-!
# Filing items that bring their own numbers

Items are filed one after the other. An item may bring a number; two items with the same key are
taken for one. In the first pass an item without a number gets an issued one; an item with a
number is stored under it, unless the number is taken: by an item with the same key, then it is
dropped, or by another, then it waits. In the second pass each waiting item is stored under an
issued number, unless an item with its key is there already.

The results say, in terms of the list of items alone, which items are stored, under which
number, and which are lost.
-/

namespace AgentMail.Lib

universe u v

open List hiding beq_eq_decide

/-- The state of the filing: the table, the items that wait and those that were dropped. -/
structure Intake (β : Type u) where
  ledger : Ledger β
  waiting : List β
  dropped : List β

namespace Intake

variable {β : Type u} {κ : Type v} [DecidableEq κ] (number : β → Option Int) (key : β → κ)

def empty : Intake β := ⟨Ledger.empty, [], []⟩

/-- First pass. -/
def offer (S : Intake β) (b : β) : Intake β :=
  match number b with
  | none => { S with ledger := S.ledger.issue b }
  | some n =>
    match S.ledger.get? n with
    | none => { S with ledger := S.ledger.insertAt n b }
    | some a =>
      if key a = key b then { S with dropped := S.dropped ++ [b] }
      else { S with waiting := S.waiting ++ [b] }

/-- Second pass. -/
def place (S : Intake β) (b : β) : Intake β :=
  if S.ledger.items.any fun a => key a = key b then { S with dropped := S.dropped ++ [b] }
  else { S with ledger := S.ledger.issue b }

def firstPass (bs : List β) : Intake β := bs.foldl (offer number key) empty

def secondPass (S : Intake β) : Intake β := S.waiting.foldl (place key) { S with waiting := [] }

/-- Both passes. -/
def file (bs : List β) : Intake β := secondPass key (firstPass number key bs)

/-! ### The numbers that the first pass uses -/

/-- The largest number used for a list of items. -/
def highest (bs : List β) : Int :=
  bs.foldl (fun top b => (number b).elim (top + 1) (max top)) 0

/-- A number is used if an item brings it, or if it is issued to an item without a number. -/
def Used (bs : List β) (n : Int) : Prop :=
  (∃ b ∈ bs, number b = some n) ∨
    ∃ front b back, bs = front ++ b :: back ∧ number b = none ∧ n = highest number front + 1

/-- The item is stored in the first pass. -/
def Fresh (front : List β) (b : β) : Prop := ∀ n, number b = some n → ¬ Used number front n

/-- The item is stored in the second pass: its number is taken, and it comes first among the items
with its key, none of which is stored in the first pass. -/
def Late (bs front : List β) (b : β) : Prop :=
  (∃ n, number b = some n ∧ Used number front n) ∧ (∀ a ∈ front, key a ≠ key b) ∧
    ∀ front' a back', bs = front' ++ a :: back' → key a = key b → ¬ Fresh number front' a

theorem highest_concat (bs : List β) (b : β) :
    highest number (bs ++ [b]) =
      (number b).elim (highest number bs + 1) (max (highest number bs)) := by
  rw [highest, foldl_append]
  rfl

variable {bs : List β} {b : β} {n : Int}

theorem used_concat :
    Used number (bs ++ [b]) n ↔
      Used number bs n ∨ number b = some n ∨ number b = none ∧ n = highest number bs + 1 := by
  constructor
  · rintro (⟨c, hc, hn⟩ | ⟨front, c, back, hsplit, hc, hn⟩)
    · rw [mem_append, mem_singleton] at hc
      rcases hc with hc | rfl
      · exact Or.inl (Or.inl ⟨c, hc, hn⟩)
      · exact Or.inr (Or.inl hn)
    · rw [concat_eq_split] at hsplit
      rcases hsplit with ⟨back', rfl, rfl⟩ | ⟨rfl, rfl, rfl⟩
      · exact Or.inl (Or.inr ⟨front, c, back', rfl, hc, hn⟩)
      · exact Or.inr (Or.inr ⟨hc, hn⟩)
  · rintro ((⟨c, hc, hn⟩ | ⟨front, c, back, rfl, hc, hn⟩) | hn | ⟨hb, hn⟩)
    · exact Or.inl ⟨c, mem_append_left _ hc, hn⟩
    · exact Or.inr ⟨front, c, back ++ [b], by simp, hc, hn⟩
    · exact Or.inl ⟨b, by simp, hn⟩
    · exact Or.inr ⟨bs, b, [], rfl, hb, hn⟩

/-! ### The first pass -/

/-- Everything that a step of the first pass can do. -/
theorem offer_cases (S : Intake β) (b : β) :
    (number b = none ∧ offer number key S b = { S with ledger := S.ledger.issue b }) ∨
    (∃ n, number b = some n ∧ n ∉ S.ledger.numbers ∧
      offer number key S b = { S with ledger := S.ledger.insertAt n b }) ∨
    (∃ n a, number b = some n ∧ (n, a) ∈ S.ledger.rows ∧ key a = key b ∧
      offer number key S b = { S with dropped := S.dropped ++ [b] }) ∨
    ∃ n a, number b = some n ∧ (n, a) ∈ S.ledger.rows ∧ key a ≠ key b ∧
      offer number key S b = { S with waiting := S.waiting ++ [b] } := by
  unfold offer
  cases hn : number b with
  | none => exact Or.inl ⟨rfl, rfl⟩
  | some n =>
    right
    cases hget : S.ledger.get? n with
    | none => exact Or.inl ⟨n, rfl, Ledger.get?_eq_none.mp hget, by simp only [hget]⟩
    | some a =>
      have ha := Ledger.get?_eq_some.mp hget
      right
      by_cases hkey : key a = key b
      · exact Or.inl ⟨n, a, rfl, ha, hkey, by simp only [hget, if_pos hkey]⟩
      · exact Or.inr ⟨n, a, rfl, ha, hkey, by simp only [hget, if_neg hkey]⟩

theorem firstPass_concat (bs : List β) (b : β) :
    firstPass number key (bs ++ [b]) = offer number key (firstPass number key bs) b := by
  rw [firstPass, foldl_append]
  rfl

theorem top_firstPass (bs : List β) : (firstPass number key bs).ledger.top = highest number bs := by
  induction bs using reverseRecOn with
  | nil => rfl
  | append_singleton bs b ih =>
    rw [firstPass_concat, highest_concat, ← ih]
    obtain ⟨hn, heq⟩ | ⟨n, hn, hfree, heq⟩ | ⟨n, a, hn, ha, _, heq⟩ | ⟨n, a, hn, ha, _, heq⟩ :=
      offer_cases number key (firstPass number key bs) b
    · rw [heq, hn]
      rfl
    · rw [heq, hn]
      exact Ledger.top_insertAt hfree b
    · rw [heq, hn]
      exact (max_eq_left (Ledger.le_top_of_mem ha)).symm
    · rw [heq, hn]
      exact (max_eq_left (Ledger.le_top_of_mem ha)).symm

theorem mem_numbers_firstPass :
    n ∈ (firstPass number key bs).ledger.numbers ↔ Used number bs n := by
  induction bs using reverseRecOn generalizing n with
  | nil =>
    constructor
    · intro h
      exact absurd h (by simp [firstPass, empty, Ledger.numbers])
    · rintro (⟨b, hb, _⟩ | ⟨front, b, back, hsplit, _⟩)
      · exact absurd hb not_mem_nil
      · exact absurd hsplit (by simp)
  | append_singleton bs b ih =>
    rw [firstPass_concat, used_concat, ← ih]
    obtain ⟨hn, heq⟩ | ⟨m, hn, hfree, heq⟩ | ⟨m, a, hn, ha, _, heq⟩ | ⟨m, a, hn, ha, _, heq⟩ :=
      offer_cases number key (firstPass number key bs) b
    · rw [heq, Ledger.mem_numbers_issue, top_firstPass, hn]
      simp
    · rw [heq, Ledger.mem_numbers_insertAt hfree, hn]
      simp [eq_comm]
    all_goals
      have hm : m ∈ (firstPass number key bs).ledger.numbers := Ledger.mem_numbers.mpr ⟨a, ha⟩
      rw [heq, hn]
      constructor
      · intro h
        exact Or.inl h
      · rintro (h | h | h)
        · exact h
        · exact Option.some.inj h ▸ hm
        · exact absurd h.1 (by simp)

/-- The rows of the first pass: the fresh items, under their own number or an issued one. -/
theorem mem_rows_firstPass :
    (n, b) ∈ (firstPass number key bs).ledger.rows ↔
      ∃ front back, bs = front ++ b :: back ∧ Fresh number front b ∧
        n = (number b).getD (highest number front + 1) := by
  induction bs using reverseRecOn with
  | nil => simp [firstPass, empty]
  | append_singleton bs c ih =>
    -- the item at the end is stored if it is fresh, and every other row was there before
    have hsplit : (∃ front back, bs ++ [c] = front ++ b :: back ∧ Fresh number front b ∧
        n = (number b).getD (highest number front + 1)) ↔
          (n, b) ∈ (firstPass number key bs).ledger.rows ∨
            b = c ∧ Fresh number bs c ∧ n = (number c).getD (highest number bs + 1) := by
      rw [ih]
      constructor
      · rintro ⟨front, back, hsplit, hfresh, hn⟩
        rw [concat_eq_split] at hsplit
        rcases hsplit with ⟨back', rfl, rfl⟩ | ⟨rfl, rfl, rfl⟩
        · exact Or.inl ⟨front, back', rfl, hfresh, hn⟩
        · exact Or.inr ⟨rfl, hfresh, hn⟩
      · rintro (⟨front, back, rfl, hfresh, hn⟩ | ⟨rfl, hfresh, hn⟩)
        · exact ⟨front, back ++ [c], by simp, hfresh, hn⟩
        · exact ⟨bs, [], rfl, hfresh, hn⟩
    rw [hsplit, firstPass_concat]
    obtain ⟨hn, heq⟩ | ⟨m, hn, hfree, heq⟩ | ⟨m, a, hn, ha, _, heq⟩ | ⟨m, a, hn, ha, _, heq⟩ :=
      offer_cases number key (firstPass number key bs) c
    · rw [heq, Ledger.mem_rows_issue, top_firstPass, hn, Option.getD_none]
      have hfresh : Fresh number bs c := fun k hk => absurd (hn.symm.trans hk) (by simp)
      tauto
    · rw [heq, Ledger.mem_rows_insertAt hfree, hn, Option.getD_some]
      have hfresh : Fresh number bs c := by
        intro k hk hused
        rw [hn, Option.some.injEq] at hk
        exact hfree (hk ▸ (mem_numbers_firstPass number key).mpr hused)
      tauto
    all_goals
      have hstale : ¬ Fresh number bs c := fun h =>
        h m hn ((mem_numbers_firstPass number key).mp (Ledger.mem_numbers.mpr ⟨a, ha⟩))
      rw [heq]
      tauto

/-- The number of an item belongs to an item with another key. -/
def displaced (L : Ledger β) (b : β) : Bool :=
  (number b).any fun n => (L.get? n).any fun a => key a != key b

theorem displaced_iff {L : Ledger β} :
    displaced number key L b = true ↔
      ∃ n a, number b = some n ∧ (n, a) ∈ L.rows ∧ key a ≠ key b := by
  rw [displaced, Option.any_eq_true]
  constructor
  · rintro ⟨n, hn, h⟩
    obtain ⟨a, ha, hne⟩ := (Option.any_eq_true _ _).mp h
    exact ⟨n, a, hn, Ledger.get?_eq_some.mp ha, bne_iff_ne.mp hne⟩
  · rintro ⟨n, a, hn, ha, hne⟩
    refine ⟨n, hn, ?_⟩
    rw [Ledger.get?_eq_some.mpr ha]
    exact bne_iff_ne.mpr hne

theorem used_of_mem (hb : b ∈ bs) (hn : number b = some n) : Used number bs n :=
  Or.inl ⟨b, hb, hn⟩

/-- A row that is added under a new number leaves the displaced items as they are. -/
theorem displaced_append {L L' : Ledger β} {m : Int} {c : β}
    (hrows : L'.rows = L.rows ++ [(m, c)]) (hm : m ∉ L.numbers)
    (hbs : ∀ b ∈ bs, ∀ n, number b = some n → n ∈ L.numbers) :
    bs.filter (displaced number key L') = bs.filter (displaced number key L) := by
  apply filter_congr
  intro b hb
  rw [Bool.eq_iff_iff, displaced_iff, displaced_iff]
  constructor
  · rintro ⟨n, a, hn, ha, hne⟩
    rw [hrows, mem_append, mem_singleton, Prod.mk.injEq] at ha
    rcases ha with ha | ⟨rfl, _⟩
    · exact ⟨n, a, hn, ha, hne⟩
    · exact absurd (hbs b hb n hn) hm
  · rintro ⟨n, a, hn, ha, hne⟩
    exact ⟨n, a, hn, hrows ▸ mem_append_left _ ha, hne⟩

theorem displaced_concat {L L' : Ledger β} {m : Int} {c : β}
    (hrows : L'.rows = L.rows ++ [(m, c)]) (hm : m ∉ L.numbers)
    (hbs : ∀ b ∈ bs, ∀ n, number b = some n → n ∈ L.numbers) (hc : ∀ n, number c = some n → n = m) :
    (bs ++ [c]).filter (displaced number key L') = bs.filter (displaced number key L) := by
  have hdis : displaced number key L' c = false := by
    rw [Bool.eq_false_iff]
    intro h
    obtain ⟨n, a, hn, ha, hne⟩ := (displaced_iff number key).mp h
    have hown : (m, c) ∈ L'.rows := by simp [hrows]
    rw [hc n hn] at ha
    exact hne (congrArg key (Ledger.eq_of_mem ha hown))
  rw [filter_append, displaced_append number key hrows hm hbs]
  simp [hdis]

/-- The items that wait are the displaced ones, in their order. -/
theorem waiting_firstPass (bs : List β) :
    (firstPass number key bs).waiting =
      bs.filter (displaced number key (firstPass number key bs).ledger) := by
  induction bs using reverseRecOn with
  | nil => rfl
  | append_singleton bs c ih =>
    have hbs : ∀ b ∈ bs, ∀ n, number b = some n → n ∈ (firstPass number key bs).ledger.numbers :=
      fun b hb n hn => (mem_numbers_firstPass number key).mpr (used_of_mem number hb hn)
    rw [firstPass_concat]
    obtain ⟨hn, heq⟩ | ⟨m, hn, hfree, heq⟩ | ⟨m, a, hn, ha, hkey, heq⟩ | ⟨m, a, hn, ha, hkey, heq⟩ :=
      offer_cases number key (firstPass number key bs) c
    · rw [heq, ih]
      refine (displaced_concat number key (Ledger.rows_issue _ c)
        (Ledger.top_succ_notMem_numbers _) hbs ?_).symm
      intro n h
      rw [hn] at h
      cases h
    · rw [heq, ih]
      refine (displaced_concat number key (Ledger.rows_insertAt hfree c) hfree hbs ?_).symm
      intro n h
      rw [hn] at h
      exact (Option.some.inj h).symm
    · have hdis : displaced number key (firstPass number key bs).ledger c = false := by
        rw [Bool.eq_false_iff]
        intro h
        obtain ⟨n, a', hn', ha', hne⟩ := (displaced_iff number key).mp h
        rw [hn, Option.some.injEq] at hn'
        subst hn'
        exact hne (Ledger.eq_of_mem ha' ha ▸ hkey)
      rw [heq, ih, filter_append]
      simp [hdis]
    · have hdis : displaced number key (firstPass number key bs).ledger c = true :=
        (displaced_iff number key).mpr ⟨m, a, hn, ha, hkey⟩
      rw [heq, filter_append, ← ih]
      simp [hdis]

/-- No item gets lost between the table, the waiting and the dropped items. -/
theorem perm_firstPass (bs : List β) :
    bs ~ (firstPass number key bs).ledger.items ++ (firstPass number key bs).waiting ++
      (firstPass number key bs).dropped := by
  induction bs using reverseRecOn with
  | nil => exact List.Perm.refl _
  | append_singleton bs c ih =>
    have hstored : bs ++ [c] ~
        ((firstPass number key bs).ledger.items ++ [c]) ++ (firstPass number key bs).waiting ++
          (firstPass number key bs).dropped := by
      refine (ih.append_right [c]).trans ?_
      rw [append_assoc, append_assoc, append_assoc, append_assoc]
      refine List.Perm.append_left _ ?_
      rw [← append_assoc]
      exact perm_append_comm
    rw [firstPass_concat]
    obtain ⟨_, heq⟩ | ⟨m, _, hfree, heq⟩ | ⟨_, _, _, _, _, heq⟩ | ⟨_, _, _, _, _, heq⟩ :=
      offer_cases number key (firstPass number key bs) c
    · rw [heq]
      simpa [Ledger.items] using hstored
    · rw [heq]
      simpa [Ledger.items, Ledger.rows_insertAt hfree] using hstored
    · rw [heq]
      simpa using ih.append_right [c]
    · rw [heq]
      refine (ih.append_right [c]).trans ?_
      rw [append_assoc, append_assoc, append_assoc, append_assoc]
      exact (perm_append_comm.append_left _).append_left _

/-- An item is dropped for another one with its key. -/
theorem dropped_firstPass (hb : b ∈ (firstPass number key bs).dropped) :
    ∃ n a, number b = some n ∧ (n, a) ∈ (firstPass number key bs).ledger.rows ∧ key a = key b := by
  induction bs using reverseRecOn with
  | nil => exact absurd hb not_mem_nil
  | append_singleton bs c ih =>
    rw [firstPass_concat] at hb ⊢
    obtain ⟨_, heq⟩ | ⟨m, _, hfree, heq⟩ | ⟨m, a, hn, ha, hkey, heq⟩ | ⟨_, _, _, _, _, heq⟩ :=
      offer_cases number key (firstPass number key bs) c
    · rw [heq] at hb ⊢
      obtain ⟨n, a, hn, ha, hkey⟩ := ih hb
      exact ⟨n, a, hn, Ledger.mem_rows_issue.mpr (Or.inl ha), hkey⟩
    · rw [heq] at hb ⊢
      obtain ⟨n, a, hn, ha, hkey⟩ := ih hb
      exact ⟨n, a, hn, (Ledger.mem_rows_insertAt hfree).mpr (Or.inl ha), hkey⟩
    · rw [heq] at hb ⊢
      rw [mem_append, mem_singleton] at hb
      rcases hb with hb | rfl
      · exact ih hb
      · exact ⟨m, a, hn, ha, hkey⟩
    · rw [heq] at hb ⊢
      exact ih hb

/-! ### The second pass -/

/-- Everything that a step of the second pass can do. -/
theorem place_cases (S : Intake β) (b : β) :
    ((∃ a ∈ S.ledger.items, key a = key b) ∧
      place key S b = { S with dropped := S.dropped ++ [b] }) ∨
    (∀ a ∈ S.ledger.items, key a ≠ key b) ∧
      place key S b = { S with ledger := S.ledger.issue b } := by
  unfold place
  by_cases h : ∃ a ∈ S.ledger.items, key a = key b
  · exact Or.inl ⟨h, if_pos (by simpa using h)⟩
  · refine Or.inr ⟨fun a ha hkey => h ⟨a, ha, hkey⟩, if_neg ?_⟩
    simpa using h

theorem foldl_place_concat (S : Intake β) (bs : List β) (b : β) :
    (bs ++ [b]).foldl (place key) S = place key (bs.foldl (place key) S) b := by
  rw [foldl_append]
  rfl

variable {S : Intake β}

theorem mem_rows_of_place {a : β} (h : (n, a) ∈ S.ledger.rows) :
    (n, a) ∈ (bs.foldl (place key) S).ledger.rows := by
  induction bs using reverseRecOn with
  | nil => exact h
  | append_singleton bs b ih =>
    rw [foldl_place_concat]
    obtain ⟨_, heq⟩ | ⟨_, heq⟩ := place_cases key (bs.foldl (place key) S) b
    · rw [heq]
      exact ih
    · rw [heq]
      exact Ledger.mem_rows_issue.mpr (Or.inl ih)

/-- After the second pass every key of a waiting item is there. -/
theorem exists_key_foldl_place {k : κ} :
    (∃ a ∈ (bs.foldl (place key) S).ledger.items, key a = k) ↔
      (∃ a ∈ S.ledger.items, key a = k) ∨ ∃ a ∈ bs, key a = k := by
  induction bs using reverseRecOn with
  | nil => simp
  | append_singleton bs b ih =>
    rw [foldl_place_concat]
    obtain ⟨hkey, heq⟩ | ⟨_, heq⟩ := place_cases key (bs.foldl (place key) S) b
    · rw [heq, ih]
      constructor
      · rintro (h | ⟨a, ha, hk⟩)
        · exact Or.inl h
        · exact Or.inr ⟨a, mem_append_left _ ha, hk⟩
      · rintro (h | ⟨a, ha, hk⟩)
        · exact Or.inl h
        · rw [mem_append, mem_singleton] at ha
          rcases ha with ha | rfl
          · exact Or.inr ⟨a, ha, hk⟩
          · rw [hk] at hkey
            exact ih.mp hkey
    · have hitems : ({ bs.foldl (place key) S with
          ledger := (bs.foldl (place key) S).ledger.issue b } : Intake β).ledger.items =
            (bs.foldl (place key) S).ledger.items ++ [b] := by
        simp [Ledger.items]
      rw [heq, hitems]
      simp only [mem_append, mem_singleton, or_and_right, exists_or, exists_eq_left]
      rw [ih]
      exact or_assoc

/-- The rows that the second pass adds: the first waiting item of each key that is not there. -/
theorem mem_items_foldl_place :
    b ∈ (bs.foldl (place key) S).ledger.items ↔
      b ∈ S.ledger.items ∨ ∃ front back, bs = front ++ b :: back ∧
        (∀ a ∈ S.ledger.items, key a ≠ key b) ∧ ∀ a ∈ front, key a ≠ key b := by
  induction bs using reverseRecOn with
  | nil => simp
  | append_singleton bs c ih =>
    have hsplit : (∃ front back, bs ++ [c] = front ++ b :: back ∧
        (∀ a ∈ S.ledger.items, key a ≠ key b) ∧ ∀ a ∈ front, key a ≠ key b) ↔
          (∃ front back, bs = front ++ b :: back ∧
            (∀ a ∈ S.ledger.items, key a ≠ key b) ∧ ∀ a ∈ front, key a ≠ key b) ∨
          b = c ∧ ∀ a ∈ (bs.foldl (place key) S).ledger.items, key a ≠ key c := by
      constructor
      · rintro ⟨front, back, hsplit, hitems, hfront⟩
        rw [concat_eq_split] at hsplit
        rcases hsplit with ⟨back', rfl, rfl⟩ | ⟨rfl, rfl, rfl⟩
        · exact Or.inl ⟨front, back', rfl, hitems, hfront⟩
        · refine Or.inr ⟨rfl, fun a ha hkey => ?_⟩
          rcases (exists_key_foldl_place key).mp ⟨a, ha, hkey⟩ with ⟨x, hx, hk⟩ | ⟨x, hx, hk⟩
          · exact hitems x hx hk
          · exact hfront x hx hk
      · rintro (⟨front, back, rfl, hitems, hfront⟩ | ⟨rfl, hnew⟩)
        · exact ⟨front, back ++ [c], by simp, hitems, hfront⟩
        · have hnone (h : (∃ a ∈ S.ledger.items, key a = key b) ∨ ∃ a ∈ bs, key a = key b) :
              False := by
            obtain ⟨a, ha, hk⟩ := (exists_key_foldl_place key).mpr h
            exact hnew a ha hk
          exact ⟨bs, [], rfl, fun a ha hk => hnone (Or.inl ⟨a, ha, hk⟩),
            fun a ha hk => hnone (Or.inr ⟨a, ha, hk⟩)⟩
    rw [foldl_place_concat, hsplit, ← or_assoc, ← ih]
    obtain ⟨⟨a, ha, hkey⟩, heq⟩ | ⟨hnew, heq⟩ := place_cases key (bs.foldl (place key) S) c
    · rw [heq]
      constructor
      · exact Or.inl
      · rintro (h | ⟨_, hnew⟩)
        · exact h
        · exact absurd hkey (hnew a ha)
    · rw [heq, Ledger.mem_items, Ledger.mem_items]
      simp only [Ledger.mem_rows_issue, exists_or, exists_and_right, exists_eq, true_and]
      constructor
      · rintro (h | rfl)
        · exact Or.inl h
        · exact Or.inr ⟨rfl, hnew⟩
      · rintro (h | ⟨rfl, _⟩)
        · exact Or.inl h
        · exact Or.inr rfl

theorem top_le_foldl_place (S : Intake β) (bs : List β) :
    S.ledger.top ≤ (bs.foldl (place key) S).ledger.top := by
  induction bs using reverseRecOn with
  | nil => exact le_rfl
  | append_singleton bs b ih =>
    rw [foldl_place_concat]
    obtain ⟨_, heq⟩ | ⟨_, heq⟩ := place_cases key (bs.foldl (place key) S) b
    · rw [heq]
      exact ih
    · rw [heq, Ledger.top_issue]
      omega

/-- A number that the second pass adds is above all numbers of the first. -/
theorem row_of_foldl_place (h : (n, b) ∈ (bs.foldl (place key) S).ledger.rows) :
    (n, b) ∈ S.ledger.rows ∨ S.ledger.top < n ∧ b ∈ bs ∧ ∀ a ∈ S.ledger.items, key a ≠ key b := by
  induction bs using reverseRecOn with
  | nil => exact Or.inl h
  | append_singleton bs c ih =>
    have hold (hmem : (n, b) ∈ (bs.foldl (place key) S).ledger.rows) :
        (n, b) ∈ S.ledger.rows ∨ S.ledger.top < n ∧ b ∈ bs ++ [c] ∧
          ∀ a ∈ S.ledger.items, key a ≠ key b := by
      rcases ih hmem with hrow | ⟨htop, hb, hkey⟩
      · exact Or.inl hrow
      · exact Or.inr ⟨htop, mem_append_left _ hb, hkey⟩
    rw [foldl_place_concat] at h
    obtain ⟨_, heq⟩ | ⟨hnew, heq⟩ := place_cases key (bs.foldl (place key) S) c
    · rw [heq] at h
      exact hold h
    · rw [heq, Ledger.mem_rows_issue] at h
      rcases h with h | ⟨rfl, rfl⟩
      · exact hold h
      · right
        refine ⟨?_, by simp, fun a ha hkey => ?_⟩
        · have hle := top_le_foldl_place key S bs
          omega
        · obtain ⟨m, hm⟩ := Ledger.mem_items.mp ha
          exact hnew a (Ledger.mem_items.mpr ⟨m, mem_rows_of_place key hm⟩) hkey

/-! ### Both passes -/

omit [DecidableEq κ] in
/-- The first item with a property. -/
theorem exists_first {p : β → Prop} (h : ∃ b ∈ bs, p b) :
    ∃ front b back, bs = front ++ b :: back ∧ p b ∧ ∀ a ∈ front, ¬ p a := by
  induction bs with
  | nil => simp at h
  | cons c bs ih =>
    by_cases hc : p c
    · exact ⟨[], c, bs, rfl, hc, by simp⟩
    · obtain ⟨b, hb, hpb⟩ := h
      rw [mem_cons] at hb
      rcases hb with rfl | hb
      · exact absurd hpb hc
      · obtain ⟨front, b, back, rfl, hpb, hfront⟩ := ih ⟨b, hb, hpb⟩
        refine ⟨c :: front, b, back, rfl, hpb, ?_⟩
        intro a ha
        rw [mem_cons] at ha
        rcases ha with rfl | ha
        · exact hc
        · exact hfront a ha

omit [DecidableEq κ] in
variable {front : List β}

/-- Of two places in a list, the one before which an item is missing is not behind it. -/
theorem front_append_of_notMem {back front' back' : List β} {a : β}
    (h : front ++ b :: back = front' ++ a :: back') (ha : a ∉ front) :
    ∃ rest, front' = front ++ rest := by
  rw [append_eq_append_iff] at h
  rcases h with ⟨rest, rfl, _⟩ | ⟨rest, rfl, hrest⟩
  · exact ⟨rest, rfl⟩
  · cases rest with
    | nil => exact ⟨[], by simp⟩
    | cons c rest =>
      rw [cons_append, List.cons.injEq] at hrest
      exact absurd (by simp [hrest.1]) ha

theorem used_append (rest : List β) (h : Used number front n) : Used number (front ++ rest) n := by
  rcases h with ⟨b, hb, hn⟩ | ⟨front', b, back, rfl, hb, hn⟩
  · exact Or.inl ⟨b, mem_append_left _ hb, hn⟩
  · exact Or.inr ⟨front', b, back ++ rest, by simp, hb, hn⟩

theorem mem_items_firstPass :
    b ∈ (firstPass number key bs).ledger.items ↔
      ∃ front back, bs = front ++ b :: back ∧ Fresh number front b := by
  rw [Ledger.mem_items]
  simp only [mem_rows_firstPass]
  constructor
  · rintro ⟨n, front, back, hsplit, hfresh, _⟩
    exact ⟨front, back, hsplit, hfresh⟩
  · rintro ⟨front, back, hsplit, hfresh⟩
    exact ⟨_, front, back, hsplit, hfresh, rfl⟩

/-- An item that is not displaced shares its key with a row of the first pass. -/
theorem exists_key_of_not_displaced (hb : b ∈ bs)
    (h : displaced number key (firstPass number key bs).ledger b = false) :
    ∃ a ∈ (firstPass number key bs).ledger.items, key a = key b := by
  cases hn : number b with
  | none =>
    obtain ⟨front, back, rfl⟩ := append_of_mem hb
    refine ⟨b, (mem_items_firstPass number key).mpr ⟨front, back, rfl, ?_⟩, rfl⟩
    intro n h'
    rw [hn] at h'
    cases h'
  | some n =>
    have hmem := (mem_numbers_firstPass number key).mpr (used_of_mem number hb hn)
    obtain ⟨a, ha⟩ := Ledger.mem_numbers.mp hmem
    refine ⟨a, Ledger.mem_items.mpr ⟨n, ha⟩, ?_⟩
    by_contra hne
    rw [(displaced_iff number key).mpr ⟨n, a, hn, ha, hne⟩] at h
    cases h

theorem late_iff {back : List β} (hsplit : bs = front ++ b :: back) :
    Late number key bs front b ↔ displaced number key (firstPass number key bs).ledger b = true ∧
      (∀ a ∈ (firstPass number key bs).ledger.items, key a ≠ key b) ∧
      ∀ a ∈ front.filter (displaced number key (firstPass number key bs).ledger),
        key a ≠ key b := by
  constructor
  · rintro ⟨⟨n, hn, hused⟩, hfront, hstale⟩
    have hitems : ∀ a ∈ (firstPass number key bs).ledger.items, key a ≠ key b := by
      intro a ha hkey
      obtain ⟨front', back', hsplit', hfresh⟩ := (mem_items_firstPass number key).mp ha
      exact hstale front' a back' hsplit' hkey hfresh
    refine ⟨?_, hitems, fun a ha => hfront a (mem_of_mem_filter ha)⟩
    have hmem := (mem_numbers_firstPass number key).mpr (used_append number (b :: back) hused)
    rw [← hsplit] at hmem
    obtain ⟨a, ha⟩ := Ledger.mem_numbers.mp hmem
    exact (displaced_iff number key).mpr
      ⟨n, a, hn, ha, hitems a (Ledger.mem_items.mpr ⟨n, ha⟩)⟩
  · rintro ⟨hdis, hitems, hfront⟩
    obtain ⟨n, a, hn, ha, hne⟩ := (displaced_iff number key).mp hdis
    refine ⟨⟨n, hn, ?_⟩, ?_, ?_⟩
    · -- an item that finds its number free takes it
      by_contra hfree
      have hfresh : Fresh number front b := by
        intro m hm
        rw [hn, Option.some.injEq] at hm
        exact hm ▸ hfree
      have hb : (n, b) ∈ (firstPass number key bs).ledger.rows :=
        (mem_rows_firstPass number key).mpr ⟨front, back, hsplit, hfresh, by rw [hn]; rfl⟩
      exact hne (congrArg key (Ledger.eq_of_mem ha hb))
    · intro c hc hkey
      cases hd : displaced number key (firstPass number key bs).ledger c with
      | true => exact hfront c (mem_filter.mpr ⟨hc, hd⟩) hkey
      | false =>
        have hcbs : c ∈ bs := hsplit ▸ mem_append_left _ hc
        obtain ⟨x, hx, hxc⟩ := exists_key_of_not_displaced number key hcbs hd
        exact hitems x hx (hxc.trans hkey)
    · intro front' c back' hsplit' hkey hfresh
      exact hitems c ((mem_items_firstPass number key).mpr ⟨front', back', hsplit', hfresh⟩) hkey

/-- The items that are stored at the end. -/
theorem mem_items_file :
    b ∈ (file number key bs).ledger.items ↔ ∃ front back, bs = front ++ b :: back ∧
        (Fresh number front b ∨ Late number key bs front b) := by
  rw [file, secondPass, mem_items_foldl_place, waiting_firstPass, mem_items_firstPass]
  constructor
  · rintro (⟨front, back, hsplit, hfresh⟩ | ⟨front', back', hfilter, hitems, hfront'⟩)
    · exact ⟨front, back, hsplit, Or.inl hfresh⟩
    · rw [filter_eq_append_iff] at hfilter
      obtain ⟨front, rest, hsplit, rfl, hrest⟩ := hfilter
      rw [filter_eq_cons_iff] at hrest
      obtain ⟨skipped, back, rfl, hskipped, hdis, rfl⟩ := hrest
      rw [← append_assoc] at hsplit
      refine ⟨front ++ skipped, back, hsplit, Or.inr ((late_iff number key hsplit).mpr ?_)⟩
      refine ⟨hdis, hitems, ?_⟩
      intro a ha
      rw [filter_append, mem_append] at ha
      rcases ha with ha | ha
      · exact hfront' a ha
      · rw [mem_filter] at ha
        exact absurd ha.2 (hskipped a ha.1)
  · rintro ⟨front, back, hsplit, hfresh | hlate⟩
    · exact Or.inl ⟨front, back, hsplit, hfresh⟩
    · obtain ⟨hdis, hitems, hfront⟩ := (late_iff number key hsplit).mp hlate
      refine Or.inr ⟨front.filter (displaced number key (firstPass number key bs).ledger),
        back.filter (displaced number key (firstPass number key bs).ledger), ?_, hitems, hfront⟩
      rw [hsplit, filter_append, filter_cons_of_pos (hsplit ▸ hdis)]

/-- The rows that the second pass adds. -/
theorem late_of_mem_file (h : (n, b) ∈ (file number key bs).ledger.rows)
    (hnew : (n, b) ∉ (firstPass number key bs).ledger.rows) :
    ∃ front back, bs = front ++ b :: back ∧ Late number key bs front b := by
  obtain ⟨front, back, hsplit, hfresh | hlate⟩ :=
    (mem_items_file number key).mp (Ledger.mem_items.mpr ⟨n, h⟩)
  · rcases row_of_foldl_place key h with hrow | ⟨_, _, hkey⟩
    · exact absurd hrow hnew
    · exact absurd rfl (hkey b ((mem_items_firstPass number key).mpr ⟨front, back, hsplit, hfresh⟩))
  · exact ⟨front, back, hsplit, hlate⟩

theorem notMem_firstPass_of_late {back : List β} (hsplit : bs = front ++ b :: back)
    (h : Late number key bs front b) (n : Int) :
    (n, b) ∉ (firstPass number key bs).ledger.rows := by
  intro hmem
  obtain ⟨_, hitems, _⟩ := (late_iff number key hsplit).mp h
  exact hitems b (Ledger.mem_items.mpr ⟨n, hmem⟩) rfl

/-- An item whose number no other brings is stored under it, unless the number is issued to an item
before it. -/
theorem mem_file_own_iff {back : List β} (hsplit : bs = front ++ b :: back)
    (hn : number b = some n) (hunique : ∀ a ∈ front ++ back, number a ≠ some n) :
    (n, b) ∈ (file number key bs).ledger.rows ↔
      ∀ front' a back', front = front' ++ a :: back' → number a = none →
        highest number front' + 1 ≠ n := by
  have hfront : ∀ a ∈ front, number a ≠ some n := fun a ha =>
    hunique a (mem_append_left _ ha)
  constructor
  · intro hrow front' a back' hfrontSplit ha hissued
    have hused : Used number front n := Or.inr ⟨front', a, back', hfrontSplit, ha, hissued.symm⟩
    rcases row_of_foldl_place key hrow with hfirst | ⟨htop, _, _⟩
    · obtain ⟨front₁, back₁, hsplit₁, hfresh, _⟩ := (mem_rows_firstPass number key).mp hfirst
      have hb : b ∉ front := fun hb => hfront b hb hn
      obtain ⟨rest, rfl⟩ := front_append_of_notMem (hsplit.symm.trans hsplit₁) hb
      exact hfresh n hn (used_append number rest hused)
    · have hb : b ∈ bs := by
        rw [hsplit]
        simp
      have hmem := (mem_numbers_firstPass number key).mpr (used_of_mem number hb hn)
      obtain ⟨a, ha⟩ := Ledger.mem_numbers.mp hmem
      have hle := Ledger.le_top_of_mem ha
      exact absurd htop (by simp only; omega)
  · intro hfree
    have hfresh : Fresh number front b := by
      intro m hm hused
      rw [hn, Option.some.injEq] at hm
      subst hm
      rcases hused with ⟨a, ha, hnum⟩ | ⟨front', a, back', hfrontSplit, ha, hissued⟩
      · exact hfront a ha hnum
      · exact hfree front' a back' hfrontSplit ha hissued.symm
    apply mem_rows_of_place
    exact (mem_rows_firstPass number key).mpr ⟨front, back, hsplit, hfresh, by rw [hn]; rfl⟩

theorem highest_nonneg (bs : List β) : 0 ≤ highest number bs := by
  induction bs using reverseRecOn with
  | nil => exact le_refl _
  | append_singleton bs b ih =>
    rw [highest_concat]
    cases number b with
    | none => simp only [Option.elim_none]; omega
    | some n => simp only [Option.elim_some]; omega

/-- If the items bring positive numbers, all numbers are positive. -/
theorem pos_of_mem_file (hpos : ∀ b ∈ bs, ∀ n, number b = some n → 0 < n)
    (h : (n, b) ∈ (file number key bs).ledger.rows) : 0 < n := by
  have hbound := highest_nonneg number bs
  rcases row_of_foldl_place key h with hrow | ⟨htop, _, _⟩
  · obtain ⟨front, back, rfl, _, rfl⟩ := (mem_rows_firstPass number key).mp hrow
    have hfront := highest_nonneg number front
    cases hn : number b with
    | none => simp only [Option.getD_none]; omega
    | some n =>
      simp only [Option.getD_some]
      exact hpos b (by simp) n hn
  · have htop' : highest number bs < n := by
      rw [← top_firstPass number key]
      exact htop
    omega

/-! ### Which items are lost -/

/-- Two items are one: they bring the same number and have the same key. -/
def Same (a b : β) : Prop := key a = key b ∧ number a = number b

/-- An item whose number is taken shares its key with no item that is not the same. -/
def Spared (bs : List β) : Prop :=
  ∀ front b back n, bs = front ++ b :: back → number b = some n → Used number front n →
    (∀ a ∈ front, ¬ Same number key a b) → ∀ a ∈ bs, key a = key b → number a = number b

omit [DecidableEq κ] in
/-- The first item with a key is one item. -/
theorem first_unique {back front' back' : List β} {a : β} (hb : bs = front ++ b :: back)
    (ha : bs = front' ++ a :: back') (hkey : key a = key b) (hfront : ∀ c ∈ front, key c ≠ key b)
    (hfront' : ∀ c ∈ front', key c ≠ key a) : a = b := by
  obtain ⟨rest, hrest⟩ := front_append_of_notMem (hb.symm.trans ha) fun h => hfront a h hkey
  obtain ⟨rest', hrest'⟩ := front_append_of_notMem (ha.symm.trans hb) fun h => hfront' b h hkey.symm
  have hnil : rest ++ rest' = [] := by
    rw [hrest, append_assoc] at hrest'
    exact self_eq_append_right.mp hrest'
  rw [(append_eq_nil_iff.mp hnil).1, append_nil] at hrest
  rw [hb, hrest, append_cancel_left_eq, List.cons.injEq] at ha
  exact ha.1.symm

theorem fresh_of_unnumbered (h : number b = none) : Fresh number front b := by
  intro n hn
  rw [h] at hn
  cases hn

omit [DecidableEq κ] in
/-- A row of the first pass that is the same as an item stands where that item comes first. -/
theorem not_fresh_of_same {back front' back' : List β} {a : β} (hb : bs = front ++ b :: back)
    (ha : bs = front' ++ a :: back') (hn : number a = some n) (hused : Used number front n)
    (hsame : Same number key a b) (hfront : ∀ c ∈ front, ¬ Same number key c b) :
    ¬ Fresh number front' a := by
  obtain ⟨rest, rfl⟩ := front_append_of_notMem (hb.symm.trans ha) fun h => hfront a h hsame
  intro hfresh
  exact hfresh n hn (used_append number rest hused)

/-- Every numbered item is there, or one that is the same, exactly when the items are spared. -/
theorem stored_iff_spared (bs : List β) :
    (∀ b ∈ bs, number b ≠ none → ∃ a ∈ (file number key bs).ledger.items, Same number key a b) ↔
      Spared number key bs := by
  constructor
  · intro hstored front b back n hsplit hn hused hfirst c hc hkey
    by_contra hne
    have hb : b ∈ bs := hsplit ▸ by simp
    obtain ⟨a, ha, hsame⟩ := hstored b hb (by simp [hn])
    obtain ⟨front', back', hsplit', hfresh | hlate⟩ := (mem_items_file number key).mp ha
    · exact not_fresh_of_same number key hsplit hsplit' (hsame.2.trans hn) hused hsame hfirst hfresh
    · obtain ⟨_, hfront', hstale⟩ := hlate
      have hca : key c = key a := hkey.trans hsame.1.symm
      cases hcn : number c with
      | none =>
        obtain ⟨fc, bc, hsplitc⟩ := append_of_mem hc
        exact hstale fc c bc hsplitc hca (fresh_of_unnumbered number hcn)
      | some m =>
        -- a second late item with this key would have to be the first one as well
        obtain ⟨x, hx, hsamex⟩ := hstored c hc (by simp [hcn])
        have hxa : key x = key a := hsamex.1.trans hca
        obtain ⟨fx, bx, hsplitx, hfreshx | ⟨_, hfrontx, _⟩⟩ := (mem_items_file number key).mp hx
        · exact hstale fx x bx hsplitx hxa hfreshx
        · have hxeq := first_unique key hsplit' hsplitx hxa hfront' hfrontx
          exact hne (hsamex.2.symm.trans (hxeq ▸ hsame.2))
  · intro hspared b hb hnum
    obtain ⟨n, hn⟩ := Option.ne_none_iff_exists'.mp hnum
    obtain ⟨front, a, back, hsplit, hsame, hfront⟩ :=
      exists_first (p := fun a => Same number key a b) ⟨b, hb, rfl, rfl⟩
    have hfirst : ∀ c ∈ front, ¬ Same number key c a := fun c hc h =>
      hfront c hc ⟨h.1.trans hsame.1, h.2.trans hsame.2⟩
    refine ⟨a, (mem_items_file number key).mpr ⟨front, back, hsplit, ?_⟩, hsame⟩
    by_cases hused : Used number front n
    · right
      have hall := hspared front a back n hsplit (hsame.2.trans hn) hused hfirst
      refine ⟨⟨n, hsame.2.trans hn, hused⟩, ?_, ?_⟩
      · intro c hc hkey
        exact hfirst c hc ⟨hkey, hall c (hsplit ▸ mem_append_left _ hc) hkey⟩
      · intro front' c back' hsplit' hkey
        have hcnum := hall c (hsplit' ▸ by simp) hkey
        exact not_fresh_of_same number key hsplit hsplit' (hcnum.trans (hsame.2.trans hn)) hused
          ⟨hkey, hcnum⟩ hfirst
    · left
      intro m hm
      rw [hsame.2, hn, Option.some.injEq] at hm
      exact hm ▸ hused

theorem perm_foldl_place (S : Intake β) (bs : List β) :
    S.ledger.items ++ bs ++ S.dropped ~
      (bs.foldl (place key) S).ledger.items ++ (bs.foldl (place key) S).dropped := by
  induction bs using reverseRecOn with
  | nil => simp
  | append_singleton bs b ih =>
    have hmove : S.ledger.items ++ (bs ++ [b]) ++ S.dropped ~
        (bs.foldl (place key) S).ledger.items ++ ((bs.foldl (place key) S).dropped ++ [b]) := by
      rw [← append_assoc, ← append_assoc]
      refine List.Perm.trans ?_ (ih.append_right [b])
      rw [append_assoc, append_assoc, append_assoc, append_assoc]
      exact (perm_append_comm.append_left _).append_left _
    rw [foldl_place_concat]
    obtain ⟨_, heq⟩ | ⟨_, heq⟩ := place_cases key (bs.foldl (place key) S) b
    · rw [heq]
      exact hmove
    · rw [heq]
      refine hmove.trans ?_
      rw [← append_assoc]
      refine (perm_append_comm.trans ?_)
      rw [← append_assoc]
      refine List.Perm.append_right _ ?_
      have hitems : ((bs.foldl (place key) S).ledger.issue b).items =
          (bs.foldl (place key) S).ledger.items ++ [b] := by
        simp [Ledger.items]
      rw [hitems]
      exact perm_append_comm

/-- No item gets lost between the table and the dropped items. -/
theorem perm_file (bs : List β) :
    bs ~ (file number key bs).ledger.items ++ (file number key bs).dropped := by
  refine (perm_firstPass number key bs).trans ?_
  exact perm_foldl_place key { firstPass number key bs with waiting := [] } _

theorem number_of_dropped (hb : b ∈ (file number key bs).dropped) : number b ≠ none := by
  have hplace (S : Intake β) (l : List β) (h : b ∈ (l.foldl (place key) S).dropped) :
      b ∈ S.dropped ∨ b ∈ l := by
    induction l using reverseRecOn with
    | nil => exact Or.inl h
    | append_singleton l c ih =>
      rw [foldl_place_concat] at h
      obtain ⟨_, heq⟩ | ⟨_, heq⟩ := place_cases key (l.foldl (place key) S) c
      · rw [heq, mem_append, mem_singleton] at h
        rcases h with h | rfl
        · exact (ih h).imp_right (mem_append_left _)
        · exact Or.inr (by simp)
      · rw [heq] at h
        exact (ih h).imp_right (mem_append_left _)
  rcases hplace _ _ hb with h | h
  · obtain ⟨n, _, hn, _⟩ := dropped_firstPass number key h
    simp [hn]
  · rw [waiting_firstPass, mem_filter] at h
    obtain ⟨n, _, hn, _⟩ := (displaced_iff number key).mp h.2
    simp [hn]

/-- The second pass stores one item of a key. -/
theorem late_row_unique {m : Int} {a : β} (ha : (m, a) ∈ (bs.foldl (place key) S).ledger.rows)
    (hb : (n, b) ∈ (bs.foldl (place key) S).ledger.rows)
    (hnew : ∀ c ∈ S.ledger.items, key c ≠ key a) (hkey : key a = key b) : m = n := by
  induction bs using reverseRecOn with
  | nil => exact absurd rfl (hnew a (Ledger.mem_items.mpr ⟨m, ha⟩))
  | append_singleton bs c ih =>
    rw [foldl_place_concat] at ha hb
    obtain ⟨_, heq⟩ | ⟨hfree, heq⟩ := place_cases key (bs.foldl (place key) S) c
    · rw [heq] at ha hb
      exact ih ha hb
    · rw [heq, Ledger.mem_rows_issue] at ha hb
      rcases ha with ha | ⟨rfl, rfl⟩
      · rcases hb with hb | ⟨_, rfl⟩
        · exact ih ha hb
        · exact absurd hkey (hfree a (Ledger.mem_items.mpr ⟨m, ha⟩))
      · rcases hb with hb | ⟨rfl, _⟩
        · exact absurd hkey.symm (hfree b (Ledger.mem_items.mpr ⟨n, hb⟩))
        · rfl

/-- An item is stored once: no two rows are the same numbered item. -/
theorem row_unique {m : Int} {a : β} (ha : (m, a) ∈ (file number key bs).ledger.rows)
    (hb : (n, b) ∈ (file number key bs).ledger.rows) (hnum : number a ≠ none)
    (hsame : Same number key a b) : m = n := by
  obtain ⟨c, hc⟩ := Option.ne_none_iff_exists'.mp hnum
  have hown (k : Int) (x : β) (hx : (k, x) ∈ (firstPass number key bs).ledger.rows)
      (hxc : number x = some c) : k = c := by
    obtain ⟨_, _, _, _, hk⟩ := (mem_rows_firstPass number key).mp hx
    rw [hk, hxc]
    rfl
  rcases row_of_foldl_place key ha with ha1 | ⟨_, hamem, hanew⟩
  · rcases row_of_foldl_place key hb with hb1 | ⟨_, _, hbnew⟩
    · rw [hown m a ha1 hc, hown n b hb1 (hsame.2.symm.trans hc)]
    · exact absurd hsame.1 (hbnew a (Ledger.mem_items.mpr ⟨m, ha1⟩))
  · rcases row_of_foldl_place key hb with hb1 | ⟨_, _, _⟩
    · exact absurd hsame.1.symm (hanew b (Ledger.mem_items.mpr ⟨n, hb1⟩))
    · exact late_row_unique key ha hb hanew hsame.1

omit [DecidableEq κ] in
theorem length_eq_unnumbered_add (l : List β) :
    l.length = (l.filter fun b => (number b).isNone).length + (l.filterMap number).length := by
  induction l with
  | nil => rfl
  | cons b l ih =>
    cases hn : number b with
    | none =>
      simp [hn]
      omega
    | some n =>
      simp [hn]
      omega

theorem nodup_numbers_file (bs : List β) (k : κ) :
    (((file number key bs).ledger.items.filter fun b => key b = k).filterMap number).Nodup := by
  have hrows : ((file number key bs).ledger.rows.filter fun r => key r.2 = k).Nodup :=
    (List.Nodup.of_map _ (file number key bs).ledger.nodup).filter _
  rw [Ledger.items, filter_map, filterMap_map]
  rw [nodup_iff_pairwise_ne, pairwise_filterMap]
  refine (nodup_iff_pairwise_ne.mp hrows).imp_of_mem ?_
  rintro ⟨m, a⟩ ⟨n, b⟩ ha hb hne x hx y hy rfl
  rw [mem_filter] at ha hb
  have hkey : key a = key b := (of_decide_eq_true ha.2).trans (of_decide_eq_true hb.2).symm
  have hxa : number a = some x := hx
  have hxb : number b = some x := hy
  have hmn := row_unique number key ha.1 hb.1 (by simp [hxa]) ⟨hkey, hxa.trans hxb.symm⟩
  subst hmn
  exact hne (by rw [Ledger.eq_of_mem ha.1 hb.1])

/-- If all items but repeated ones can be matched with rows of their key, they are spared. -/
theorem spared_of_matched {kept lost : List β} (hperm : bs ~ kept ++ lost)
    (hlost : ∀ b ∈ lost, number b ≠ none ∧ ∃ a ∈ kept, Same number key a b)
    (hrows : kept.map key <+~ (file number key bs).ledger.items.map key) :
    Spared number key bs := by
  rw [← stored_iff_spared]
  intro b hb hnum
  -- Rows and kept items with the key of `b`: at least as many rows, but no more without a number.
  have hlen : (kept.filter fun a => key a = key b).length ≤
      ((file number key bs).ledger.items.filter fun a => key a = key b).length := by
    have h := hrows.count_le (key b)
    rw [count_eq_length_filter, count_eq_length_filter, filter_map, filter_map,
      length_map, length_map] at h
    simpa [Function.comp_def, beq_eq_decide] using h
  have hunnumbered : (((file number key bs).ledger.items.filter fun a => key a = key b).filter
      fun a => (number a).isNone).length ≤
        ((kept.filter fun a => key a = key b).filter fun a => (number a).isNone).length := by
    have hfile := ((perm_file number key bs).symm.trans hperm).filter
      fun a => decide (key a = key b) && (number a).isNone
    have hnone : lost.filter (fun a => decide (key a = key b) && (number a).isNone) = [] := by
      rw [filter_eq_nil_iff]
      intro a ha h
      rw [Bool.and_eq_true, Option.isNone_iff_eq_none] at h
      exact (hlost a ha).1 h.2
    have hcount := hfile.length_eq
    rw [filter_append, filter_append, hnone, append_nil, length_append] at hcount
    rw [filter_filter, filter_filter]
    simp only [Bool.and_comm] at hcount ⊢
    omega
  have hkept := length_eq_unnumbered_add number (kept.filter fun a => key a = key b)
  have hitems := length_eq_unnumbered_add number
    ((file number key bs).ledger.items.filter fun a => key a = key b)
  have hsub : ((file number key bs).ledger.items.filter fun a => key a = key b).filterMap number ⊆
      (kept.filter fun a => key a = key b).filterMap number := by
    intro n hn
    obtain ⟨a, ha, han⟩ := mem_filterMap.mp hn
    rw [mem_filter, decide_eq_true_eq] at ha
    have habs : a ∈ kept ++ lost := hperm.subset
      ((perm_file number key bs).symm.subset (mem_append_left _ ha.1))
    rw [mem_append] at habs
    rcases habs with hk | hl
    · exact mem_filterMap.mpr ⟨a, mem_filter.mpr ⟨hk, by simp [ha.2]⟩, han⟩
    · obtain ⟨_, c, hc, hsame⟩ := hlost a hl
      exact mem_filterMap.mpr ⟨c, mem_filter.mpr ⟨hc, by simp [hsame.1, ha.2]⟩, hsame.2.trans han⟩
  have hall := ((nodup_numbers_file number key bs (key b)).subperm hsub).perm_of_length_le (by omega)
  -- So the rows have all numbers of the kept items, that of `b` among them.
  obtain ⟨n, hn⟩ := Option.ne_none_iff_exists'.mp hnum
  have hmem : n ∈ (kept.filter fun a => key a = key b).filterMap number := by
    have hbs := hperm.subset hb
    rw [mem_append] at hbs
    rcases hbs with hk | hl
    · exact mem_filterMap.mpr ⟨b, mem_filter.mpr ⟨hk, by simp⟩, hn⟩
    · obtain ⟨_, c, hc, hsame⟩ := hlost b hl
      exact mem_filterMap.mpr ⟨c, mem_filter.mpr ⟨hc, by simp [hsame.1]⟩, hsame.2.trans hn⟩
  obtain ⟨a, ha, han⟩ := mem_filterMap.mp (hall.symm.subset hmem)
  rw [mem_filter, decide_eq_true_eq] at ha
  exact ⟨a, ha.1, ha.2, han.trans hn.symm⟩

end Intake

end AgentMail.Lib
