import Mathlib.Data.List.Sort
import Mathlib.Data.Prod.Lex
import Mathlib.Data.String.Basic

/-!
# The cursor of a replay round

`RoundCursor` and its use by `replay_ack_batch` and `replay_batch`
(`crates/mcp-agent-mail-server/src/retention/pending.rs:41–88`,
`crates/mcp-agent-mail-server/src/retention/pending/acknowledgements.rs:94–187`,
`crates/mcp-agent-mail-server/src/retention/pending/releases.rs:92–168`). A candidate is an index
with its key. What an attempt does is not modelled; of a pass only how many attempts it came to.
-/

namespace AgentMail.Replay

open List

def maxAttempts : Nat := 16

variable {κ : Type} [LinearOrder κ]

structure RoundCursor (κ : Type) where
  after : Option κ
  ceiling : Option κ

namespace RoundCursor

/-- `RoundCursor::default()`. -/
def default : RoundCursor κ := ⟨none, none⟩

/-- The condition of `remaining`. -/
def admits (c : RoundCursor κ) (key : κ) : Bool :=
  (c.after.all fun after => decide (after < key)) &&
    c.ceiling.any fun ceiling => decide (key ≤ ceiling)

def remaining (c : RoundCursor κ) (keys : List κ) : List (κ × Nat) :=
  keys.zipIdx.filter fun e => c.admits e.1

/-- The cursor that the candidates are planned with. -/
def plan (c : RoundCursor κ) (keys : List κ) : RoundCursor κ :=
  if keys.isEmpty then default
  else
    let c := if c.ceiling.isNone then { c with ceiling := keys.max? } else c
    if (c.remaining keys).isEmpty then ⟨none, keys.max?⟩ else c

/-- The candidates in the order of their keys. -/
def candidates (c : RoundCursor κ) (keys : List κ) : RoundCursor κ × List (κ × Nat) :=
  let planned := c.plan keys
  (planned, if keys.isEmpty then []
    else (planned.remaining keys).insertionSort fun l r => l.1 ≤ r.1)

/-- The ceiling is chosen anew. -/
def chooses (c : RoundCursor κ) (keys : List κ) : Bool :=
  !keys.isEmpty && (c.ceiling.isNone || (c.remaining keys).isEmpty)

/-- The cursor once a key has been attempted. -/
def advance (c : RoundCursor κ) (key : κ) : RoundCursor κ := { c with after := some key }

/-- `replay_batch` with the keys of the intents when it comes to `count` attempts. -/
def replayBatch (c : RoundCursor κ) (keys : List κ) (count : Nat) : RoundCursor κ × List κ :=
  let (planned, found) := c.candidates keys
  let attempted := ((found.take maxAttempts).take count).map Prod.fst
  (attempted.foldl advance planned, attempted)

end RoundCursor

/-- A pass over the pending keys, which are distinct; it comes to one attempt at least. -/
structure Pass (κ : Type) where
  keys : List κ
  nodup : keys.Nodup
  count : Nat
  pos : 0 < count

/-- What can be seen of a pass. -/
structure Event (κ : Type) where
  keys : List κ
  /-- The pass chose the ceiling. -/
  chose : Bool
  attempted : List κ
deriving DecidableEq

/-- One pass after the other. -/
def run (c : RoundCursor κ) : List (Pass κ) → List (Event κ)
  | [] => []
  | p :: ps => ⟨p.keys, c.chooses p.keys, (c.replayBatch p.keys p.count).2⟩ ::
      run (c.replayBatch p.keys p.count).1 ps

/-! ### What a pass attempts -/

namespace RoundCursor

variable {c : RoundCursor κ} {keys : List κ} {k : κ} {count : Nat}

theorem admits_iff : c.admits k = true ↔ (∀ a ∈ c.after, a < k) ∧ ∃ m ∈ c.ceiling, k ≤ m := by
  rw [admits, Bool.and_eq_true, Option.all_eq_true, Option.any_eq_true]
  simp only [decide_eq_true_eq, Option.mem_def]

theorem exists_mem_remaining : (∃ i, (k, i) ∈ c.remaining keys) ↔ k ∈ keys ∧ c.admits k = true := by
  simp only [remaining, mem_filter, exists_and_right, mk_mem_zipIdx_iff_getElem?]
  rw [mem_iff_getElem?]

theorem remaining_eq_nil : (c.remaining keys).isEmpty = true ↔ ∀ k ∈ keys, c.admits k = false := by
  rw [List.isEmpty_iff, eq_nil_iff_forall_not_mem]
  constructor
  · intro h k hk
    rw [← Bool.not_eq_true]
    intro hadmits
    obtain ⟨i, hi⟩ := exists_mem_remaining.mpr ⟨hk, hadmits⟩
    exact h _ hi
  · rintro h ⟨k, i⟩ hi
    obtain ⟨hk, hadmits⟩ := exists_mem_remaining.mp ⟨i, hi⟩
    rw [h k hk] at hadmits
    cases hadmits

theorem max?_eq_none {keys : List κ} : keys.max? = none ↔ keys = [] := List.max?_eq_none_iff

/-- The keys of the candidates. -/
def order (c : RoundCursor κ) (keys : List κ) : List κ := (c.candidates keys).2.map Prod.fst

theorem mem_order : k ∈ c.order keys ↔ k ∈ keys ∧ (c.plan keys).admits k = true := by
  rw [order, candidates]
  dsimp only
  split
  · next hnil =>
    rw [List.isEmpty_iff] at hnil
    simp [hnil]
  · rw [mem_map, ← exists_mem_remaining]
    simp only [mem_insertionSort, Prod.exists, exists_and_right, exists_eq_right]

theorem order_nil : c.order ([] : List κ) = [] := by
  rw [eq_nil_iff_forall_not_mem]
  intro k hk
  cases (mem_order.mp hk).1

theorem order_sorted (h : keys.Nodup) : (c.order keys).Pairwise (· < ·) := by
  rw [order, candidates]
  dsimp only
  split
  · exact .nil
  · let byKey : κ × Nat → κ × Nat → Prop := fun l r => l.1 ≤ r.1
    have total : Std.Total byKey := ⟨fun l r => le_total l.1 r.1⟩
    have trans : IsTrans (κ × Nat) byKey := ⟨fun _ _ _ hlr hrs => le_trans hlr hrs⟩
    have hsorted : ((((c.plan keys).remaining keys).insertionSort byKey).map Prod.fst).Pairwise
        (· ≤ ·) := pairwise_map.mpr (pairwise_insertionSort byKey _)
    have hnodup : ((((c.plan keys).remaining keys).insertionSort byKey).map Prod.fst).Nodup := by
      have hkeys : (keys.zipIdx.map Prod.fst).Nodup := by rwa [zipIdx_map_fst]
      rw [((perm_insertionSort _ _).map Prod.fst).nodup_iff, remaining]
      exact (filter_sublist.map Prod.fst).nodup hkeys
    exact hsorted.imp₂ (fun _ _ hle hne => lt_of_le_of_ne hle hne) hnodup

/-- What a pass attempts is the start of the candidates. -/
theorem attempted_eq : (c.replayBatch keys count).2 = (c.order keys).take (min count maxAttempts) := by
  rw [replayBatch, order]
  dsimp only
  rw [take_take, map_take]

omit [LinearOrder κ] in
theorem foldl_advance (l : List κ) (c : RoundCursor κ) :
    l.foldl advance c = ⟨l.getLast?.or c.after, c.ceiling⟩ := by
  induction l generalizing c with
  | nil => rfl
  | cons k l ih =>
    rw [foldl_cons, ih]
    cases l with
    | nil => rfl
    | cons k' l => rw [List.getLast?_cons_cons]; rfl

theorem cursor_eq : (c.replayBatch keys count).1 =
    ⟨((c.order keys).take (min count maxAttempts)).getLast?.or (c.plan keys).after,
      (c.plan keys).ceiling⟩ := by
  rw [← attempted_eq, replayBatch]
  dsimp only
  rw [foldl_advance]
  rfl

end RoundCursor

end AgentMail.Replay
