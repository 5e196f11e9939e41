import AgentMail.Lib.Table
import Mathlib.Data.List.Sort

/-!
# Outstanding intents

`OutstandingIntents` (`crates/mcp-agent-mail-tools/src/degraded_intents.rs:455–503`): the intents of
a journal that no terminal marker has completed. A marker may come before or after the intents it
completes, and intents may come twice; what is outstanding in the end is a function of the records
as a whole.
-/

namespace AgentMail.Journal

open Lib List

universe u v w

variable {κ : Type u} {τ : Type v} [DecidableEq κ]

/-- What a reader makes of one record. -/
inductive Record (κ : Type u) (τ : Type v) where
  | intent (key : κ) (payload : τ)
  | terminal (key : κ)
  | ignored

def Record.map {σ : Type w} (g : τ → σ) : Record κ τ → Record κ σ
  | .intent key payload => .intent key (g payload)
  | .terminal key => .terminal key
  | .ignored => .ignored

/-- The sequence number is a `u64`: no file has as many records. -/
structure OutstandingIntents (κ : Type u) (τ : Type v) where
  pending : List (κ × Nat × τ)
  terminal : List κ
  nextOrder : Nat

namespace OutstandingIntents

def new : OutstandingIntents κ τ := ⟨[], [], 0⟩

def insert (o : OutstandingIntents κ τ) (key : κ) (payload : τ) : OutstandingIntents κ τ :=
  if key ∈ o.terminal then o
  else if Assoc.contains key o.pending then o
  else
    { o with
      pending := o.pending ++ [(key, o.nextOrder, payload)]
      nextOrder := o.nextOrder + 1 }

def complete (o : OutstandingIntents κ τ) (key : κ) : OutstandingIntents κ τ :=
  { o with
    pending := Assoc.erase key o.pending
    terminal := if key ∈ o.terminal then o.terminal else o.terminal ++ [key] }

def intoIntents (o : OutstandingIntents κ τ) : List τ :=
  ((o.pending.map (·.2)).insertionSort fun a b => a.1 ≤ b.1).map (·.2)

def accept (o : OutstandingIntents κ τ) : Record κ τ → OutstandingIntents κ τ
  | .intent key payload => o.insert key payload
  | .terminal key => o.complete key
  | .ignored => o

end OutstandingIntents

/-! ### What is outstanding -/

def Record.intent? : Record κ τ → Option (κ × τ)
  | .intent key payload => some (key, payload)
  | _ => none

def Record.terminal? : Record κ τ → Option κ
  | .terminal key => some key
  | _ => none

def intentsOf (rs : List (Record κ τ)) : List (κ × τ) := rs.filterMap Record.intent?

def terminalsOf (rs : List (Record κ τ)) : List κ := rs.filterMap Record.terminal?

def sameKey (a b : κ × τ) : Bool := decide (a.1 = b.1)

/-- The first intent of each key, unless the key is completed anywhere. -/
def outstanding (rs : List (Record κ τ)) : List (κ × τ) :=
  (keepNew sameKey (intentsOf rs)).filter fun e => e.1 ∉ terminalsOf rs

omit [DecidableEq κ] in
theorem intentsOf_concat (rs : List (Record κ τ)) (r : Record κ τ) :
    intentsOf (rs ++ [r]) = intentsOf rs ++ r.intent?.toList := by
  rw [intentsOf, filterMap_append]
  cases r <;> rfl

omit [DecidableEq κ] in
theorem terminalsOf_concat (rs : List (Record κ τ)) (r : Record κ τ) :
    terminalsOf (rs ++ [r]) = terminalsOf rs ++ r.terminal?.toList := by
  rw [terminalsOf, filterMap_append]
  cases r <;> rfl

variable {rs : List (Record κ τ)}

/-- A key is outstanding if some record has it as an intent and none completes it. -/
theorem key_mem_outstanding {key : κ} :
    key ∈ (outstanding rs).map (·.1) ↔ key ∈ (intentsOf rs).map (·.1) ∧ key ∉ terminalsOf rs := by
  simp only [mem_map, outstanding, mem_filter, decide_eq_true_eq]
  constructor
  · rintro ⟨e, ⟨hkeep, hnot⟩, rfl⟩
    exact ⟨⟨e, keepNew_subset hkeep, rfl⟩, hnot⟩
  · rintro ⟨⟨e, he, rfl⟩, hnot⟩
    have hrefl : ∀ a : κ × τ, sameKey a a = true := fun _ => decide_eq_true rfl
    obtain ⟨b, hb, hsame⟩ := exists_same_keepNew hrefl he
    have hkey : b.1 = e.1 := of_decide_eq_true hsame
    exact ⟨b, ⟨hb, by rw [hkey]; exact hnot⟩, hkey⟩

theorem outstanding_ignored (rs : List (Record κ τ)) :
    outstanding (rs ++ [.ignored]) = outstanding rs := by
  rw [outstanding, intentsOf_concat, terminalsOf_concat]
  simp only [Record.intent?, Record.terminal?, Option.toList_none, append_nil]
  rfl

theorem outstanding_terminal (rs : List (Record κ τ)) (key : κ) :
    outstanding (rs ++ [.terminal key]) = (outstanding rs).filter fun e => e.1 != key := by
  rw [outstanding, intentsOf_concat, terminalsOf_concat, outstanding, filter_filter]
  simp only [Record.intent?, Record.terminal?, Option.toList_none, append_nil, Option.toList_some]
  apply filter_congr
  intro e _
  rw [Bool.eq_iff_iff]
  simp only [mem_append, mem_singleton, decide_eq_true_eq, Bool.and_eq_true, bne_iff_ne]
  tauto

/-- An intent is outstanding if its key is new and not completed. -/
theorem outstanding_intent (rs : List (Record κ τ)) (key : κ) (payload : τ) :
    outstanding (rs ++ [.intent key payload]) = outstanding rs ++
      if key ∈ terminalsOf rs ∨ key ∈ (outstanding rs).map (·.1) then [] else [(key, payload)] := by
  have htrans : ∀ a b c : κ × τ, sameKey a b = true → sameKey b c = true → sameKey a c = true := by
    intro a b c hab hbc
    rw [sameKey, decide_eq_true_eq] at *
    exact hab.trans hbc
  have hany : ((keepNew sameKey (intentsOf rs)).any fun b => sameKey b (key, payload)) =
      decide (key ∈ (intentsOf rs).map (·.1)) := by
    rw [any_keepNew htrans, Bool.eq_iff_iff, any_eq_true, decide_eq_true_eq, mem_map]
    simp only [sameKey, decide_eq_true_eq]
  rw [outstanding, intentsOf_concat, terminalsOf_concat]
  simp only [Record.intent?, Record.terminal?, Option.toList_none, append_nil, Option.toList_some]
  rw [keepNew_concat, hany]
  by_cases hseen : key ∈ (intentsOf rs).map (·.1)
  · have hnone : key ∈ terminalsOf rs ∨ key ∈ (outstanding rs).map (·.1) := by
      rw [key_mem_outstanding]
      tauto
    rw [if_pos (decide_eq_true hseen), if_pos hnone, append_nil]
    rfl
  · rw [if_neg (by simpa using hseen), filter_append]
    have hnot : key ∉ (outstanding rs).map (·.1) := fun hmem => hseen (key_mem_outstanding.mp hmem).1
    by_cases hdone : key ∈ terminalsOf rs
    · rw [if_pos (.inl hdone)]
      simp [outstanding, hdone]
    · rw [if_neg (by tauto)]
      simp [outstanding, hdone]

theorem nodup_keys_outstanding (rs : List (Record κ τ)) : ((outstanding rs).map (·.1)).Nodup := by
  rw [List.Nodup, pairwise_map]
  apply List.Pairwise.sublist filter_sublist
  apply (pairwise_keepNew sameKey (intentsOf rs)).imp
  intro a b hab heq
  rw [sameKey, decide_eq_false_iff_not] at hab
  exact hab heq

/-- What is outstanding does not depend on the payloads. -/
theorem outstanding_map {σ : Type w} (g : τ → σ) (rs : List (Record κ τ)) :
    outstanding (rs.map (Record.map g)) = (outstanding rs).map fun e => (e.1, g e.2) := by
  have hintents : intentsOf (rs.map (Record.map g)) = (intentsOf rs).map fun e => (e.1, g e.2) := by
    rw [intentsOf, intentsOf, filterMap_map, map_filterMap]
    apply filterMap_congr
    intro r _
    cases r <;> rfl
  have hterminals : terminalsOf (rs.map (Record.map g)) = terminalsOf rs := by
    rw [terminalsOf, terminalsOf, filterMap_map]
    apply filterMap_congr
    intro r _
    cases r <;> rfl
  have hkeep : keepNew sameKey ((intentsOf rs).map fun e => (e.1, g e.2)) =
      (keepNew sameKey (intentsOf rs)).map fun e => (e.1, g e.2) :=
    keepNew_map fun a _ b _ => rfl
  rw [outstanding, outstanding, hintents, hterminals, hkeep, filter_map]
  rfl

/-! ### The fold -/

/-- What the fold over the records `rs` has arrived at. -/
structure Holds (rs : List (Record κ τ)) (o : OutstandingIntents κ τ) : Prop where
  pending : o.pending.map (fun e => (e.1, e.2.2)) = outstanding rs
  terminal : ∀ key, key ∈ o.terminal ↔ key ∈ terminalsOf rs
  ordered : o.pending.Pairwise fun a b => a.2.1 < b.2.1
  below : ∀ e ∈ o.pending, e.2.1 < o.nextOrder

theorem holds_new : Holds ([] : List (Record κ τ)) .new where
  pending := rfl
  terminal _ := Iff.rfl
  ordered := .nil
  below _ he := absurd he not_mem_nil

variable {o : OutstandingIntents κ τ}

theorem Holds.contains (h : Holds rs o) (key : κ) :
    Assoc.contains key o.pending = true ↔ key ∈ (outstanding rs).map (·.1) := by
  rw [Assoc.contains_iff, ← h.pending, map_map]
  rfl

theorem Holds.complete (h : Holds rs o) (key : κ) :
    Holds (rs ++ [.terminal key]) (o.complete key) where
  pending := by
    rw [outstanding_terminal, ← h.pending, filter_map]
    rfl
  terminal := by
    intro key'
    rw [terminalsOf_concat, mem_append, ← h.terminal key']
    simp only [OutstandingIntents.complete, Record.terminal?, Option.toList_some, mem_singleton]
    by_cases hk : key ∈ o.terminal
    · rw [if_pos hk]
      constructor
      · exact .inl
      · rintro (hmem | rfl)
        · exact hmem
        · exact hk
    · rw [if_neg hk, mem_append, mem_singleton]
  ordered := h.ordered.sublist filter_sublist
  below e he := h.below e (mem_of_mem_filter he)

theorem Holds.insert (h : Holds rs o) (key : κ) (payload : τ) :
    Holds (rs ++ [.intent key payload]) (o.insert key payload) := by
  have hterminal : ∀ key', key' ∈ o.terminal ↔ key' ∈ terminalsOf (rs ++ [.intent key payload]) := by
    intro key'
    rw [terminalsOf_concat, h.terminal key']
    simp only [Record.terminal?, Option.toList_none, append_nil]
  -- A repeated or completed intent changes nothing.
  have hkeep (hold : key ∈ terminalsOf rs ∨ key ∈ (outstanding rs).map (·.1)) :
      Holds (rs ++ [.intent key payload]) o := by
    refine ⟨?_, hterminal, h.ordered, h.below⟩
    rw [outstanding_intent, if_pos hold, append_nil]
    exact h.pending
  unfold OutstandingIntents.insert
  by_cases hdone : key ∈ terminalsOf rs
  · rw [if_pos ((h.terminal key).mpr hdone)]
    exact hkeep (.inl hdone)
  · rw [if_neg fun hc => hdone ((h.terminal key).mp hc)]
    by_cases hseen : key ∈ (outstanding rs).map (·.1)
    · rw [if_pos ((h.contains key).mpr hseen)]
      exact hkeep (.inr hseen)
    · rw [if_neg fun hc => hseen ((h.contains key).mp hc)]
      constructor
      · rw [outstanding_intent, if_neg (by tauto), map_append, h.pending]
        rfl
      · exact hterminal
      · rw [pairwise_append]
        refine ⟨h.ordered, pairwise_singleton _ _, ?_⟩
        intro a ha b hb
        rw [mem_singleton.mp hb]
        exact h.below a ha
      · intro e he
        rcases mem_append.mp he with he | he
        · exact Nat.lt_succ_of_lt (h.below e he)
        · rw [mem_singleton.mp he]
          exact Nat.lt_succ_self _

theorem Holds.accept (h : Holds rs o) (r : Record κ τ) : Holds (rs ++ [r]) (o.accept r) := by
  cases r with
  | intent key payload => exact h.insert key payload
  | terminal key => exact h.complete key
  | ignored =>
    refine ⟨h.pending.trans (outstanding_ignored rs).symm, ?_, h.ordered, h.below⟩
    intro key
    rw [terminalsOf_concat]
    simp only [Record.terminal?, Option.toList_none, append_nil]
    exact h.terminal key

theorem holds_foldl (rs : List (Record κ τ)) :
    Holds rs (rs.foldl OutstandingIntents.accept .new) := by
  induction rs using reverseRecOn with
  | nil => exact holds_new
  | append_singleton rs r ih =>
    rw [foldl_append]
    exact ih.accept r

/-- The intents come out in the order in which they first came. -/
theorem Holds.intoIntents (h : Holds rs o) : o.intoIntents = (outstanding rs).map (·.2) := by
  have hsorted : (o.pending.map (·.2)).Pairwise fun a b => a.1 ≤ b.1 := by
    rw [pairwise_map]
    exact h.ordered.imp fun hlt => hlt.le
  rw [OutstandingIntents.intoIntents, hsorted.insertionSort_eq, ← h.pending, map_map, map_map]
  rfl

/-- What is outstanding, where every intent knows its key. -/
theorem outstanding_eq_of_key {l : List τ} {key : τ → κ}
    (hintents : intentsOf rs = l.map fun q => (key q, q)) {same : τ → τ → Bool}
    (hsame : ∀ q ∈ l, ∀ q' ∈ l, key q = key q' ↔ same q q' = true) {done : τ → Bool}
    (hdone : ∀ q ∈ l, key q ∈ terminalsOf rs ↔ done q = true) :
    (outstanding rs).map (·.2) = (keepNew same l).filter fun q => !done q := by
  have hkeep : keepNew sameKey (l.map fun q => (key q, q)) =
      (keepNew same l).map fun q => (key q, q) := by
    apply keepNew_map
    intro q hq q' hq'
    rw [sameKey, Bool.eq_iff_iff, decide_eq_true_eq]
    exact hsame q hq q' hq'
  have hsnd : ((fun e : κ × τ => e.2) ∘ fun q : τ => (key q, q)) = id := rfl
  rw [outstanding, hintents, hkeep, filter_map, map_map, hsnd, map_id]
  apply filter_congr
  intro q hq
  rw [Function.comp_apply, Bool.eq_iff_iff, decide_eq_true_eq, hdone q (keepNew_subset hq),
    Bool.not_eq_true', Bool.not_eq_true]

end AgentMail.Journal
