import AgentMail.Refusal.Ledger
import Mathlib.Data.List.Perm.Basic
import Mathlib.Data.List.Nodup

/-!
# What every section of the lock preserves

The metric is the timestamp of the ledger, every call in progress is counted, no witness has two
entries, and writes are refused while anything is left to verify.
-/

namespace AgentMail.Refusal

open Base Lib List

/-- The first item that fulfils a condition, put in front of the others. -/
theorem perm_of_find? {α : Type} {p : α → Bool} {l : List α} {a : α} (h : l.find? p = some a) :
    l.Perm (a :: l.eraseP p) := by
  induction l with
  | nil => cases h
  | cons b l ih =>
    by_cases hb : p b = true
    · rw [List.find?_cons_of_pos hb, Option.some.injEq] at h
      rw [eraseP_cons_of_pos hb, h]
    · rw [List.find?_cons_of_neg hb] at h
      rw [eraseP_cons_of_neg hb]
      exact ((ih h).cons b).trans (List.Perm.swap a b _)

/-- Taking out the item with a key leaves the items with other keys. -/
theorem mem_eraseP_key {α κ : Type} [DecidableEq κ] {f : α → κ} {k : κ} {l : List α}
    (h : (l.map f).Nodup) {a : α} : a ∈ l.eraseP (fun b => decide (f b = k)) ↔ a ∈ l ∧ f a ≠ k := by
  induction l with
  | nil => simp
  | cons b l ih =>
    rw [map_cons, nodup_cons] at h
    by_cases hb : f b = k
    · rw [eraseP_cons_of_pos (by simpa using hb), mem_cons]
      constructor
      · intro ha
        refine ⟨Or.inr ha, fun hk => h.1 ?_⟩
        rw [hb, ← hk]
        exact mem_map_of_mem ha
      · rintro ⟨rfl | ha, hne⟩
        · exact absurd hb hne
        · exact ha
    · rw [eraseP_cons_of_neg (by simpa using hb), mem_cons, mem_cons, ih h.2]
      constructor
      · rintro (rfl | ⟨ha, hne⟩)
        · exact ⟨Or.inl rfl, hb⟩
        · exact ⟨Or.inr ha, hne⟩
      · rintro ⟨rfl | ha, hne⟩
        · exact Or.inl rfl
        · exact Or.inr ⟨ha, hne⟩

/-- The invariant of a world. -/
structure Sound (w : World) : Prop where
  metric : w.metric = w.ledger.timestamp
  pending : w.ledger.pendingRegistrations = w.calls.length
  counted : ∀ r ∈ w.calls, r.counted = true
  room : w.calls.length ≤ maxRegistrations
  witnesses : (w.ledger.entries.map (·.witness)).Nodup
  entries : ∀ e ∈ w.ledger.entries, e.sequence ≤ w.ledger.nextSequence
  tickets : ∀ t ∈ w.tickets, t.sequence ≤ w.ledger.nextSequence
  armed : w.ledger.entries ≠ [] ∨ w.ledger.unknownFailure = true → w.ledger.timestamp ≠ 0

theorem sound_init : Sound .init where
  metric := rfl
  pending := rfl
  counted := fun _ h => absurd h not_mem_nil
  room := Nat.zero_le _
  witnesses := nodup_nil
  entries := fun _ h => absurd h not_mem_nil
  tickets := fun _ h => absurd h not_mem_nil
  armed := fun h => h.elim (absurd rfl) (absurd · (by decide))

/-! ### The operations of the ledger -/

/-- What recording a failure does. -/
inductive Recorded (L : Ledger) (now : Nat) : Option Witness → Option Nat × Ledger → Prop
  /-- There is no witness, or no sequence for it, or no room. -/
  | unknown (witness : Option Witness) (next : Nat) (h : L.nextSequence ≤ next) :
    Recorded L now witness (none, { L with nextSequence := next, unknownFailure := true })
  | entry (witness : Witness) : Recorded L now (some witness) (some (L.nextSequence + 1), { L with
        nextSequence := L.nextSequence + 1
        entries := L.entries.eraseP (fun entry => decide (entry.witness = witness)) ++
          [⟨L.nextSequence + 1, witness, now⟩] })

theorem record_cases (L : Ledger) (witness : Option Witness) (now : Nat) :
    Recorded L now witness (L.record witness now) := by
  cases witness with
  | none => exact .unknown none L.nextSequence (Nat.le_refl _)
  | some witness =>
    unfold Ledger.record
    simp only
    split
    · exact .unknown _ L.nextSequence (Nat.le_refl _)
    · split
      · exact .unknown _ (L.nextSequence + 1) (Nat.le_succ _)
      · exact .entry witness

/-- What completing a ticket does to the ledger. -/
inductive Completed (L : Ledger) (ticket : Ticket) : Bool × Bool × Ledger → Prop
  | kept : Completed L ticket (false, false, L)
  | discharged (entry : Ticket) (hfound : L.entries.find? ticket.proves = some entry)
    (hpending : L.pendingRegistrations = 0) (lifted : Bool)
    (hlifted : lifted = true ↔ L.entries.eraseP ticket.proves = [] ∧ L.unknownFailure = false) :
    Completed L ticket (true, lifted, { L with entries := L.entries.eraseP ticket.proves })

theorem complete_cases (L : Ledger) (ticket : Ticket) : Completed L ticket (L.complete ticket) := by
  unfold Ledger.complete
  by_cases hany : L.entries.any ticket.proves = true
  · rw [if_neg (by rw [hany]; decide)]
    by_cases hpending : L.pendingRegistrations = 0
    · rw [if_neg (not_not.mpr hpending)]
      obtain ⟨entry, hfound⟩ := List.find?_isSome.mpr (any_eq_true.mp hany) |>
        Option.isSome_iff_exists.mp
      refine .discharged entry hfound hpending _ ?_
      simp only [hpending, decide_true, Bool.and_true, Bool.and_eq_true, List.isEmpty_iff,
        Bool.not_eq_true']
    · rw [if_pos hpending]
      exact .kept
  · rw [if_pos (by rw [Bool.eq_false_iff.mpr hany]; rfl)]
    exact .kept

/-- Postponing an entry changes when it is ready, and its place. -/
theorem postpone_perm (L : Ledger) (ticket : Ticket) (now : Nat) :
    ∃ l, L.postpone ticket now = { L with entries := l } ∧
      (l.map fun e => (e.sequence, e.witness)).Perm
        (L.entries.map fun e => (e.sequence, e.witness)) := by
  unfold Ledger.postpone
  cases hfind : L.entries.find? fun entry => decide (entry.sequence = ticket.sequence) with
  | none => exact ⟨L.entries, rfl, List.Perm.refl _⟩
  | some entry =>
    refine ⟨_, rfl, ?_⟩
    rw [map_append, map_singleton]
    have hperm := (perm_of_find? hfind).map fun e : Ticket => (e.sequence, e.witness)
    exact (perm_append_singleton _ _).trans hperm.symm

/-! ### Sections -/

theorem timestamp_armRefusal (w : World) (clock : Nat) :
    (w.armRefusal clock).ledger.timestamp ≠ 0 := by
  unfold World.armRefusal
  simp only
  omega

variable {w : World}

section

variable (h : Sound w)
include h

theorem sound_armRefusal (clock : Nat) : Sound (w.armRefusal clock) where
  metric := rfl
  pending := h.pending
  counted := h.counted
  room := h.room
  witnesses := h.witnesses
  entries := h.entries
  tickets := h.tickets
  armed := fun _ => timestamp_armRefusal w clock

/-- In a sound world the refusal is armed without doubt about the metric. -/
theorem unknown_armRefusal (clock : Nat) :
    (w.armRefusal clock).ledger.unknownFailure = w.ledger.unknownFailure := by
  unfold World.armRefusal
  simp only [h.metric, ne_eq, not_true_eq_false, decide_false, Bool.or_false]

/-- No call is left uncounted: there is no room for so many. -/
theorem begin_eq (call clock : Nat) :
    w.begin call clock = { w.armRefusal clock with
      ledger := { (w.armRefusal clock).ledger with
        pendingRegistrations := w.calls.length + 1 }
      calls := ⟨call, true⟩ :: w.calls } := by
  have hroom := h.room
  have hpending : (w.armRefusal clock).ledger.pendingRegistrations = w.calls.length := h.pending
  unfold maxRegistrations at hroom
  unfold World.begin
  simp only [hpending]
  rw [if_neg (by unfold u64Max; omega)]
  rfl

theorem sound_begin {call clock : Nat} (hroom : w.calls.length < maxRegistrations) :
    Sound (w.begin call clock) := by
  rw [begin_eq h]
  have harmed := sound_armRefusal h clock
  exact
    { metric := rfl
      pending := rfl
      counted := fun r hr => (mem_cons.mp hr).elim (fun heq => heq ▸ rfl) (h.counted r)
      room := hroom
      witnesses := h.witnesses
      entries := h.entries
      tickets := h.tickets
      armed := harmed.armed }

/-- The world of a call that is about to record. -/
def World.rearmed (w : World) (clock : Nat) : World :=
  if w.ledger.timestamp = 0 then w.armRefusal clock else w

theorem sound_rearmed (clock : Nat) :
    Sound (w.rearmed clock) ∧ (w.rearmed clock).ledger.timestamp ≠ 0 := by
  unfold World.rearmed
  by_cases hzero : w.ledger.timestamp = 0
  · rw [if_pos hzero]
    exact ⟨sound_armRefusal h clock, timestamp_armRefusal w clock⟩
  · rw [if_neg hzero]
    exact ⟨h, hzero⟩

theorem rearmed_fields (clock : Nat) :
    (w.rearmed clock).ledger.entries = w.ledger.entries ∧
      (w.rearmed clock).ledger.nextSequence = w.ledger.nextSequence ∧
      (w.rearmed clock).ledger.unknownFailure = w.ledger.unknownFailure ∧
      (w.rearmed clock).calls = w.calls ∧ (w.rearmed clock).tickets = w.tickets := by
  unfold World.rearmed
  by_cases hzero : w.ledger.timestamp = 0
  · rw [if_pos hzero]
    exact ⟨rfl, rfl, unknown_armRefusal h clock, rfl, rfl⟩
  · rw [if_neg hzero]
    exact ⟨rfl, rfl, rfl, rfl, rfl⟩

theorem sound_record (witness : Option Witness) (clock now : Nat) :
    Sound (w.record witness clock now).2 := by
  have harmed := sound_rearmed h clock
  have hrecord := record_cases (w.rearmed clock).ledger witness now
  have heq : (w.record witness clock now).2 = { w.rearmed clock with
    ledger := ((w.rearmed clock).ledger.record witness now).2 } := rfl
  rw [heq]
  generalize (w.rearmed clock) = v at harmed hrecord ⊢
  generalize hout : v.ledger.record witness now = out at hrecord ⊢
  cases hrecord with
  | unknown witness next hnext =>
    exact
      { metric := harmed.1.metric
        pending := harmed.1.pending
        counted := harmed.1.counted
        room := harmed.1.room
        witnesses := harmed.1.witnesses
        entries := fun e he => le_trans (harmed.1.entries e he) hnext
        tickets := fun t ht => le_trans (harmed.1.tickets t ht) hnext
        armed := fun _ => harmed.2 }
  | entry witness =>
    refine
      { metric := harmed.1.metric
        pending := harmed.1.pending
        counted := harmed.1.counted
        room := harmed.1.room
        witnesses := ?_
        entries := ?_
        tickets := fun t ht => Nat.le_succ_of_le (harmed.1.tickets t ht)
        armed := fun _ => harmed.2 }
    · rw [map_append, map_singleton, nodup_append]
      refine ⟨harmed.1.witnesses.sublist (eraseP_sublist.map _), nodup_singleton _, ?_⟩
      intro v' hv' u hu
      rw [mem_singleton.mp hu]
      rintro rfl
      obtain ⟨e, he, hew⟩ := mem_map.mp hv'
      exact ((mem_eraseP_key harmed.1.witnesses).mp he).2 hew
    · intro e he
      rw [mem_append, mem_singleton] at he
      rcases he with he | rfl
      · exact Nat.le_succ_of_le (harmed.1.entries e (mem_of_mem_eraseP he))
      · exact Nat.le_refl _

end

theorem mem_call? {call : Nat} {r : Registration} (h : w.call? call = some r) :
    r ∈ w.calls := mem_of_find?_eq_some h

theorem sound_release (h : Sound w) {r : Registration} (hr : r ∈ w.calls) :
    Sound (w.release r) := by
  have hlength : (w.calls.erase r).length = w.calls.length - 1 := length_erase_of_mem hr
  unfold World.release
  rw [if_pos (h.counted r hr)]
  exact
    { metric := h.metric
      pending := by rw [hlength, h.pending]
      counted := fun s hs => h.counted s (mem_of_mem_erase hs)
      room := le_trans (by rw [hlength]; omega) h.room
      witnesses := h.witnesses
      entries := h.entries
      tickets := h.tickets
      armed := h.armed }

theorem sound_abandon (h : Sound w) {r : Registration} (hr : r ∈ w.calls) (clock : Nat) :
    Sound (w.abandon r clock) := by
  have harmed := sound_armRefusal h clock
  have hunknown : Sound { w.armRefusal clock with
      ledger := { (w.armRefusal clock).ledger with unknownFailure := true } } :=
    { metric := rfl
      pending := h.pending
      counted := h.counted
      room := h.room
      witnesses := h.witnesses
      entries := h.entries
      tickets := h.tickets
      armed := fun _ => timestamp_armRefusal w clock }
  exact sound_release hunknown hr

theorem sound_complete (h : Sound w) (ticket : Ticket) : Sound (w.complete ticket).2 := by
  have hcases := complete_cases w.ledger ticket
  unfold World.complete
  rw [if_neg (not_not.mpr h.metric)]
  simp only
  generalize w.ledger.complete ticket = out at hcases ⊢
  cases hcases with
  | kept => exact h
  | discharged entry hfound hpending lifted hlifted =>
    have hwitnesses : ((w.ledger.entries.eraseP ticket.proves).map (·.witness)).Nodup :=
      h.witnesses.sublist (eraseP_sublist.map _)
    have hentries : ∀ e ∈ w.ledger.entries.eraseP ticket.proves,
        e.sequence ≤ w.ledger.nextSequence := fun e he => h.entries e (mem_of_mem_eraseP he)
    have hnonempty : w.ledger.entries ≠ [] := by
      intro hnil
      rw [hnil] at hfound
      cases hfound
    cases lifted with
    | true =>
      have hnothing := hlifted.mp rfl
      exact
        { metric := rfl
          pending := h.pending
          counted := h.counted
          room := h.room
          witnesses := hwitnesses
          entries := hentries
          tickets := h.tickets
          armed := by
            rintro (hne | hunknown)
            · exact absurd hnothing.1 hne
            · exact absurd (hunknown.symm.trans hnothing.2) Bool.noConfusion }
    | false =>
      exact
        { metric := h.metric
          pending := h.pending
          counted := h.counted
          room := h.room
          witnesses := hwitnesses
          entries := hentries
          tickets := h.tickets
          armed := fun _ => h.armed (Or.inl hnonempty) }

theorem sound_postpone (h : Sound w) (ticket : Ticket) (now : Nat) :
    Sound { w with ledger := w.ledger.postpone ticket now } := by
  obtain ⟨l, heq, hperm⟩ := postpone_perm w.ledger ticket now
  have hwitnesses : (l.map (·.witness)).Perm (w.ledger.entries.map (·.witness)) := by
    have hsnd := hperm.map Prod.snd
    rwa [map_map, map_map] at hsnd
  have hsequences : (l.map (·.sequence)).Perm (w.ledger.entries.map (·.sequence)) := by
    have hfst := hperm.map Prod.fst
    rwa [map_map, map_map] at hfst
  rw [heq]
  exact
    { metric := h.metric
      pending := h.pending
      counted := h.counted
      room := h.room
      witnesses := hwitnesses.nodup_iff.mpr h.witnesses
      entries := fun e he => by
        obtain ⟨f, hf, hsame⟩ := mem_map.mp (hsequences.mem_iff.mp (mem_map_of_mem he))
        rw [← hsame]
        exact h.entries f hf
      tickets := h.tickets
      armed := by
        rintro (hne | hunknown)
        · apply h.armed (Or.inl _)
          intro hnil
          rw [hnil, map_nil] at hperm
          exact hne (map_eq_nil_iff.mp hperm.eq_nil)
        · exact h.armed (Or.inr hunknown) }

theorem sound_operatorClear (h : Sound w) :
    Sound { w with ledger := w.ledger.operatorClear, metric := 0 } where
  metric := rfl
  pending := h.pending
  counted := h.counted
  room := h.room
  witnesses := nodup_nil
  entries := fun _ he => absurd he not_mem_nil
  tickets := h.tickets
  armed := fun hor => hor.elim (absurd rfl) fun h => nomatch (h : false = true)

theorem sound_ticketFor (h : Sound w) (witness : Witness) :
    Sound { w with tickets := (w.ticketFor witness).toList ++ w.tickets } where
  metric := h.metric
  pending := h.pending
  counted := h.counted
  room := h.room
  witnesses := h.witnesses
  entries := h.entries
  tickets := fun t ht => by
    rw [mem_append, Option.mem_toList] at ht
    rcases ht with ht | ht
    · unfold World.ticketFor at ht
      by_cases hzero : w.metric = 0
      · rw [if_pos hzero] at ht
        cases ht
      · rw [if_neg hzero] at ht
        exact h.entries t (mem_of_find?_eq_some ht)
    · exact h.tickets t ht
  armed := h.armed

/-! ### Steps -/

theorem sound_step (w : World) (e : Event) (r : Response) (w' : World) (h : Sound w)
    (hstep : step w e = some (r, w')) : Sound w' := by
  cases e with
  | begin call clock =>
    simp only [step, Option.ite_none_right_eq_some, Option.some.injEq, Prod.mk.injEq] at hstep
    obtain ⟨⟨-, hroom⟩, -, rfl⟩ := hstep
    exact sound_begin h hroom
  | record call witness clock now =>
    simp only [step, Option.map_eq_some_iff, Prod.mk.injEq] at hstep
    obtain ⟨-, -, -, rfl⟩ := hstep
    exact sound_record h witness clock now
  | finish call =>
    simp only [step, Option.map_eq_some_iff, Prod.mk.injEq] at hstep
    obtain ⟨registration, hcall, -, rfl⟩ := hstep
    exact sound_release h (mem_call? hcall)
  | abandon call clock =>
    simp only [step, Option.map_eq_some_iff, Prod.mk.injEq] at hstep
    obtain ⟨registration, hcall, -, rfl⟩ := hstep
    exact sound_abandon h (mem_call? hcall) clock
  | ticketFor witness =>
    simp only [step, Option.some.injEq, Prod.mk.injEq] at hstep
    obtain ⟨-, rfl⟩ := hstep
    exact sound_ticketFor h witness
  | complete ticket =>
    simp only [step, Option.ite_none_right_eq_some, Option.some.injEq, Prod.mk.injEq] at hstep
    obtain ⟨-, -, rfl⟩ := hstep
    exact sound_complete h ticket
  | postpone ticket now =>
    simp only [step, Option.some.injEq, Prod.mk.injEq] at hstep
    obtain ⟨-, rfl⟩ := hstep
    exact sound_postpone h ticket now
  | operatorClear =>
    simp only [step, Option.some.injEq, Prod.mk.injEq] at hstep
    obtain ⟨-, rfl⟩ := hstep
    exact sound_operatorClear h

end AgentMail.Refusal
