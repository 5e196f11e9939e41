import AgentMail.Refusal.Sound

/-!
# When the refusal is lifted

A run of lock sections, in any order that the calls allow, and what its history says about the
ledger: every failure since the last clear by an operator is an entry, unknown, or discharged under
the sequence of its latest record.
-/

namespace AgentMail.Refusal

open Base Lib List

/-- A section as it happened. -/
abbrev Happened := Entry World Event Response

/-! ### Histories -/

def isClear (x : Happened) : Bool := decide (x.event = .operatorClear)

/-- What happened since the last clear by an operator. -/
def sinceClear (past : List Happened) : List Happened := past.rtakeWhile fun x => !isClear x

/-- The record of a failure with a witness, and its sequence, if it has one. -/
def recordOf (witness : Witness) (x : Happened) : Option (Option Nat) :=
  match x.event, x.response with
  | .record _ (some v) _ _, .recorded sequence => if v = witness then some sequence else none
  | _, _ => none

/-- The latest record of a witness. -/
def latestRecord (witness : Witness) (past : List Happened) : Option (Option Nat) :=
  past.reverse.findSome? (recordOf witness)

/-- A failure that the ledger has no entry for, or a registration that was abandoned. -/
def isUnknown (x : Happened) : Bool :=
  match x.event with
  | .record _ _ _ _ => decide (x.response = .recorded none)
  | .abandon _ _ => true
  | _ => false

/-- A ticket of a witness, with a sequence, took out the entry. -/
def Discharges (x : Happened) (witness : Witness) (sequence : Nat) : Prop :=
  ∃ ticket, x.event = .complete ticket ∧ x.response = .completed true ∧
    ticket.witness = witness ∧ ticket.sequence = sequence

theorem sinceClear_clear (past : List Happened) {x : Happened} (h : isClear x = true) :
    sinceClear (past ++ [x]) = [] := by
  unfold sinceClear
  rw [rtakeWhile_concat, h]
  rfl

theorem sinceClear_append (past : List Happened) {x : Happened} (h : isClear x = false) :
    sinceClear (past ++ [x]) = sinceClear past ++ [x] := by
  unfold sinceClear
  rw [rtakeWhile_concat, h]
  rfl

theorem latestRecord_append (witness : Witness) (past : List Happened) (x : Happened) :
    latestRecord witness (past ++ [x]) = (recordOf witness x).or (latestRecord witness past) := by
  unfold latestRecord
  rw [reverse_append, reverse_singleton, singleton_append, List.findSome?_cons]
  cases recordOf witness x <;> rfl

variable {past : List Happened}

/-- A witness whose latest record has no sequence is an unknown failure. -/
theorem exists_unknown {witness : Witness} (h : latestRecord witness past = some none) :
    ∃ x ∈ past, isUnknown x = true := by
  obtain ⟨x, hx, hrecord⟩ := exists_of_findSome?_eq_some h
  refine ⟨x, mem_reverse.mp hx, ?_⟩
  unfold recordOf at hrecord
  unfold isUnknown
  split at hrecord
  · rename_i hevent hresponse
    simp only [Option.ite_none_right_eq_some, Option.some.injEq] at hrecord
    simp only [hevent, hresponse, hrecord.2, decide_true]
  · cases hrecord

/-! ### The history and the ledger -/

/-- An entry of a witness with a sequence. -/
def Owed (L : Ledger) (witness : Witness) (sequence : Nat) : Prop :=
  ∃ e ∈ L.entries, e.witness = witness ∧ e.sequence = sequence

/-- The ledger accounts for what happened since the last clear. -/
structure Accounted (past : List Happened) (w : World) : Prop where
  unknown : w.ledger.unknownFailure = false → ∀ x ∈ sinceClear past, isUnknown x = false
  owed : ∀ witness sequence, latestRecord witness (sinceClear past) = some (some sequence) →
    Owed w.ledger witness sequence ∨ ∃ x ∈ sinceClear past, Discharges x witness sequence

theorem accounted_init : Accounted [] .init where
  unknown := fun _ _ h => absurd h not_mem_nil
  owed := fun _ _ h => nomatch (h : (none : Option (Option Nat)) = some _)

variable {w : World}

/-- A section that records nothing keeps the account, if it takes out only what it discharges. -/
theorem accounted_append {w' : World} {x : Happened}
    (h : Accounted past w) (hclear : isClear x = false)
    (hrecord : ∀ witness, recordOf witness x = none) (hunknown : w'.ledger.unknownFailure = false →
      w.ledger.unknownFailure = false ∧ isUnknown x = false)
    (howed : ∀ witness sequence, Owed w.ledger witness sequence →
      Owed w'.ledger witness sequence ∨ Discharges x witness sequence) :
    Accounted (past ++ [x]) w' where
  unknown := fun hfalse => by
    obtain ⟨hbefore, hx⟩ := hunknown hfalse
    rw [sinceClear_append past hclear, forall_mem_append, forall_mem_singleton]
    exact ⟨h.unknown hbefore, hx⟩
  owed := fun witness sequence hlatest => by
    rw [sinceClear_append past hclear] at hlatest ⊢
    rw [latestRecord_append, hrecord, Option.none_or] at hlatest
    rcases h.owed witness sequence hlatest with hentry | ⟨y, hy, hdischarged⟩
    · rcases howed witness sequence hentry with hentry | hdischarged
      · exact Or.inl hentry
      · exact Or.inr ⟨x, mem_append_right _ (mem_singleton_self x), hdischarged⟩
    · exact Or.inr ⟨y, mem_append_left _ hy, hdischarged⟩

theorem accounted_record (h : Accounted past w) (hw : Sound w) (call : Nat)
    (witness : Option Witness) (clock now : Nat) :
    Accounted (past ++ [⟨w, .record call witness clock now,
      .recorded (w.record witness clock now).1, (w.record witness clock now).2⟩])
      (w.record witness clock now).2 := by
  obtain ⟨hentries, hnext, hunknown, -, -⟩ := rearmed_fields hw clock
  have hwitnesses := (sound_rearmed hw clock).1.witnesses
  have hcases := record_cases (w.rearmed clock).ledger witness now
  have hfst : (w.record witness clock now).1 =
      ((w.rearmed clock).ledger.record witness now).1 := rfl
  have hsnd : (w.record witness clock now).2.ledger =
      ((w.rearmed clock).ledger.record witness now).2 := rfl
  generalize hx : (⟨w, .record call witness clock now, .recorded (w.record witness clock now).1,
    (w.record witness clock now).2⟩ : Happened) = x
  have hclear : isClear x = false := by
    rw [← hx]
    rfl
  generalize ((w.rearmed clock).ledger.record witness now) = out at hcases hfst hsnd
  cases hcases with
  | unknown witness next hnext' =>
    refine
      { unknown := fun hfalse => by
          rw [hsnd] at hfalse
          cases hfalse
        owed := fun v sequence hlatest => ?_ }
    rw [sinceClear_append past hclear] at hlatest ⊢
    rw [latestRecord_append] at hlatest
    have hnone : recordOf v x = none ∨ recordOf v x = some none := by
      rw [← hx]
      unfold recordOf
      rw [hfst]
      cases witness with
      | none => exact Or.inl rfl
      | some u =>
        simp only
        by_cases huv : u = v
        · exact Or.inr (if_pos huv)
        · exact Or.inl (if_neg huv)
    rcases hnone with hnone | hnone
    · rw [hnone, Option.none_or] at hlatest
      rcases h.owed v sequence hlatest with ⟨e, he, hsame⟩ | ⟨y, hy, hdischarged⟩
      · refine Or.inl ⟨e, ?_, hsame⟩
        rw [hsnd]
        exact hentries ▸ he
      · exact Or.inr ⟨y, mem_append_left _ hy, hdischarged⟩
    · rw [hnone, Option.some_or] at hlatest
      cases hlatest
  | entry witness =>
    have hrecord : ∀ v, recordOf v x =
        if witness = v then some (some ((w.rearmed clock).ledger.nextSequence + 1)) else none := by
      intro v
      rw [← hx]
      unfold recordOf
      rw [hfst]
    refine
      { unknown := fun hfalse => ?_
        owed := fun v sequence hlatest => ?_ }
    · rw [hsnd] at hfalse
      rw [sinceClear_append past hclear, forall_mem_append, forall_mem_singleton]
      refine ⟨h.unknown (hunknown ▸ hfalse), ?_⟩
      rw [← hx]
      unfold isUnknown
      simp only [hfst, Response.recorded.injEq, reduceCtorEq, decide_false]
    · rw [sinceClear_append past hclear] at hlatest ⊢
      rw [latestRecord_append, hrecord] at hlatest
      by_cases hsame : witness = v
      · rw [if_pos hsame, Option.some_or, Option.some.injEq, Option.some.injEq] at hlatest
        refine Or.inl ⟨⟨(w.rearmed clock).ledger.nextSequence + 1, witness, now⟩, ?_, hsame,
          hlatest⟩
        rw [hsnd]
        exact mem_append_right _ (mem_singleton_self _)
      · rw [if_neg hsame, Option.none_or] at hlatest
        rcases h.owed v sequence hlatest with ⟨e, he, hev, hes⟩ | ⟨y, hy, hdischarged⟩
        · refine Or.inl ⟨e, ?_, hev, hes⟩
          rw [hsnd]
          refine mem_append_left _ ((mem_eraseP_key hwitnesses).mpr ⟨hentries ▸ he, ?_⟩)
          rw [hev]
          exact fun heq => hsame heq.symm
        · exact Or.inr ⟨y, mem_append_left _ hy, hdischarged⟩

theorem accounted_complete (h : Accounted past w) (hw : Sound w) (ticket : Ticket) :
    Accounted (past ++ [⟨w, .complete ticket, .completed (w.complete ticket).1,
      (w.complete ticket).2⟩]) (w.complete ticket).2 := by
  have hcases := complete_cases w.ledger ticket
  have hresult : ∀ out, w.ledger.complete ticket = out → (w.complete ticket).1 = out.1 ∧
        (w.complete ticket).2.ledger.entries = out.2.2.entries ∧
        (w.complete ticket).2.ledger.unknownFailure = out.2.2.unknownFailure := by
    rintro out rfl
    unfold World.complete
    rw [if_neg (not_not.mpr hw.metric)]
    simp only
    split <;> exact ⟨rfl, rfl, rfl⟩
  generalize w.ledger.complete ticket = out at hcases hresult
  obtain ⟨hfst, hentries, hunknown⟩ := hresult out rfl
  refine accounted_append h rfl (fun _ => rfl) (fun hfalse => ⟨?_, rfl⟩) ?_
  · rw [hunknown] at hfalse
    cases hcases <;> exact hfalse
  · rintro witness sequence ⟨e, he, hwitness, hsequence⟩
    cases hcases with
    | kept =>
      refine Or.inl ⟨e, ?_, hwitness, hsequence⟩
      rw [hentries]
      exact he
    | discharged entry hfound hpending lifted hlifted =>
      by_cases hproves : ticket.proves e = true
      · simp only [Ticket.proves, Bool.and_eq_true, decide_eq_true_eq] at hproves
        exact Or.inr ⟨ticket, rfl, congrArg Response.completed hfst,
          hproves.2.symm.trans hwitness, hproves.1.symm.trans hsequence⟩
      · refine Or.inl ⟨e, ?_, hwitness, hsequence⟩
        rw [hentries]
        exact (mem_eraseP_of_neg hproves).mpr he

theorem accounted_step (past : List Happened) (w : World) (e : Event) (r : Response) (w' : World)
    (hw : Sound w) (h : Accounted past w) (hstep : step w e = some (r, w')) :
    Accounted (past ++ [⟨w, e, r, w'⟩]) w' := by
  cases e with
  | begin call clock =>
    simp only [step, Option.ite_none_right_eq_some, Option.some.injEq, Prod.mk.injEq] at hstep
    obtain ⟨-, rfl, rfl⟩ := hstep
    rw [begin_eq hw]
    refine accounted_append h rfl (fun _ => rfl) (fun hfalse => ⟨?_, rfl⟩) fun _ _ => Or.inl
    rw [← unknown_armRefusal hw clock]
    exact hfalse
  | record call witness clock now =>
    simp only [step, Option.map_eq_some_iff, Prod.mk.injEq] at hstep
    obtain ⟨-, -, rfl, rfl⟩ := hstep
    exact accounted_record h hw call witness clock now
  | finish call =>
    simp only [step, Option.map_eq_some_iff, Prod.mk.injEq] at hstep
    obtain ⟨registration, -, rfl, rfl⟩ := hstep
    have hsame : (w.release registration).ledger.entries = w.ledger.entries ∧
        (w.release registration).ledger.unknownFailure = w.ledger.unknownFailure := by
      unfold World.release
      cases registration.counted <;> exact ⟨rfl, rfl⟩
    refine accounted_append h rfl (fun _ => rfl) (fun hfalse => ⟨hsame.2 ▸ hfalse, rfl⟩) ?_
    rintro v s ⟨e, he, hes⟩
    exact Or.inl ⟨e, hsame.1 ▸ he, hes⟩
  | abandon call clock =>
    simp only [step, Option.map_eq_some_iff, Prod.mk.injEq] at hstep
    obtain ⟨registration, -, rfl, rfl⟩ := hstep
    have hsame : (w.abandon registration clock).ledger.entries = w.ledger.entries ∧
        (w.abandon registration clock).ledger.unknownFailure = true := by
      unfold World.abandon World.release
      cases registration.counted <;> exact ⟨rfl, rfl⟩
    refine accounted_append h rfl (fun _ => rfl) (fun hfalse => ?_) ?_
    · rw [hsame.2] at hfalse
      cases hfalse
    · rintro v s ⟨e, he, hes⟩
      exact Or.inl ⟨e, hsame.1 ▸ he, hes⟩
  | ticketFor witness =>
    simp only [step, Option.some.injEq, Prod.mk.injEq] at hstep
    obtain ⟨rfl, rfl⟩ := hstep
    exact accounted_append h rfl (fun _ => rfl) (fun hfalse => ⟨hfalse, rfl⟩) fun _ _ => Or.inl
  | complete ticket =>
    simp only [step, Option.ite_none_right_eq_some, Option.some.injEq, Prod.mk.injEq] at hstep
    obtain ⟨-, rfl, rfl⟩ := hstep
    exact accounted_complete h hw ticket
  | postpone ticket now =>
    simp only [step, Option.some.injEq, Prod.mk.injEq] at hstep
    obtain ⟨rfl, rfl⟩ := hstep
    obtain ⟨l, heq, hperm⟩ := postpone_perm w.ledger ticket now
    rw [heq]
    refine accounted_append h rfl (fun _ => rfl) (fun hfalse => ⟨hfalse, rfl⟩) ?_
    rintro v s ⟨e, he, rfl, rfl⟩
    have hmem : (e.sequence, e.witness) ∈ l.map fun e => (e.sequence, e.witness) :=
      hperm.mem_iff.mpr (mem_map_of_mem he)
    obtain ⟨f, hf, hsame⟩ := mem_map.mp hmem
    rw [Prod.mk.injEq] at hsame
    exact Or.inl ⟨f, hf, hsame.2, hsame.1⟩
  | operatorClear =>
    have hclear : isClear ⟨w, .operatorClear, r, w'⟩ = true := rfl
    exact
      { unknown := fun _ x hx => by
          rw [sinceClear_clear past hclear] at hx
          cases hx
        owed := fun v s hlatest => by
          rw [sinceClear_clear past hclear] at hlatest
          cases hlatest }

/-! ### Single sections -/

/-- A ticket that lifts the refusal proves every entry, and nothing else is left. -/
theorem complete_lifts (hw : Sound w) {ticket : Ticket} (hbefore : w.metric ≠ 0)
    (hafter : (w.complete ticket).2.metric = 0) :
    (w.complete ticket).1 = true ∧ w.ledger.unknownFailure = false ∧ w.calls = [] ∧
      ∀ e ∈ w.ledger.entries, ticket.proves e = true := by
  have hcases := complete_cases w.ledger ticket
  unfold World.complete at hafter ⊢
  rw [if_neg (not_not.mpr hw.metric)] at hafter ⊢
  simp only at hafter ⊢
  generalize w.ledger.complete ticket = out at hcases hafter
  cases hcases with
  | kept => exact absurd hafter hbefore
  | discharged entry hfound hpending lifted hlifted =>
    cases lifted with
    | false => exact absurd hafter hbefore
    | true =>
      have hnothing := hlifted.mp rfl
      refine ⟨rfl, hnothing.2, length_eq_zero_iff.mp (hw.pending.symm.trans hpending), ?_⟩
      intro e he
      by_contra hproves
      have hleft := (mem_eraseP_of_neg hproves).mpr he
      rw [hnothing.1] at hleft
      cases hleft

/-- Completing a ticket keeps the entries with other sequences. -/
theorem complete_keeps {ticket : Ticket} {witness : Witness} {sequence : Nat}
    (hne : sequence ≠ ticket.sequence) (h : Owed w.ledger witness sequence) :
    Owed (w.complete ticket).2.ledger witness sequence := by
  have hcases := complete_cases w.ledger ticket
  obtain ⟨e, he, hwitness, hsequence⟩ := h
  refine ⟨e, ?_, hwitness, hsequence⟩
  have hkept : e ∈ (w.ledger.complete ticket).2.2.entries := by
    generalize w.ledger.complete ticket = out at hcases
    cases hcases with
    | kept => exact he
    | discharged entry hfound hpending lifted hlifted =>
      refine (mem_eraseP_of_neg ?_).mpr he
      intro hproves
      simp only [Ticket.proves, Bool.and_eq_true, decide_eq_true_eq] at hproves
      exact hne (hsequence.symm.trans hproves.1)
  unfold World.complete
  split
  · exact he
  · simp only
    split <;> exact hkept

/-- A recorded failure gets the next sequence. -/
theorem record_sequence (hw : Sound w) {witness : Option Witness} {clock now sequence : Nat}
    (h : (w.record witness clock now).1 = some sequence) :
    sequence = w.ledger.nextSequence + 1 := by
  have hcases := record_cases (w.rearmed clock).ledger witness now
  have hfst : (w.record witness clock now).1 =
      ((w.rearmed clock).ledger.record witness now).1 := rfl
  rw [hfst] at h
  rw [← (rearmed_fields hw clock).2.1]
  generalize ((w.rearmed clock).ledger.record witness now) = out at hcases h
  cases hcases with
  | unknown => cases h
  | entry => exact (Option.some.inj h).symm

theorem call_of_end {w' : World} {r : Response} {e : Event} {call : Nat}
    (he : e = .finish call ∨ ∃ clock, e = .abandon call clock) (hstep : step w e = some (r, w')) :
    w.calls ≠ [] := by
  have hcall : ∃ registration, w.call? call = some registration := by
    rcases he with rfl | ⟨clock, rfl⟩
    · simp only [step, Option.map_eq_some_iff] at hstep
      exact ⟨_, hstep.choose_spec.1⟩
    · simp only [step, Option.map_eq_some_iff] at hstep
      exact ⟨_, hstep.choose_spec.1⟩
  obtain ⟨registration, hcall⟩ := hcall
  exact ne_nil_of_mem (mem_call? hcall)

/-! ### Laws -/

/-- What holds of every run. -/
structure RefusalLaws (run : List Happened) : Prop where
  /-- The refusal is lifted only when every failure since the last clear was discharged under the
  sequence of its latest record, nothing is unknown, and nobody collects. -/
  lifted : ∀ front x back ticket, run = front ++ x :: back → x.event = .complete ticket →
    x.before.metric ≠ 0 → x.after.metric = 0 →
    (∀ witness, latestRecord witness (sinceClear front) ≠ none →
      ∃ sequence, latestRecord witness (sinceClear front) = some (some sequence) ∧
        ∃ y ∈ sinceClear front ++ [x], Discharges y witness sequence) ∧
    (∀ y ∈ sinceClear front, isUnknown y = false) ∧ x.before.calls = []
  /-- A ticket that was taken before a failure was recorded, be it again or after a clear, does not
  discharge that record. -/
  newer : ∀ front y mid x back witness sequence ticket,
    run = front ++ y :: (mid ++ x :: back) → recordOf witness y = some (some sequence) →
    ticket ∈ y.before.tickets → x.event = .complete ticket → ¬ Discharges x witness sequence ∧
      (Owed x.before.ledger witness sequence → Owed x.after.ledger witness sequence)
  /-- The registrations are counted, and the count is never taken below zero. -/
  pending : ∀ x ∈ run,
    x.before.ledger.pendingRegistrations = (x.before.calls.filter (·.counted)).length ∧
    x.after.ledger.pendingRegistrations = (x.after.calls.filter (·.counted)).length ∧
    ∀ call, (x.event = .finish call ∨ ∃ clock, x.event = .abandon call clock) →
      0 < x.before.ledger.pendingRegistrations
  /-- While a failure is unknown or not discharged, writes are refused, calls in progress or not. -/
  refused : ∀ front x back, run = front ++ x :: back →
    (∃ y ∈ sinceClear (front ++ [x]), isUnknown y = true) ∨ (∃ witness sequence,
        latestRecord witness (sinceClear (front ++ [x])) = some (some sequence) ∧
        ∀ y ∈ sinceClear (front ++ [x]), ¬ Discharges y witness sequence) → x.after.metric ≠ 0

/-- Any interleaving of the sections keeps the laws. -/
theorem refusalLaws (events : List Event) : RefusalLaws (trace step .init events) := by
  have hmem := forall_mem_trace sound_step sound_init events
  have hpast : ∀ {front back : List Happened} {x : Happened},
      trace step .init events = front ++ x :: back → Accounted front x.before := by
    intro front back x hrun
    exact history sound_step accounted_step sound_init accounted_init hrun
  have hat : ∀ {front back : List Happened} {x : Happened},
      trace step .init events = front ++ x :: back → Sound x.before ∧
        step x.before x.event = some (x.response, x.after) ∧ Sound x.after := by
    intro front back x hrun
    apply hmem
    rw [hrun]
    exact mem_append_right _ mem_cons_self
  have hfilter : ∀ {w : World}, Sound w →
      w.ledger.pendingRegistrations = (w.calls.filter (·.counted)).length := by
    intro w hw
    rw [filter_eq_self.mpr hw.counted, hw.pending]
  refine
    { lifted := ?lifted
      newer := ?newer
      pending := ?pending
      refused := ?refused }
  case lifted =>
    intro front x back ticket hrun hevent hbefore hafter
    obtain ⟨hsound, hstep, -⟩ := hat hrun
    have haccount := hpast hrun
    rw [hevent] at hstep
    simp only [step, Option.ite_none_right_eq_some, Option.some.injEq, Prod.mk.injEq] at hstep
    obtain ⟨-, hresponse, hworld⟩ := hstep
    rw [← hworld] at hafter
    obtain ⟨hdone, hknown, hcalls, hproves⟩ := complete_lifts hsound hbefore hafter
    have hunknown := haccount.unknown hknown
    refine ⟨fun witness hlatest => ?_, hunknown, hcalls⟩
    obtain ⟨record, hrecord⟩ := Option.ne_none_iff_exists'.mp hlatest
    cases record with
    | none =>
      obtain ⟨y, hy, hyes⟩ := exists_unknown hrecord
      exact absurd (hyes.symm.trans (hunknown y hy)) Bool.noConfusion
    | some sequence =>
      refine ⟨sequence, hrecord, ?_⟩
      rcases haccount.owed witness sequence hrecord with ⟨e, he, hwitness, hsequence⟩ | ⟨y, hy, hd⟩
      · have hproof := hproves e he
        simp only [Ticket.proves, Bool.and_eq_true, decide_eq_true_eq] at hproof
        refine ⟨x, mem_append_right _ (mem_singleton_self x), ticket, hevent, ?_,
          hproof.2.symm.trans hwitness, hproof.1.symm.trans hsequence⟩
        rw [← hresponse, hdone]
      · exact ⟨y, mem_append_left _ hy, hd⟩
  case newer =>
    intro front y mid x back witness sequence ticket hrun hrecord hticket hevent
    obtain ⟨hsound, hystep, -⟩ := hat hrun
    have hxrun : trace step .init events = (front ++ y :: mid) ++ x :: back := by
      rw [hrun, append_assoc, cons_append]
    obtain ⟨-, hxstep, -⟩ := hat hxrun
    have hnewer : ticket.sequence < sequence := by
      have hold := hsound.tickets ticket hticket
      unfold recordOf at hrecord
      split at hrecord
      · rename_i call v clock now s hyevent hyresponse
        simp only [Option.ite_none_right_eq_some, Option.some.injEq] at hrecord
        rw [hyevent, hyresponse] at hystep
        simp only [step, Option.map_eq_some_iff, Prod.mk.injEq, Response.recorded.injEq] at hystep
        obtain ⟨-, -, hs, -⟩ := hystep
        have hnext := record_sequence hsound (hs.trans hrecord.2)
        omega
      · cases hrecord
    rw [hevent] at hxstep
    simp only [step, Option.ite_none_right_eq_some, Option.some.injEq, Prod.mk.injEq] at hxstep
    obtain ⟨-, -, hworld⟩ := hxstep
    constructor
    · rintro ⟨other, hother, -, -, hsequence⟩
      rw [hevent, Event.complete.injEq] at hother
      rw [← hother] at hsequence
      omega
    · intro howed
      rw [← hworld]
      exact complete_keeps (by omega) howed
  case pending =>
    intro x hx
    obtain ⟨hbefore, hstep, hafter⟩ := hmem x hx
    refine ⟨hfilter hbefore, hfilter hafter, fun call hend => ?_⟩
    have hcalls := call_of_end hend hstep
    rw [hbefore.pending]
    exact length_pos_iff.mpr hcalls
  case refused =>
    intro front x back hrun hfailure hzero
    obtain ⟨hbefore, hstep, hafter⟩ := hat hrun
    have haccount := accounted_step front x.before x.event x.response x.after hbefore (hpast hrun)
      hstep
    have hnothing : ¬ (x.after.ledger.entries ≠ [] ∨ x.after.ledger.unknownFailure = true) :=
      fun h => hafter.armed h (hafter.metric.symm.trans hzero)
    rw [not_or, not_not, Bool.not_eq_true] at hnothing
    rcases hfailure with ⟨y, hy, hyes⟩ | ⟨witness, sequence, hlatest, hopen⟩
    · exact absurd (hyes.symm.trans (haccount.unknown hnothing.2 y hy)) Bool.noConfusion
    · rcases haccount.owed witness sequence hlatest with ⟨e, he, -⟩ | ⟨y, hy, hd⟩
      · rw [hnothing.1] at he
        cases he
      · exact hopen y hy hd

end AgentMail.Refusal
