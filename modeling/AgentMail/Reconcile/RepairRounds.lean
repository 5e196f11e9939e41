import AgentMail.Reconcile.RepairPass

/-!
# Runs of archive repair

Passes follow one another on one source. A round of the history passes every message that was there
all the time: it was attempted, or waits on the retry lane, or its last conflict is cooling down.
-/

namespace AgentMail.Reconcile

open Base Lib ReconcileCursor List

variable {source : Text} {cursor cursor' : ReconcileCursor} {pass : Pass} {id : Int}

/-! ### Rounds of the history -/

/-- The history lane has not come past the id. -/
def Ahead (cursor : ReconcileCursor) (id : Int) : Prop := cursor.Precedes id false

theorem mem_range_of_ahead (hahead : Ahead (pass.current cursor) id)
    (heligible : pass.Eligible cursor id) :
    id ∈ historyRange pass.source.messages (pass.current cursor) (pass.cutoff cursor) := by
  obtain ⟨row, hrow, rfl, hcutoff⟩ := heligible
  rw [mem_historyRange]
  refine ⟨row, hrow, rfl, ?_, hcutoff⟩
  cases hceiling : (pass.current cursor).backfillCeiling with
  | none => exact Messages.le_maxId hrow
  | some ceiling => exact hahead ceiling hceiling

/-- A pass that selects passes the id, or leaves the lane before it. -/
theorem passed_or_ahead {response : Response} (h : Held source cursor)
    (hsource : pass.source.identity = source) (hselects : pass.selects = true)
    (hstep : reconcileMessageBatchInner pass cursor = (response, cursor'))
    (hahead : Ahead (pass.current cursor) id) (heligible : pass.Eligible cursor id) :
    (id, false) ∈ response.passed ∨ Ahead cursor' id := by
  obtain ⟨result, hinner⟩ := inner_of_selects hselects cursor
  rw [hinner] at hstep
  cases hstep
  obtain ⟨hended, hscan, -⟩ := ended_ending h hsource
  have hrange := mem_range_of_ahead hahead heligible
  rcases mem_historyPage_or_lt hrange with hshown | hbelow
  · exact hended.history id hshown
  · right
    intro ceiling hceiling
    change (pass.ending cursor).1.cursor.backfillCeiling = some ceiling at hceiling
    rcases hended.ceiling with hbase | ⟨shown, -, hshown, hstepped⟩
    · have hnonempty : (pass.history cursor).isEmpty = false := by
        rw [isEmpty_eq_false_iff]
        intro hempty
        rw [historyRange_of_empty hempty] at hrange
        cases hrange
      rw [hbase, hscan.backfillCeiling, Pass.wrapped, hnonempty] at hceiling
      exact hahead ceiling hceiling
    · have hlt : id < shown := hbelow shown hshown
      rw [saturatingSub_of_mem (mem_historyRange_of_mem hshown)] at hstepped
      rw [hstepped] at hceiling
      have hcut : shown - 1 = ceiling := Option.some.inj hceiling
      omega

/-- Where nothing is reset, the selection reads the history from where the lane stands. -/
theorem ahead_current (h : Held source cursor) (hsource : pass.source.identity = source)
    (hreaches : pass.reaches = true) (hopened : pass.source.opened = true)
    (hrewinds : pass.rewinds cursor = false) (hahead : Ahead cursor id) :
    Ahead (pass.current cursor) id := by
  have houtruns : (cursor.bind pass.source.identity).outruns pass.source.messages = false := by
    simpa [Pass.rewinds, hreaches, hopened] using hrewinds
  rw [Pass.current, rewind_of_not_outruns houtruns, hsource]
  intro ceiling hceiling
  rw [h.bind.2.2.2.2] at hceiling
  exact hahead ceiling hceiling

/-- The message is there and old enough, if the pass looks for messages. -/
def Stays (id : Int) (x : PassEntry) : Prop :=
  x.event.selects = true → x.event.Eligible x.before id

theorem passed_or_ahead_of_not_rewinds {response : Response} (h : Held source cursor)
    (hsource : pass.source.identity = source) (hrewinds : pass.rewinds cursor = false)
    (hstep : reconcileMessageBatchInner pass cursor = (response, cursor'))
    (hahead : Ahead cursor id) (hstays : Stays id ⟨cursor, pass, response, cursor'⟩) :
    (id, false) ∈ response.passed ∨ Ahead cursor' id := by
  cases hselects : pass.selects with
  | true =>
    have hparts := hselects
    rw [Pass.selects, Bool.and_eq_true, Bool.and_eq_true] at hparts
    exact passed_or_ahead h hsource hselects hstep
      (ahead_current h hsource hparts.1.1 hparts.1.2 hrewinds hahead) (hstays hselects)
  | false =>
    right
    obtain ⟨result, cursor'', hearly, hcursor⟩ := inner_of_not_selects hselects cursor
    rw [hearly] at hstep
    cases hstep
    rcases hcursor with rfl | rfl | ⟨hreaches, hopened, rfl⟩
    · exact hahead
    · intro ceiling hceiling
      rw [hsource, h.bind.2.2.2.2] at hceiling
      exact hahead ceiling hceiling
    · exact ahead_current h hsource hreaches hopened hrewinds hahead

/-- The pass finds nothing left of the history. -/
def FindsEnd (x : PassEntry) : Prop :=
  x.event.selects = true ∧ x.event.history x.before = []

/-- A round of the history: from a pass that begins at the newest message to one that finds nothing
left, without a reset in between. -/
structure Round (round : List PassEntry) : Prop where
  starts : ∃ first rest, round = first :: rest ∧ first.event.selects = true ∧
    (first.event.current first.before).backfillCeiling = none ∧
    ∀ x ∈ rest, x.event.rewinds x.before = false
  ends : ∃ last ∈ round.getLast?, FindsEnd last

/-- The pass at the end of a round finds nothing, so that no message is ahead of the lane. -/
theorem not_ahead_of_findsEnd {response : Response}
    (hends : FindsEnd ⟨cursor, pass, response, cursor'⟩) (hahead : Ahead (pass.current cursor) id)
    (hstays : Stays id ⟨cursor, pass, response, cursor'⟩) : False := by
  have hrange := mem_range_of_ahead hahead (hstays hends.1)
  rw [historyRange_of_empty hends.2] at hrange
  cases hrange

theorem trace_batchStep (cursor : ReconcileCursor) (pass : Pass) (passes : List Pass) :
    trace batchStep cursor (pass :: passes) =
      ⟨cursor, pass, (reconcileMessageBatchInner pass cursor).1,
        (reconcileMessageBatchInner pass cursor).2⟩ ::
        trace batchStep (reconcileMessageBatchInner pass cursor).2 passes := rfl

/-- From a lane that has not come past the id to the end of the history the id is passed. -/
theorem passed_before_end {passes : List Pass} {round back : List PassEntry}
    (h : Held source cursor) (hsource : ∀ pass ∈ passes, pass.source.identity = source)
    (hround : trace batchStep cursor passes = round ++ back) (hahead : Ahead cursor id)
    (hrewinds : ∀ x ∈ round, x.event.rewinds x.before = false) (hstays : ∀ x ∈ round, Stays id x)
    (hends : ∃ last ∈ round.getLast?, FindsEnd last) :
    ∃ x ∈ round, (id, false) ∈ x.response.passed := by
  induction round generalizing cursor passes with
  | nil =>
    obtain ⟨last, hlast, -⟩ := hends
    cases hlast
  | cons x round ih =>
    cases passes with
    | nil => cases hround
    | cons pass passes =>
      rw [forall_mem_cons] at hsource hrewinds hstays
      rw [trace_batchStep, cons_append, List.cons.injEq] at hround
      obtain ⟨rfl, hrest⟩ := hround
      have hnext := passed_or_ahead_of_not_rewinds h hsource.1 hrewinds.1 rfl hahead hstays.1
      rcases hnext with hpassed | hahead'
      · exact ⟨_, mem_cons_self, hpassed⟩
      · cases round with
        | nil =>
          obtain ⟨last, hlast, hend⟩ := hends
          cases Option.some.inj hlast
          have hparts := hend.1
          rw [Pass.selects, Bool.and_eq_true, Bool.and_eq_true] at hparts
          have hcurrent := ahead_current h hsource.1 hparts.1.1 hparts.1.2 hrewinds.1 hahead
          exact (not_ahead_of_findsEnd hend hcurrent hstays.1).elim
        | cons y round =>
          rw [List.getLast?_cons_cons] at hends
          obtain ⟨z, hz, hpassed⟩ := ih (passKept_step h hsource.1 rfl).2 hsource.2 hrest hahead'
            hrewinds.2 hstays.2 hends
          exact ⟨z, mem_cons_of_mem _ hz, hpassed⟩

/-- A round of a run passes what was there all the time. -/
theorem passed_in_round {passes : List Pass} {front round back : List PassEntry}
    (h : Held source cursor) (hsource : ∀ pass ∈ passes, pass.source.identity = source)
    (hrun : trace batchStep cursor passes = front ++ (round ++ back)) (hround : Round round)
    (hstays : ∀ x ∈ round, Stays id x) : ∃ x ∈ round, (id, false) ∈ x.response.passed := by
  induction front generalizing cursor passes with
  | nil =>
    obtain ⟨⟨first, rest, rfl, hselects, hceiling, hrewinds⟩, hends⟩ := hround
    cases passes with
    | nil => cases hrun
    | cons pass passes =>
      rw [forall_mem_cons] at hsource hstays
      rw [trace_batchStep, nil_append, cons_append, List.cons.injEq] at hrun
      obtain ⟨rfl, hrest⟩ := hrun
      have hahead : Ahead (pass.current cursor) id := by
        intro ceiling hsome
        rw [hceiling] at hsome
        cases hsome
      rcases passed_or_ahead h hsource.1 hselects rfl hahead (hstays.1 hselects) with
        hpassed | hahead'
      · exact ⟨_, mem_cons_self, hpassed⟩
      · cases rest with
        | nil =>
          obtain ⟨last, hlast, hend⟩ := hends
          cases Option.some.inj hlast
          exact (not_ahead_of_findsEnd hend hahead hstays.1).elim
        | cons y rest =>
          rw [List.getLast?_cons_cons] at hends
          obtain ⟨z, hz, hpassed⟩ := passed_before_end (passKept_step h hsource.1 rfl).2 hsource.2
            hrest hahead' hrewinds hstays.2 hends
          exact ⟨z, mem_cons_of_mem _ hz, hpassed⟩
  | cons x front ih =>
    cases passes with
    | nil => cases hrun
    | cons pass passes =>
      rw [forall_mem_cons] at hsource
      rw [trace_batchStep, cons_append, List.cons.injEq] at hrun
      exact ih (passKept_step h hsource.1 rfl).2 hsource.2 hrun.2

/-! ### Runs -/

theorem passKept_run {passes : List Pass} (h : Held source cursor)
    (hsource : ∀ pass ∈ passes, pass.source.identity = source) :
    ∀ x ∈ trace batchStep cursor passes, PassKept x := by
  induction passes generalizing cursor with
  | nil => exact forall_mem_nil _
  | cons pass passes ih =>
    rw [forall_mem_cons] at hsource
    obtain ⟨hkept, hheld⟩ := passKept_step h hsource.1 rfl
    rw [trace_batchStep, forall_mem_cons]
    exact ⟨hkept, ih hheld hsource.2⟩

/-- What repair keeps over a run of passes. -/
structure RepairLaws (passes : List PassEntry) : Prop where
  /-- What every pass keeps: an id that was deferred is on the retry lane unless an attempt has
  settled it, the lane has distinct ids and no more than fit, nothing is read twice, a lane at which
  the pass stopped stands before the id, and what a lane has passed was attempted or waits. -/
  pass : ∀ x ∈ passes, PassKept x
  /-- An id on the retry lane stays there until an attempt settles it. -/
  retained : ∀ x rest, x :: rest <:+: passes → ∀ id, id ∈ x.after.retryIds →
    (∀ y ∈ rest, ¬ Settles y id) → ∀ y ∈ rest, id ∈ y.after.retryIds
  /-- In a round, each message that stays is passed by the history lane in a pass that attempted it
  or left it waiting. -/
  round : ∀ round, round <:+: passes → Round round → ∀ id, (∀ x ∈ round, Stays id x) →
    ∃ x ∈ round, (id, false) ∈ x.response.passed ∧ (Attempts x id ∨ Waits x id)

/-- Repair keeps what it owes, over every run on one source. -/
theorem repairLaws (source : Text) (cursor : ReconcileCursor) (passes : List Pass)
    (h : Held source cursor) (hsource : ∀ pass ∈ passes, pass.source.identity = source) :
    RepairLaws (trace batchStep cursor passes) where
  pass := passKept_run h hsource
  retained := by
    intro x rest hpart id hid hsettles
    have hkept (y : PassEntry) (hy : y ∈ rest) : PassKept y :=
      passKept_run h hsource y (hpart.mem (mem_cons_of_mem _ hy))
    apply lasts_over (fun cursor => id ∈ cursor.retryIds) (chained_part hpart) _ hid
    exact fun y hy hbefore => (hkept y hy).kept id (.inl hbefore) (hsettles y hy)
  round := by
    intro round hpart hround id hstays
    obtain ⟨front, back, hrun⟩ := hpart
    rw [append_assoc] at hrun
    obtain ⟨x, hx, hpassed⟩ := passed_in_round h hsource hrun.symm hround hstays
    have hmem : x ∈ trace batchStep cursor passes := by
      rw [← hrun]
      exact mem_append_right _ (mem_append_left _ hx)
    exact ⟨x, hx, hpassed, (passKept_run h hsource x hmem).passed id false hpassed⟩

/-! ### A conflict that cools down over a round -/

/-- A round attempts each message that stays. -/
def RoundsAttempt (passes : List PassEntry) : Prop :=
  ∀ round, round <:+: passes → Round round → ∀ id, (∀ x ∈ round, Stays id x) →
    ∃ x ∈ round, Attempts x id

/-- The archive contradicts the message. -/
def conflictingTurn : Turn where
  stopped := false
  breakerTripped := false
  admitted := true
  identity := ['d', 'b']
  prepared := .ok 10
  stoppedAdmitted := false
  reconciled := .error ⟨false⟩
  stoppedAfter := false

def onlyMessage : Message := ⟨1, 0, by decide, by decide⟩

/-- A pass over one message, so many seconds after the first. -/
def secondPass (second : Nat) : Pass where
  stopped := false
  breakerTripped := false
  nowUs := 100000000 + second * 1000000
  archiveLagUs := 0
  admitted := true
  poolBound := true
  source := ⟨['d', 'b'], true, ⟨[onlyMessage], by simp⟩, true⟩
  seeding := ⟨false, false, none, secs second, []⟩
  now := secs second
  turns := fun _ => conflictingTurn

/-- The cursor after the first so many passes. -/
def cursorAfter : Nat → ReconcileCursor
  | 0 => .settledBefore 0
  | n + 1 => (reconcileMessageBatchInner (secondPass n) (cursorAfter n)).2

theorem repairLaws_fourPasses :
    RepairLaws (trace batchStep (.settledBefore 0) ((range 4).map secondPass)) := by
  apply repairLaws ['d', 'b'] (.settledBefore 0) _ (held_settledBefore _ 0)
  intro pass hpass
  obtain ⟨second, -, rfl⟩ := mem_map.mp hpass
  rfl

def entryAt (n : Nat) : PassEntry :=
  ⟨cursorAfter n, secondPass n, (reconcileMessageBatchInner (secondPass n) (cursorAfter n)).1,
    cursorAfter (n + 1)⟩

/-- The first pass attempts the message, which is in conflict; the second one ends that round. The
third and the fourth are a round that passes the message without an attempt. -/
theorem roundsAttempt_fails :
    ¬ RoundsAttempt (trace batchStep (.settledBefore 0) ((range 4).map secondPass)) := by
  have htrace : trace batchStep (.settledBefore 0) ((range 4).map secondPass) =
      [entryAt 0, entryAt 1, entryAt 2, entryAt 3] := rfl
  intro h
  rw [htrace] at h
  have hround : Round [entryAt 2, entryAt 3] := by
    refine ⟨⟨entryAt 2, [entryAt 3], rfl, by decide, by decide, ?_⟩, entryAt 3, rfl, ?_⟩
    · rw [forall_mem_singleton]
      decide
    · exact ⟨by decide, by decide⟩
  have hstays : ∀ x ∈ [entryAt 2, entryAt 3], Stays 1 x := by
    rw [forall_mem_cons, forall_mem_singleton]
    exact ⟨fun _ => ⟨onlyMessage, mem_singleton_self _, rfl, by decide⟩,
      fun _ => ⟨onlyMessage, mem_singleton_self _, rfl, by decide⟩⟩
  obtain ⟨x, hx, outcome, hattempt⟩ := h _ ⟨[entryAt 0, entryAt 1], [], rfl⟩ hround 1 hstays
  have hnone : ∀ x ∈ [entryAt 2, entryAt 3], x.response.attempts = [] := by
    rw [forall_mem_cons, forall_mem_singleton]
    decide
  rw [hnone x hx] at hattempt
  cases hattempt

end AgentMail.Reconcile
