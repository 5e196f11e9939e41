import AgentMail.Reconcile.CheckpointValid

/-!
# Workers that share a checkpoint

Any number of workers repair one mailbox, each with its own cursor, one pass at a time under the
lock of the checkpoint. Whatever was deferred is owed by the file or by a cursor that a failed save
left unsaved, until an attempt settles it or the worker that owes it dies.
-/

namespace AgentMail.Reconcile

open Base Lib ReconcileCursor Function

variable {source : Text} {binding : Binding} {visit : Visit} {file file' : Option Snapshot}
  {cursor cursor' : ReconcileCursor} {now : Nat} {wallUs : Int} {id : Int}

/-! ### Workers -/

/-- A living worker, with the last instant that it has read. -/
structure Worker where
  cursor : ReconcileCursor
  clock : Nat

/-- The checkpoint file and the living workers. -/
structure World where
  file : Option Snapshot
  workers : Nat → Option Worker

/-- No worker lives. -/
def World.start (file : Option Snapshot) : World := ⟨file, fun _ => none⟩

inductive WorkerEvent where
  | join (worker : Nat) (settledBeforeUs : Int) (clock : Nat)
  | visit (worker : Nat) (visit : Visit)
  | die (worker : Nat)

/-- The instants of a process run forward, and `now_micros` hands out nothing below 1, whatever the
wall clock says: its cell starts at 0 and only rises. The mailbox is the one of the workers. -/
def Visit.possible (source : Text) (clock : Nat) (visit : Visit) : Bool :=
  decide (clock ≤ visit.restoredAt) && decide (visit.restoredAt ≤ visit.pass.seeding.now) &&
    decide (visit.pass.seeding.now ≤ visit.pass.now) && decide (visit.pass.now ≤ visit.savedAt) &&
    decide (0 < visit.restoreWallUs) && decide (0 < visit.saveWallUs) &&
    decide (visit.pass.source.identity = source)

/-- What can happen, with the report of a pass. -/
def World.step (source : Text) (binding : Binding) (w : World) :
    WorkerEvent → Option (Option VisitReport × World)
  | .join n settledBeforeUs clock =>
    if (w.workers n).isSome then none
    else some (none, { w with
      workers := update w.workers n (some ⟨.settledBefore settledBeforeUs, clock⟩) })
  | .visit n visit =>
    match w.workers n with
    | none => none
    | some worker =>
      if visit.possible source worker.clock then
        let ran := runVisit source binding visit w.file worker.cursor
        some (some ran.1, ⟨ran.2.1, update w.workers n (some ⟨ran.2.2, visit.savedAt⟩)⟩)
      else none
  | .die n => some (none, { w with workers := update w.workers n none })

/-- The retry ids of the file. -/
def fileIds (file : Option Snapshot) : List Int := (file.map Snapshot.retryIds).getD []

/-- The file or the unsaved cursor owes the id. -/
def Owed (file : Option Snapshot) (cursor : ReconcileCursor) (id : Int) : Prop :=
  id ∈ fileIds file ∨ cursor.checkpointDirty = true ∧ id ∈ cursor.retryIds

/-- The file or a worker with an unsaved cursor owes the id. -/
def World.Owes (w : World) (id : Int) : Prop :=
  id ∈ fileIds w.file ∨ ∃ n worker, w.workers n = some worker ∧
    worker.cursor.checkpointDirty = true ∧ id ∈ worker.cursor.retryIds

/-- An attempt settled the id. -/
def VisitReport.Settles (report : VisitReport) (id : Int) : Prop :=
  ∃ outcome, (id, outcome) ∈ report.response.attempts ∧ outcome ≠ .transient

/-- The id was deferred: seeded, or attempted without success for a reason that may pass. -/
def VisitReport.Defers (report : VisitReport) (id : Int) : Prop :=
  id ∈ report.response.seeded ∨ (id, .transient) ∈ report.response.attempts

/-! ### Restoring -/

/-- The checkpoint can be read. -/
def Readable (binding : Binding) (file : Option Snapshot) : Prop :=
  ∀ snapshot, file = some snapshot → snapshot.Valid binding

/-- A cursor that owes something is bound. -/
theorem Held.bind_of_mem (h : Held source cursor) (hid : id ∈ cursor.retryIds) :
    cursor.bind source = cursor := by
  have hidentity : cursor.sourceIdentity = source := by
    refine h.bound.resolve_right fun hnew => ?_
    rw [retryIds, hnew.1] at hid
    cases hid
  rw [ReconcileCursor.bind, if_neg (not_ne_iff.mpr hidentity.symm)]

theorem Held.of_bind (h : Held source cursor) : Held source (cursor.bind source) := by
  obtain ⟨hidentity, hretries, hconflicts, -, -⟩ := h.bind
  exact SameDebt.held ⟨hidentity, hretries, hconflicts⟩ h

/-- What `Store::restore` does with a checkpoint that can be read. -/
inductive Restores (binding : Binding) (cursor : ReconcileCursor) (now : Nat) (wallUs : Int) :
    Option Snapshot → RestoreState × ReconcileCursor → Prop where
  | absent : Restores binding cursor now wallUs none (.absent, cursor)
  | restored (snapshot : Snapshot) (valid : snapshot.Valid binding)
    (clean : cursor.checkpointDirty = false) :
    Restores binding cursor now wallUs (some snapshot)
      (.restored, snapshot.restore cursor now wallUs)
  | merged (snapshot : Snapshot) (valid : snapshot.Valid binding) (merged : ReconcileCursor)
    (kept : MergeKept cursor snapshot now wallUs merged) :
    Restores binding cursor now wallUs (some snapshot) (.merged, merged)
  | blocked (snapshot : Snapshot) (valid : snapshot.Valid binding) :
    Restores binding cursor now wallUs (some snapshot) (.capacityBlocked, cursor)

theorem restores (hfile : Readable binding file) (hsound : cursor.Sound) (now : Nat)
    (wallUs : Int) :
    Restores binding cursor now wallUs file
      (restoreCheckpoint binding file cursor now wallUs) := by
  cases file with
  | none => exact .absent
  | some snapshot =>
    have hvalid := hfile snapshot rfl
    have hself : snapshot.validate snapshot.binding = .ok () :=
      validate_iff.mpr { hvalid with binding := rfl }
    rw [restoreCheckpoint]
    dsimp only
    rw [hself]
    dsimp only
    rw [if_neg (not_ne_iff.mpr hvalid.binding)]
    by_cases hdirty : cursor.checkpointDirty = true
    · rw [if_pos hdirty]
      rcases mergeKept hsound hvalid.ids.1 now wallUs with hblocked | ⟨merged, heq, hkept⟩
      · rw [hblocked]
        exact .blocked snapshot hvalid
      · rw [heq]
        exact .merged snapshot hvalid merged hkept
    · rw [if_neg hdirty]
      exact .restored snapshot hvalid (by simpa using hdirty)

theorem sourceIdentity_merged {snapshot : Snapshot} {merged : ReconcileCursor}
    (h : MergeKept cursor snapshot now wallUs merged) :
    merged.sourceIdentity = cursor.sourceIdentity := by
  rw [h.rest]

/-- The cursor stays on the source and valid, and what was owed is in it, unless the file keeps it
since there is no room. -/
theorem Restores.carries {state : RestoreState × ReconcileCursor}
    (h : Restores binding cursor now wallUs file state)
    (hidentity : cursor.sourceIdentity = source) (hvalid : cursor.Valid now) :
    (Held source state.2 ∧ state.2.Valid now) ∧ ∀ id, Owed file cursor id →
        id ∈ state.2.retryIds ∨ state.1 = .capacityBlocked ∧ id ∈ fileIds file := by
  cases h with
  | absent =>
    refine ⟨⟨⟨hvalid.debt.sound, .inl hidentity⟩, hvalid⟩, fun id howed => .inl ?_⟩
    rcases howed with hfile | hdirty
    · cases hfile
    · exact hdirty.2
  | restored snapshot valid clean =>
    have hrestored := valid_restore valid cursor now wallUs
    refine ⟨⟨⟨hrestored.debt.sound, .inl hidentity⟩, hrestored⟩, fun id howed => .inl ?_⟩
    rcases howed with hfile | hdirty
    · rw [retryIds_restore]
      exact hfile
    · rw [clean] at hdirty
      cases hdirty.1
  | merged snapshot valid merged kept =>
    have hmerged := valid_merged hvalid valid kept
    refine ⟨⟨⟨hmerged.debt.sound, .inl ?_⟩, hmerged⟩, fun id howed => .inl ?_⟩
    · rw [sourceIdentity_merged kept]
      exact hidentity
    · rw [kept.union, List.mem_append, List.mem_filter, decide_eq_true_eq]
      by_cases hlocal : id ∈ cursor.retryIds
      · exact .inl hlocal
      · rcases howed with hfile | hdirty
        · exact .inr ⟨hfile, hlocal⟩
        · exact absurd hdirty.2 hlocal
  | blocked snapshot valid =>
    refine ⟨⟨⟨hvalid.debt.sound, .inl hidentity⟩, hvalid⟩, fun id howed => ?_⟩
    rcases howed with hfile | hdirty
    · exact .inr ⟨rfl, hfile⟩
    · exact .inl hdirty.2

/-! ### A pass of a worker -/

/-- What a pass of a worker keeps. -/
structure VisitKept (source : Text) (binding : Binding) (clock : Nat) (file : Option Snapshot)
    (cursor : ReconcileCursor) (report : VisitReport) (file' : Option Snapshot)
    (cursor' : ReconcileCursor) : Prop where
  owed : ∀ id, Owed file cursor id → Owed file' cursor' id ∨ report.Settles id
  deferred : ∀ id, report.Defers id → Owed file' cursor' id ∨ report.Settles id
  readable : Readable binding file'
  held : Held source cursor'
  valid : cursor'.Valid clock

/-- What a save can do to a cursor that can be saved. -/
theorem saveCheckpoint_cases (binding : Binding) (file : Option Snapshot)
    (hvalid : cursor.Valid now) (hwall : 0 < wallUs) (saving : Saving) :
    saveCheckpoint binding file cursor now wallUs saving = (false, file) ∨
      ∃ saved, saveCheckpoint binding file cursor now wallUs saving =
        (saved, some (Snapshot.capture binding cursor now wallUs)) := by
  have hcaptured := validate_iff.mpr (valid_capture hvalid binding hwall)
  unfold saveCheckpoint
  dsimp only
  rw [hcaptured]
  cases saving with
  | refused => exact .inl rfl
  | published => exact .inr ⟨true, rfl⟩
  | unsynced => exact .inr ⟨false, rfl⟩

/-- The cursor with which the pass of a visit begins. -/
def Visit.restored (visit : Visit) (source : Text) (binding : Binding) (file : Option Snapshot)
    (cursor : ReconcileCursor) : Option RestoreState × ReconcileCursor :=
  if visit.storeOpen then
    let restored := restoreCheckpoint binding file (cursor.bind source) visit.restoredAt
      visit.restoreWallUs
    (some restored.1, restored.2)
  else (none, cursor.bind source)

/-- The pass of the worker may save. -/
def Visit.saves (visit : Visit) (restored : Option RestoreState) : Bool :=
  visit.storeOpen && decide (restored ≠ some .capacityBlocked)

theorem saves_capacityBlocked (visit : Visit) : visit.saves (some .capacityBlocked) = false := by
  simp [Visit.saves]

theorem saves_of_not_open (h : ¬ visit.storeOpen = true) (restored : Option RestoreState) :
    visit.saves restored = false := by
  simp [Visit.saves, h]

theorem restored_carries (hfile : Readable binding file) (hheld : Held source cursor)
    (hvalid : cursor.Valid visit.restoredAt) :
    (Held source (visit.restored source binding file cursor).2 ∧
      (visit.restored source binding file cursor).2.Valid visit.restoredAt) ∧
      ∀ id, Owed file cursor id → id ∈ (visit.restored source binding file cursor).2.retryIds ∨
        visit.saves (visit.restored source binding file cursor).1 = false ∧ id ∈ fileIds file := by
  have hbound := hheld.of_bind
  have hboundValid : (cursor.bind source).Valid visit.restoredAt := hvalid.bind source
  have howed (id : Int) (howed : Owed file cursor id) : Owed file (cursor.bind source) id := by
    refine howed.imp_right fun hdirty => ?_
    rwa [hheld.bind_of_mem hdirty.2]
  rw [Visit.restored]
  by_cases hopen : visit.storeOpen = true
  · rw [if_pos hopen]
    have hcarries := (restores hfile hbound.sound visit.restoredAt visit.restoreWallUs).carries
      hheld.bind.1 hboundValid
    refine ⟨hcarries.1, fun id hid => (hcarries.2 id (howed id hid)).imp_right fun hblocked => ?_⟩
    refine ⟨?_, hblocked.2⟩
    dsimp only
    rw [hblocked.1]
    exact saves_capacityBlocked visit
  · rw [if_neg hopen]
    refine ⟨⟨hbound, hboundValid⟩, fun id hid => ?_⟩
    rcases howed id hid with hmem | hdirty
    · exact .inr ⟨saves_of_not_open hopen _, hmem⟩
    · exact .inl hdirty.2

/-- The end of the pass of a worker: the cursor is unsaved until a save succeeds. -/
def Visit.finish (visit : Visit) (source : Text) (binding : Binding) (file : Option Snapshot)
    (restored : Option RestoreState) (response : Response) (after : ReconcileCursor) :
    VisitReport × Option Snapshot × ReconcileCursor :=
  let dirty : ReconcileCursor := { after with checkpointDirty := true }
  if visit.saves restored && decide (dirty.sourceIdentity = source) then
    let saved := saveCheckpoint binding file dirty visit.savedAt visit.saveWallUs visit.saving
    (⟨restored, response, saved.1⟩, saved.2,
      if saved.1 then { dirty with checkpointDirty := false } else dirty)
  else (⟨restored, response, false⟩, file, dirty)

theorem runVisit_eq (source : Text) (binding : Binding) (visit : Visit) (file : Option Snapshot)
    (cursor : ReconcileCursor) :
    runVisit source binding visit file cursor =
      visit.finish source binding file (visit.restored source binding file cursor).1
        (reconcileMessageBatchInner visit.pass (visit.restored source binding file cursor).2).1
        (reconcileMessageBatchInner visit.pass (visit.restored source binding file cursor).2).2 :=
  rfl

/-- What the end of the pass of a worker keeps. -/
structure Finished (source : Text) (binding : Binding) (visit : Visit) (file : Option Snapshot)
    (restored : Option RestoreState) (response : Response) (after : ReconcileCursor)
    (finished : VisitReport × Option Snapshot × ReconcileCursor) : Prop where
  response : finished.1.response = response
  readable : Readable binding finished.2.1
  held : Held source finished.2.2
  valid : finished.2.2.Valid visit.savedAt
  owed : ∀ id ∈ after.retryIds, Owed finished.2.1 finished.2.2 id
  unsaved : visit.saves restored = false → finished.2.1 = file

theorem finished (hfile : Readable binding file) (hheld : Held source cursor)
    (hvalid : cursor.Valid visit.savedAt) (hwall : 0 < visit.saveWallUs)
    (restored : Option RestoreState) (response : Response) :
    Finished source binding visit file restored response cursor
      (visit.finish source binding file restored response cursor) := by
  have hmarked (dirty : Bool) : Held source { cursor with checkpointDirty := dirty } ∧
      ({ cursor with checkpointDirty := dirty } : ReconcileCursor).Valid visit.savedAt :=
    ⟨⟨⟨hheld.sound.distinct, hheld.sound.bounded⟩, hheld.bound⟩, hvalid.debt.of_eq rfl rfl,
      hvalid.scan.of_eq rfl rfl⟩
  rw [Visit.finish]
  split
  · rename_i hsaves
    rw [Bool.and_eq_true] at hsaves
    have hcaptured : Readable binding (some (Snapshot.capture binding
        { cursor with checkpointDirty := true } visit.savedAt visit.saveWallUs)) := by
      intro snapshot hsnapshot
      rw [← Option.some.inj hsnapshot]
      exact valid_capture (hmarked true).2 binding hwall
    rcases saveCheckpoint_cases binding file (hmarked true).2 hwall visit.saving with
      hfailed | ⟨saved, hsaved⟩
    · rw [hfailed]
      refine ⟨rfl, hfile, (hmarked true).1, (hmarked true).2, fun id hid => .inr ⟨rfl, hid⟩,
        fun _ => rfl⟩
    · rw [hsaved]
      have hfiled (id : Int) (hid : id ∈ cursor.retryIds) : id ∈ fileIds (some (Snapshot.capture
          binding { cursor with checkpointDirty := true } visit.savedAt visit.saveWallUs)) := by
        rw [fileIds, Option.map_some, Option.getD_some, retryIds_capture]
        exact hid
      have hnever (h : visit.saves restored = false) : some (Snapshot.capture binding
          { cursor with checkpointDirty := true } visit.savedAt visit.saveWallUs) = file := by
        rw [h] at hsaves
        cases hsaves.1
      cases saved with
      | true =>
        exact ⟨rfl, hcaptured, (hmarked false).1, (hmarked false).2,
          fun id hid => .inl (hfiled id hid), hnever⟩
      | false =>
        exact ⟨rfl, hcaptured, (hmarked true).1, (hmarked true).2,
          fun id hid => .inl (hfiled id hid), hnever⟩
  · exact ⟨rfl, hfile, (hmarked true).1, (hmarked true).2, fun id hid => .inr ⟨rfl, hid⟩,
      fun _ => rfl⟩

/-- What a pass of a worker keeps of the debt. -/
theorem visitKept (hfile : Readable binding file) (hheld : Held source cursor) {clock : Nat}
    (hvalid : cursor.Valid clock) (hpossible : visit.possible source clock = true) :
    VisitKept source binding visit.savedAt file cursor
      (runVisit source binding visit file cursor).1
      (runVisit source binding visit file cursor).2.1
      (runVisit source binding visit file cursor).2.2 := by
  simp only [Visit.possible, Bool.and_eq_true, decide_eq_true_eq] at hpossible
  obtain ⟨⟨⟨⟨⟨⟨hclock, hseeding⟩, hpass⟩, hsave⟩, -⟩, hwall⟩, hsource⟩ := hpossible
  obtain ⟨⟨hheld₀, hvalid₀⟩, hcarries⟩ := restored_carries hfile hheld (hvalid.mono hclock)
  rw [runVisit_eq]
  generalize visit.restored source binding file cursor = restored at hheld₀ hvalid₀ hcarries ⊢
  have hvalid₁ := (valid_inner hvalid₀ hseeding hpass).mono hsave
  cases hinner : reconcileMessageBatchInner visit.pass restored.2 with
  | mk response after =>
    obtain ⟨hkept, hheld₁⟩ := passKept_step hheld₀ hsource hinner
    rw [hinner] at hvalid₁
    obtain ⟨hresponse, hreadable, hheld₂, hvalid₂, howed, hunsaved⟩ :=
      finished hfile hheld₁ hvalid₁ hwall restored.1 response
    have hstays (id : Int) (howes : Owes ⟨restored.2, visit.pass, response, after⟩ id) :
        Owed (visit.finish source binding file restored.1 response after).2.1
            (visit.finish source binding file restored.1 response after).2.2 id ∨
          (visit.finish source binding file restored.1 response after).1.Settles id := by
      by_cases hsettles : (visit.finish source binding file restored.1 response after).1.Settles id
      · exact .inr hsettles
      · refine .inl (howed id (hkept.kept id howes fun hsettled => hsettles ?_))
        rw [VisitReport.Settles, hresponse]
        exact hsettled
    refine ⟨fun id hid => ?_, fun id hid => ?_, hreadable, hheld₂, hvalid₂⟩
    · rcases hcarries id hid with hmem | ⟨hblocked, hmem⟩
      · exact hstays id (.inl hmem)
      · refine .inl (.inl ?_)
        rw [hunsaved hblocked]
        exact hmem
    · rw [VisitReport.Defers, hresponse] at hid
      exact hstays id (.inr hid)

/-! ### Runs of workers -/

/-- The world between two events. -/
structure World.Sound (source : Text) (binding : Binding) (w : World) : Prop where
  readable : Readable binding w.file
  workers : ∀ n worker, w.workers n = some worker →
    Held source worker.cursor ∧ worker.cursor.Valid worker.clock

/-- Only this worker owes the id. -/
def World.OnlyHolder (w : World) (n : Nat) (id : Int) : Prop :=
  id ∉ fileIds w.file ∧ ∀ m worker, w.workers m = some worker →
    worker.cursor.checkpointDirty = true → id ∈ worker.cursor.retryIds → m = n

/-- The events that happened, with the world before and after each. -/
abbrev WorkerEntry : Type := Entry World WorkerEvent (Option VisitReport)

/-- The event settled the id. -/
def WorkerEntry.Settles (x : WorkerEntry) (id : Int) : Prop :=
  ∃ report, x.response = some report ∧ report.Settles id

/-- The only worker that owed the id died. -/
def WorkerEntry.Loses (x : WorkerEntry) (id : Int) : Prop :=
  ∃ n, x.event = .die n ∧ x.before.OnlyHolder n id

/-- What an event keeps. -/
structure EventKept (source : Text) (binding : Binding) (x : WorkerEntry) : Prop where
  sound : x.after.Sound source binding
  owed : ∀ id, x.before.Owes id → x.after.Owes id ∨ x.Settles id ∨ x.Loses id
  deferred : ∀ report, x.response = some report → ∀ id, report.Defers id →
    x.after.Owes id ∨ x.Settles id

variable {w w' : World}

/-- An event without a report defers nothing. -/
theorem deferred_none (w : World) (event : WorkerEvent) (w' : World) (report : VisitReport)
    (hreport : (⟨w, event, none, w'⟩ : WorkerEntry).response = some report) (id : Int)
    (_ : report.Defers id) : w'.Owes id ∨ WorkerEntry.Settles ⟨w, event, none, w'⟩ id := by
  cases hreport

variable {response : Option VisitReport}

section

variable (h : w.Sound source binding)
include h

theorem eventKept_join (n : Nat) (settledBeforeUs : Int) (clock : Nat)
    (hstep : w.step source binding (.join n settledBeforeUs clock) = some (response, w')) :
    EventKept source binding ⟨w, .join n settledBeforeUs clock, response, w'⟩ := by
  rw [World.step] at hstep
  split at hstep
  · cases hstep
  rename_i hfree
  cases hstep
  refine ⟨⟨h.readable, fun m worker hworker => ?_⟩, fun id howes => .inl ?_, deferred_none _ _ _⟩
  · dsimp only at hworker
    rw [update_apply] at hworker
    split at hworker
    · cases hworker
      exact ⟨held_settledBefore source settledBeforeUs, valid_settledBefore settledBeforeUs clock⟩
    · exact h.workers m worker hworker
  · refine howes.imp_right fun hheld => ?_
    obtain ⟨m, worker, hworker, hdirty, hid⟩ := hheld
    refine ⟨m, worker, ?_, hdirty, hid⟩
    dsimp only
    rw [update_apply, if_neg, hworker]
    rintro rfl
    exact hfree (by rw [hworker]; rfl)

theorem eventKept_die (n : Nat)
    (hstep : w.step source binding (.die n) = some (response, w')) :
    EventKept source binding ⟨w, .die n, response, w'⟩ := by
  cases hstep
  refine ⟨⟨h.readable, fun m worker hworker => ?_⟩, fun id howes => ?_, deferred_none _ _ _⟩
  · dsimp only at hworker
    rw [update_apply] at hworker
    split at hworker
    · cases hworker
    · exact h.workers m worker hworker
  · by_cases honly : w.OnlyHolder n id
    · exact .inr (.inr ⟨n, rfl, honly⟩)
    · left
      rcases howes with hfile | hheld
      · exact .inl hfile
      · rw [World.OnlyHolder, not_and_or, not_not] at honly
        refine honly.imp_right fun hothers => ?_
        push Not at hothers
        obtain ⟨m, worker, hworker, hdirty, hid, hother⟩ := hothers
        refine ⟨m, worker, ?_, hdirty, hid⟩
        dsimp only
        rw [update_apply, if_neg hother, hworker]

theorem eventKept_visit (n : Nat) (visit : Visit)
    (hstep : w.step source binding (.visit n visit) = some (response, w')) :
    EventKept source binding ⟨w, .visit n visit, response, w'⟩ := by
  rw [World.step] at hstep
  cases hworker : w.workers n with
  | none =>
    rw [hworker] at hstep
    cases hstep
  | some worker =>
    rw [hworker] at hstep
    dsimp only at hstep
    split at hstep
    · rename_i hpossible
      obtain ⟨hheld, hvalid⟩ := h.workers n worker hworker
      have hkept := visitKept h.readable hheld hvalid hpossible
      generalize runVisit source binding visit w.file worker.cursor = ran at hstep hkept
      obtain ⟨report, file', cursor'⟩ := ran
      cases hstep
      have howned (id : Int) (howed : Owed file' cursor' id) :
          World.Owes ⟨file', update w.workers n (some ⟨cursor', visit.savedAt⟩)⟩ id := by
        refine howed.imp_right fun hdirty => ⟨n, ⟨cursor', visit.savedAt⟩, ?_, hdirty.1, hdirty.2⟩
        exact update_self n _ _
      refine ⟨⟨hkept.readable, fun m other hother => ?_⟩, fun id howes => ?_, ?_⟩
      · dsimp only at hother
        rw [update_apply] at hother
        split at hother
        · cases hother
          exact ⟨hkept.held, hkept.valid⟩
        · exact h.workers m other hother
      · have hown (howed : Owed w.file worker.cursor id) :
            World.Owes ⟨file', update w.workers n (some ⟨cursor', visit.savedAt⟩)⟩ id ∨
              WorkerEntry.Settles ⟨w, .visit n visit, some report, ⟨file', update w.workers
                n (some ⟨cursor', visit.savedAt⟩)⟩⟩ id :=
          (hkept.owed id howed).imp (howned id) fun hsettles => ⟨report, rfl, hsettles⟩
        rcases howes with hfile | ⟨m, other, hother, hdirty, hid⟩
        · exact (hown (.inl hfile)).imp_right .inl
        · by_cases hsame : m = n
          · rw [hsame, hworker] at hother
            cases hother
            exact (hown (.inr ⟨hdirty, hid⟩)).imp_right .inl
          · refine .inl (.inr ⟨m, other, ?_, hdirty, hid⟩)
            dsimp only
            rw [update_apply, if_neg hsame, hother]
      · intro report' hreport id hdefers
        cases hreport
        exact (hkept.deferred id hdefers).imp (howned id) fun hsettles => ⟨report, rfl, hsettles⟩
    · cases hstep

theorem eventKept (event : WorkerEvent)
    (hstep : w.step source binding event = some (response, w')) :
    EventKept source binding ⟨w, event, response, w'⟩ := by
  cases event with
  | join n settledBeforeUs clock => exact eventKept_join h n settledBeforeUs clock hstep
  | visit n visit => exact eventKept_visit h n visit hstep
  | die n => exact eventKept_die h n hstep

end

/-- What workers that share a checkpoint keep. -/
structure CheckpointLaws (binding : Binding) (run : List WorkerEntry) : Prop where
  /-- What a pass deferred and did not settle is owed after it. -/
  deferred : ∀ x ∈ run, ∀ report, x.response = some report → ∀ id, report.Defers id →
    x.after.Owes id ∨ x.Settles id
  /-- What is owed stays owed by the file or by an unsaved cursor, until an attempt settles it or the
  only worker that owes it dies. -/
  owed : ∀ x rest, x :: rest <:+: run → ∀ id, x.after.Owes id →
    (∀ y ∈ rest, ¬ y.Settles id ∧ ¬ y.Loses id) → ∀ y ∈ rest, y.after.Owes id
  /-- Whenever the cursor of a worker is merged with the file, nothing changes or the debt of both
  sides is kept. -/
  merge : ∀ x ∈ run, ∀ n worker snapshot, x.before.workers n = some worker →
    x.before.file = some snapshot → ∀ now wallUs,
    mergeUnsavedDebt worker.cursor snapshot now wallUs = (false, worker.cursor) ∨
      ∃ merged, mergeUnsavedDebt worker.cursor snapshot now wallUs = (true, merged) ∧
        MergeKept worker.cursor snapshot now wallUs merged
  /-- Every cursor passes validation from its clock on. -/
  valid : ∀ x ∈ run, ∀ n worker, x.after.workers n = some worker → ∀ now, worker.clock ≤ now →
    ∀ wallUs, 0 < wallUs →
    (Snapshot.capture binding worker.cursor now wallUs).validate binding = .ok ()

/-- Workers that share a checkpoint lose no debt, over every run that starts with a checkpoint that
can be read or with none. -/
theorem checkpointLaws (source : Text) (binding : Binding) (file : Option Snapshot)
    (events : List WorkerEvent)
    (hfile : ∀ snapshot, file = some snapshot → snapshot.validate binding = .ok ()) :
    CheckpointLaws binding (trace (World.step source binding) (.start file) events) := by
  have hstart : (World.start file).Sound source binding :=
    ⟨fun snapshot hsnapshot => validate_iff.mp (hfile snapshot hsnapshot),
      fun _ _ h => by cases h⟩
  have hall := forall_mem_trace
    (fun w event response w' hw hstep => (eventKept hw event hstep).sound) hstart events
  have hkept (x : WorkerEntry) (hx : x ∈ trace (World.step source binding) (.start file) events) :
      EventKept source binding x := eventKept (hall x hx).1 x.event (hall x hx).2.1
  refine ⟨fun x hx => (hkept x hx).deferred, ?_, ?_, ?_⟩
  · intro x rest hpart id howes hnone
    apply lasts_over (fun w : World => w.Owes id) (chained_part hpart) _ howes
    intro y hy hbefore
    have hmem := hpart.subset (List.mem_cons_of_mem x hy)
    rcases (hkept y hmem).owed id hbefore with hafter | hsettles | hloses
    · exact hafter
    · exact absurd hsettles (hnone y hy).1
    · exact absurd hloses (hnone y hy).2
  · intro x hx n worker snapshot hworker hsnapshot now wallUs
    have hbefore := (hall x hx).1
    exact mergeKept (hbefore.workers n worker hworker).1.sound
      (hbefore.readable snapshot hsnapshot).ids.1 now wallUs
  · intro x hx n worker hworker now hnow wallUs hwall
    have hvalid := ((hall x hx).2.2.workers n worker hworker).2
    exact validate_iff.mpr (valid_capture (hvalid.mono hnow) binding hwall)

def mailboxBinding : Binding := ⟨['d', 'b'], ['a'], ['1'], ['f']⟩

/-- A checkpoint with one retry. -/
def oneRetry : Snapshot :=
  ⟨schemaVersion, mailboxBinding, 1000000, none, none, false, false, [⟨7, 2, 5000000⟩], []⟩

/-- A pass whose save fails. -/
def unsavedVisit : Visit where
  storeOpen := true
  restoredAt := 0
  restoreWallUs := 2000000
  pass := secondPass 1
  savedAt := secs 2
  saveWallUs := 3000000
  saving := .refused

theorem checkpointLaws_oneRetry :
    CheckpointLaws mailboxBinding (trace (World.step ['d', 'b'] mailboxBinding)
      (.start (some oneRetry)) [.join 0 0 0, .visit 0 unsavedVisit, .die 0]) := by
  apply checkpointLaws
  intro snapshot hsnapshot
  rw [← Option.some.inj hsnapshot]
  decide

end AgentMail.Reconcile
