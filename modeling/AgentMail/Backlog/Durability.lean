import AgentMail.Backlog.BacklogSafety
import AgentMail.Lib.PrefixCode
import Mathlib.Data.Nat.Digits.Lemmas

/-!
# Runs of the archive retry backlog

What happens to an op after `push` has answered `Queued`, over any number of processes that draw
different names, and a run in which two processes draw the same one.
-/

namespace AgentMail.Backlog

open Base Lib List ArchiveRetryBacklog

variable {κ β : Type}

/-! ### The laws -/

abbrev Run (κ β : Type) := List (Entry (ArchiveRetryBacklog κ β) (Event κ) (Response κ))

/-- Where an op is whose journal file is `name`. -/
def KeptAt (codec : JournalCodec β) (s : ArchiveRetryBacklog κ β) (name : JournalName)
    (persisted : PersistedWriteOp) : Prop :=
  (some name, persisted) ∈ s.materialized ∨
    (∃ bytes, s.dir.top name = some bytes ∧ codec.fromSlice bytes = some persisted) ∨
    name ∈ s.deadLettered ∧ archiveBacklogMaxAttempts ≤ s.failures.count name ∧
      ∃ bytes, s.dir.failed name = some bytes ∧ codec.fromSlice bytes = some persisted

/-- No call, drain step or recovery is in progress. -/
def Quiet (s : ArchiveRetryBacklog κ β) : Prop :=
  (∀ phase ∈ s.pushes, phase = .returned) ∧ s.drain = .idle ∧
    (s.recovery = .notStarted ∨ s.recovery = .done)

/-- The laws of a run. -/
structure BacklogLaws (codec : JournalCodec β) (run : Run κ β) : Prop where
  /-- An op for which `push` answered `Queued` is materialized, or in the journal, or dead-lettered
  after enough failures with its file under `failed/`. -/
  kept : ∀ front x back op journalPath, run = front ++ x :: back →
    x.response = .pushed .queued op journalPath → ∃ name, journalPath = some name ∧
      KeptAt codec x.after name (.fromOp op) ∧ ∀ y ∈ back, KeptAt codec y.after name (.fromOp op)
  /-- A recovery that reads its file has the same op. -/
  recovered : ∀ front x back op name, run = front ++ x :: back →
    x.response = .pushed .queued op (some name) → ∀ y ∈ back, ∀ config files,
      y.event = .recover true → y.before.recovery = .reading config (name :: files) →
      (y.before.dir.top name).isSome →
      y.after.recovery = .pushing config ((PersistedWriteOp.fromOp op).intoOp config) name files
  /-- Only a recovery makes the backlog larger than a cap allows. -/
  capped : ∀ x ∈ run, x.after.occupied ≤ x.before.occupied ∨
    (∃ call ok micros op cap, x.event = .push call ok micros ∧
      x.before.pushes[call]? = some (.reserving op cap) ∧ x.after.occupied ≤ cap) ∨
    ∃ ok, x.event = .recover ok
  counted : ∀ x ∈ run, ∀ s, s = x.before ∨ s = x.after → Quiet s →
    s.enqueuedTotal = s.drainedTotal + s.deadLetteredTotal + s.depth

/-- No process draws the name of a journal file that an earlier process has drawn. -/
def NewNames (codec : JournalCodec β) (run : Run κ β) : Prop :=
  ∀ x ∈ run, ∀ name, x.event.drawnName codec x.before = some name → name ∉ x.before.earlier

/-! ### What a step does to the records and to the queue -/

section

variable {codec : JournalCodec β} {s s' : ArchiveRetryBacklog κ β} {e : Event κ} {r : Response κ}

theorem step_journaled (h : s.step codec e = some (r, s')) : s.journaled ⊆ s'.journaled := by
  have hsame : s.journaled ⊆ s.journaled := List.Subset.refl _
  cases e with
  | callPush op cap =>
    cases h
    exact hsame
  | push call ok micros =>
    obtain ⟨phase, -, h⟩ := Option.bind_eq_some_iff.mp h
    cases phase with
    | reserving op cap =>
      cases congrArg Prod.snd (Option.some.inj h)
      rw [reserve]
      split <;> exact hsame
    | opening op =>
      cases h
      rw [openJournal]
      split <;> exact hsame
    | writing op name =>
      cases h
      rw [writeTmp]
      split <;> exact hsame
    | moving op name =>
      cases h
      rw [renameTmp]
      split
      · exact subset_append_left _ _
      · exact hsame
    | returned => cases h
    | _ =>
      cases h
      exact hsame
  | drain ok =>
    cases h
    cases hphase : s.drain with
    | idle =>
      rw [drainStep, peekFront]
      split <;> exact hsame
    | writing op attempts journalPath =>
      rw [drainStep, writeOp]
      split <;> exact hsame
    | _ => exact hsame
  | callRecover config files =>
    rw [step] at h
    split at h
    · obtain ⟨s₁, hcall, heq⟩ := Option.map_eq_some_iff.mp h
      cases heq
      cases files with
      | none =>
        cases hcall
        exact hsame
      | some files =>
        rw [callRecover, Option.ite_none_right_eq_some] at hcall
        cases hcall.2
        exact hsame
    · cases h
  | recover ok =>
    obtain ⟨s₁, hrecover, heq⟩ := Option.map_eq_some_iff.mp h
    cases heq
    cases hphase : s.recovery with
    | reading config files =>
      rw [hphase] at hrecover
      cases hrecover
      cases files with
      | nil => exact hsame
      | cons name rest =>
        rw [readJournal]
        split
        · exact hsame
        · split <;> exact hsame
    | notStarted =>
      rw [hphase] at hrecover
      cases hrecover
    | done =>
      rw [hphase] at hrecover
      cases hrecover
    | _ =>
      rw [hphase] at hrecover
      cases hrecover
      exact hsame
  | crash processId =>
    cases h
    exact hsame

theorem length_retry (queue : List (ArchiveBacklogEntry κ)) (attempts : Nat) :
    (match queue with
      | [] => []
      | entry :: rest => { entry with attempts } :: rest : List (ArchiveBacklogEntry κ)).length =
      queue.length := by
  cases queue <;> rfl

theorem occupied_drainStep (ok : Bool) (phase : DrainPhase κ) :
    (s.drainStep ok phase).occupied ≤ s.occupied := by
  have hsame : s.occupied ≤ s.occupied := Nat.le_refl _
  have htail : s.queue.tail.length + s.reserved ≤ s.occupied := by
    rw [length_tail, occupied]
    omega
  cases phase with
  | idle =>
    rw [drainStep, peekFront]
    split <;> exact hsame
  | writing op attempts journalPath =>
    rw [drainStep, writeOp]
    split <;> exact hsame
  | popping journalPath => exact htail
  | deadLettering => exact htail
  | retrying attempts => exact Nat.le_of_eq (congrArg (· + s.reserved) (length_retry s.queue attempts))
  | _ => exact hsame

theorem reserved_pos (h : Safe codec s) {call : Nat} {phase : PushPhase κ}
    (hcall : s.pushes[call]? = some phase) (hphase : phase.reserves) : 0 < s.reserved := by
  rw [h.accounts.held]
  exact countP_pos_iff.mpr ⟨phase, mem_of_getElem? hcall, hphase⟩

/-- A call of `push` adds to the backlog when it reserves, and then the cap allows it. -/
theorem occupied_pushStep (h : Safe codec s) {call : Nat} {ok : Bool} {micros : Nat}
    {phase : PushPhase κ} (hcall : s.pushes[call]? = some phase)
    (hstep : s.pushStep codec call ok micros phase = some (r, s')) :
    s'.occupied ≤ s.occupied ∨ ∃ op cap, phase = .reserving op cap ∧ s'.occupied ≤ cap := by
  have hsame : s.occupied ≤ s.occupied := Nat.le_refl _
  cases phase with
  | reserving op cap =>
    cases congrArg Prod.snd (Option.some.inj hstep)
    rw [reserve]
    split
    · exact .inl hsame
    · next hroom => exact .inr ⟨op, cap, rfl, Nat.not_le.mp hroom⟩
  | opening op =>
    cases hstep
    rw [openJournal]
    split <;> exact .inl hsame
  | writing op name =>
    cases hstep
    rw [writeTmp]
    split <;> exact .inl hsame
  | moving op name =>
    cases hstep
    rw [renameTmp]
    split <;> exact .inl hsame
  | enqueueing op journalPath =>
    cases hstep
    have hpos := reserved_pos h hcall rfl
    have hlength : (s.queue ++ [ArchiveBacklogEntry.mk op journalPath 0]).length =
        s.queue.length + 1 := length_append
    left
    show (s.queue ++ [ArchiveBacklogEntry.mk op journalPath 0]).length + (s.reserved - 1) ≤
      s.queue.length + s.reserved
    omega
  | returned => cases hstep
  | _ =>
    cases hstep
    exact .inl hsame

theorem step_occupied (h : Safe codec s) (hstep : s.step codec e = some (r, s')) :
    s'.occupied ≤ s.occupied ∨ (∃ call ok micros op cap, e = .push call ok micros ∧
        s.pushes[call]? = some (.reserving op cap) ∧ s'.occupied ≤ cap) ∨
      ∃ ok, e = .recover ok := by
  have hsame : s.occupied ≤ s.occupied := Nat.le_refl _
  cases e with
  | callPush op cap =>
    cases hstep
    exact .inl hsame
  | push call ok micros =>
    obtain ⟨phase, hcall, hstep⟩ := Option.bind_eq_some_iff.mp hstep
    rcases occupied_pushStep h hcall hstep with hle | ⟨op, cap, hphase, hcap⟩
    · exact .inl hle
    · exact .inr (.inl ⟨call, ok, micros, op, cap, rfl, hphase ▸ hcall, hcap⟩)
  | drain ok =>
    cases hstep
    exact .inl (occupied_drainStep ok s.drain)
  | callRecover config files =>
    rw [step] at hstep
    split at hstep
    · obtain ⟨s₁, hcall, heq⟩ := Option.map_eq_some_iff.mp hstep
      cases heq
      cases files with
      | none =>
        cases hcall
        exact .inl hsame
      | some files =>
        rw [callRecover, Option.ite_none_right_eq_some] at hcall
        cases hcall.2
        exact .inl hsame
    · cases hstep
  | recover ok => exact .inr (.inr ⟨ok, rfl⟩)
  | crash processId =>
    cases hstep
    exact .inl (Nat.zero_le _)

/-- A call answers `Queued` when its op has a journal file. -/
theorem step_queued (h : Safe codec s) (hstep : s.step codec e = some (r, s')) {op : WriteOp κ}
    {journalPath : Option JournalName} (hr : r = .pushed .queued op journalPath) :
    ∃ name, journalPath = some name ∧ (name, .fromOp op) ∈ s.journaled := by
  subst hr
  cases e with
  | push call ok micros =>
    obtain ⟨phase, hcall, hstep⟩ := Option.bind_eq_some_iff.mp hstep
    cases phase with
    | reserving op' cap =>
      have hresponse := congrArg Prod.fst (Option.some.inj hstep)
      rw [reserve] at hresponse
      split at hresponse <;> cases hresponse
    | counting op' path =>
      have hresponse := congrArg Prod.fst (Option.some.inj hstep)
      cases path with
      | none => cases hresponse
      | some name =>
        cases hresponse
        exact ⟨name, rfl, h.entries.pushed _ (mem_of_getElem? hcall) name rfl⟩
    | _ => cases hstep
  | callRecover config files =>
    rw [step] at hstep
    split at hstep
    · obtain ⟨s₁, -, heq⟩ := Option.map_eq_some_iff.mp hstep
      cases heq
    · cases hstep
  | recover ok =>
    obtain ⟨s₁, -, heq⟩ := Option.map_eq_some_iff.mp hstep
    cases heq
  | _ => cases hstep

end

/-! ### Runs that draw new names -/

section

variable {codec : JournalCodec β} {s : ArchiveRetryBacklog κ β}

theorem keptAt_of_journaled (h : Safe codec s) {name : JournalName}
    {persisted : PersistedWriteOp} (hfiled : (name, persisted) ∈ s.journaled) :
    KeptAt codec s name persisted := by
  rcases h.custody.kept (name, persisted) hfiled with hdone | hdesk | ⟨hup, hcount, hshelf⟩
  · exact .inl (Safe.mem_done.mp hdone)
  · exact .inr (.inl (Option.bind_eq_some_iff.mp hdesk))
  · exact .inr (.inr ⟨hup, hcount, Option.bind_eq_some_iff.mp hshelf⟩)

theorem counted_of_quiet (h : Safe codec s) (hquiet : Quiet s) :
    s.enqueuedTotal = s.drainedTotal + s.deadLetteredTotal + s.depth := by
  obtain ⟨hpushes, hdrain, hrecovery⟩ := hquiet
  have hbalance := h.accounts.balance
  have howes : s.pushes.countP PushPhase.owes = 0 := by
    rw [countP_eq_zero]
    intro phase hmem
    rw [hpushes phase hmem]
    nofun
  have hrecovered : s.recovery.owes = 0 := by
    rcases hrecovery with hphase | hphase <;> rw [hphase] <;> rfl
  have hdrained : s.drain.owes = 0 := by rw [hdrain]; rfl
  rw [howes, hrecovered, hdrained] at hbalance
  rw [h.accounts.stored]
  exact hbalance

theorem readJournal_filed (h : Safe codec s) {name : JournalName} {persisted : PersistedWriteOp}
    (hfiled : (name, persisted) ∈ s.journaled) {config : κ} {files : List JournalName}
    (hsome : (s.dir.top name).isSome) :
    (s.readJournal codec config (name :: files) true).recovery =
      .pushing config (persisted.intoOp config) name files := by
  obtain ⟨bytes, hbytes⟩ := Option.isSome_iff_exists.mp hsome
  obtain ⟨persisted', hread⟩ := Option.isSome_iff_exists.mp (h.readable name bytes hbytes)
  have hsame : persisted' = persisted :=
    h.custody.unique name persisted' persisted (h.filed_of_read hbytes hread) hfiled
  subst hsame
  have hfilter : (some bytes).filter (fun _ => true) = some bytes := rfl
  rw [readJournal, hbytes, hfilter]
  dsimp only
  rw [hread]

variable {processId : Nat} {es : List (Event κ)} {front back : Run κ β}
  {x : Entry (ArchiveRetryBacklog κ β) (Event κ) (Response κ)}

/-- Every entry of such a run starts and ends in a safe state. -/
theorem run_safe (hrun : NewNames codec (trace (step codec) (.start processId) es))
    (h : trace (step codec) (.start processId) es = front ++ x :: back) :
    Safe codec x.before ∧ x.before.step codec x.event = some (x.response, x.after) ∧
      Safe codec x.after := by
  have hsafe (s : ArchiveRetryBacklog κ β) (e : Event κ) (r : Response κ)
      (s' : ArchiveRetryBacklog κ β) (hs : Safe codec s) (he : s.step codec e = some (r, s'))
      (hnew : ∀ name, e.drawnName codec s = some name → name ∉ s.earlier) : Safe codec s' :=
    safe_step hs he hnew
  have hx : x ∈ front ++ x :: back := mem_append_right front mem_cons_self
  exact forall_mem_trace_of hsafe (safe_start codec processId) es hrun x (h ▸ hx)

/-- What was journaled when a call answered is journaled ever after. -/
theorem run_journaled (hrun : NewNames codec (trace (step codec) (.start processId) es))
    (h : trace (step codec) (.start processId) es = front ++ x :: back)
    {op : WriteOp κ} {journalPath : Option JournalName}
    (hr : x.response = .pushed .queued op journalPath) :
    ∃ name, journalPath = some name ∧ (name, .fromOp op) ∈ x.after.journaled ∧
      ∀ y ∈ back, Safe codec y.before ∧ Safe codec y.after ∧
        y.before.step codec y.event = some (y.response, y.after) ∧
        (name, .fromOp op) ∈ y.before.journaled ∧ (name, .fromOp op) ∈ y.after.journaled := by
  obtain ⟨hbefore, hstep, -⟩ := run_safe hrun h
  obtain ⟨name, hname, hfiled⟩ := step_queued hbefore hstep hr
  have hafter := step_journaled hstep hfiled
  refine ⟨name, hname, hafter, fun y hy => ?_⟩
  obtain ⟨mid, rest, hback⟩ := mem_iff_append.mp hy
  obtain ⟨es', hes'⟩ := trace_eq_append h
  have hsplit : trace (step codec) (.start processId) es = (front ++ x :: mid) ++ y :: rest := by
    rw [h, hback, append_assoc, cons_append]
  obtain ⟨hsafe, hy, hsafe'⟩ := run_safe hrun hsplit
  have hkeeps (s : ArchiveRetryBacklog κ β) (e : Event κ) (r : Response κ)
      (s' : ArchiveRetryBacklog κ β) (hs : (name, PersistedWriteOp.fromOp op) ∈ s.journaled)
      (he : s.step codec e = some (r, s')) : (name, .fromOp op) ∈ s'.journaled :=
    step_journaled he hs
  obtain ⟨hfiled', -, hfiled''⟩ := forall_mem_trace hkeeps hafter es' y (by
    rw [hes', hback]
    exact mem_append_right _ mem_cons_self)
  exact ⟨hsafe, hsafe', hy, hfiled', hfiled''⟩

end

/-- Whatever the caps and the failures of writes, and wherever a process ends, if no name is drawn
that an earlier process has drawn. -/
theorem backlogLaws (codec : JournalCodec β) (processId : Nat) (es : List (Event κ))
    (hrun : NewNames codec (trace (step codec) (.start processId) es)) :
    BacklogLaws codec (trace (step codec) (.start processId) es) where
  kept front x back op journalPath h hr := by
    obtain ⟨-, -, hsafe⟩ := run_safe hrun h
    obtain ⟨name, hname, hfiled, hback⟩ := run_journaled hrun h hr
    refine ⟨name, hname, keptAt_of_journaled hsafe hfiled, fun y hy => ?_⟩
    obtain ⟨-, hsafe', -, -, hfiled'⟩ := hback y hy
    exact keptAt_of_journaled hsafe' hfiled'
  recovered front x back op name h hr y hy config files hevent hphase hsome := by
    obtain ⟨name', hname, -, hback⟩ := run_journaled hrun h hr
    cases hname
    obtain ⟨hsafe, -, hstep, hfiled, -⟩ := hback y hy
    rw [hevent] at hstep
    obtain ⟨s', hrecover, heq⟩ := Option.map_eq_some_iff.mp hstep
    rw [hphase] at hrecover
    cases hrecover
    have hafter : y.before.readJournal codec config (name :: files) true = y.after :=
      congrArg Prod.snd heq
    rw [← hafter]
    exact readJournal_filed hsafe hfiled hsome
  capped x hx := by
    obtain ⟨front, back, h⟩ := mem_iff_append.mp hx
    obtain ⟨hsafe, hstep, -⟩ := run_safe hrun h
    exact step_occupied hsafe hstep
  counted x hx s hs hquiet := by
    obtain ⟨front, back, h⟩ := mem_iff_append.mp hx
    obtain ⟨hbefore, -, hafter⟩ := run_safe hrun h
    rcases hs with rfl | rfl
    · exact counted_of_quiet hbefore hquiet
    · exact counted_of_quiet hafter hquiet

/-! ### Two processes with one name -/

def demo : Text := "demo".toList

/-- What `serde_json` writes for a signal of the project to be cleared. -/
def signalText (agentName : Text) : Text :=
  "\x7b\"kind\":\"ClearSignal\",\"project_slug\":\"demo\",\"agent_name\":\"".toList ++
    agentName ++ "\"\x7d".toList

def agentNames : List Text := ["A".toList, "B".toList]

/-- The two ops of the example, as they are written and read. -/
def signalCodec : JournalCodec Text where
  toVec
    | .clearSignal projectSlug agentName =>
      if projectSlug = demo ∧ agentName ∈ agentNames then some (signalText agentName) else none
    | _ => none
  fromSlice bytes :=
    (agentNames.find? fun agentName => signalText agentName = bytes).map (.clearSignal demo)
  fromSlice_toVec p bytes h := by
    have hsame (agent agent' : Text) : signalText agent' = signalText agent ↔ agent' = agent := by
      unfold signalText
      rw [List.append_left_inj, List.append_right_inj]
    have hfind : ∀ agentName ∈ agentNames, (agentNames.find? fun agentName' =>
        signalText agentName' = signalText agentName) = some agentName := by
      simp only [hsame]
      decide
    cases p with
    | clearSignal projectSlug agentName =>
      dsimp only at h
      rw [Option.ite_none_right_eq_some] at h
      obtain ⟨⟨hslug, hagent⟩, hbytes⟩ := h
      cases hbytes
      rw [hfind agentName hagent, hslug]
      rfl
    | _ => cases h

/-- A call of `push` that journals its op while the clock reads `micros`. -/
def pushes (agentName : Text) (micros : Nat) : List (Event Unit) :=
  .callPush (.clearSignal () demo agentName) 8192 :: replicate 6 (.push 0 true micros)

def recovers (name : JournalName) : List (Event Unit) :=
  .callRecover () (some [name]) :: replicate 4 (.recover true)

theorem backlogLaws_sample :
    BacklogLaws signalCodec (trace (step signalCodec) (.start 1)
      (pushes "A".toList 0 ++ [.crash 2] ++ recovers ⟨0, 1, 0⟩ ++ pushes "B".toList 0 ++
        replicate 5 (.drain true))) :=
  backlogLaws signalCodec 1 _ (by unfold NewNames; decide +kernel)

/-- Two processes with one id under a clock that reads nothing but zero: the second recovers the op
of the first, journals its own under the same name and ends. -/
def sameName : List (Event Unit) :=
  pushes "A".toList 0 ++ [.crash 1] ++ recovers ⟨0, 1, 0⟩ ++ pushes "B".toList 0 ++ [.crash 1]

theorem not_keptAt {codec : JournalCodec β} {s : ArchiveRetryBacklog κ β} {name : JournalName}
    {persisted other : PersistedWriteOp} {bytes : β} (hdone : s.materialized.isEmpty)
    (htop : s.dir.top name = some bytes) (hread : codec.fromSlice bytes = some other)
    (hother : other ≠ persisted) (hdead : s.deadLettered = []) :
    ¬ KeptAt codec s name persisted := by
  rintro (hmem | ⟨bytes', hbytes', hread'⟩ | ⟨hmem, -, -⟩)
  · rw [List.isEmpty_iff.mp hdone] at hmem
    cases hmem
  · cases htop.symm.trans hbytes'
    exact hother (Option.some.inj (hread.symm.trans hread'))
  · rw [hdead] at hmem
    cases hmem

/-- The journal file of the first op is replaced, and the op is nowhere. -/
theorem queued_lost : ¬ ∀ (codec : JournalCodec Text) (processId : Nat) (es : List (Event Unit)),
    BacklogLaws codec (trace (step codec) (.start processId) es) := by
  intro h
  let run := trace (step signalCodec) (.start 1) sameName
  let last := run.get ⟨20, by decide⟩
  have hlast : last ∈ run.drop 7 :=
    mem_of_getElem? (i := 13) (by rw [List.getElem?_drop]; rfl)
  have hdone : last.after.materialized.isEmpty := by decide
  have htop : last.after.dir.top ⟨0, 1, 0⟩ = some (signalText "B".toList) := by decide
  have hread : signalCodec.fromSlice (signalText "B".toList) =
      some (.clearSignal demo "B".toList) := rfl
  have hother : PersistedWriteOp.clearSignal demo "B".toList ≠ .clearSignal demo "A".toList := nofun
  have hdead : last.after.deadLettered = [] := by decide
  obtain ⟨name, hname, -, hkept⟩ := (h signalCodec 1 sameName).kept (run.take 6)
    (run.get ⟨6, by decide⟩) (run.drop 7) _ _ rfl rfl
  cases hname
  have hkept : KeptAt signalCodec last.after ⟨0, 1, 0⟩ (.clearSignal demo "A".toList) :=
    hkept last hlast
  exact not_keptAt hdone htop hread hother hdead hkept

end AgentMail.Backlog
