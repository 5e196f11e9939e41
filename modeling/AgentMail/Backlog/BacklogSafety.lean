import AgentMail.Backlog.RetryBacklog
import AgentMail.Lib.Shares

/-!
# Where a journaled op is

An entry with a journal file is an item on file: its file lies in the journal directory until the op
is materialized, or is moved to `failed/` when the op was dead-lettered. The names of the files are
new as long as no process draws one that an earlier process has drawn.
-/

namespace AgentMail.Backlog

open Base Lib List Function

variable {κ β : Type}

/-! ### The invariant -/

namespace PushPhase

/-- The name that a call has drawn and not used. -/
def name? : PushPhase κ → Option JournalName
  | .writing _ name => some name
  | .moving _ name => some name
  | .discarding _ name => some name
  | _ => none

/-- The call holds a reservation. -/
def reserves : PushPhase κ → Bool
  | .opening _ => true
  | .writing _ _ => true
  | .moving _ _ => true
  | .discarding _ _ => true
  | .enqueueing _ _ => true
  | _ => false

/-- The call has enqueued its op and not counted it. -/
def owes : PushPhase κ → Bool
  | .counting _ _ => true
  | _ => false

/-- What the call has journaled. -/
def Filed (journaled : List (JournalName × PersistedWriteOp)) : PushPhase κ → Prop
  | .enqueueing op journalPath =>
    ∀ name, journalPath = some name → (name, .fromOp op) ∈ journaled
  | .counting op journalPath => ∀ name, journalPath = some name → (name, .fromOp op) ∈ journaled
  | _ => True

end PushPhase

/-- The name in the hands of a call. -/
def nameOf (pushes : List (PushPhase κ)) (call : Nat) : Option JournalName :=
  pushes[call]?.bind PushPhase.name?

/-- Names are drawn once, and a file is written by the call that has its name. -/
structure Names (codec : JournalCodec β) (processId nextSeq : Nat) (earlier drawn : List JournalName)
    (journaled : List (JournalName × PersistedWriteOp)) (pushes : List (PushPhase κ))
    (tmp : JournalName → Option β) : Prop where
  own : ∀ name ∈ drawn, name.processId = processId ∧ name.seq < nextSeq
  used : ∀ x ∈ journaled, x.1 ∈ earlier ∨ x.1 ∈ drawn
  inHand : ∀ call name, nameOf pushes call = some name →
    name ∈ drawn ∧ ∀ persisted, (name, persisted) ∉ journaled
  distinct : ∀ call call' name, nameOf pushes call = some name → nameOf pushes call' = some name →
    call = call'
  written : ∀ (call : Nat) op name, pushes[call]? = some (.moving op name) →
    tmp name = codec.toVec (.fromOp op)

/-- An entry of the queue: its op is what was journaled, and its attempts were made. -/
def ArchiveBacklogEntry.Filed (journaled : List (JournalName × PersistedWriteOp))
    (failures : List JournalName) (entry : ArchiveBacklogEntry κ) : Prop :=
  ∀ name, entry.journalPath = some name →
    (name, .fromOp entry.op) ∈ journaled ∧ entry.attempts ≤ failures.count name

def RecoverPhase.Filed (journaled : List (JournalName × PersistedWriteOp)) : RecoverPhase κ → Prop
  | .pushing _ op name _ => (name, .fromOp op) ∈ journaled
  | .settingAside _ _ _ => False
  | _ => True

/-- Whoever has an op with a journal file has what was journaled. -/
structure Entries (journaled : List (JournalName × PersistedWriteOp)) (failures : List JournalName)
    (queue : List (ArchiveBacklogEntry κ)) (pushes : List (PushPhase κ))
    (recovery : RecoverPhase κ) : Prop where
  queued : ∀ entry ∈ queue, entry.Filed journaled failures
  pushed : ∀ phase ∈ pushes, phase.Filed journaled
  recovered : recovery.Filed journaled

namespace ArchiveRetryBacklog

/-- The journal directory as files that are kept until they are dealt with. -/
def custody (codec : JournalCodec β) (s : ArchiveRetryBacklog κ β) :
    Custody JournalName PersistedWriteOp where
  filed := s.journaled
  desk name := (s.dir.top name).bind codec.fromSlice
  shelf name := (s.dir.failed name).bind codec.fromSlice
  done := s.materialized.filterMap fun x => x.1.map fun name => (name, x.2)
  failures := s.failures
  givenUp := s.deadLettered

/-- The op of the file is materialized. -/
def Settled (s : ArchiveRetryBacklog κ β) (name : JournalName) : Prop :=
  ∃ persisted, (name, persisted) ∈ s.journaled ∧ (some name, persisted) ∈ s.materialized

end ArchiveRetryBacklog

namespace DrainPhase

/-- The drainer has taken an entry out of the queue and not counted it. -/
def owes : DrainPhase κ → Nat
  | .countingDrained _ => 1
  | .countingDeadLettered _ => 1
  | _ => 0

/-- What the drainer knows: only it takes entries out of the queue or changes the front. -/
def Sound (s : ArchiveRetryBacklog κ β) : DrainPhase κ → Prop
  | .idle => True
  | .writing op attempts journalPath => s.queue.head? = some ⟨op, journalPath, attempts⟩
  | .popping journalPath => (∃ entry, s.queue.head? = some entry) ∧
    ∀ name, journalPath = some name → s.Settled name
  | .countingDrained journalPath => ∀ name, journalPath = some name → s.Settled name
  | .resolving name => s.Settled name
  | .retrying attempts => ∃ entry, s.queue.head? = some entry ∧
    ∀ name, entry.journalPath = some name → attempts ≤ s.failures.count name
  | .deadLettering => ∃ entry, s.queue.head? = some entry ∧
    ∀ name, entry.journalPath = some name → archiveBacklogMaxAttempts ≤ s.failures.count name
  | .countingDeadLettered journalPath => ∀ name, journalPath = some name → name ∈ s.deadLettered
  | .quarantining name => name ∈ s.deadLettered

end DrainPhase

def RecoverPhase.owes : RecoverPhase κ → Nat
  | .counting _ _ => 1
  | _ => 0

/-- Every entry was counted once or is about to be. -/
structure Accounts (pushes : List (PushPhase κ)) (queue : List (ArchiveBacklogEntry κ))
    (reserved depth enqueuedTotal drainedTotal deadLetteredTotal : Nat) (drain : DrainPhase κ)
    (recovery : RecoverPhase κ) : Prop where
  held : reserved = pushes.countP PushPhase.reserves
  stored : depth = queue.length
  balance : enqueuedTotal + pushes.countP PushPhase.owes + recovery.owes =
    drainedTotal + deadLetteredTotal + drain.owes + queue.length

/-- The invariant of a run in which no name is drawn again. -/
structure Safe (codec : JournalCodec β) (s : ArchiveRetryBacklog κ β) : Prop where
  names : Names codec s.processId s.nextSeq s.earlier s.drawn s.journaled s.pushes s.dir.tmp
  entries : Entries s.journaled s.failures s.queue s.pushes s.recovery
  drain : s.drain.Sound s
  accounts : Accounts s.pushes s.queue s.reserved s.depth s.enqueuedTotal s.drainedTotal
    s.deadLetteredTotal s.drain s.recovery
  readable : ∀ name bytes, s.dir.top name = some bytes → (codec.fromSlice bytes).isSome
  custody : (s.custody codec).Inv archiveBacklogMaxAttempts

theorem safe_start (codec : JournalCodec β) (processId : Nat) :
    Safe (κ := κ) codec (.start processId) where
  names := ⟨forall_mem_nil _, forall_mem_nil _, fun _ _ h => (by cases h),
    fun _ _ _ h => (by cases h), fun _ _ _ h => (by cases h)⟩
  entries := ⟨forall_mem_nil _, forall_mem_nil _, trivial⟩
  drain := trivial
  accounts := ⟨rfl, rfl, rfl⟩
  readable _ _ h := by cases h
  custody := Custody.inv_empty

/-! ### Calls of `push` -/

variable {name : JournalName} {op : WriteOp κ}

section

variable {codec : JournalCodec β} {processId nextSeq : Nat} {earlier drawn : List JournalName}
  {journaled : List (JournalName × PersistedWriteOp)} {pushes : List (PushPhase κ)}
  {tmp : JournalName → Option β} {call : Nat} {old phase : PushPhase κ}

theorem getElem?_set_of_mem (hcall : pushes[call]? = some old) (call' : Nat) :
    (pushes.set call phase)[call']? = if call' = call then some phase else pushes[call']? := by
  obtain ⟨hlt, -⟩ := List.getElem?_eq_some_iff.mp hcall
  rw [List.getElem?_set]
  by_cases h : call' = call
  · rw [if_pos h, if_pos h.symm, if_pos hlt]
  · rw [if_neg h, if_neg (Ne.symm h)]

theorem nameOf_set (hcall : pushes[call]? = some old) (call' : Nat) :
    nameOf (pushes.set call phase) call' =
      if call' = call then phase.name? else nameOf pushes call' := by
  rw [nameOf, getElem?_set_of_mem hcall]
  split
  · rfl
  · rfl

section

variable (h : Names codec processId nextSeq earlier drawn journaled pushes tmp)
include h

/-- A call goes on with the name that it has, or drops it. -/
theorem Names.setPush
    (hcall : pushes[call]? = some old) (phase : PushPhase κ)
    (hname : ∀ name, phase.name? = some name → old.name? = some name)
    (hwritten : ∀ op name, phase = .moving op name → tmp name = codec.toVec (.fromOp op)) :
    Names codec processId nextSeq earlier drawn journaled (pushes.set call phase) tmp := by
  have hbefore (call' : Nat) (name : JournalName)
      (hset : nameOf (pushes.set call phase) call' = some name) : nameOf pushes call' = some name := by
    rw [nameOf_set hcall] at hset
    split at hset
    · next heq =>
      rw [heq, nameOf, hcall]
      exact hname name hset
    · exact hset
  refine ⟨h.own, h.used, fun call' name hset => h.inHand call' name (hbefore call' name hset),
    fun i j name hi hj => h.distinct i j name (hbefore i name hi) (hbefore j name hj),
    fun call' op name hset => ?_⟩
  rw [getElem?_set_of_mem hcall] at hset
  split at hset
  · exact hwritten op name (Option.some.inj hset)
  · exact h.written call' op name hset

/-- A file is written or moved; calls that wait for it still find what they wrote. -/
theorem Names.setTmp
    (bytes : Option β) (hwritten : ∀ (call : Nat) op, pushes[call]? = some (.moving op name) →
      bytes = codec.toVec (.fromOp op)) :
    Names codec processId nextSeq earlier drawn journaled pushes
      (update tmp name bytes) := by
  refine ⟨h.own, h.used, h.inHand, h.distinct, fun call op name' hcall => ?_⟩
  by_cases hsame : name' = name
  · subst hsame
    rw [update_self]
    exact hwritten call op hcall
  · rw [update_of_ne hsame]
    exact h.written call op name' hcall

/-- Nobody waits for the file of a call that has its name and does not. -/
theorem Names.not_moving
    (hcall : pushes[call]? = some old) (hname : old.name? = some name)
    (hold : ∀ op, old ≠ .moving op name) (call' : Nat) (op : WriteOp κ) :
    pushes[call']? ≠ some (.moving op name) := by
  intro hcall'
  have heq : call' = call :=
    h.distinct call' call name (by rw [nameOf, hcall']; rfl) (by rw [nameOf, hcall, ← hname]; rfl)
  subst heq
  exact hold op (Option.some.inj (hcall.symm.trans hcall'))

/-- A name with a new number is new, if no earlier process has drawn it. -/
theorem Names.draw
    (hcall : pushes[call]? = some old) (hid : name.processId = processId)
    (hseq : name.seq = nextSeq) (hnew : name ∉ earlier) :
    Names codec processId (nextSeq + 1) earlier (drawn ++ [name]) journaled
      (pushes.set call (.writing op name)) tmp := by
  have hfresh : name ∉ drawn := fun hmem =>
    Nat.lt_irrefl _ (hseq ▸ (h.own name hmem).2)
  have hunused (persisted : PersistedWriteOp) : (name, persisted) ∉ journaled := fun hmem =>
    (h.used _ hmem).elim hnew hfresh
  have hcases {call' : Nat} {name' : JournalName}
      (hset : nameOf (pushes.set call (.writing op name)) call' = some name') :
      (call' = call ∧ name' = name) ∨ nameOf pushes call' = some name' := by
    rw [nameOf_set hcall] at hset
    split at hset
    · next heq => exact .inl ⟨heq, (Option.some.inj hset).symm⟩
    · exact .inr hset
  refine ⟨fun name' hmem => ?_, fun x hx => ?_, fun call' name' hset => ?_,
    fun i j name' hi hj => ?_, fun call' op' name' hset => ?_⟩
  · rcases mem_append.mp hmem with hmem | hmem
    · exact ⟨(h.own name' hmem).1, Nat.lt_succ_of_lt (h.own name' hmem).2⟩
    · rw [mem_singleton.mp hmem]
      exact ⟨hid, hseq ▸ Nat.lt_succ_self _⟩
  · exact (h.used x hx).imp_right (mem_append_left _)
  · rcases hcases hset with ⟨-, rfl⟩ | hset
    · exact ⟨mem_append_right _ mem_cons_self, hunused⟩
    · exact ⟨mem_append_left _ (h.inHand call' name' hset).1, (h.inHand call' name' hset).2⟩
  · rcases hcases hi with ⟨rfl, rfl⟩ | hi'
    · rcases hcases hj with ⟨rfl, -⟩ | hj'
      · rfl
      · exact absurd (h.inHand j name' hj').1 hfresh
    · rcases hcases hj with ⟨rfl, rfl⟩ | hj'
      · exact absurd (h.inHand i name' hi').1 hfresh
      · exact h.distinct i j name' hi' hj'
  · rw [getElem?_set_of_mem hcall] at hset
    split at hset
    · cases hset
    · exact h.written call' op' name' hset

/-- A name is used by the call that has it. -/
theorem Names.file
    (hcall : pushes[call]? = some old) (name : JournalName) (hname : old.name? = some name)
    (persisted : PersistedWriteOp) (op : WriteOp κ) :
    Names codec processId nextSeq earlier drawn (journaled ++ [(name, persisted)])
      (pushes.set call (.enqueueing op (some name))) tmp := by
  have hold : nameOf pushes call = some name := by rw [nameOf, hcall, ← hname]; rfl
  have hset := h.setPush hcall (.enqueueing op (some name)) nofun nofun
  refine ⟨h.own, fun x hx => ?_, fun call' name' hname' => ?_, hset.distinct, hset.written⟩
  · rcases mem_append.mp hx with hx | hx
    · exact h.used x hx
    · rw [mem_singleton.mp hx]
      exact .inr (h.inHand call name hold).1
  · have hbefore := hname'
    rw [nameOf_set hcall] at hbefore
    split at hbefore
    · cases hbefore
    · next hne =>
      refine ⟨(h.inHand call' name' hbefore).1, fun persisted' hmem => ?_⟩
      rcases mem_append.mp hmem with hmem | hmem
      · exact (h.inHand call' name' hbefore).2 persisted' hmem
      · have heq : name' = name := congrArg Prod.fst (mem_singleton.mp hmem)
        exact hne (h.distinct call' call name (heq ▸ hbefore) hold)

end

end

/-! ### What stays true when the records grow -/

section

variable {codec : JournalCodec β} {s s' : ArchiveRetryBacklog κ β}

theorem ArchiveRetryBacklog.Settled.mono (h : s.Settled name)
    (hjournaled : s.journaled ⊆ s'.journaled) (hmaterialized : s.materialized ⊆ s'.materialized) :
    s'.Settled name := by
  obtain ⟨persisted, hfiled, hdone⟩ := h
  exact ⟨persisted, hjournaled hfiled, hmaterialized hdone⟩

theorem DrainPhase.Sound.mono {phase : DrainPhase κ} (h : phase.Sound s)
    (hfront : ∀ entry, s.queue.head? = some entry → s'.queue.head? = some entry)
    (hjournaled : s.journaled ⊆ s'.journaled) (hmaterialized : s.materialized ⊆ s'.materialized)
    (hfailures : s.failures.Sublist s'.failures) (hdead : s.deadLettered ⊆ s'.deadLettered) :
    phase.Sound s' := by
  have hcount (name : JournalName) : s.failures.count name ≤ s'.failures.count name :=
    hfailures.count_le name
  cases phase with
  | idle => trivial
  | writing op attempts journalPath => exact hfront _ h
  | popping journalPath =>
    obtain ⟨⟨entry, hentry⟩, hsettled⟩ := h
    exact ⟨⟨entry, hfront entry hentry⟩,
      fun name hname => (hsettled name hname).mono hjournaled hmaterialized⟩
  | countingDrained journalPath =>
    exact fun name hname => (h name hname).mono hjournaled hmaterialized
  | resolving name => exact ArchiveRetryBacklog.Settled.mono h hjournaled hmaterialized
  | retrying attempts =>
    obtain ⟨entry, hentry, hattempts⟩ := h
    exact ⟨entry, hfront entry hentry,
      fun name hname => Nat.le_trans (hattempts name hname) (hcount name)⟩
  | deadLettering =>
    obtain ⟨entry, hentry, hattempts⟩ := h
    exact ⟨entry, hfront entry hentry,
      fun name hname => Nat.le_trans (hattempts name hname) (hcount name)⟩
  | countingDeadLettered journalPath => exact fun name hname => hdead (h name hname)
  | quarantining name => exact hdead h

theorem ArchiveBacklogEntry.Filed.mono {journaled journaled' : List (JournalName × PersistedWriteOp)}
    {failures failures' : List JournalName} {entry : ArchiveBacklogEntry κ}
    (h : entry.Filed journaled failures) (hjournaled : journaled ⊆ journaled')
    (hfailures : failures.Sublist failures') : entry.Filed journaled' failures' :=
  fun name hname => ⟨hjournaled (h name hname).1,
    Nat.le_trans (h name hname).2 (hfailures.count_le name)⟩

theorem PushPhase.Filed.mono {journaled journaled' : List (JournalName × PersistedWriteOp)}
    {phase : PushPhase κ} (h : phase.Filed journaled) (hjournaled : journaled ⊆ journaled') :
    phase.Filed journaled' := by
  cases phase with
  | enqueueing op journalPath => exact fun name hname => hjournaled (h name hname)
  | counting op journalPath => exact fun name hname => hjournaled (h name hname)
  | _ => trivial

theorem RecoverPhase.Filed.mono {journaled journaled' : List (JournalName × PersistedWriteOp)}
    {phase : RecoverPhase κ} (h : phase.Filed journaled) (hjournaled : journaled ⊆ journaled') :
    phase.Filed journaled' := by
  cases phase with
  | pushing config op name files => exact hjournaled h
  | settingAside config name files => exact h
  | _ => trivial

theorem Entries.mono {journaled journaled' : List (JournalName × PersistedWriteOp)}
    {failures failures' : List JournalName} {queue : List (ArchiveBacklogEntry κ)}
    {pushes : List (PushPhase κ)} {recovery : RecoverPhase κ}
    (h : Entries journaled failures queue pushes recovery) (hjournaled : journaled ⊆ journaled')
    (hfailures : failures.Sublist failures') : Entries journaled' failures' queue pushes recovery :=
  ⟨fun entry hentry => (h.queued entry hentry).mono hjournaled hfailures,
    fun phase hphase => (h.pushed phase hphase).mono hjournaled, h.recovered.mono hjournaled⟩

end

/-! ### The steps of `push` -/

variable {s' : ArchiveRetryBacklog κ β}

namespace Safe

variable {codec : JournalCodec β} {s : ArchiveRetryBacklog κ β} {call : Nat} {old : PushPhase κ}

/-- A call goes on, and counts what it does. -/
theorem setPush (h : Safe codec s) (hcall : s.pushes[call]? = some old) (phase : PushPhase κ)
    {nextSeq : Nat} {drawn : List JournalName} {tmp : JournalName → Option β}
    (hnames : Names codec s.processId nextSeq s.earlier drawn s.journaled
      (s.pushes.set call phase) tmp)
    (hfiled : phase.Filed s.journaled) {reserved droppedTotal enqueuedTotal ephemeralTotal : Nat}
    (hreserved : reserved + (if old.reserves then 1 else 0) =
      s.reserved + (if phase.reserves then 1 else 0))
    (howes : enqueuedTotal + (if phase.owes then 1 else 0) =
      s.enqueuedTotal + (if old.owes then 1 else 0)) :
    Safe codec { s.setPush call phase with
      dir := { s.dir with tmp }, nextSeq, drawn, reserved, droppedTotal, enqueuedTotal,
      ephemeralTotal } := by
  have hheld := countP_set_add PushPhase.reserves hcall phase
  have howed := countP_set_add PushPhase.owes hcall phase
  refine ⟨hnames, ⟨h.entries.queued, fun phase' hmem => ?_, h.entries.recovered⟩, h.drain,
    ⟨?_, h.accounts.stored, ?_⟩, h.readable, h.custody⟩
  · rcases mem_or_eq_of_mem_set hmem with hmem | rfl
    · exact h.entries.pushed phase' hmem
    · exact hfiled
  · show reserved = (s.pushes.set call phase).countP PushPhase.reserves
    have hsame := h.accounts.held
    omega
  · show enqueuedTotal + (s.pushes.set call phase).countP PushPhase.owes + s.recovery.owes =
      s.drainedTotal + s.deadLetteredTotal + s.drain.owes + s.queue.length
    have hsame := h.accounts.balance
    omega

theorem callPush (h : Safe codec s) (op : WriteOp κ) (cap : Nat) : Safe codec (s.callPush op cap) := by
  have hget {call : Nat} {phase : PushPhase κ}
      (hphase : (s.pushes ++ [PushPhase.reserving op cap])[call]? = some phase) :
      s.pushes[call]? = some phase ∨ phase = .reserving op cap :=
    (getElem?_append_cases hphase).imp_right And.right
  have hname {call : Nat} {name : JournalName}
      (hname : nameOf (s.pushes ++ [PushPhase.reserving op cap]) call = some name) :
      nameOf s.pushes call = some name := by
    obtain ⟨phase, hphase, hhas⟩ := Option.bind_eq_some_iff.mp hname
    rcases hget hphase with hold | rfl
    · exact Option.bind_eq_some_iff.mpr ⟨phase, hold, hhas⟩
    · cases hhas
  refine ⟨⟨h.names.own, h.names.used, fun call name hhas => h.names.inHand call name (hname hhas),
    fun i j name hi hj => h.names.distinct i j name (hname hi) (hname hj),
    fun call op' name hphase => ?_⟩, ⟨h.entries.queued, fun phase hmem => ?_, h.entries.recovered⟩,
    h.drain, ⟨?_, h.accounts.stored, ?_⟩, h.readable, h.custody⟩
  · rcases hget hphase with hold | hnew
    · exact h.names.written call op' name hold
    · cases hnew
  · rcases mem_append.mp hmem with hmem | hmem
    · exact h.entries.pushed phase hmem
    · rw [mem_singleton.mp hmem]
      trivial
  · show s.reserved = (s.pushes ++ [PushPhase.reserving op cap]).countP PushPhase.reserves
    rw [countP_append, h.accounts.held]
    rfl
  · show s.enqueuedTotal + (s.pushes ++ [PushPhase.reserving op cap]).countP PushPhase.owes + _ = _
    rw [countP_append]
    exact h.accounts.balance

theorem reserve (h : Safe codec s) {cap : Nat}
    (hcall : s.pushes[call]? = some (.reserving op cap)) :
    Safe codec (s.reserve call op cap).2 := by
  rw [ArchiveRetryBacklog.reserve]
  split
  · exact h.setPush hcall .returned (h.names.setPush hcall _ nofun nofun) trivial rfl rfl
  · exact h.setPush hcall (.opening op) (h.names.setPush hcall _ nofun nofun) trivial rfl rfl

/-- The name that `openJournal` draws, if it draws one. -/
def drawnName (codec : JournalCodec β) (s : ArchiveRetryBacklog κ β) (op : WriteOp κ) (ok : Bool)
    (micros : Nat) : Option JournalName :=
  if ok && (codec.toVec (.fromOp op)).isSome then some ⟨micros, s.processId, s.nextSeq⟩ else none

variable {ok : Bool}

theorem openJournal (h : Safe codec s) {micros : Nat} (hcall : s.pushes[call]? = some (.opening op))
    (hnew : ∀ name, drawnName codec s op ok micros = some name → name ∉ s.earlier) :
    Safe codec (s.openJournal codec call op ok micros) := by
  rw [ArchiveRetryBacklog.openJournal]
  split
  · next hdraws =>
    have hname := hnew _ (by rw [drawnName, if_pos hdraws])
    exact h.setPush hcall (.writing op ⟨micros, s.processId, s.nextSeq⟩)
      (h.names.draw hcall rfl rfl hname) trivial rfl rfl
  · exact h.setPush hcall (.enqueueing op none) (h.names.setPush hcall _ nofun nofun) nofun rfl rfl

theorem writeTmp (h : Safe codec s) (hcall : s.pushes[call]? = some (.writing op name)) :
    Safe codec (s.writeTmp codec call op name ok) := by
  rw [ArchiveRetryBacklog.writeTmp]
  split
  · have htmp := h.names.setTmp (codec.toVec (.fromOp op)) fun call' op' hphase =>
      absurd hphase (h.names.not_moving hcall rfl nofun call' op')
    refine h.setPush hcall (.moving op name) (htmp.setPush hcall _ (fun _ hsame => hsame) ?_) trivial
      rfl rfl
    intro op' name' hphase
    cases hphase
    exact update_self ..
  · exact h.setPush hcall (.discarding op name)
      (h.names.setPush hcall _ (fun _ hsame => hsame) nofun) trivial rfl rfl

/-- The item is filed: what was written is what was to be written. -/
theorem renameTmp (h : Safe codec s) (hcall : s.pushes[call]? = some (.moving op name)) :
    Safe codec (s.renameTmp call op name ok) := by
  rw [ArchiveRetryBacklog.renameTmp]
  split
  · next hrenames =>
    obtain ⟨bytes, hbytes⟩ := Option.isSome_iff_exists.mp (Bool.and_eq_true_iff.mp hrenames).2
    have hread : codec.fromSlice bytes = some (.fromOp op) :=
      codec.fromSlice_toVec _ _ ((h.names.written call op name hcall).symm.trans hbytes)
    have hnew (persisted : PersistedWriteOp) : (name, persisted) ∉ s.journaled :=
      (h.names.inHand call name (by rw [nameOf, hcall]; rfl)).2 persisted
    have hfiled := h.names.file hcall name rfl (.fromOp op) op
    have hmore : s.journaled ⊆ s.journaled ++ [(name, .fromOp op)] := subset_append_left _ _
    have hmem : (name, .fromOp op) ∈ s.journaled ++ [(name, .fromOp op)] :=
      mem_append_right _ mem_cons_self
    have hentries := h.entries.mono hmore (List.Sublist.refl _)
    have hheld : (s.pushes.set call (.enqueueing op (some name))).countP PushPhase.reserves + 1 =
        s.pushes.countP PushPhase.reserves + 1 := countP_set_add PushPhase.reserves hcall _
    have howed : (s.pushes.set call (.enqueueing op (some name))).countP PushPhase.owes + 0 =
        s.pushes.countP PushPhase.owes + 0 := countP_set_add PushPhase.owes hcall _
    have hdesk : (fun name' => (update s.dir.top name (some bytes) name').bind codec.fromSlice) =
        update (s.custody codec).desk name (some (.fromOp op)) := by
      funext name'
      rw [update_apply, update_apply]
      split
      · exact hread
      · rfl
    have hcustody := Custody.step_inv h.custody (.file name (.fromOp op) hnew)
    rw [← hdesk] at hcustody
    refine ⟨?_, ⟨hentries.queued, fun phase hphase => ?_, hentries.recovered⟩, ?_,
      ⟨?_, h.accounts.stored, ?_⟩, fun name' bytes' hbytes' => ?_, ?_⟩
    · refine hfiled.setTmp none fun call' op' hphase => ?_
      exact absurd hmem ((hfiled.inHand call' name (by rw [nameOf, hphase]; rfl)).2 _)
    · rcases mem_or_eq_of_mem_set hphase with hphase | rfl
      · exact hentries.pushed phase hphase
      · intro name' hname'
        cases hname'
        exact hmem
    · exact h.drain.mono (fun _ hentry => hentry) hmore (List.Subset.refl _) (List.Sublist.refl _)
        (List.Subset.refl _)
    · show s.reserved = (s.pushes.set call (.enqueueing op (some name))).countP PushPhase.reserves
      have hsame := h.accounts.held
      omega
    · show s.enqueuedTotal + (s.pushes.set call (.enqueueing op (some name))).countP PushPhase.owes +
        s.recovery.owes = s.drainedTotal + s.deadLetteredTotal + s.drain.owes + s.queue.length
      have hsame := h.accounts.balance
      omega
    · replace hbytes' : update s.dir.top name (s.dir.tmp name) name' = some bytes' := hbytes'
      rw [hbytes, update_apply] at hbytes'
      split at hbytes'
      · cases hbytes'
        rw [hread]
        rfl
      · exact h.readable name' bytes' hbytes'
    · rw [hbytes]
      exact hcustody
  · exact h.setPush hcall (.discarding op name)
      (h.names.setPush hcall _ (fun _ hsame => hsame) nofun) trivial rfl rfl

theorem discardTmp (h : Safe codec s) {moved : Bool}
    (hcall : s.pushes[call]? = some (.discarding op name)) :
    Safe codec (s.discardTmp call op name moved) := by
  have htmp := h.names.setTmp none fun call' op' hphase =>
    absurd hphase (h.names.not_moving hcall rfl nofun call' op')
  rw [ArchiveRetryBacklog.discardTmp]
  cases moved
  · exact h.setPush hcall (.enqueueing op none) (h.names.setPush hcall _ nofun nofun) nofun rfl rfl
  · exact h.setPush hcall (.enqueueing op none) (htmp.setPush hcall _ nofun nofun) nofun rfl rfl

theorem head?_append_of_some {α : Type} {l : List α} {a : α} (h : l.head? = some a) (l' : List α) :
    (l ++ l').head? = some a := by
  rw [List.head?_append, h]
  rfl

variable {journalPath : Option JournalName}

theorem enqueue (h : Safe codec s) (hcall : s.pushes[call]? = some (.enqueueing op journalPath)) :
    Safe codec (s.enqueue call op journalPath) := by
  have hfiled : (PushPhase.enqueueing op journalPath).Filed s.journaled :=
    h.entries.pushed _ (mem_of_getElem? hcall)
  have hheld : (s.pushes.set call (.counting op journalPath)).countP PushPhase.reserves + 1 =
      s.pushes.countP PushPhase.reserves + 0 := countP_set_add PushPhase.reserves hcall _
  have howed : (s.pushes.set call (.counting op journalPath)).countP PushPhase.owes + 0 =
      s.pushes.countP PushPhase.owes + 1 := countP_set_add PushPhase.owes hcall _
  have hlength : (s.queue ++ [ArchiveBacklogEntry.mk op journalPath 0]).length =
      s.queue.length + 1 := length_append
  refine ⟨h.names.setPush hcall _ nofun nofun,
    ⟨fun entry hentry => ?_, fun phase hphase => ?_, h.entries.recovered⟩, ?_, ⟨?_, rfl, ?_⟩,
    h.readable, h.custody⟩
  · rcases mem_append.mp hentry with hentry | hentry
    · exact h.entries.queued entry hentry
    · rw [mem_singleton.mp hentry]
      exact fun name hname => ⟨hfiled name hname, Nat.zero_le _⟩
  · rcases mem_or_eq_of_mem_set hphase with hphase | rfl
    · exact h.entries.pushed phase hphase
    · exact hfiled
  · exact h.drain.mono (fun entry hentry => head?_append_of_some hentry _) (List.Subset.refl _)
      (List.Subset.refl _) (List.Sublist.refl _) (List.Subset.refl _)
  · show s.reserved - 1 = (s.pushes.set call (.counting op journalPath)).countP PushPhase.reserves
    have hsame := h.accounts.held
    omega
  · show s.enqueuedTotal + (s.pushes.set call (.counting op journalPath)).countP PushPhase.owes +
      s.recovery.owes = s.drainedTotal + s.deadLetteredTotal + s.drain.owes +
        (s.queue ++ [ArchiveBacklogEntry.mk op journalPath 0]).length
    have hsame := h.accounts.balance
    omega

theorem finishPush (h : Safe codec s) (hcall : s.pushes[call]? = some (.counting op journalPath)) :
    Safe codec (s.finishPush call op journalPath).2 :=
  h.setPush hcall .returned (h.names.setPush hcall _ nofun nofun) trivial rfl rfl

theorem pushStep (h : Safe codec s) {micros : Nat} {r : Response κ}
    {phase : PushPhase κ} (hcall : s.pushes[call]? = some phase)
    (hnew : ∀ op name, phase = .opening op → drawnName codec s op ok micros = some name →
      name ∉ s.earlier)
    (hstep : s.pushStep codec call ok micros phase = some (r, s')) : Safe codec s' := by
  cases phase with
  | reserving op cap =>
    cases congrArg Prod.snd (Option.some.inj hstep)
    exact h.reserve hcall
  | opening op =>
    cases hstep
    exact h.openJournal hcall fun name => hnew op name rfl
  | writing op name =>
    cases hstep
    exact h.writeTmp hcall
  | moving op name =>
    cases hstep
    exact h.renameTmp hcall
  | discarding op name =>
    cases hstep
    exact h.discardTmp hcall
  | enqueueing op journalPath =>
    cases hstep
    exact h.enqueue hcall
  | counting op journalPath =>
    cases hstep
    exact h.finishPush hcall
  | returned => cases hstep

/-! ### The steps of the drainer -/

theorem peekFront (h : Safe codec s) (hidle : s.drain = .idle) : Safe codec s.peekFront := by
  rw [ArchiveRetryBacklog.peekFront]
  split
  · exact h
  · next entry rest hqueue =>
    have hbalance := h.accounts.balance
    rw [hidle] at hbalance
    refine ⟨h.names, h.entries, ?_, ⟨h.accounts.held, h.accounts.stored, hbalance⟩,
      h.readable, h.custody⟩
    show s.queue.head? = some entry
    rw [hqueue]
    rfl

theorem mem_done {persisted : PersistedWriteOp} :
    (name, persisted) ∈ (s.custody codec).done ↔ (some name, persisted) ∈ s.materialized := by
  show (name, persisted) ∈ s.materialized.filterMap (fun x => x.1.map fun name => (name, x.2)) ↔ _
  rw [mem_filterMap]
  constructor
  · rintro ⟨⟨journalPath, persisted'⟩, hmem, heq⟩
    obtain ⟨name', rfl, heq⟩ := Option.map_eq_some_iff.mp heq
    cases heq
    exact hmem
  · intro hmem
    exact ⟨_, hmem, rfl⟩

/-- What the drainer does for an entry without a file is of no concern. -/
theorem custody_materialize (h : (s.custody codec).Inv archiveBacklogMaxAttempts)
    (journalPath : Option JournalName) (persisted : PersistedWriteOp) :
    (ArchiveRetryBacklog.custody codec
      { s with materialized := s.materialized ++ [(journalPath, persisted)] }).Inv
      archiveBacklogMaxAttempts := by
  rw [ArchiveRetryBacklog.custody]
  rw [filterMap_append]
  cases journalPath with
  | none =>
    show Custody.Inv _ { s.custody codec with done := (s.custody codec).done ++ [] }
    rw [append_nil]
    exact h
  | some name => exact Custody.step_inv h (.finish (name, persisted))

theorem custody_fail (h : (s.custody codec).Inv archiveBacklogMaxAttempts)
    (journalPath : Option JournalName) :
    (ArchiveRetryBacklog.custody codec { s with failures := s.failures ++ journalPath.toList }).Inv
      archiveBacklogMaxAttempts := by
  cases journalPath with
  | none =>
    show Custody.Inv _ { s.custody codec with failures := s.failures ++ [] }
    rw [append_nil]
    exact h
  | some name => exact Custody.step_inv h (.fail name)

/-- An attempt is on record whether it succeeds or fails. -/
theorem writeOp (h : Safe codec s) {attempts : Nat}
    (hphase : s.drain = .writing op attempts journalPath) :
    Safe codec (s.writeOp op attempts journalPath ok) := by
  have hfront : s.queue.head? = some ⟨op, journalPath, attempts⟩ := by
    have hsound := h.drain
    rw [hphase] at hsound
    exact hsound
  have hfiled := h.entries.queued _ (mem_of_head? hfront)
  have hbalance := h.accounts.balance
  rw [hphase] at hbalance
  rw [ArchiveRetryBacklog.writeOp]
  split
  · refine ⟨h.names, h.entries, ⟨⟨_, hfront⟩, fun name hname => ?_⟩,
      ⟨h.accounts.held, h.accounts.stored, hbalance⟩, h.readable, custody_materialize h.custody _ _⟩
    rw [hname]
    exact ⟨_, (hfiled name hname).1, mem_append_right _ mem_cons_self⟩
  · have hmore : s.failures.Sublist (s.failures ++ journalPath.toList) :=
      sublist_append_left _ _
    have hcount (name : JournalName) (hname : journalPath = some name) :
        attempts + 1 ≤ (s.failures ++ journalPath.toList).count name := by
      have hattempts : attempts ≤ s.failures.count name := (hfiled name hname).2
      have hone : (journalPath.toList).count name = 1 := by rw [hname]; simp
      rw [count_append, hone]
      omega
    have hentries := h.entries.mono (List.Subset.refl _) hmore
    by_cases hlast : attempts + 1 ≥ archiveBacklogMaxAttempts
    · rw [if_pos hlast]
      exact ⟨h.names, hentries, ⟨_, hfront, fun name hname => Nat.le_trans hlast (hcount name hname)⟩,
        ⟨h.accounts.held, h.accounts.stored, hbalance⟩, h.readable, custody_fail h.custody _⟩
    · rw [if_neg hlast]
      exact ⟨h.names, hentries, ⟨_, hfront, hcount⟩,
        ⟨h.accounts.held, h.accounts.stored, hbalance⟩, h.readable, custody_fail h.custody _⟩

theorem length_tail_of_head? {α : Type} {l : List α} {a : α} (h : l.head? = some a) :
    l.tail.length + 1 = l.length := by
  cases l with
  | nil => cases h
  | cons b l => rfl

/-- What holds in the phase of the drainer. -/
theorem atPhase (h : Safe codec s) {phase : DrainPhase κ} (hphase : s.drain = phase) :
    phase.Sound s ∧ s.enqueuedTotal + s.pushes.countP PushPhase.owes + s.recovery.owes =
      s.drainedTotal + s.deadLetteredTotal + phase.owes + s.queue.length :=
  hphase ▸ ⟨h.drain, h.accounts.balance⟩

theorem popFront (h : Safe codec s) (hphase : s.drain = .popping journalPath) :
    Safe codec (s.popFront journalPath) := by
  obtain ⟨hsound, hbalance⟩ := h.atPhase hphase
  obtain ⟨⟨entry, hfront⟩, hsettled⟩ := hsound
  refine ⟨h.names, ⟨fun entry hentry => h.entries.queued entry (mem_of_mem_tail hentry),
    h.entries.pushed, h.entries.recovered⟩, hsettled, ⟨h.accounts.held, rfl, ?_⟩, h.readable, h.custody⟩
  have hlength := length_tail_of_head? hfront
  refine hbalance.trans ?_
  show s.drainedTotal + s.deadLetteredTotal + 0 + s.queue.length =
    s.drainedTotal + s.deadLetteredTotal + 1 + s.queue.tail.length
  omega

theorem countDrained (h : Safe codec s) (hphase : s.drain = .countingDrained journalPath) :
    Safe codec (s.countDrained journalPath) := by
  obtain ⟨hsound, hbalance⟩ := h.atPhase hphase
  have hcount : s.enqueuedTotal + s.pushes.countP PushPhase.owes + s.recovery.owes =
      s.drainedTotal + 1 + s.deadLetteredTotal + 0 + s.queue.length := by
    rw [hbalance]
    show s.drainedTotal + s.deadLetteredTotal + 1 + s.queue.length = _
    omega
  cases journalPath
  all_goals
    refine ⟨h.names, h.entries, ?_, ⟨h.accounts.held, h.accounts.stored, hcount⟩, h.readable, h.custody⟩
  · trivial
  · exact hsound _ rfl

/-- A file that leaves the directory takes its item off the desk. -/
theorem desk_clear (codec : JournalCodec β) (s : ArchiveRetryBacklog κ β) (name : JournalName) :
    (fun name' => (update s.dir.top name none name').bind codec.fromSlice) =
      update (s.custody codec).desk name none := by
  funext name'
  rw [update_apply, update_apply]
  split
  · rfl
  · rfl

theorem readable_clear (h : ∀ name bytes, s.dir.top name = some bytes → (codec.fromSlice bytes).isSome)
    (name : JournalName) : ∀ name' bytes, update s.dir.top name none name' = some bytes →
      (codec.fromSlice bytes).isSome := by
  intro name' bytes hbytes
  rw [update_apply] at hbytes
  split at hbytes
  · cases hbytes
  · exact h name' bytes hbytes

section

variable (h : Safe codec s)
include h

/-- The file of an op that is materialized is moved. -/
theorem resolve (hphase : s.drain = .resolving name) {moved : Bool} :
    Safe codec (s.resolve name moved) := by
  obtain ⟨hsound, hbalance⟩ := h.atPhase hphase
  obtain ⟨persisted, hfiled, hdone⟩ := hsound
  have hdealt : (s.custody codec).Dealt name := fun persisted' hfiled' => by
    rw [h.custody.unique name persisted' persisted hfiled' hfiled]
    exact mem_done.mpr hdone
  rw [ArchiveRetryBacklog.resolve]
  split
  · have hcustody := Custody.step_inv h.custody (.clear name hdealt)
    rw [← desk_clear] at hcustody
    exact ⟨h.names, h.entries, trivial, ⟨h.accounts.held, h.accounts.stored, hbalance⟩,
      readable_clear h.readable name, hcustody⟩
  · exact ⟨h.names, h.entries, trivial, ⟨h.accounts.held, h.accounts.stored, hbalance⟩, h.readable,
      h.custody⟩

/-- The attempts of the front entry are those that were made. -/
theorem retryLater {attempts : Nat} (hphase : s.drain = .retrying attempts) :
    Safe codec (s.retryLater attempts) := by
  obtain ⟨hsound, hbalance⟩ := h.atPhase hphase
  obtain ⟨entry, hfront, hattempts⟩ := hsound
  obtain ⟨rest, hqueue⟩ := List.head?_eq_some_iff.mp hfront
  have hstored := h.accounts.stored
  rw [ArchiveRetryBacklog.retryLater]
  rw [hqueue] at hbalance hstored ⊢
  refine ⟨h.names, ⟨fun entry' hentry' => ?_, h.entries.pushed, h.entries.recovered⟩, trivial,
    ⟨h.accounts.held, hstored, hbalance⟩, h.readable, h.custody⟩
  have hbefore (e : ArchiveBacklogEntry κ) (he : e ∈ entry :: rest) :
      e.Filed s.journaled s.failures := h.entries.queued e (hqueue ▸ he)
  rcases mem_cons.mp hentry' with rfl | hentry'
  · exact fun name hname => ⟨(hbefore entry mem_cons_self name hname).1, hattempts name hname⟩
  · exact hbefore entry' (mem_cons_of_mem _ hentry')

/-- The front entry has failed often enough. -/
theorem deadLetterFront (hphase : s.drain = .deadLettering) :
    Safe codec s.deadLetterFront := by
  obtain ⟨hsound, hbalance⟩ := h.atPhase hphase
  obtain ⟨entry, hfront, hattempts⟩ := hsound
  have hlength := length_tail_of_head? hfront
  have hpath : s.queue.head?.bind (·.journalPath) = entry.journalPath := by rw [hfront]; rfl
  rw [ArchiveRetryBacklog.deadLetterFront, hpath]
  refine ⟨h.names, ⟨fun entry hentry => h.entries.queued entry (mem_of_mem_tail hentry),
    h.entries.pushed, h.entries.recovered⟩, fun name hname => ?_, ⟨h.accounts.held, rfl, ?_⟩,
    h.readable, ?_⟩
  · show name ∈ s.deadLettered ++ entry.journalPath.toList
    rw [hname]
    exact mem_append_right _ mem_cons_self
  · refine hbalance.trans ?_
    show s.drainedTotal + s.deadLetteredTotal + 0 + s.queue.length =
      s.drainedTotal + s.deadLetteredTotal + 1 + s.queue.tail.length
    omega
  · cases hname : entry.journalPath with
    | none =>
      show Custody.Inv _ { s.custody codec with givenUp := s.deadLettered ++ [] }
      rw [append_nil]
      exact h.custody
    | some name => exact Custody.step_inv h.custody (.giveUp name (hattempts name hname))

theorem countDeadLettered
    (hphase : s.drain = .countingDeadLettered journalPath) :
    Safe codec (s.countDeadLettered journalPath) := by
  obtain ⟨hsound, hbalance⟩ := h.atPhase hphase
  have hcount : s.enqueuedTotal + s.pushes.countP PushPhase.owes + s.recovery.owes =
      s.drainedTotal + (s.deadLetteredTotal + 1) + 0 + s.queue.length := by
    refine hbalance.trans ?_
    show s.drainedTotal + s.deadLetteredTotal + 1 + s.queue.length = _
    omega
  cases journalPath
  all_goals
    refine ⟨h.names, h.entries, ?_, ⟨h.accounts.held, h.accounts.stored, hcount⟩, h.readable, h.custody⟩
  · trivial
  · exact hsound _ rfl

/-- The file of an op that was given up goes to `failed/`. -/
theorem quarantine (hphase : s.drain = .quarantining name) {moved : Bool} :
    Safe codec (s.quarantine name moved) := by
  obtain ⟨hsound, hbalance⟩ := h.atPhase hphase
  rw [ArchiveRetryBacklog.quarantine]
  split
  · next hmoves =>
    obtain ⟨bytes, hbytes⟩ := Option.isSome_iff_exists.mp (Bool.and_eq_true_iff.mp hmoves).2
    obtain ⟨persisted, hread⟩ := Option.isSome_iff_exists.mp (h.readable name bytes hbytes)
    have hdesk : (s.custody codec).desk name = some persisted := by
      show (s.dir.top name).bind codec.fromSlice = some persisted
      rw [hbytes]
      exact hread
    have hshelf : (fun name' =>
        (update s.dir.failed name (s.dir.top name) name').bind codec.fromSlice) =
          update (s.custody codec).shelf name (some persisted) := by
      funext name'
      rw [update_apply, update_apply]
      split
      · exact hdesk
      · rfl
    have hcustody := Custody.step_inv h.custody (.shelve name hsound hdesk)
    rw [← desk_clear, ← hshelf] at hcustody
    exact ⟨h.names, h.entries, trivial, ⟨h.accounts.held, h.accounts.stored, hbalance⟩,
      readable_clear h.readable name, hcustody⟩
  · exact ⟨h.names, h.entries, trivial, ⟨h.accounts.held, h.accounts.stored, hbalance⟩, h.readable,
      h.custody⟩

theorem drainStep (ok : Bool) : Safe codec (s.drainStep ok s.drain) := by
  cases hphase : s.drain with
  | idle => exact h.peekFront hphase
  | writing op attempts journalPath => exact h.writeOp hphase
  | popping journalPath => exact h.popFront hphase
  | countingDrained journalPath => exact h.countDrained hphase
  | resolving name => exact h.resolve hphase
  | retrying attempts => exact h.retryLater hphase
  | deadLettering => exact h.deadLetterFront hphase
  | countingDeadLettered journalPath => exact h.countDeadLettered hphase
  | quarantining name => exact h.quarantine hphase

end

/-! ### Recovery and the end of a process -/

section

variable (h : Safe codec s)
include h

/-- The recovery goes on without touching the queue. -/
theorem setRecovery (recovery : RecoverPhase κ)
    (hfiled : recovery.Filed s.journaled) (howes : recovery.owes = s.recovery.owes) :
    Safe codec { s with recovery } := by
  have hbalance := h.accounts.balance
  rw [← howes] at hbalance
  exact ⟨h.names, ⟨h.entries.queued, h.entries.pushed, hfiled⟩, h.drain,
    ⟨h.accounts.held, h.accounts.stored, hbalance⟩, h.readable, h.custody⟩

theorem callRecover (hphase : s.recovery = .notStarted) {config : κ}
    {files : Option (List JournalName)} (hstep : s.callRecover config files = some s') :
    Safe codec s' := by
  cases files with
  | none =>
    cases hstep
    exact h.setRecovery .done trivial (by rw [hphase]; rfl)
  | some files =>
    rw [ArchiveRetryBacklog.callRecover, Option.ite_none_right_eq_some] at hstep
    cases hstep.2
    exact h.setRecovery (.reading config files) trivial (by rw [hphase]; rfl)

/-- A file of the journal directory is read as what was journaled. -/
theorem filed_of_read {bytes : β} (hbytes : s.dir.top name = some bytes)
    {persisted : PersistedWriteOp} (hread : codec.fromSlice bytes = some persisted) :
    (name, persisted) ∈ s.journaled := by
  refine h.custody.desk name persisted ?_
  show (s.dir.top name).bind codec.fromSlice = some persisted
  rw [hbytes]
  exact hread

theorem readJournal {config : κ} {files : List JournalName}
    (hphase : s.recovery = .reading config files) :
    Safe codec (s.readJournal codec config files ok) := by
  have howes : s.recovery.owes = 0 := by rw [hphase]; rfl
  cases files with
  | nil => exact h.setRecovery .done trivial howes.symm
  | cons name rest =>
    rw [ArchiveRetryBacklog.readJournal]
    split
    · exact h.setRecovery (.reading config rest) trivial howes.symm
    · next bytes hfilter =>
      have hbytes := (Option.filter_eq_some_iff.mp hfilter).1
      split
      · next hread =>
        have hreadable := h.readable name bytes hbytes
        rw [hread] at hreadable
        cases hreadable
      · next persisted hread =>
        refine h.setRecovery (.pushing config (persisted.intoOp config) name rest) ?_ howes.symm
        show (name, PersistedWriteOp.fromOp (persisted.intoOp config)) ∈ s.journaled
        rw [PersistedWriteOp.fromOp_intoOp]
        exact h.filed_of_read hbytes hread

theorem pushRecovered {config : κ} {files : List JournalName}
    (hphase : s.recovery = .pushing config op name files) :
    Safe codec (s.pushRecovered config op name files) := by
  have hfiled := h.entries.recovered
  have hbalance := h.accounts.balance
  rw [hphase] at hfiled hbalance
  have hlength : (s.queue ++ [ArchiveBacklogEntry.mk op (some name) 0]).length =
      s.queue.length + 1 := length_append
  refine ⟨h.names, ⟨fun entry hentry => ?_, h.entries.pushed, trivial⟩, ?_,
    ⟨h.accounts.held, rfl, ?_⟩, h.readable, h.custody⟩
  · rcases mem_append.mp hentry with hentry | hentry
    · exact h.entries.queued entry hentry
    · rw [mem_singleton.mp hentry]
      intro name' hname'
      cases hname'
      exact ⟨hfiled, Nat.zero_le _⟩
  · exact h.drain.mono (fun entry hentry => head?_append_of_some hentry _) (List.Subset.refl _)
      (List.Subset.refl _) (List.Sublist.refl _) (List.Subset.refl _)
  · show s.enqueuedTotal + s.pushes.countP PushPhase.owes + 1 = s.drainedTotal +
      s.deadLetteredTotal + s.drain.owes + (s.queue ++ [ArchiveBacklogEntry.mk op (some name) 0]).length
    have hsame : s.enqueuedTotal + s.pushes.countP PushPhase.owes + 0 = s.drainedTotal +
      s.deadLetteredTotal + s.drain.owes + s.queue.length := hbalance
    omega

theorem countRecovered {config : κ} {files : List JournalName}
    (hphase : s.recovery = .counting config files) : Safe codec (s.countRecovered config files) := by
  have hbalance := h.accounts.balance
  rw [hphase] at hbalance
  refine ⟨h.names, ⟨h.entries.queued, h.entries.pushed, trivial⟩, h.drain,
    ⟨h.accounts.held, h.accounts.stored, ?_⟩, h.readable, h.custody⟩
  show s.enqueuedTotal + 1 + s.pushes.countP PushPhase.owes + 0 =
    s.drainedTotal + s.deadLetteredTotal + s.drain.owes + s.queue.length
  have hsame : s.enqueuedTotal + s.pushes.countP PushPhase.owes + 1 = s.drainedTotal +
    s.deadLetteredTotal + s.drain.owes + s.queue.length := hbalance
  omega

theorem recoverStep (hstep : s.recoverStep codec ok s.recovery = some s') :
    Safe codec s' := by
  cases hphase : s.recovery with
  | notStarted =>
    rw [hphase] at hstep
    cases hstep
  | reading config files =>
    rw [hphase] at hstep
    cases hstep
    exact h.readJournal hphase
  | settingAside config name files =>
    have hfiled := h.entries.recovered
    rw [hphase] at hfiled
    exact hfiled.elim
  | pushing config op name files =>
    rw [hphase] at hstep
    cases hstep
    exact h.pushRecovered hphase
  | counting config files =>
    rw [hphase] at hstep
    cases hstep
    exact h.countRecovered hphase
  | done =>
    rw [hphase] at hstep
    cases hstep

/-- What lasts is enough for the next process. -/
theorem boot (processId : Nat) : Safe codec (s.boot processId) where
  names := ⟨forall_mem_nil _, fun x hx => .inl (mem_append.mpr (h.names.used x hx)),
    fun _ _ h => (by cases h), fun _ _ _ h => (by cases h), fun _ _ _ h => (by cases h)⟩
  entries := ⟨forall_mem_nil _, forall_mem_nil _, trivial⟩
  drain := trivial
  accounts := ⟨rfl, rfl, rfl⟩
  readable := h.readable
  custody := h.custody

end

end Safe

/-! ### Every step -/

/-- The name that a step draws. -/
def Event.drawnName (codec : JournalCodec β) (s : ArchiveRetryBacklog κ β) :
    Event κ → Option JournalName
  | .push call ok micros =>
    match s.pushes[call]? with
    | some (.opening op) => Safe.drawnName codec s op ok micros
    | _ => none
  | _ => none

/-- Every step keeps the invariant, if it does not draw a name of an earlier process. -/
theorem safe_step {codec : JournalCodec β} {s : ArchiveRetryBacklog κ β} (h : Safe codec s)
    {e : Event κ} {r : Response κ} (hstep : s.step codec e = some (r, s'))
    (hnew : ∀ name, e.drawnName codec s = some name → name ∉ s.earlier) : Safe codec s' := by
  cases e with
  | callPush op cap =>
    cases hstep
    exact h.callPush op cap
  | push call ok micros =>
    obtain ⟨phase, hcall, hstep⟩ := Option.bind_eq_some_iff.mp hstep
    refine h.pushStep hcall (fun op name hphase hname => hnew name ?_) hstep
    rw [Event.drawnName, hcall, hphase]
    exact hname
  | drain ok =>
    cases hstep
    exact h.drainStep ok
  | callRecover config files =>
    rw [ArchiveRetryBacklog.step] at hstep
    split at hstep
    · next hphase =>
      obtain ⟨s₁, hcall, heq⟩ := Option.map_eq_some_iff.mp hstep
      cases heq
      exact h.callRecover hphase hcall
    · cases hstep
  | recover ok =>
    obtain ⟨s₁, hrecover, heq⟩ := Option.map_eq_some_iff.mp hstep
    cases heq
    exact h.recoverStep hrecover
  | crash processId =>
    cases hstep
    exact h.boot processId

end AgentMail.Backlog
