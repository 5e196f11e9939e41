import AgentMail.Base.Json
import AgentMail.Lib.Custody
import AgentMail.Lib.Trace

/-!
# The archive retry backlog

`crates/mcp-agent-mail-storage/src/lib.rs:1842–1998` and `2004–2602`: an archive write that could not
be handed over is journaled to a file and queued; a single drainer tries the front entry again and
again, and a new process enqueues what it finds in the journal directory.

A step is what one thread does under the queue lock, at one counter or with one file operation. A
file operation may fail, the clock and the process id are what the system gives, and a process may
end at any time. Left out are the age of an entry, the dead-letter ledger and the files that a
failed journal write leaves behind, which nothing here reads again.
-/

namespace AgentMail.Backlog

open Base Lib Function

/-! ### Ops -/

structure NotificationMessage where
  id : Option Int
  sender : Option Text
  subject : Option Text
  importance : Option Text

/-- `WriteOp`, over the configurations `κ`. -/
inductive WriteOp (κ : Type) where
  | messageBundle (projectSlug : Text) (config : κ) (messageJson : Json) (bodyMd sender : Text)
      (recipients extraPaths : List Text)
  | agentProfile (projectSlug : Text) (config : κ) (agentJson : Json)
  | fileReservation (projectSlug : Text) (config : κ) (reservations : List Json)
  | notificationSignal (config : κ) (projectSlug agentName : Text)
      (metadata : Option NotificationMessage)
  | clearSignal (config : κ) (projectSlug agentName : Text)

inductive PersistedWriteOp where
  | messageBundle (projectSlug : Text) (messageJson : Json) (bodyMd sender : Text)
      (recipients extraPaths : List Text)
  | agentProfile (projectSlug : Text) (agentJson : Json)
  | fileReservation (projectSlug : Text) (reservations : List Json)
  | notificationSignal (projectSlug agentName : Text) (metadata : Option NotificationMessage)
  | clearSignal (projectSlug agentName : Text)

namespace PersistedWriteOp

variable {κ : Type}

def fromOp : WriteOp κ → PersistedWriteOp
  | .messageBundle projectSlug _ messageJson bodyMd sender recipients extraPaths =>
    .messageBundle projectSlug messageJson bodyMd sender recipients extraPaths
  | .agentProfile projectSlug _ agentJson => .agentProfile projectSlug agentJson
  | .fileReservation projectSlug _ reservations => .fileReservation projectSlug reservations
  | .notificationSignal _ projectSlug agentName metadata =>
    .notificationSignal projectSlug agentName metadata
  | .clearSignal _ projectSlug agentName => .clearSignal projectSlug agentName

def intoOp (config : κ) : PersistedWriteOp → WriteOp κ
  | .messageBundle projectSlug messageJson bodyMd sender recipients extraPaths =>
    .messageBundle projectSlug config messageJson bodyMd sender recipients extraPaths
  | .agentProfile projectSlug agentJson => .agentProfile projectSlug config agentJson
  | .fileReservation projectSlug reservations => .fileReservation projectSlug config reservations
  | .notificationSignal projectSlug agentName metadata =>
    .notificationSignal config projectSlug agentName metadata
  | .clearSignal projectSlug agentName => .clearSignal config projectSlug agentName

@[simp] theorem fromOp_intoOp (config : κ) (p : PersistedWriteOp) : fromOp (p.intoOp config) = p := by
  cases p <;> rfl

end PersistedWriteOp

/-- `serde_json::to_vec` and `from_slice` for persisted ops: what was written can be read back. -/
structure JournalCodec (β : Type) where
  toVec : PersistedWriteOp → Option β
  fromSlice : β → Option PersistedWriteOp
  fromSlice_toVec : ∀ p bytes, toVec p = some bytes → fromSlice bytes = some p

/-! ### Journal files -/

/-- What makes up the name of a journal file. -/
structure JournalName where
  micros : Nat
  processId : Nat
  seq : Nat
  deriving DecidableEq

/-- `.archive_backlog` with its subdirectories. -/
structure JournalDir (β : Type) where
  tmp : JournalName → Option β
  top : JournalName → Option β
  resolved : JournalName → Option β
  failed : JournalName → Option β
  corrupt : JournalName → Option β

/-! ### The backlog -/

structure ArchiveBacklogEntry (κ : Type) where
  op : WriteOp κ
  journalPath : Option JournalName
  attempts : Nat

/-- `ArchiveBacklogPush`. -/
inductive ArchiveBacklogPush where
  | queued
  | queuedEphemeral
  | dropped

/-- What a call of `push` does next. -/
inductive PushPhase (κ : Type) where
  | reserving (op : WriteOp κ) (cap : Nat)
  | opening (op : WriteOp κ)
  | writing (op : WriteOp κ) (name : JournalName)
  | moving (op : WriteOp κ) (name : JournalName)
  | discarding (op : WriteOp κ) (name : JournalName)
  | enqueueing (op : WriteOp κ) (journalPath : Option JournalName)
  | counting (op : WriteOp κ) (journalPath : Option JournalName)
  | returned

/-- What the drainer does next; `idle` is between two calls of `drain_step`. -/
inductive DrainPhase (κ : Type) where
  | idle
  | writing (op : WriteOp κ) (attempts : Nat) (journalPath : Option JournalName)
  | popping (journalPath : Option JournalName)
  | countingDrained (journalPath : Option JournalName)
  | resolving (name : JournalName)
  | retrying (attempts : Nat)
  | deadLettering
  | countingDeadLettered (journalPath : Option JournalName)
  | quarantining (name : JournalName)

/-- What `archive_backlog_recover` does next. -/
inductive RecoverPhase (κ : Type) where
  | notStarted
  | reading (config : κ) (files : List JournalName)
  | settingAside (config : κ) (name : JournalName) (files : List JournalName)
  | pushing (config : κ) (op : WriteOp κ) (name : JournalName) (files : List JournalName)
  | counting (config : κ) (files : List JournalName)
  | done

/-- The process with its backlog, and what lasts. The last four fields are history that no step
reads: what was journaled and what was materialized, with the name of the file, the failed attempts
and the dead-lettered files. `earlier` are the names that earlier processes have drawn. -/
structure ArchiveRetryBacklog (κ β : Type) where
  dir : JournalDir β
  processId : Nat
  nextSeq : Nat
  queue : List (ArchiveBacklogEntry κ)
  reserved : Nat
  depth : Nat
  enqueuedTotal : Nat
  drainedTotal : Nat
  droppedTotal : Nat
  deadLetteredTotal : Nat
  ephemeralTotal : Nat
  pushes : List (PushPhase κ)
  drain : DrainPhase κ
  recovery : RecoverPhase κ
  earlier : List JournalName
  drawn : List JournalName
  journaled : List (JournalName × PersistedWriteOp)
  materialized : List (Option JournalName × PersistedWriteOp)
  failures : List JournalName
  deadLettered : List JournalName

inductive Response (κ : Type) where
  | goesOn
  | pushed (outcome : ArchiveBacklogPush) (op : WriteOp κ) (journalPath : Option JournalName)

def archiveBacklogMaxAttempts : Nat := 8

namespace ArchiveRetryBacklog

variable {κ β : Type}

/-- A process that has found `dir` and knows nothing else. -/
def boot (s : ArchiveRetryBacklog κ β) (processId : Nat) : ArchiveRetryBacklog κ β :=
  { s with
    processId
    nextSeq := 0
    queue := []
    reserved := 0
    depth := 0
    enqueuedTotal := 0
    drainedTotal := 0
    droppedTotal := 0
    deadLetteredTotal := 0
    ephemeralTotal := 0
    pushes := []
    drain := .idle
    recovery := .notStarted
    earlier := s.earlier ++ s.drawn
    drawn := [] }

def start (processId : Nat) : ArchiveRetryBacklog κ β where
  dir := ⟨fun _ => none, fun _ => none, fun _ => none, fun _ => none, fun _ => none⟩
  processId
  nextSeq := 0
  queue := []
  reserved := 0
  depth := 0
  enqueuedTotal := 0
  drainedTotal := 0
  droppedTotal := 0
  deadLetteredTotal := 0
  ephemeralTotal := 0
  pushes := []
  drain := .idle
  recovery := .notStarted
  earlier := []
  drawn := []
  journaled := []
  materialized := []
  failures := []
  deadLettered := []

variable (codec : JournalCodec β) (s : ArchiveRetryBacklog κ β)

def setPush (call : Nat) (phase : PushPhase κ) : ArchiveRetryBacklog κ β :=
  { s with pushes := s.pushes.set call phase }

/-- The queue is changed under its lock, and its length stored. -/
def setQueue (queue : List (ArchiveBacklogEntry κ)) : ArchiveRetryBacklog κ β :=
  { s with queue, depth := queue.length }

/-- The queue and the reservations that count against a cap. -/
def occupied : Nat := s.queue.length + s.reserved

/-! ### `push` -/

def callPush (op : WriteOp κ) (cap : Nat) : ArchiveRetryBacklog κ β :=
  { s with pushes := s.pushes ++ [.reserving op cap] }

def reserve (call : Nat) (op : WriteOp κ) (cap : Nat) :
    Response κ × ArchiveRetryBacklog κ β :=
  if cap ≤ s.occupied then
    (.pushed .dropped op none, { s.setPush call .returned with droppedTotal := s.droppedTotal + 1 })
  else (.goesOn, { s.setPush call (.opening op) with reserved := s.reserved + 1 })

/-- The journal directory is created, the op serialized and the name drawn. -/
def openJournal (call : Nat) (op : WriteOp κ) (ok : Bool) (micros : Nat) :
    ArchiveRetryBacklog κ β :=
  if ok && (codec.toVec (.fromOp op)).isSome then
    let name : JournalName := ⟨micros, s.processId, s.nextSeq⟩
    { s.setPush call (.writing op name) with
      nextSeq := s.nextSeq + 1, drawn := s.drawn ++ [name] }
  else s.setPush call (.enqueueing op none)

/-- `archive_backlog_write_tmp`: an existing file is not touched. -/
def writeTmp (call : Nat) (op : WriteOp κ) (name : JournalName) (ok : Bool) :
    ArchiveRetryBacklog κ β :=
  if ok && (s.dir.tmp name).isNone then
    { s.setPush call (.moving op name) with
      dir := { s.dir with tmp := update s.dir.tmp name (codec.toVec (.fromOp op)) } }
  else s.setPush call (.discarding op name)

/-- The file gets its final name, and replaces a file that has it. -/
def renameTmp (call : Nat) (op : WriteOp κ) (name : JournalName) (ok : Bool) :
    ArchiveRetryBacklog κ β :=
  if ok && (s.dir.tmp name).isSome then
    { s.setPush call (.enqueueing op (some name)) with
      dir := { s.dir with
        tmp := update s.dir.tmp name none
        top := update s.dir.top name (s.dir.tmp name) }
      journaled := s.journaled ++ [(name, .fromOp op)] }
  else s.setPush call (.discarding op name)

/-- What could not be journaled is moved away, or left. -/
def discardTmp (call : Nat) (op : WriteOp κ) (name : JournalName) (moved : Bool) :
    ArchiveRetryBacklog κ β :=
  { s.setPush call (.enqueueing op none) with
    dir := if moved then { s.dir with tmp := update s.dir.tmp name none } else s.dir }

def enqueue (call : Nat) (op : WriteOp κ) (journalPath : Option JournalName) :
    ArchiveRetryBacklog κ β :=
  { (s.setPush call (.counting op journalPath)).setQueue (s.queue ++ [⟨op, journalPath, 0⟩]) with
    reserved := s.reserved - 1 }

def finishPush (call : Nat) (op : WriteOp κ) (journalPath : Option JournalName) :
    Response κ × ArchiveRetryBacklog κ β :=
  (.pushed (if journalPath.isSome then .queued else .queuedEphemeral) op journalPath,
    { s.setPush call .returned with
      enqueuedTotal := s.enqueuedTotal + 1
      ephemeralTotal := if journalPath.isSome then s.ephemeralTotal else s.ephemeralTotal + 1 })

/-! ### `drain_step` -/

def peekFront : ArchiveRetryBacklog κ β :=
  match s.queue with
  | [] => s
  | entry :: _ => { s with drain := .writing entry.op entry.attempts entry.journalPath }

/-- `write_op_sync`: the archive files are written, or not. -/
def writeOp (op : WriteOp κ) (attempts : Nat) (journalPath : Option JournalName) (ok : Bool) :
    ArchiveRetryBacklog κ β :=
  if ok then
    { s with
      drain := .popping journalPath
      materialized := s.materialized ++ [(journalPath, .fromOp op)] }
  else
    { s with
      drain :=
        if attempts + 1 ≥ archiveBacklogMaxAttempts then .deadLettering else .retrying (attempts + 1)
      failures := s.failures ++ journalPath.toList }

def popFront (journalPath : Option JournalName) : ArchiveRetryBacklog κ β :=
  { s.setQueue s.queue.tail with drain := .countingDrained journalPath }

def countDrained (journalPath : Option JournalName) : ArchiveRetryBacklog κ β :=
  { s with
    drainedTotal := s.drainedTotal + 1
    drain := journalPath.elim .idle .resolving }

/-- `archive_backlog_journal_resolve`: the file is moved, if it is there and that works. -/
def resolve (name : JournalName) (moved : Bool) : ArchiveRetryBacklog κ β :=
  { s with
    drain := .idle
    dir :=
      if moved && (s.dir.top name).isSome then
        { s.dir with
          top := update s.dir.top name none
          resolved := update s.dir.resolved name (s.dir.top name) }
      else s.dir }

def retryLater (attempts : Nat) : ArchiveRetryBacklog κ β :=
  { s with
    drain := .idle
    queue :=
      match s.queue with
      | [] => []
      | entry :: rest => { entry with attempts } :: rest }

/-- `dead_letter_front`: the front entry is given up. -/
def deadLetterFront : ArchiveRetryBacklog κ β :=
  let journalPath := s.queue.head?.bind (·.journalPath)
  { s.setQueue s.queue.tail with
    drain := .countingDeadLettered journalPath
    deadLettered := s.deadLettered ++ journalPath.toList }

def countDeadLettered (journalPath : Option JournalName) : ArchiveRetryBacklog κ β :=
  { s with
    deadLetteredTotal := s.deadLetteredTotal + 1
    drain := journalPath.elim .idle .quarantining }

/-- `archive_backlog_quarantine_file`: the file is moved to `failed/`, if it is there and that
works. -/
def quarantine (name : JournalName) (moved : Bool) : ArchiveRetryBacklog κ β :=
  { s with
    drain := .idle
    dir :=
      if moved && (s.dir.top name).isSome then
        { s.dir with
          top := update s.dir.top name none
          failed := update s.dir.failed name (s.dir.top name) }
      else s.dir }

/-! ### `archive_backlog_recover` -/

/-- The journal directory is scanned; an entry that cannot be listed is left out. -/
def callRecover (config : κ) (files : Option (List JournalName)) :
    Option (ArchiveRetryBacklog κ β) :=
  match files with
  | none => some { s with recovery := .done }
  | some files =>
    if files.Nodup ∧ ∀ name ∈ files, (s.dir.top name).isSome then
      some { s with recovery := .reading config files }
    else none

/-- The next file is read, unless it cannot be, and decoded. -/
def readJournal (config : κ) (files : List JournalName) (ok : Bool) : ArchiveRetryBacklog κ β :=
  match files with
  | [] => { s with recovery := .done }
  | name :: rest =>
    match (s.dir.top name).filter fun _ => ok with
    | none => { s with recovery := .reading config rest }
    | some bytes =>
      match codec.fromSlice bytes with
      | none => { s with recovery := .settingAside config name rest }
      | some persisted =>
        { s with recovery := .pushing config (persisted.intoOp config) name rest }

/-- A file that cannot be decoded is renamed. -/
def setAside (config : κ) (name : JournalName) (files : List JournalName) (moved : Bool) :
    ArchiveRetryBacklog κ β :=
  { s with
    recovery := .reading config files
    dir :=
      if moved && (s.dir.top name).isSome then
        { s.dir with
          top := update s.dir.top name none
          corrupt := update s.dir.corrupt name (s.dir.top name) }
      else s.dir }

def pushRecovered (config : κ) (op : WriteOp κ) (name : JournalName) (files : List JournalName) :
    ArchiveRetryBacklog κ β :=
  { s.setQueue (s.queue ++ [⟨op, some name, 0⟩]) with recovery := .counting config files }

def countRecovered (config : κ) (files : List JournalName) : ArchiveRetryBacklog κ β :=
  { s with recovery := .reading config files, enqueuedTotal := s.enqueuedTotal + 1 }

end ArchiveRetryBacklog

/-! ### Steps -/

/-- The steps of the calls of `push`, of the drainer and of the recovery, and the end of the
process, after which another one starts. -/
inductive Event (κ : Type) where
  | callPush (op : WriteOp κ) (cap : Nat)
  | push (call : Nat) (ok : Bool) (micros : Nat)
  | drain (ok : Bool)
  | callRecover (config : κ) (files : Option (List JournalName))
  | recover (ok : Bool)
  | crash (processId : Nat)

namespace ArchiveRetryBacklog

variable {κ β : Type} (codec : JournalCodec β) (s : ArchiveRetryBacklog κ β)

/-- The next step of a call of `push`. -/
def pushStep (call : Nat) (ok : Bool) (micros : Nat) :
    PushPhase κ → Option (Response κ × ArchiveRetryBacklog κ β)
  | .reserving op cap => some (s.reserve call op cap)
  | .opening op => some (.goesOn, s.openJournal codec call op ok micros)
  | .writing op name => some (.goesOn, s.writeTmp codec call op name ok)
  | .moving op name => some (.goesOn, s.renameTmp call op name ok)
  | .discarding op name => some (.goesOn, s.discardTmp call op name ok)
  | .enqueueing op journalPath => some (.goesOn, s.enqueue call op journalPath)
  | .counting op journalPath => some (s.finishPush call op journalPath)
  | .returned => none

/-- The next step of the drainer. -/
def drainStep (ok : Bool) : DrainPhase κ → ArchiveRetryBacklog κ β
  | .idle => s.peekFront
  | .writing op attempts journalPath => s.writeOp op attempts journalPath ok
  | .popping journalPath => s.popFront journalPath
  | .countingDrained journalPath => s.countDrained journalPath
  | .resolving name => s.resolve name ok
  | .retrying attempts => s.retryLater attempts
  | .deadLettering => s.deadLetterFront
  | .countingDeadLettered journalPath => s.countDeadLettered journalPath
  | .quarantining name => s.quarantine name ok

/-- The next step of the recovery. -/
def recoverStep (ok : Bool) : RecoverPhase κ → Option (ArchiveRetryBacklog κ β)
  | .notStarted => none
  | .reading config files => some (s.readJournal codec config files ok)
  | .settingAside config name files => some (s.setAside config name files ok)
  | .pushing config op name files => some (s.pushRecovered config op name files)
  | .counting config files => some (s.countRecovered config files)
  | .done => none

def step (s : ArchiveRetryBacklog κ β) (e : Event κ) :
    Option (Response κ × ArchiveRetryBacklog κ β) :=
  match e with
  | .callPush op cap => some (.goesOn, s.callPush op cap)
  | .push call ok micros => s.pushes[call]?.bind (s.pushStep codec call ok micros)
  | .drain ok => some (.goesOn, s.drainStep ok s.drain)
  | .callRecover config files =>
    match s.recovery with
    | .notStarted => (s.callRecover config files).map fun s => (.goesOn, s)
    | _ => none
  | .recover ok => (s.recoverStep codec ok s.recovery).map fun s => (.goesOn, s)
  | .crash processId => some (.goesOn, s.boot processId)

end ArchiveRetryBacklog

end AgentMail.Backlog
