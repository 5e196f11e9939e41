import AgentMail.Journal.Reader

/-!
# The incremental journal scanner

`Scanner` (`crates/mcp-agent-mail-server/src/retention/pending/journal_scan.rs:20–423`): it pins the
length of a journal and reads that much of it, some bytes and some records at each poll, while other
processes go on appending. Its framing and its checks are its own; what they should agree with is
the one-shot reader of the journal.

Directories, file handles and the shutdown flag are what each turn of the loop meets; so is the
number of bytes that `fill_buf` brings, since a read may return fewer than were asked for. The log
line about skipped records is left out.
-/

namespace AgentMail.Journal

open Base Lib

/-! ### Kinds and intents -/

inductive Kind where
  | ack
  | release
  deriving DecidableEq

def Kind.intentKind : Kind → Text
  | .ack => ackIntentKind
  | .release => releaseIntentKind

def Kind.replayKind : Kind → Text
  | .ack => ackIntentReplayKind
  | .release => releaseIntentReplayKind

inductive Intent where
  | ack (intent : QueuedAckIntent)
  | release (intent : QueuedReleaseIntentView)
  deriving DecidableEq

def Intent.key : Intent → IntentKey
  | .ack intent => (intent.intentId, intent.contentSha256)
  | .release intent => (intent.intentId, intent.contentSha256)

structure Limits where
  recordBytes : Nat
  snapshotBytes : Nat
  pendingBytes : Nat
  identities : Nat

def Limits.default : Limits where
  recordBytes := 16 * 1024 * 1024
  snapshotBytes := 64 * 1024 * 1024
  pendingBytes := 16 * 1024 * 1024
  identities := 65536

def invalid (message : String) : IoError := ⟨.invalidData, message⟩

def cancelled : IoError := ⟨.interrupted, "closeout journal admission cancelled"⟩

/-! ### Decoding -/

/-- The writers' own projections. -/
def hashPayload : Kind → Bool → Json → Json
  | .ack, true => ackIntentHashPayload
  | .ack, false => ackReplayHashPayload
  | .release, true => releaseIntentHashPayload
  | .release, false => releaseReplayHashPayload

/-- A verified intent. -/
def decodeIntent (kind : Kind) (keyed : Bool) (record : Json) :
    Except IoError (Record IntentKey Intent) :=
  match kind with
  | .ack =>
    match QueuedAckIntent.fromValue record with
    | none => .error (invalid "verified acknowledgement has an invalid payload; replay refused")
    | some intent =>
      if keyed then
        match intent.idempotency with
        | none => .error (invalid "keyed acknowledgement lost its retry claim; replay refused")
        | some claim =>
          if claim.key.isEmpty || trim claim.key != claim.key ||
              decide (maxIdempotencyKeyLen < claim.key.length) ||
              byteLen claim.fingerprint != 64 || !claim.fingerprint.all isHexDigit then
            .error (invalid "keyed acknowledgement has an invalid retry claim; replay refused")
          else .ok (.intent (Intent.ack intent).key (.ack intent))
      else .ok (.intent (Intent.ack intent).key (.ack intent))
  | .release =>
    match QueuedReleaseIntentView.fromValue record with
    | none => .error (invalid "verified release has an invalid payload; replay refused")
    | some intent => .ok (.intent (Intent.release intent).key (.release intent))

def decode (C : Codec) (kind : Kind) (record : Json) : Except IoError (Record IntentKey Intent) :=
  let recordKind := record.strField "kind".toList
  let isIntent := recordKind == some kind.intentKind
  let isReplay := recordKind == some kind.replayKind
  if !isIntent && !isReplay then .ok .ignored
  else
    -- The schema is checked even on a marker that is not terminal.
    let version := (record.get? "schema_version".toList).bind Json.asU64
    let keyed := kind == .ack && isIntent && version == some keyedAckIntentSchemaVersion
    if version != some 1 && !keyed then
      .error (invalid ("closeout journal has an unsupported schema; " ++
        "replay stopped and evidence preserved"))
    else if !keyed && kind == .ack && isIntent && (record.get? "idempotency".toList).isSome then
      .error (invalid "legacy acknowledgement contains an unsupported retry claim; replay refused")
    else
      match record.strField "content_sha256".toList, record.strField "intent_id".toList with
      | some hash, some id =>
        if byteLen hash != 64 || byteLen id != 16 ||
            hash != hashJsonValue C (hashPayload kind isIntent record) then .ok .ignored
        else if isReplay then
          match record.strField "intent_content_sha256".toList with
          | none => .ok .ignored
          | some target =>
            if byteLen target == 64 && id.isPrefixOf target &&
                (record.strField "status".toList).any isTerminalReplayStatus then
              .ok (.terminal (id, target))
            else .ok .ignored
        else if !id.isPrefixOf hash then .ok .ignored
        else decodeIntent kind keyed record
      | _, _ => .ok .ignored

/-! ### Snapshots -/

/-- `position` is how far the reader has come; it never passes `initialBytes`. -/
structure Snapshot where
  kind : Kind
  initialBytes : Nat
  position : Nat
  line : Bytes
  pending : List (IntentKey × Nat × Intent × Nat)
  terminal : List IntentKey
  pendingBytes : Nat
  nextOrder : Nat
  skipped : Nat
  limits : Limits

namespace Snapshot

def admitKey (s : Snapshot) : Except IoError Unit :=
  if s.limits.identities ≤ usizeSaturatingAdd s.pending.length s.terminal.length then
    .error (invalid "closeout journal identity limit exceeded; partial queue refused")
  else .ok ()

/-- What `accept_line` does with a record that came from `bytes` bytes. -/
def accept (bytes : Nat) (s : Snapshot) : Record IntentKey Intent → Except IoError Unit × Snapshot
  | .intent key intent =>
    if key ∈ s.terminal ∨ Assoc.contains key s.pending = true then (.ok (), s)
    else
      match s.admitKey with
      | .error e => (.error e, s)
      | .ok () =>
        if s.limits.pendingBytes - s.pendingBytes < bytes then
          (.error (invalid "closeout journal pending payload limit exceeded; partial queue refused"),
            s)
        else if 2 ^ 64 ≤ s.nextOrder + 1 then
          (.error (invalid "closeout journal sequence overflow"), s)
        else
          (.ok (), { s with
              nextOrder := s.nextOrder + 1
              pendingBytes := s.pendingBytes + bytes
              pending := s.pending ++ [(key, s.nextOrder, intent, bytes)] })
  | .terminal key =>
    let s : Snapshot :=
      match Assoc.get? key s.pending with
      | some (_, _, bytes) =>
        { s with pending := Assoc.erase key s.pending, pendingBytes := s.pendingBytes - bytes }
      | none => s
    if key ∈ s.terminal then (.ok (), s)
    else
      match s.admitKey with
      | .error e => (.error e, s)
      | .ok () => (.ok (), { s with terminal := s.terminal ++ [key] })
  | .ignored => (.ok (), s)

def acceptLine (C : Codec) (s : Snapshot) : Except IoError Unit × Snapshot :=
  let bytes := s.line.length
  if s.line.all isAsciiWhitespace then (.ok (), { s with line := [] })
  else
    match C.fromSlice s.line with
    | some value =>
      match decode C s.kind value with
      | .error e => (.error e, s)
      | .ok record => accept bytes { s with line := [] } record
    | none => (.ok (), { s with skipped := min (2 ^ 64 - 1) (s.skipped + 1), line := [] })

end Snapshot

/-! ### What a poll meets -/

/-- One turn of the reading loop: what others have appended before it, whether the server shuts
down, and how many bytes after the first one `fill_buf` has to offer, if it does not fail. -/
structure Turn where
  appended : Bytes
  shutdown : Bool
  available : Except IoError Nat

/-- One call of `poll_bounded`, with the outcomes of the checks of the directory. -/
structure Poll where
  bytes : Nat
  records : Nat
  shutdown : Bool
  opened : Except IoError Unit
  validated : Except IoError Unit
  turns : Nat → Turn
  revalidated : Except IoError Unit

/-- The journal at a turn of the loop. -/
def Poll.journalAt (poll : Poll) (journal : Bytes) (turn : Nat) : Bytes :=
  journal ++ (List.range (turn + 1)).flatMap fun i => (poll.turns i).appended

/-! ### Reading -/

/-- The position of the first newline. -/
def newlineAt (available : Bytes) : Option Nat := available.findIdx? (· == newline)

/-- As far as the first newline, or everything. -/
def consumedBytes (available : Bytes) : Nat :=
  match newlineAt available with
  | some index => index + 1
  | none => available.length

namespace Snapshot

/-- `fill_buf`: what comes next of the pinned bytes; it is empty only at their end. -/
def fillBuf (s : Snapshot) (journal : Bytes) (available : Except IoError Nat) :
    Except IoError Bytes :=
  available.map fun n => ((journal.take s.initialBytes).drop s.position).take (n + 1)

/-- At the end of the file. -/
def finish (C : Codec) (s : Snapshot) : Except IoError Bool × Snapshot :=
  if s.position ≠ s.initialBytes then
    (.error ⟨.unexpectedEof, "closeout journal truncated before its pinned EOF"⟩, s)
  else if s.line = [] then (.ok true, s)
  else
    match s.acceptLine C with
    | (.error e, s) => (.error e, s)
    | (.ok (), s) => (.ok true, s)

/-- Takes the bytes up to the first newline into the line, and the line into the snapshot where
the newline ends it. -/
def consume (C : Codec) (s : Snapshot) (available : Bytes) : Except IoError Unit × Snapshot :=
  let consumed := consumedBytes available
  if s.limits.recordBytes - s.line.length < consumed then
    (.error (invalid "closeout journal record exceeds its byte limit; partial queue refused"), s)
  else
    let s : Snapshot :=
      { s with line := s.line ++ available.take consumed, position := s.position + consumed }
    if (newlineAt available).isSome then s.acceptLine C else (.ok (), s)

end Snapshot

theorem consumedBytes_pos {available : Bytes} (h : available ≠ []) : 0 < consumedBytes available := by
  unfold consumedBytes
  split
  · omega
  · exact List.length_pos_iff.mpr h

theorem consumedBytes_le (available : Bytes) : consumedBytes available ≤ available.length := by
  unfold consumedBytes
  split
  · next h => exact (List.findIdx?_eq_some_iff_getElem.mp h).1
  · exact le_rfl

/-- The loop over the turns of a poll; it returns whether the end was reached. -/
def Snapshot.advance (C : Codec) (poll : Poll) (journal : Bytes) (turn bytes records : Nat)
    (s : Snapshot) : Except IoError Bool × Snapshot :=
  if _hbytes : bytes = 0 then (.ok false, s)
  else if records = 0 then (.ok false, s)
  else if (poll.turns turn).shutdown then (.error cancelled, s)
  else
    match s.fillBuf (poll.journalAt journal turn) (poll.turns turn).available with
    | .error e => (.error e, s)
    | .ok filled =>
      if _hfilled : filled = [] then s.finish C
      else
        let available := filled.take bytes
        match s.consume C available with
        | (.error e, s) => (.error e, s)
        | (.ok (), s) =>
          s.advance C poll journal (turn + 1) (bytes - consumedBytes available)
            (if (newlineAt available).isSome then records - 1 else records)
termination_by bytes
decreasing_by
  have hne : filled.take bytes ≠ [] := by
    rw [ne_eq, List.take_eq_nil_iff]
    tauto
  have := consumedBytes_pos hne
  omega

namespace Snapshot

/-- `Snapshot::open`; a journal that does not exist is `none`. -/
def openAt (opened : Except IoError Unit) (kind : Kind) (limits : Limits)
    (journal : Option Bytes) : Except IoError (Option Snapshot) :=
  match opened, journal with
  | .error e, _ => .error e
  | .ok (), none => .ok none
  | .ok (), some journal =>
    if limits.snapshotBytes < journal.length then
      .error (invalid ("closeout journal snapshot exceeds the background scan byte limit; " ++
        "journal preserved; operator review required"))
    else
      .ok (some
        { kind
          initialBytes := journal.length
          position := 0
          line := []
          pending := []
          terminal := []
          pendingBytes := 0
          nextOrder := 0
          skipped := 0
          limits })

def validate (s : Snapshot) (validated : Except IoError Unit) (journal : Bytes) :
    Except IoError Unit := do
  validated
  if journal.length < s.initialBytes then
    .error (invalid ("closeout journal truncated during snapshot admission; " ++
      "partial queue refused"))
  else .ok ()

/-- The pending intents in the order in which they came. -/
def intoIntents (s : Snapshot) : List Intent :=
  ((s.pending.map (·.2)).insertionSort fun a b => a.1 ≤ b.1).map (·.2.1)

end Snapshot

/-! ### The scanner -/

structure Scanner where
  kind : Kind
  snapshot : Option Snapshot
  limits : Limits

/-- An outcome without a list is a scan that is still in progress. -/
abbrev PollResult : Type := Except IoError (Option (List Intent))

namespace Scanner

def new (kind : Kind) : Scanner := ⟨kind, none, .default⟩

/-- `advance` with the snapshot it has opened or kept. -/
def advanceSnapshot (C : Codec) (w : Scanner) (poll : Poll) (journal : Bytes) (s : Snapshot) :
    PollResult × Scanner :=
  match s.validate poll.validated journal with
  | .error e => (.error e, { w with snapshot := some s })
  | .ok () =>
    match s.advance C poll journal 0 poll.bytes poll.records with
    | (.error e, s) => (.error e, { w with snapshot := some s })
    | (.ok complete, s) =>
      match s.validate poll.revalidated (poll.journalAt journal poll.bytes) with
      | .error e => (.error e, { w with snapshot := some s })
      | .ok () =>
        if complete then
          (.ok (some s.intoIntents), { w with snapshot := some { s with pending := [] } })
        else (.ok none, { w with snapshot := some s })

def advance (C : Codec) (w : Scanner) (poll : Poll) (journal : Option Bytes) :
    PollResult × Scanner :=
  if poll.shutdown then (.error cancelled, w)
  else
    match w.snapshot with
    | some s => w.advanceSnapshot C poll (journal.getD []) s
    | none =>
      match Snapshot.openAt poll.opened w.kind w.limits journal with
      | .error e => (.error e, w)
      | .ok none => (.ok (some []), w)
      | .ok (some s) => w.advanceSnapshot C poll (journal.getD []) s

def pollBounded (C : Codec) (w : Scanner) (poll : Poll) (journal : Option Bytes) :
    PollResult × Scanner :=
  match w.advance C poll journal with
  | (.ok none, w) => (.ok none, w)
  | (result, w) => (result, { w with snapshot := none })

end Scanner

/-! ### Runs -/

/-- A poll, with what others have appended since the last one; the first append creates the
journal. -/
structure Visit where
  appended : Option Bytes
  poll : Poll

def grow : Option Bytes → Option Bytes → Option Bytes
  | journal, none => journal
  | journal, some appended => some (journal.getD [] ++ appended)

/-- One poll as it happened: the journal when it began, the scanner before it was cleared, the
result and the scanner afterwards. -/
structure Visited where
  journal : Option Bytes
  advanced : Scanner
  result : PollResult
  after : Scanner

def runPolls (C : Codec) (w : Scanner) (journal : Option Bytes) : List Visit → List Visited
  | [] => []
  | visit :: visits =>
    let journal := grow journal visit.appended
    let (result, after) := w.pollBounded C visit.poll journal
    ⟨journal, (w.advance C visit.poll journal).2, result, after⟩ ::
      runPolls C after (journal.map fun bytes => visit.poll.journalAt bytes visit.poll.bytes) visits

end AgentMail.Journal
