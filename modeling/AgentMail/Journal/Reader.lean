import AgentMail.Base.Bytes
import AgentMail.Journal.Outstanding
import AgentMail.Lib.Lines

/-!
# Readers of the degraded-intent journals

`read_queued_ack_intents` and `read_queued_release_intents`
(`crates/mcp-agent-mail-tools/src/degraded_intents.rs:365–852`): a journal is a file of JSON records,
one on each line, of which intents and replay markers count if their content hash is right.

`serde_json` and `sha2` are parameters. What is not modelled is the file system: the journal is
opened and pinned, and a journal that does not exist reads as an empty one.
-/

namespace AgentMail.Journal

open Base Lib

/-- What the journal takes from `serde_json` and `sha2`. -/
structure Codec where
  /-- `serde_json::to_vec`. -/
  toVec : Json → Bytes
  /-- `serde_json::from_slice`. -/
  fromSlice : Bytes → Option Json
  sha256 : Bytes → Vector UInt8 32

/-- The `io::ErrorKind`s of the journal. -/
inductive IoErrorKind where
  | invalidData
  | invalidInput
  | interrupted
  | unexpectedEof
  deriving DecidableEq

structure IoError where
  kind : IoErrorKind
  message : String
  deriving DecidableEq

/-! ### Content hashes -/

def hashJsonValue (C : Codec) (value : Json) : Text := hexEncode (C.sha256 (C.toVec value)).toList

/-- An intent is known by its id and its content hash. -/
abbrev IntentKey : Type := Text × Text

/-- The fields of a record under the given names, in that order. -/
def project (names : List String) (record : Json) : List (Text × Json) :=
  names.map fun name => (name.toList, record.index name.toList)

def ackIntentHashFields : List String :=
  ["schema_version", "kind", "created_ts", "project_key", "agent_name", "message_id", "failure"]

def ackIntentSchemaVersion : Nat := 1

def keyedAckIntentSchemaVersion : Nat := 2

def ackIntentHashPayload (record : Json) : Json :=
  if (record.index "schema_version".toList).asU64 = some keyedAckIntentSchemaVersion then
    .obj (project ackIntentHashFields record ++ project ["idempotency"] record)
  else .obj (project ackIntentHashFields record)

def ackReplayHashPayload (record : Json) : Json :=
  .obj (project ["schema_version", "kind", "intent_id", "intent_content_sha256", "replayed_ts",
    "status", "error_detail"] record)

def releaseIntentHashPayload (record : Json) : Json :=
  .obj (project ["schema_version", "kind", "created_ts", "project_key", "agent_name", "paths",
    "file_reservation_ids", "failure"] record)

def releaseReplayHashPayload (record : Json) : Json :=
  .obj (project ["schema_version", "kind", "intent_id", "intent_content_sha256", "replayed_ts",
    "status", "released", "error_detail"] record)

def recordHasValidIntentHash (C : Codec) (hashPayload : Json → Json) (record : Json) : Bool :=
  match record.strField "content_sha256".toList, record.strField "intent_id".toList with
  | some contentSha256, some intentId =>
    byteLen contentSha256 == 64 && byteLen intentId == 16 && intentId.isPrefixOf contentSha256 &&
      contentSha256 == hashJsonValue C (hashPayload record)
  | _, _ => false

/-- The check that the two kinds of replay markers share. -/
def replayRecordHasValidHash (C : Codec) (hashPayload : Json → Json) (record : Json) : Bool :=
  match record.strField "content_sha256".toList, record.strField "intent_id".toList,
    record.strField "intent_content_sha256".toList with
  | some contentSha256, some intentId, some intentContentSha256 =>
    byteLen contentSha256 == 64 && byteLen intentId == 16 && byteLen intentContentSha256 == 64 &&
      intentId.isPrefixOf intentContentSha256 &&
      contentSha256 == hashJsonValue C (hashPayload record)
  | _, _, _ => false

def ackReplayRecordHasValidHash (C : Codec) (record : Json) : Bool :=
  (record.index "schema_version".toList).asU64 == some ackIntentSchemaVersion &&
    replayRecordHasValidHash C ackReplayHashPayload record

def releaseReplayRecordHasValidHash (C : Codec) (record : Json) : Bool :=
  replayRecordHasValidHash C releaseReplayHashPayload record

/-! ### Intents -/

structure IntentFailure where
  stage : Text
  errorDetail : Text
  deriving DecidableEq

/-- A struct is read from an object, or from the list of its fields. -/
def IntentFailure.fromValue : Json → Option IntentFailure
  | .arr [.str stage, .str errorDetail] => some ⟨stage, errorDetail⟩
  | value => do
    let stage ← value.strField "stage".toList
    let errorDetail ← value.strField "error_detail".toList
    return ⟨stage, errorDetail⟩

structure AckIntentIdempotency where
  key : Text
  fingerprint : Text
  deriving DecidableEq

/-- Fields of any other name are refused. -/
def AckIntentIdempotency.fromValue : Json → Option AckIntentIdempotency
  | .arr [.str key, .str fingerprint] => some ⟨key, fingerprint⟩
  | .obj fields =>
    if fields.all fun f => f.1 == "key".toList || f.1 == "fingerprint".toList then do
      let key ← Json.strField "key".toList (.obj fields)
      let fingerprint ← Json.strField "fingerprint".toList (.obj fields)
      return ⟨key, fingerprint⟩
    else none
  | _ => none

def maxIdempotencyKeyLen : Nat := 255

/-- `u8::is_ascii_hexdigit`. -/
def isHexDigit (c : Char) : Bool :=
  c.isDigit || ('a' ≤ c && c ≤ 'f') || ('A' ≤ c && c ≤ 'F')

def AckIntentIdempotency.isValid (claim : AckIntentIdempotency) : Bool :=
  !claim.key.isEmpty && trim claim.key == claim.key && claim.key.length ≤ maxIdempotencyKeyLen &&
    byteLen claim.fingerprint == 64 && claim.fingerprint.all isHexDigit

structure QueuedAckIntent where
  schemaVersion : Nat
  kind : Text
  intentId : Text
  contentSha256 : Text
  createdTs : Int
  projectKey : Text
  agentName : Text
  messageId : Int
  idempotency : Option AckIntentIdempotency
  failure : IntentFailure
  deriving DecidableEq

/-- A field with `#[serde(default)]` of type `Option`. -/
def optionField {α : Type} (fromValue : Json → Option α) (name : String) (record : Json) :
    Option (Option α) :=
  match record.get? name.toList with
  | none | some .null => some none
  | some value => (fromValue value).map some

/-- `serde_json::from_value::<QueuedAckIntent>` of an object. -/
def QueuedAckIntent.fromValue (record : Json) : Option QueuedAckIntent := do
  let schemaVersion ← ((record.get? "schema_version".toList).bind Json.asU64).filter (· < 2 ^ 32)
  let kind ← record.strField "kind".toList
  let intentId ← record.strField "intent_id".toList
  let contentSha256 ← record.strField "content_sha256".toList
  let createdTs ← (record.get? "created_ts".toList).bind Json.asI64
  let projectKey ← record.strField "project_key".toList
  let agentName ← record.strField "agent_name".toList
  let messageId ← (record.get? "message_id".toList).bind Json.asI64
  let idempotency ← optionField AckIntentIdempotency.fromValue "idempotency" record
  let failure ← (record.get? "failure".toList).bind IntentFailure.fromValue
  return ⟨schemaVersion, kind, intentId, contentSha256, createdTs, projectKey, agentName, messageId,
    idempotency, failure⟩

structure QueuedReleaseIntentView where
  intentId : Text
  contentSha256 : Text
  createdTs : Int
  projectKey : Text
  agentName : Text
  paths : Option (List Text)
  fileReservationIds : Option (List Int)
  deriving DecidableEq

/-- A `Vec` is read from an array, element by element. -/
def arrayOf {α : Type} (element : Json → Option α) : Json → Option (List α)
  | .arr values => values.mapM element
  | _ => none

/-- `serde_json::from_value::<QueuedReleaseIntentView>` of an object. -/
def QueuedReleaseIntentView.fromValue (record : Json) : Option QueuedReleaseIntentView := do
  let intentId ← record.strField "intent_id".toList
  let contentSha256 ← record.strField "content_sha256".toList
  let createdTs ← (record.get? "created_ts".toList).bind Json.asI64
  let projectKey ← record.strField "project_key".toList
  let agentName ← record.strField "agent_name".toList
  let paths ← optionField (arrayOf Json.asStr) "paths" record
  let fileReservationIds ← optionField (arrayOf Json.asI64) "file_reservation_ids" record
  return ⟨intentId, contentSha256, createdTs, projectKey, agentName, paths, fileReservationIds⟩

/-! ### Records -/

def ackIntentKind : Text := "acknowledge_message_intent".toList

def ackIntentReplayKind : Text := "acknowledge_message_replay".toList

def releaseIntentKind : Text := "release_file_reservations_intent".toList

def releaseIntentReplayKind : Text := "release_file_reservations_replay".toList

def isTerminalReplayStatus (status : Text) : Bool :=
  status == "replayed".toList || status == "abandoned".toList

def ackIntentHasSupportedSchema (record : Json) : Bool :=
  match (record.index "schema_version".toList).asU64 with
  | some 1 => (record.get? "idempotency".toList).isNone
  | some 2 =>
    ((record.get? "idempotency".toList).bind AckIntentIdempotency.fromValue).any (·.isValid)
  | _ => false

/-- The key that a terminal marker completes. -/
def terminalKey {τ : Type} (record : Json) : Record IntentKey τ :=
  match record.strField "intent_id".toList, record.strField "intent_content_sha256".toList with
  | some intentId, some intentContentSha256 => .terminal (intentId, intentContentSha256)
  | _, _ => .ignored

/-- One turn of the loop of `read_queued_ack_intents`. -/
def ackRecord (C : Codec) (record : Json) : Record IntentKey QueuedAckIntent :=
  let kind := record.strField "kind".toList
  if kind = some ackIntentReplayKind ∧
      (record.strField "status".toList).any isTerminalReplayStatus = true then
    if !ackReplayRecordHasValidHash C record then .ignored else terminalKey record
  else if kind = some ackIntentKind then
    if !ackIntentHasSupportedSchema record then .ignored
    else if !recordHasValidIntentHash C ackIntentHashPayload record then .ignored
    else
      match QueuedAckIntent.fromValue record with
      | some intent => .intent (intent.intentId, intent.contentSha256) intent
      | none => .ignored
  else .ignored

def ensureSupportedReleaseSchema (record : Json) : Except IoError Unit :=
  let kind := record.strField "kind".toList
  if ¬ (kind = some releaseIntentKind ∨ kind = some releaseIntentReplayKind) then .ok ()
  else
    let version := (record.get? "schema_version".toList).bind Json.asU64
    if version = some 1 then .ok ()
    else
      .error ⟨.invalidData, "release journal has unsupported schema_version (" ++
        (version.map toString).getD "missing or non-integer" ++
        "); expected 1; queued release scope is unknown, replay stopped and journal preserved"⟩

/-- One turn of the loop of `read_queued_release_intents`. -/
def releaseRecord (C : Codec) (record : Json) :
    Except IoError (Record IntentKey QueuedReleaseIntentView) := do
  ensureSupportedReleaseSchema record
  let kind := record.strField "kind".toList
  if kind = some releaseIntentReplayKind ∧
      (record.strField "status".toList).any isTerminalReplayStatus = true then
    return if !releaseReplayRecordHasValidHash C record then .ignored else terminalKey record
  else if kind = some releaseIntentKind then
    if !recordHasValidIntentHash C releaseIntentHashPayload record then return .ignored
    else
      match QueuedReleaseIntentView.fromValue record with
      | some intent => return .intent (intent.intentId, intent.contentSha256) intent
      | none => return .ignored
  else return .ignored

/-! ### The reader -/

/-- `u8::is_ascii_whitespace`. -/
def isAsciiWhitespace (b : UInt8) : Bool := b == 9 || b == 10 || b == 12 || b == 13 || b == 32

def maxIntentRecordBytes : Nat := 16 * 1024 * 1024

/-- `IntentLogReader::next_record` on one line; `none` is a line that is skipped. At most one byte
over the limit is read, which is enough to see that a line is too long. -/
def nextRecord (C : Codec) (line : Bytes) : Except IoError (Option Json) :=
  if maxIntentRecordBytes < line.length then
    .error ⟨.invalidData, "degraded-intent record exceeds its byte limit; log preserved"⟩
  else if line.all isAsciiWhitespace then .ok none
  else .ok (C.fromSlice line)

/-- One turn of the reading loop, with what a reader makes of each record. -/
def readLine {τ : Type} (C : Codec) (decode : Json → Except IoError (Record IntentKey τ))
    (o : OutstandingIntents IntentKey τ) (line : Bytes) :
    Except IoError (OutstandingIntents IntentKey τ) := do
  match ← nextRecord C line with
  | none => return o
  | some record => return o.accept (← decode record)

def readQueued {τ : Type} (C : Codec) (decode : Json → Except IoError (Record IntentKey τ))
    (journal : Bytes) : Except IoError (List τ) := do
  let outstanding ← (lines newline journal).foldlM (readLine C decode) .new
  return outstanding.intoIntents

def readQueuedAckIntents (C : Codec) (journal : Bytes) : Except IoError (List QueuedAckIntent) :=
  readQueued C (fun record => .ok (ackRecord C record)) journal

def readQueuedReleaseIntents (C : Codec) (journal : Bytes) :
    Except IoError (List QueuedReleaseIntentView) :=
  readQueued C (releaseRecord C) journal

/-! ### The records of a journal -/

/-- The value of a line, if it is not skipped. -/
def lineRecord (C : Codec) (line : Bytes) : Option Json :=
  if line.all isAsciiWhitespace then none else C.fromSlice line

def recordsIn (C : Codec) (journal : Bytes) : List Json :=
  (lines newline journal).filterMap (lineRecord C)

/-- The reading loop on lines of which none is too long and each is decoded. -/
theorem foldlM_readLine {τ : Type} {C : Codec} {decode : Json → Except IoError (Record IntentKey τ)}
    {f : Json → Record IntentKey τ} {ls : List Bytes}
    (h : ∀ l ∈ ls, l.length ≤ maxIntentRecordBytes)
    (hdecode : ∀ v ∈ ls.filterMap (lineRecord C), decode v = .ok (f v))
    (o : OutstandingIntents IntentKey τ) :
    ls.foldlM (readLine C decode) o =
      .ok (((ls.filterMap (lineRecord C)).map f).foldl OutstandingIntents.accept o) := by
  induction ls generalizing o with
  | nil => rfl
  | cons l ls ih =>
    rw [List.forall_mem_cons] at h
    have hnext : nextRecord C l = .ok (lineRecord C l) := by
      rw [nextRecord, if_neg (not_lt.mpr h.1), lineRecord]
      split
      · rfl
      · rfl
    rw [List.foldlM_cons, readLine, hnext]
    cases hrecord : lineRecord C l with
    | none =>
      rw [List.filterMap_cons_none hrecord] at hdecode ⊢
      exact ih h.2 hdecode o
    | some record =>
      rw [List.filterMap_cons_some hrecord] at hdecode ⊢
      rw [List.forall_mem_cons] at hdecode
      show (do
        let o ← (do return o.accept (← decode record))
        List.foldlM (readLine C decode) o ls) = _
      rw [hdecode.1]
      exact ih h.2 hdecode.2 _

/-- A reader returns what is outstanding of the records. -/
theorem readQueued_eq {τ : Type} {C : Codec} {decode : Json → Except IoError (Record IntentKey τ)}
    {f : Json → Record IntentKey τ} {journal : Bytes}
    (h : ∀ l ∈ lines newline journal, l.length ≤ maxIntentRecordBytes)
    (hdecode : ∀ v ∈ recordsIn C journal, decode v = .ok (f v)) :
    readQueued C decode journal = .ok ((outstanding ((recordsIn C journal).map f)).map (·.2)) := by
  rw [readQueued, foldlM_readLine h hdecode]
  exact congrArg Except.ok (holds_foldl _).intoIntents

theorem recordsIn_append (C : Codec) {front : Bytes} (h : Closed newline front) (back : Bytes) :
    recordsIn C (front ++ back) = recordsIn C front ++ recordsIn C back := by
  rw [recordsIn, h.lines_append, List.filterMap_append]
  rfl

/-!
## The acknowledgement journal

`append_ack_intent` and `append_ack_replay_record`
(`crates/mcp-agent-mail-tools/src/degraded_intents.rs:309–363,578–678`), one at a time under the
journal's lock, where a crash may leave any prefix of the line that an append writes. The reader
returns the intents that were written and not completed, whatever was torn around them.
-/

/-! ### Appends -/

/-- A call of `append_ack_intent` or `append_ack_replay_record` with the time it reads. -/
inductive JournalAppend where
  | intent (createdTs : I64) (projectKey agentName : Text) (messageId : I64)
      (failureStage errorDetail : Text) (idempotency : Option AckIntentIdempotency)
  | marker (replayedTs : I64) (intentId intentContentSha256 status : Text)
      (errorDetail : Option Text)

/-- `json!(claim)`. -/
def AckIntentIdempotency.toValue (claim : AckIntentIdempotency) : Json :=
  .obj [("key".toList, .str claim.key), ("fingerprint".toList, .str claim.fingerprint)]

def ackIntentFields (createdTs : I64) (projectKey agentName : Text) (messageId : I64)
    (failureStage errorDetail : Text) (idempotency : Option AckIntentIdempotency) :
    List (Text × Json) :=
  [("schema_version".toList, .int (if idempotency.isSome then 2 else 1)),
   ("kind".toList, .str ackIntentKind), ("created_ts".toList, .int createdTs),
   ("project_key".toList, .str projectKey), ("agent_name".toList, .str agentName),
   ("message_id".toList, .int messageId),
   ("failure".toList, .obj [("stage".toList, .str failureStage),
     ("error_detail".toList, .str errorDetail)])] ++
  idempotency.toList.map fun claim => ("idempotency".toList, claim.toValue)

/-- `json!(error_detail)` of an `Option`. -/
def optionText : Option Text → Json
  | some t => .str t
  | none => .null

/-- The hashed fields of an append. -/
def JournalAppend.payload : JournalAppend → Json
  | .intent createdTs projectKey agentName messageId failureStage errorDetail idempotency =>
    .obj (ackIntentFields createdTs projectKey agentName messageId failureStage errorDetail
      idempotency)
  | .marker replayedTs intentId intentContentSha256 status errorDetail =>
    .obj
      [("schema_version".toList, .int 1), ("kind".toList, .str ackIntentReplayKind),
       ("intent_id".toList, .str intentId),
       ("intent_content_sha256".toList, .str intentContentSha256),
       ("replayed_ts".toList, .int replayedTs), ("status".toList, .str status),
       ("error_detail".toList, optionText errorDetail)]

def JournalAppend.contentSha256 (C : Codec) (a : JournalAppend) : Text := hashJsonValue C a.payload

/-- The record that goes to the journal. -/
def JournalAppend.record (C : Codec) (a : JournalAppend) : Json :=
  match a with
  | .intent createdTs projectKey agentName messageId failureStage errorDetail idempotency =>
    .obj (ackIntentFields createdTs projectKey agentName messageId failureStage errorDetail
        idempotency ++ [("intent_id".toList, .str ((a.contentSha256 C).take 16)),
       ("content_sha256".toList, .str (a.contentSha256 C))])
  | .marker replayedTs intentId intentContentSha256 status errorDetail =>
    .obj
      [("schema_version".toList, .int 1), ("kind".toList, .str ackIntentReplayKind),
       ("intent_id".toList, .str intentId), ("content_sha256".toList, .str (a.contentSha256 C)),
       ("intent_content_sha256".toList, .str intentContentSha256),
       ("replayed_ts".toList, .int replayedTs), ("status".toList, .str status),
       ("error_detail".toList, optionText errorDetail)]

/-- An intent with a malformed retry claim, or a record that no reader could take, is refused
before anything is written. -/
def JournalAppend.isRefused (C : Codec) (a : JournalAppend) : Bool :=
  (match a with
    | .intent _ _ _ _ _ _ (some claim) => !claim.isValid
    | _ => false) || maxIntentRecordBytes ≤ (C.toVec (a.record C)).length

/-- The line that `append_jsonl` writes; after a torn append it starts on a line of its own. -/
def journalLine (C : Codec) (journal : Bytes) (record : Json) : Bytes :=
  let needsLeadingNewline := journal.getLast?.any (· != newline)
  (if needsLeadingNewline then [newline] else []) ++ C.toVec record ++ [newline]

/-- An append of which `written` bytes reach the file; all do unless it crashes. -/
structure JournalEvent where
  append : JournalAppend
  written : Nat

def JournalEvent.apply (C : Codec) (journal : Bytes) (e : JournalEvent) : Bytes :=
  if e.append.isRefused C then journal
  else journal ++ (journalLine C journal (e.append.record C)).take e.written

/-- Whether the bytes of the payload are all there: the line up to its last newline. -/
def JournalEvent.isComplete (C : Codec) (journal : Bytes) (e : JournalEvent) : Bool :=
  !e.append.isRefused C && (journalLine C journal (e.append.record C)).length ≤ e.written + 1

def journalAfter (C : Codec) (events : List JournalEvent) : Bytes :=
  events.foldl (JournalEvent.apply C) []

/-- The appends of a history that were completely written, in order. -/
def completeAppends (C : Codec) : Bytes → List JournalEvent → List JournalAppend
  | _, [] => []
  | journal, e :: events =>
    (if e.isComplete C journal then [e.append] else []) ++
      completeAppends C (e.apply C journal) events

/-! ### What should be outstanding -/

/-- An intent as it was appended. -/
def JournalAppend.queued (C : Codec) (a : JournalAppend) : Option QueuedAckIntent :=
  match a with
  | .intent createdTs projectKey agentName messageId failureStage errorDetail idempotency =>
    some
      { schemaVersion := if idempotency.isSome then 2 else 1
        kind := ackIntentKind
        intentId := (a.contentSha256 C).take 16
        contentSha256 := a.contentSha256 C
        createdTs := createdTs
        projectKey := projectKey
        agentName := agentName
        messageId := messageId
        idempotency := idempotency
        failure := ⟨failureStage, errorDetail⟩ }
  | .marker .. => none

/-- Whether the append is a terminal marker for the intent. -/
def JournalAppend.completes (intent : QueuedAckIntent) : JournalAppend → Bool
  | .intent .. => false
  | .marker _ intentId intentContentSha256 status _ =>
    isTerminalReplayStatus status && intentId == intent.intentId &&
      intentContentSha256 == intent.contentSha256

/-- The distinct intents in order of first appearance, without those that were completed. -/
def queuedIntents (C : Codec) (appends : List JournalAppend) : List QueuedAckIntent :=
  (keepNew (· == ·) (appends.filterMap (·.queued C))).filter fun intent =>
    !appends.any (·.completes intent)

/-! ### What is assumed of the codec -/

/-- `serde_json` writes the values on one line and reads them back, refuses a text that breaks off
and does not mind the end of the line; no two of the values have the same hash. -/
structure Codec.Reliable (C : Codec) (values : List Json) : Prop where
  one_line : ∀ v ∈ values, newline ∉ C.toVec v
  read_back : ∀ v ∈ values, C.fromSlice (C.toVec v) = some v
  torn : ∀ v ∈ values, ∀ p, p <+: C.toVec v → p ≠ C.toVec v → C.fromSlice p = none
  blank : ∀ text : Bytes, text.all isAsciiWhitespace = true → C.fromSlice text = none
  line_end : ∀ text, C.fromSlice (text ++ [newline]) = C.fromSlice text
  no_collision : ∀ v ∈ values, ∀ w ∈ values,
    C.sha256 (C.toVec v) = C.sha256 (C.toVec w) → C.toVec v = C.toVec w

/-- The values that a history of appends puts into JSON. -/
def writtenValues (C : Codec) (events : List JournalEvent) : List Json :=
  events.flatMap fun e => [e.append.payload, e.append.record C]

end AgentMail.Journal
