import AgentMail.Base.Json

/-!
# Archived messages

What the rebuild reads from a message file of the archive
(`crates/mcp-agent-mail-db/src/reconstruct.rs:2736–2815`, `3364–3404`, `6890–7065`): the JSON
frontmatter between `---json` and `---`, the body after it, and the fields of the message with
their defaults. Of the frontmatter, `archive_metadata_json` is left out: no message, recipient or
reply edge depends on it. So are the warnings.
-/

namespace AgentMail.Rebuild

open Base

/-- The slot in which a recipient is named. -/
inductive Kind where
  | to
  | cc
  | bcc
  deriving DecidableEq

/-! ### The text of a file -/

/-- The loop of `frontmatter_bounds`: the closing marker starts a line and ends it. -/
def closingMarker (content : Text) : Nat → Nat → Option (Nat × Nat)
  | 0, _ => none
  | fuel + 1, searchFrom =>
    match findFrom "---".toList content searchFrom with
    | none => none
    | some markerStart =>
      let afterMarker := markerStart + 3
      if markerStart = 0 || content[markerStart - 1]? != some '\n' then
        closingMarker content fuel afterMarker
      else if afterMarker = content.length then some (markerStart, afterMarker)
      else if "\r\n".toList.isPrefixOf (content.drop afterMarker) then
        some (markerStart, afterMarker + 2)
      else if "\n".toList.isPrefixOf (content.drop afterMarker) then
        some (markerStart, afterMarker + 1)
      else closingMarker content fuel afterMarker

/-- `frontmatter_bounds`: where the JSON starts and ends and where the body starts. -/
def frontmatterBounds (content : Text) : Option (Nat × Nat × Nat) := do
  let start ← findFrom "---json".toList content 0
  let afterStart := content.drop start
  let jsonStart ←
    if "---json\r\n".toList.isPrefixOf afterStart then some (start + 9)
    else if "---json\n".toList.isPrefixOf afterStart then some (start + 8)
    else none
  let (jsonEnd, bodyStart) ← closingMarker content (content.length + 1) jsonStart
  return (jsonStart, jsonEnd, bodyStart)

/-- `extract_json_frontmatter`. -/
def extractJsonFrontmatter (content : Text) : Option Text :=
  (frontmatterBounds content).map fun (jsonStart, jsonEnd, _) =>
    (content.take jsonEnd).drop jsonStart

/-- `extract_body_after_frontmatter`: leading line breaks are skipped. -/
def extractBodyAfterFrontmatter (content : Text) : Option Text :=
  (frontmatterBounds content).map fun (_, _, bodyStart) =>
    (content.drop bodyStart).dropWhile fun c => c == '\n' || c == '\r'

/-! ### Fields -/

/-- What the readers of the archive take from their JSON and date libraries. -/
structure Readers where
  /-- `serde_json::from_str`. -/
  parseJson : Text → Option Json
  dates : DateParsers
  /-- `NaiveDateTime::parse_from_str` with `%Y-%m-%dT%H-%M-%SZ`, in microseconds. -/
  parseStamp : Text → Option Int

/-- `normalized_archive_agent_name`. -/
def normalizedArchiveAgentName (raw : Option Text) : Option Text :=
  (raw.map trim).filter fun name => !name.isEmpty

/-- `json_str_array`. -/
def jsonStrArray (key : Text) (value : Json) : List Text :=
  match value.get? key with
  | some (.arr values) => ((values.filterMap Json.asStr).map trim).filter fun name => !name.isEmpty
  | some (.str s) => (normalizedArchiveAgentName (some s)).toList
  | _ => []

/-- `reconstructed_recipient_field_is_valid`. -/
def recipientFieldIsValid : Json → Bool
  | .arr values => values.all Json.isString
  | .str _ => true
  | .null => true
  | _ => false

/-- `reconstructed_recipients_payload_is_valid`. -/
def recipientsPayloadIsValid (value : Json) : Bool :=
  value.isObject && ["to", "cc", "bcc"].all fun key =>
    (value.get? key.toList).all recipientFieldIsValid

/-- `MALFORMED_RECIPIENTS_SENTINEL`. -/
def malformedRecipientsSentinel : Text := "[malformed-recipients-json]".toList

/-- The names in the three slots, as `recipients_json` encodes them. -/
structure Recipients where
  toNames : List Text
  ccNames : List Text
  bccNames : List Text

/-- `normalize_archive_recipients_json`. -/
def normalizeArchiveRecipientsJson (msg : Json) : Recipients :=
  if recipientsPayloadIsValid msg then {
    toNames := jsonStrArray "to".toList msg
    ccNames := jsonStrArray "cc".toList msg
    bccNames := jsonStrArray "bcc".toList msg }
  else { toNames := [malformedRecipientsSentinel], ccNames := [], bccNames := [] }

/-- `normalize_archive_attachments_json`; `none` is the sentinel for a malformed payload. -/
def normalizeArchiveAttachmentsJson (attachments : Option Json) : Option (List Json) :=
  match attachments with
  | none => some []
  | some (.arr values) => some values
  | some _ => none

/-- `sanitize_reconstructed_thread_id`. -/
def sanitizeReconstructedThreadId (raw : Text) : Option Text :=
  let sanitized := ((trim raw).filter fun c =>
    c.isAlphanum || c == '.' || c == '_' || c == '-').take 128
  if sanitized.head?.any Char.isAlphanum then some sanitized else none

/-- `canonical_filename_created_ts`: the part of the file name before the first `__`. -/
def canonicalFilenameCreatedTs (R : Readers) (fileName : Text) : Option Int :=
  (findFrom "__".toList fileName 0).bind fun i => R.parseStamp (fileName.take i)

/-- The fields that `parse_and_insert_message` takes from a file. -/
structure ArchivedMessage where
  senderName : Text
  subject : Text
  bodyMd : Text
  threadId : Option Text
  topic : Option Text
  importance : Text
  ackRequired : Bool
  sourceReplyTo : Option Int
  createdTs : Int
  attachments : Option (List Json)
  recipients : Recipients
  sourceMessageId : Option Int

/-- A file `messages/<year>/<month>/<name>`; the content is `none` where it cannot be read. -/
structure MessageFile where
  year : Text
  month : Text
  name : Text
  content : Option Text

/-- A positive id. -/
def positiveId (key : Text) (msg : Json) : Option Int :=
  ((msg.get? key).bind Json.asI64).filter fun id => 0 < id

/-- The first part of `parse_and_insert_message`; `none` is a parse error. -/
def parseMessage (R : Readers) (file : MessageFile) : Option ArchivedMessage := do
  let content ← file.content
  let frontmatter ← extractJsonFrontmatter content
  let msg ← R.parseJson frontmatter
  return {
    senderName := (normalizedArchiveAgentName ((msg.strField "from".toList).or
      ((msg.strField "sender".toList).or (msg.strField "from_agent".toList)))).getD
        "unknown".toList
    subject := (msg.strField "subject".toList).getD []
    bodyMd := (extractBodyAfterFrontmatter content).getD []
    threadId := (msg.strField "thread_id".toList).bind sanitizeReconstructedThreadId
    topic := ((msg.strField "topic".toList).map trim).filter fun value => !value.isEmpty
    importance := (msg.strField "importance".toList).getD "normal".toList
    ackRequired := ((msg.get? "ack_required".toList).bind Json.asBool).getD false
    sourceReplyTo := positiveId "reply_to".toList msg
    createdTs := ((parseTs R.dates "created_ts".toList msg).or
      ((parseTs R.dates "created".toList msg).or
        (canonicalFilenameCreatedTs R file.name))).getD 0
    attachments := normalizeArchiveAttachmentsJson (msg.get? "attachments".toList)
    recipients := normalizeArchiveRecipientsJson msg
    sourceMessageId := positiveId "id".toList msg }

namespace ArchivedMessage

/-- The named recipients in the order in which the rebuild visits them. -/
def named (m : ArchivedMessage) : List (Text × Kind) :=
  m.recipients.toNames.map (·, Kind.to) ++ m.recipients.ccNames.map (·, Kind.cc) ++
    m.recipients.bccNames.map (·, Kind.bcc)

end ArchivedMessage

/-! ### Shared mailbox addresses -/

/-- `PROJECT_MAILBOX_ADDRESS_PREFIX`. -/
def projectMailboxAddressHead : Text := "project:".toList

/-- `parse_project_mailbox_address`
(`crates/mcp-agent-mail-db/src/project_mailbox.rs:91–95`). -/
def parseProjectMailboxAddress (raw : Text) : Option Text :=
  if projectMailboxAddressHead.isPrefixOf (trim raw) then
    let rest := (trim raw).drop projectMailboxAddressHead.length
    if rest.contains '#' then none else some (trim rest)
  else none

end AgentMail.Rebuild
