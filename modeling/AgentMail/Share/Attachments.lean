import AgentMail.Base.Json
import AgentMail.Lib.Redact

/-!
# Secret patterns

`SECRET_PATTERNS` and `scrub_text` of `crates/mcp-agent-mail-share/src/scrub.rs:34–87` and
`830–856`. A class or literal under `(?i)` takes a character if it takes one that folds to the same.
-/

namespace AgentMail.Share

open Base Lib

/-- The characters with the same simple case folding, as far as ASCII is concerned. -/
def caseVariants (c : Char) : List Char :=
  if c == 'k' || c == 'K' || c == '\u212A' then ['k', 'K', '\u212A']
  else if c == 's' || c == 'S' || c == '\u017F' then ['s', 'S', '\u017F']
  else [c.toLower, c.toUpper]

/-- A class under `(?i)`. -/
def anyCase (p : Char → Bool) (c : Char) : Bool := (caseVariants c).any p

def between (lo hi c : Char) : Bool := lo ≤ c && c ≤ hi

def isUpper (c : Char) : Bool := between 'A' 'Z' c

def isDigit (c : Char) : Bool := between '0' '9' c

/-- `[A-Za-z0-9]`. -/
def isAlnum (c : Char) : Bool := isUpper c || between 'a' 'z' c || isDigit c

/-- `[A-Za-z0-9]` and some more characters. -/
def alnumOr (others : String) (c : Char) : Bool := isAlnum c || others.toList.contains c

/-- A literal. -/
def lit (t : String) : Regex Char := .chain (t.toList.map fun d c => c == d)

/-- A literal under `(?i)`. -/
def litAnyCase (t : String) : Regex Char := .chain (t.toList.map fun d => anyCase (· == d))

/-- One character of a string. -/
def oneFrom (chars : String) : Regex Char := .one fun c => chars.toList.contains c

/-- `\s*`. -/
def spaces : Regex Char := .star true (.one isWhitespace)

/-- One pattern after the other. -/
def cat : List (Regex Char) → Regex Char
  | [] => .empty
  | [r] => r
  | r :: rs => .seq r (cat rs)

/-! ### The patterns -/

def githubToken : Regex Char := cat [litAnyCase "ghp_", (Regex.one (anyCase isAlnum)).atLeast 36]

def githubPat : Regex Char :=
  cat [litAnyCase "github_pat_", (Regex.one (anyCase (alnumOr "_"))).atLeast 20]

def slackToken : Regex Char :=
  cat [litAnyCase "xox", .one (anyCase fun c => "baprs".toList.contains c), lit "-",
    (Regex.one (anyCase (alnumOr "-"))).atLeast 10]

def anthropicKey : Regex Char :=
  cat [litAnyCase "sk-ant-", (Regex.one (anyCase (alnumOr "-"))).atLeast 20]

def stripeKey : Regex Char :=
  cat [.oneOf [litAnyCase "sk", litAnyCase "pk", litAnyCase "rk"], lit "_",
    .oneOf [litAnyCase "live", litAnyCase "test"], lit "_",
    (Regex.one (anyCase isAlnum)).atLeast 10]

def openaiKey : Regex Char := cat [litAnyCase "sk-", (Regex.one (anyCase isAlnum)).atLeast 20]

def bearerToken : Regex Char :=
  cat [litAnyCase "bearer", (Regex.one isWhitespace).atLeast 1,
    (Regex.one (anyCase (alnumOr "_-./+="))).atLeast 16]

/-- `[^/\s@]`, the characters of a user name or a password in a URL. -/
def isCredential (c : Char) : Bool := !(c == '/' || isWhitespace c || c == '@')

/-- `[a-z][a-z0-9+.-]*://`. -/
def urlScheme : Regex Char :=
  cat [.one (anyCase (between 'a' 'z')),
    .star true (.one (anyCase fun c => between 'a' 'z' c || isDigit c || "+.-".toList.contains c)),
    lit "://"]

/-- `[^/\s@]+:[^@\s/]+`. -/
def userAndPassword : Regex Char :=
  cat [(Regex.one isCredential).atLeast 1, lit ":", (Regex.one isCredential).atLeast 1]

def credentialUrl : Regex Char := cat [urlScheme, userAndPassword, lit "@"]

def envReference : Regex Char :=
  let name : Char → Bool := anyCase fun c => isUpper c || isDigit c || c == '_'
  cat [lit "$", .one (anyCase fun c => isUpper c || c == '_'), .star true (.one name),
    .oneOf [litAnyCase "SECRET", litAnyCase "TOKEN", litAnyCase "KEY", litAnyCase "PASSWORD"],
    .star true (.one name)]

def jwt : Regex Char :=
  let segment := (Regex.one (alnumOr "_-")).atLeast 1
  cat [lit "eyJ", segment, lit ".", segment, lit ".", segment]

def awsKey : Regex Char :=
  cat [lit "AKIA", (Regex.one fun c => isDigit c || isUpper c).times 16]

def azureKey : Regex Char :=
  cat [.oneOf [litAnyCase "AccountKey", litAnyCase "SharedAccessKey"], lit "=",
    (Regex.one (anyCase (alnumOr "+/="))).atLeast 20]

def gcpKeyId : Regex Char :=
  cat [lit "\"private_key_id\"", spaces, lit ":", spaces, lit "\"",
    (Regex.one fun c => between 'a' 'f' c || isDigit c).times 40, lit "\""]

def googleKey : Regex Char := cat [lit "AIza", (Regex.one (alnumOr "-_")).times 35]

def npmToken : Regex Char := cat [litAnyCase "npm_", (Regex.one (anyCase isAlnum)).atLeast 36]

/-- `-----BEGIN[A-Z ]* PRIVATE KEY-----` and its counterpart. -/
def pemLine (word : String) : Regex Char :=
  cat [lit word, .star true (.one fun c => isUpper c || c == ' '), lit " PRIVATE KEY-----"]

def pemKey : Regex Char := .block (pemLine "-----BEGIN") (fun _ => true) (pemLine "-----END")

def gitlabToken : Regex Char := cat [lit "glpat-", (Regex.one (alnumOr "-_")).atLeast 20]

/-- `[^\s"',;\[\]]`. -/
def isValue (c : Char) : Bool := !(isWhitespace c || "\"',;[]".toList.contains c)

/-- The characters of words to the `regex` crate, none of which is white space, a quote, a bracket, a
comma or a semicolon. -/
structure WordChars where
  isWord : Char → Bool
  value : ∀ c, isWord c = true → isValue c = true

/-- A name that ends in a secret word, a separator and a value. -/
def assignment : Regex Char :=
  let dash := Regex.optional (.one fun c => "_-".toList.contains c)
  let quote := Regex.optional (oneFrom "\"'")
  cat [.star true (.one (anyCase (alnumOr "_-"))),
    .oneOf [litAnyCase "secret", litAnyCase "token", litAnyCase "password", litAnyCase "passwd",
      cat [litAnyCase "api", dash, litAnyCase "key"], cat [litAnyCase "private", dash, litAnyCase "key"],
      cat [litAnyCase "access", dash, litAnyCase "key"]],
    quote, spaces, oneFrom ":=", spaces, quote, (Regex.one isValue).atLeast 16]

def secretAssignment (W : WordChars) : Regex Char := .seq (.edge W.isWord) assignment

/-- `SECRET_PATTERNS`. -/
def secretPatterns (W : WordChars) : List (Regex Char) :=
  [githubToken, githubPat, slackToken, anthropicKey, stripeKey, openaiKey, bearerToken, credentialUrl,
    envReference, jwt, awsKey, azureKey, gcpKeyId, googleKey, npmToken, pemKey, gitlabToken,
    secretAssignment W]

/-! ### Scrubbing a text -/

/-- `[REDACTED]`. -/
def redacted : BracketMark Char := ⟨'[', "REDACTED".toList, ']'⟩

/-- One turn of the loop of `scrub_text`. -/
def scrubStep (state : Text × Nat) (pattern : Regex Char) : Text × Nat :=
  let found := pattern.findCount state.1
  if 0 < found then (pattern.replaceAll redacted.text state.1, state.2 + found) else state

def scrubText (W : WordChars) (input : Text) : Text × Nat :=
  (secretPatterns W).foldl scrubStep (input, 0)

/-!
## Attachment metadata in a shared export

`parse_attachments_json`, `scrub_structure`, the redaction of project paths and the part of
`scrub_snapshot_redacting` that puts them together
(`crates/mcp-agent-mail-share/src/scrub.rs:20–32`, `89–101`, `556–597`, `858–923`, `1073–1152`) under
the standard preset. Of the summary only the numbers of secrets and keys are modelled; the text in
which the result is stored is not.
-/

/-- `ATTACHMENT_REDACT_KEYS`. -/
def attachmentRedactKeys : List Text :=
  ["download_url".toList, "headers".toList, "authorization".toList, "signed_url".toList,
    "bearer_token".toList]

/-- `char::to_lowercase`, fixed here for ASCII only. -/
structure CharLowercase where
  toLowercase : Char → List Char
  ascii : ∀ c, c.toNat < 128 → toLowercase c = [c.toLower]

def normalizeRedactKey (L : CharLowercase) (key : Text) : Text :=
  (key.filter fun ch => !isWhitespace ch && ch != '\x00').flatMap L.toLowercase

/-- `NORMALIZED_ATTACHMENT_REDACT_KEYS.contains(&normalize_redact_key(key))`. -/
def isRedactKey (L : CharLowercase) (key : Text) : Bool :=
  (attachmentRedactKeys.map (normalizeRedactKey L)).contains (normalizeRedactKey L key)

/-! ### Reading -/

mutual

/-- How deep arrays and objects nest. -/
def nesting : Json → Nat
  | .arr items => nestingOfItems items + 1
  | .obj fields => nestingOfFields fields + 1
  | .null => 0
  | .bool _ => 0
  | .int _ => 0
  | .float _ => 0
  | .str _ => 0

def nestingOfItems : List Json → Nat
  | [] => 0
  | item :: rest => max (nesting item) (nestingOfItems rest)

def nestingOfFields : List (Text × Json) → Nat
  | [] => 0
  | (_, value) :: rest => max (nesting value) (nestingOfFields rest)

end

/-- `serde_json::from_str`, which refuses to nest deeper than 128. -/
structure JsonReader where
  fromStr : Text → Option Json
  nesting_le : ∀ t v, fromStr t = some v → nesting v ≤ 128

def parseAttachmentsJson (R : JsonReader) (value : Text) : Option (List Json) :=
  if (trim value).isEmpty then some []
  else
    match R.fromStr value with
    | some (.arr arr) => some arr
    | some (.str inner) =>
      match R.fromStr inner with
      | some (.arr arr) => some arr
      | _ => none
    | _ => none

/-! ### Secrets -/

/-- `is_empty_value`. -/
def isEmptyValue : Json → Bool
  | .null => true
  | .str s => s.isEmpty
  | .arr a => a.isEmpty
  | .obj o => o.isEmpty
  | _ => false

section

variable (W : WordChars) (L : CharLowercase)

mutual

/-- The scrubbed value, the number of secrets and the number of removed keys. The keys of an object
are distinct, so that its fields are inserted one after the other. -/
def scrubStructure : Json → Nat → Json × Nat × Nat
  | .str s, depth =>
    if 256 < depth then (.str s, 0, 0) else (.str (scrubText W s).1, (scrubText W s).2, 0)
  | .arr arr, depth =>
    if 256 < depth then (.arr arr, 0, 0)
    else
      let out := scrubItems arr (depth + 1)
      (.arr out.1, out.2)
  | .obj obj, depth =>
    if 256 < depth then (.obj obj, 0, 0)
    else
      let out := scrubFields obj (depth + 1)
      (.obj out.1, out.2)
  | .null, _ => (.null, 0, 0)
  | .bool b, _ => (.bool b, 0, 0)
  | .int n, _ => (.int n, 0, 0)
  | .float s, _ => (.float s, 0, 0)

def scrubItems : List Json → Nat → List Json × Nat × Nat
  | [], _ => ([], 0, 0)
  | item :: rest, depth =>
    let (v, r, k) := scrubStructure item depth
    let (vs, reps, keys) := scrubItems rest depth
    (v :: vs, r + reps, k + keys)

def scrubFields : List (Text × Json) → Nat → List (Text × Json) × Nat × Nat
  | [], _ => ([], 0, 0)
  | (key, val) :: rest, depth =>
    let (fields, reps, keys) := scrubFields rest depth
    if isRedactKey L key then
      (fields, reps, if isEmptyValue val then keys else keys + 1)
    else
      let (v, r, k) := scrubStructure val depth
      ((key, v) :: fields, r + reps, k + keys)

end

end

/-! ### Project paths -/

/-- `ProjectPathRedaction`. -/
structure ProjectPathRedaction where
  original : Text
  replacement : Text
deriving DecidableEq

/-- What `redacted_project_human_key` puts between the brackets. -/
def redactedLabel (slug : Text) : Text :=
  if (trim slug).isEmpty then "project path redacted".toList
  else "project path redacted: ".toList ++ trim slug

def redactedProjectHumanKey (slug : Text) : Text := '[' :: redactedLabel slug ++ [']']

def projectPathRedactionFor (slug humanKey : Text) : Option ProjectPathRedaction :=
  let original := trim humanKey
  if original.isEmpty || original == ['/'] || original == ['\\'] ||
      !(original.contains '/' || original.contains '\\' || ['~'].isPrefixOf original) then none
  else
    let replacement := redactedProjectHumanKey slug
    if original == replacement then none else some ⟨original, replacement⟩

/-- A text as the pattern of `str::replace`. -/
def exactly (t : Text) : Regex Char := .chain (t.map fun d c => c == d)

def redactProjectPathsInText (input : Text) (redactions : List ProjectPathRedaction) : Text :=
  redactions.foldl (fun out redaction =>
    (exactly redaction.original).replaceAll redaction.replacement out) input

section

variable (redactions : List ProjectPathRedaction)

mutual

def redactProjectPathsInValue : Json → Nat → Json
  | .str s, depth =>
    if 256 < depth then .str s else .str (redactProjectPathsInText s redactions)
  | .arr arr, depth =>
    if 256 < depth then .arr arr else .arr (redactProjectPathsInItems arr (depth + 1))
  | .obj obj, depth =>
    if 256 < depth then .obj obj else .obj (redactProjectPathsInFields obj (depth + 1))
  | .null, _ => .null
  | .bool b, _ => .bool b
  | .int n, _ => .int n
  | .float s, _ => .float s

def redactProjectPathsInItems : List Json → Nat → List Json
  | [], _ => []
  | item :: rest, depth =>
    redactProjectPathsInValue item depth :: redactProjectPathsInItems rest depth

def redactProjectPathsInFields : List (Text × Json) → Nat → List (Text × Json)
  | [], _ => []
  | (key, val) :: rest, depth =>
    (key, redactProjectPathsInValue val depth) :: redactProjectPathsInFields rest depth

end

end

/-! ### The attachments of a message -/

/-- The items of a scrubbed array. -/
def itemsOr (data : List Json) : Json → List Json
  | .arr arr => arr
  | _ => data

/-- The attachments that are written back and the number of replaced secrets; the export is refused
where the metadata cannot be parsed. Writing back data that has not changed changes nothing. -/
def scrubAttachments (R : JsonReader) (W : WordChars) (L : CharLowercase)
    (redactions : List ProjectPathRedaction) (value : Text) : Option (List Json × Nat) :=
  match parseAttachmentsJson R value with
  | none => none
  | some attachments =>
    let (scrubbed, replaced) :=
      if attachments.isEmpty then (attachments, 0)
      else
        let (sanitized, repCount, _) := scrubStructure W L (.arr attachments) 0
        (itemsOr attachments sanitized, repCount)
    if redactions.isEmpty || scrubbed.isEmpty then some (scrubbed, replaced)
    else
      some (itemsOr scrubbed (redactProjectPathsInValue redactions (.arr scrubbed) 0), replaced)

end AgentMail.Share
