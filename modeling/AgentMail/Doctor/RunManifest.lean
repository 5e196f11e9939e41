import Mathlib.Data.List.Sort
import AgentMail.Doctor.RunLedger

/-!
# Sealed runs

`canonical_message`, `backups_root_hash`, `compute_manifest`, `verify_run_manifest` and
`reconcile_with_ledger` (`crates/mcp-agent-mail-cli/src/doctor/manifest.rs:91–525`, `868–954`). A run
directory is what these functions read of it; names are their UTF-8 bytes.

SHA-256, the parser of `manifest.json` and the `Debug` form of a text are parameters. Directories under
`backups/` have no entry of their own, as in the source.
-/

namespace AgentMail.Doctor

open Base Lib

structure RunManifest where
  manifestVersion : Nat
  runId : Text
  actionsSha256 : Text
  backupsRootSha256 : Text
  hmacSha256 : Text
  deriving DecidableEq

/-- What the manifest takes from outside. -/
structure Crates where
  sha256 : Bytes → Vector UInt8 32
  /-- `serde_json::from_slice::<RunManifest>`, with the text of its error. -/
  parseManifest : Bytes → Except Text RunManifest
  /-- The `Debug` form of a `str`. -/
  debug : Text → Text

def manifestVersion : Nat := 1

inductive ManifestVerdict where
  | absent
  | verified
  | keyUnavailable (detail : Text)
  | malformed (detail : Text)
  | tampered (detail : Text)
  | ledgerMismatch (detail : Text)
  deriving DecidableEq

def ManifestVerdict.allowsReplay (verdict : ManifestVerdict) (allowUnverified : Bool) : Bool :=
  match verdict with
  | .verified | .absent => true
  | .keyUnavailable _ | .malformed _ | .tampered _ | .ledgerMismatch _ => allowUnverified

/-! ### The HMAC -/

def hmacBlock : Nat := 64

def hmacSha256 (C : Crates) (key msg : Bytes) : Vector UInt8 32 :=
  let start := if hmacBlock < key.length then (C.sha256 key).toList else key
  let block := start ++ List.replicate (hmacBlock - start.length) 0
  let ipad := block.map fun k => 0x36 ^^^ k
  let opad := block.map fun k => 0x5c ^^^ k
  let inner := C.sha256 (ipad ++ msg)
  C.sha256 (opad ++ inner.toList)

/-- `ct_eq`: all bytes are compared, whatever the first ones are. -/
def ctEq (a b : Bytes) : Bool :=
  if a.length ≠ b.length then false
  else (a.zip b).foldl (fun diff p => diff ||| (p.1 ^^^ p.2)) 0 == 0

/-- Eight bytes of length, then the bytes. -/
def field (bytes : Bytes) : Bytes := leBytes 8 bytes.length ++ bytes

def domain : Text := "mcp-agent-mail/doctor-undo-manifest/v1".toList

def canonicalMessage (runId actionsSha256 backupsRootSha256 : Text) : Bytes :=
  field (utf8 domain) ++ field (utf8 runId) ++ field (utf8 actionsSha256) ++
    field (utf8 backupsRootSha256)

/-! ### Artifacts -/

/-- What stands under a name in `backups/`. -/
inductive BackupItem where
  | file (content : Bytes)
  | symlink (target : Bytes)
  /-- A FIFO, a device or a socket. -/
  | other

def BackupItem.kind : BackupItem → UInt8
  | .file _ => 0
  | .symlink _ => 1
  | .other => 2

/-- The bytes that are hashed for it. -/
def BackupItem.payload : BackupItem → Bytes
  | .file content => content
  | .symlink target => target
  | .other => utf8 "non-regular".toList

structure BackupEntry where
  rel : Bytes
  item : BackupItem

/-- The entries of a walk of `backups/`; there are none if the directory is missing. -/
structure Backups where
  entries : List BackupEntry
  distinct : (entries.map BackupEntry.rel).Nodup
  count_lt : entries.length < 256 ^ 8
  rel_lt : ∀ e ∈ entries, e.rel.length < 256 ^ 8

/-- What `backups/` has under a name. -/
def Backups.item? (backups : Backups) (rel : Bytes) : Option BackupItem :=
  (backups.entries.find? fun e => e.rel == rel).map BackupEntry.item

/-- One entry as it goes into the root hash. -/
def entryBytes (C : Crates) (e : BackupEntry) : Bytes :=
  leBytes 8 e.rel.length ++ e.rel ++ [e.item.kind] ++ (C.sha256 e.item.payload).toList

/-- The entries by their names. -/
def sortedEntries (backups : Backups) : List BackupEntry :=
  backups.entries.insertionSort fun a b => a.rel ≤ b.rel

/-- What the root hash is the hash of. -/
def rootBytes (C : Crates) (backups : Backups) : Bytes :=
  utf8 "backups-root/v1".toList ++ leBytes 8 (sortedEntries backups).length ++
    (sortedEntries backups).flatMap (entryBytes C)

/-- The text of a digest. -/
def sha256Text (C : Crates) (bytes : Bytes) : Text :=
  "sha256:".toList ++ hexEncode (C.sha256 bytes).toList

def backupsRootHash (C : Crates) (backups : Backups) : Text := sha256Text C (rootBytes C backups)

/-- What reading `manifest.json` gives. -/
inductive ManifestFile where
  | notFound
  | statError (error : Text)
  | symlink
  | unreadable (error : Text)
  | bytes (content : Bytes)

/-- The contents of a run directory, or the errors of reading them. -/
structure RunDir where
  manifest : ManifestFile
  actions : Except Text Bytes
  backups : Except Text Backups

/-! ### Sealing -/

/-- The artifacts of a finished run. -/
structure Seal where
  runId : Text
  actions : Bytes
  backups : Backups

def computeManifest (C : Crates) (s : Seal) (key : Bytes) : RunManifest :=
  let actionsSha256 := sha256Text C s.actions
  let backupsRootSha256 := backupsRootHash C s.backups
  let mac := hmacSha256 C key (canonicalMessage s.runId actionsSha256 backupsRootSha256)
  { manifestVersion := manifestVersion
    runId := s.runId
    actionsSha256 := actionsSha256
    backupsRootSha256 := backupsRootSha256
    hmacSha256 := hexEncode mac.toList }

/-- The entry of `record_run_in_ledger_default`. -/
def ledgerEntryOf (manifest : RunManifest) (repo : Text) (nowUs : Int) : LedgerEntry :=
  { runId := manifest.runId
    hmacSha256 := manifest.hmacSha256
    actionsSha256 := manifest.actionsSha256
    backupsRootSha256 := manifest.backupsRootSha256
    repo := repo
    sealedAtUs := nowUs }

/-! ### Verifying -/

/-- The check of the artifacts against a parsed manifest. -/
def verifyArtifacts (C : Crates) (dir : RunDir) (runId : Text) (key : Bytes)
    (manifest : RunManifest) : ManifestVerdict :=
  match dir.actions with
  | .error e => .tampered ("actions.jsonl unreadable: ".toList ++ e)
  | .ok actions =>
    let actionsSha256 := sha256Text C actions
    if actionsSha256 ≠ manifest.actionsSha256 then
      .tampered ("actions.jsonl content drift (recomputed ".toList ++ actionsSha256 ++
        " != sealed ".toList ++ manifest.actionsSha256 ++ ")".toList)
    else
      match dir.backups with
      | .error e => .tampered ("backups unreadable: ".toList ++ e)
      | .ok backups =>
        let backupsRootSha256 := backupsRootHash C backups
        if backupsRootSha256 ≠ manifest.backupsRootSha256 then
          .tampered "backups/ content drift versus sealed manifest".toList
        else
          let expected := hmacSha256 C key (canonicalMessage runId actionsSha256 backupsRootSha256)
          match hexDecode manifest.hmacSha256 with
          | none => .tampered "manifest hmac_sha256 is not hex".toList
          | some stored =>
            if ctEq expected.toList stored then .verified
            else
              .tampered
                "manifest HMAC mismatch (artifacts altered, or sealed with a different key)".toList

def verifyRunManifest (C : Crates) (dir : RunDir) (runId : Text) (key : Option Bytes) :
    ManifestVerdict :=
  match dir.manifest with
  | .notFound => .absent
  | .statError e => .malformed ("stat manifest: ".toList ++ e)
  | .symlink => .malformed "manifest.json is a symlink".toList
  | .unreadable e => .malformed ("read manifest: ".toList ++ e)
  | .bytes content =>
    match C.parseManifest content with
    | .error e => .malformed ("parse manifest: ".toList ++ e)
    | .ok manifest =>
      if manifest.manifestVersion ≠ manifestVersion then
        .malformed ("unsupported manifest_version ".toList ++
          (toString manifest.manifestVersion).toList ++ " (expected ".toList ++
          (toString manifestVersion).toList ++ ")".toList)
      else if manifest.runId ≠ runId then
        .tampered ("manifest run_id ".toList ++ C.debug manifest.runId ++
          " does not match run ".toList ++ C.debug runId)
      else
        match key with
        | none =>
          .keyUnavailable
            "per-install doctor-undo key is unavailable; cannot verify chain of custody".toList
        | some key => verifyArtifacts C dir runId key manifest

/-! ### The ledger's word -/

/-- The MACs of the ledger are hexadecimal, so that their bytes are their characters. -/
def shortMac (mac : Text) : Text := mac.take 16

def ledgerKeylessVerify (C : Crates) (dir : RunDir) (runId : Text) (entry : LedgerEntry) :
    ManifestVerdict :=
  match dir.actions with
  | .error e =>
    .ledgerMismatch ("run ".toList ++ runId ++
      ": actions.jsonl unreadable for ledger re-check: ".toList ++ e)
  | .ok actions =>
    if sha256Text C actions ≠ entry.actionsSha256 then
      .ledgerMismatch ("run ".toList ++ runId ++
        ": actions.jsonl drifted from the out-of-repo ledger (disk ".toList ++
        sha256Text C actions ++ " != ledger ".toList ++ entry.actionsSha256 ++ ")".toList)
    else
      match dir.backups with
      | .error e =>
        .ledgerMismatch ("run ".toList ++ runId ++
          ": backups/ unreadable for ledger re-check: ".toList ++ e)
      | .ok backups =>
        if backupsRootHash C backups ≠ entry.backupsRootSha256 then
          .ledgerMismatch ("run ".toList ++ runId ++
            ": backups/ drifted from the out-of-repo ledger".toList)
        else .verified

def reconcileWithLedger (C : Crates) (dir : RunDir) (runId : Text) (diskVerdict : ManifestVerdict)
    (ledgerEntry : Option LedgerEntry) : ManifestVerdict :=
  match ledgerEntry with
  | none => diskVerdict
  | some entry =>
    match diskVerdict with
    | .absent =>
      .ledgerMismatch ("run ".toList ++ runId ++
        ": the out-of-repo ledger recorded a sealed manifest (mac ".toList ++
        shortMac entry.hmacSha256 ++
        "), but no manifest.json is present — refusing a manifest-omission downgrade".toList)
    | .verified => .verified
    | .keyUnavailable _ => ledgerKeylessVerify C dir runId entry
    | .malformed _ | .tampered _ | .ledgerMismatch _ => diskVerdict

end AgentMail.Doctor
