import Mathlib.Data.List.Sort
import AgentMail.Base.Bytes
import AgentMail.Lib.FileTree

/-!
# The exported bundle

`maybe_chunk_database`, `compute_viewer_sri`, `write_bundle_scaffolding` and `hash_bundle_files`
(`crates/mcp-agent-mail-share/src/bundle.rs:434–609`, `1361–1380`, `1389–1460`, `1477–1567`,
`1756–1782`) and `sign_manifest` (`crypto.rs:36–122`), on a staging directory of regular files whose
path is canonical, as the command line makes it.

Ed25519, base64, SHA-256 and `serde_json` are parameters, and so are the generated texts and the
sections of the manifest that verification does not read. A directory without files is not modelled.
-/

namespace AgentMail.Share

open Base Lib

/-! ### Names -/

/-- A name that a directory can have. -/
def PlainName (c : Text) : Prop :=
  c ≠ [] ∧ c ≠ ['.'] ∧ c ≠ ['.', '.'] ∧ '/' ∉ c ∧ '\x00' ∉ c

instance (c : Text) : Decidable (PlainName c) := inferInstanceAs (Decidable (_ ∧ _))

abbrev Name : Type := {c : Text // PlainName c}

abbrev Staging : Type := FileTree Name Bytes

/-- A path as a text. -/
def pathText (p : List Name) : Text := joinSlash (p.map Subtype.val)

/-- Where a text leads from the bundle's root. -/
inductive Place where
  | inside (p : List Name)
  | missing
  | notDirectory
  /-- Out of the bundle. -/
  | elsewhere
  deriving DecidableEq

def walk (t : Staging) : List Name → List Text → Place
  | dirs, [] => .inside dirs
  | dirs, c :: cs =>
    if t.isDir dirs = false then if (t.get? dirs).isSome then .notDirectory else .missing
    else if c = [] ∨ c = ['.'] then walk t dirs cs
    else if c = ['.', '.'] then if dirs = [] then .elsewhere else walk t dirs.dropLast cs
    else if h : PlainName c then walk t (dirs ++ [⟨c, h⟩]) cs
    else .missing

/-- `output_dir.join(rel)`, followed by the file system. -/
def place (t : Staging) (rel : Text) : Place :=
  if rel.head? = some '/' then .elsewhere else walk t [] (splitSlash rel)

/-- What is read there; `outside` are the files that are not in the bundle. -/
def readAt (outside : Text → Option Bytes) (t : Staging) (rel : Text) : Option Bytes :=
  match place t rel with
  | .inside p => t.get? p
  | .elsewhere => outside rel
  | .missing | .notDirectory => none

/-! ### Writing -/

inductive ShareError where
  | invalidThreshold (field : Text) (value : Nat)
  | manifestNotFound (path : Text)
  | manifestParse (message : Text)
  | io (message : Text)
  /-- An I/O error where the source's text names a path. -/
  | ioAt (path : Text)

/-- `write_output_bytes`. -/
def writeOutputBytes (t : Staging) (p : List Name) (data : Bytes) : Except ShareError Staging :=
  match t.put? p data with
  | some t => .ok t
  | none => .error (.ioAt (pathText p))

/-- What the export and the verification take from outside. -/
structure BundleCrates where
  sha256 : Bytes → Vector UInt8 32
  /-- `serde_json::to_string_pretty`. -/
  encodePretty : Json → Bytes
  /-- `serde_json::from_slice`, with the text of its error. -/
  fromSlice : Bytes → Except Text Json
  /-- The text of a file and `serde_json::from_str` of it. -/
  fromStr : Bytes → Except ShareError Json
  base64Encode : Bytes → Text
  base64Decode : Text → Option Bytes
  publicKey : Vector UInt8 32 → Vector UInt8 32
  sign : Vector UInt8 32 → Bytes → Vector UInt8 64
  /-- Whether the bytes are a key. -/
  isVerifyingKey : Vector UInt8 32 → Bool
  verify : Vector UInt8 32 → Bytes → Vector UInt8 64 → Bool

def hexSha256 (C : BundleCrates) (data : Bytes) : Text := hexEncode (C.sha256 data).toList

/-! ### Chunks -/

/-- `format!("{index:05}")`. -/
def fiveDigits (index : Nat) : Text :=
  List.replicate (5 - (natText index).length) '0' ++ natText index

theorem isDigit_of_mem_fiveDigits {index : Nat} {c : Char} (h : c ∈ fiveDigits index) :
    c.isDigit = true := by
  rcases List.mem_append.mp h with h | h
  · rw [List.eq_of_mem_replicate h]
    rfl
  · exact isDigit_of_mem_natText h

theorem length_fiveDigits (index : Nat) : 5 ≤ (fiveDigits index).length := by
  rw [fiveDigits, List.length_append, List.length_replicate]
  omega

def chunkFile (index : Nat) : Text := fiveDigits index ++ ".bin".toList

theorem plainName_chunkFile (index : Nat) : PlainName (chunkFile index) := by
  have hlength : 5 ≤ (chunkFile index).length := by
    rw [chunkFile, List.length_append]
    have := length_fiveDigits index
    omega
  have hsuffix : ∀ c ∈ ".bin".toList, c ≠ '/' ∧ c ≠ '\x00' := by decide
  have hchars : ∀ c ∈ chunkFile index, c ≠ '/' ∧ c ≠ '\x00' := by
    intro c hc
    rcases List.mem_append.mp hc with hc | hc
    · have hdigit := isDigit_of_mem_fiveDigits hc
      constructor <;> (rintro rfl; cases hdigit)
    · exact hsuffix c hc
  refine ⟨?_, ?_, ?_, fun h => (hchars _ h).1 rfl, fun h => (hchars _ h).2 rfl⟩
  all_goals
    intro h
    rw [h] at hlength
    simp at hlength

def chunkName (index : Nat) : Name := ⟨chunkFile index, plainName_chunkFile index⟩

def chunksDir : Name := ⟨"chunks".toList, by decide⟩

def checksumsFile : Name := ⟨"chunks.sha256".toList, by decide⟩

def chunkConfigFile : Name := ⟨"mailbox.sqlite3.config.json".toList, by decide⟩

structure ChunkManifest where
  version : Nat
  chunkSize : Nat
  chunkCount : Nat
  pattern : Text
  originalBytes : Nat
  thresholdBytes : Nat

/-- `json!(chunk_manifest)`. -/
def ChunkManifest.toValue (m : ChunkManifest) : Json :=
  .obj
    [("version".toList, .int m.version), ("chunk_size".toList, .int m.chunkSize),
     ("chunk_count".toList, .int m.chunkCount), ("pattern".toList, .str m.pattern),
     ("original_bytes".toList, .int m.originalBytes),
     ("threshold_bytes".toList, .int m.thresholdBytes)]

/-- What the reading loop takes from a file, as long as there is something; a turn takes at least
one byte. -/
def cutChunks (chunkBytes : Nat) : Nat → Bytes → List Bytes
  | 0, _ => []
  | turns + 1, rest =>
    if rest.isEmpty then []
    else rest.take chunkBytes :: cutChunks chunkBytes turns (rest.drop chunkBytes)

/-- The chunks from one index on, with their checksum lines. -/
def writeChunks (C : BundleCrates) : Nat → List Bytes → Staging → Except ShareError (Staging × Text)
  | _, [], t => .ok (t, [])
  | index, chunk :: chunks, t => do
    let t ← writeOutputBytes t [chunksDir, chunkName index] chunk
    let (t, lines) ← writeChunks C (index + 1) chunks t
    return (t, hexSha256 C chunk ++ "  chunks/".toList ++ chunkFile index ++ ['\n'] ++ lines)

def maybeChunkDatabase (C : BundleCrates) (t : Staging) (snapshot : Bytes)
    (thresholdBytes chunkBytes : Nat) : Except ShareError (Staging × Option ChunkManifest) := do
  if chunkBytes = 0 then .error (.invalidThreshold "chunk_size".toList 0)
  else if snapshot.length ≤ thresholdBytes then return (t, none)
  else
    let chunks := cutChunks chunkBytes snapshot.length snapshot
    let (t, checksums) ← writeChunks C 0 chunks t
    let t ← writeOutputBytes t [checksumsFile] (utf8 checksums)
    let config : ChunkManifest :=
      { version := 1
        chunkSize := chunkBytes
        chunkCount := chunks.length
        pattern := "chunks/\x7bindex:05d\x7d.bin".toList
        originalBytes := snapshot.length
        thresholdBytes := thresholdBytes }
    let t ← writeOutputBytes t [chunkConfigFile]
      (C.encodePretty config.toValue)
    return (t, some config)

/-! ### Listed files -/

/-- `replace('\\', "/")`. -/
def slashed (rel : Text) : Text := rel.map fun c => if c = '\\' then '/' else c

/-- `collect_entries` of the bundle, in some order. -/
def collectEntries (t : Staging) : List Text := t.files.map fun f => slashed (pathText f.1)

def unhashedBundleFiles : List Text :=
  ["manifest.json".toList, "manifest.sig.json".toList, "_headers".toList, "_redirects".toList,
   ".nojekyll".toList]

def hashLoop (C : BundleCrates) (outside : Text → Option Bytes) (t : Staging) :
    List Text → List (Text × Json) → Except ShareError (List (Text × Json))
  | [], files => .ok files
  | relative :: entries, files =>
    if relative ∈ unhashedBundleFiles then hashLoop C outside t entries files
    else
      match readAt outside t relative with
      | none => .error (.ioAt relative)
      | some data =>
        hashLoop C outside t entries (Assoc.insert relative (.str (hexSha256 C data)) files)

def hashBundleFiles (C : BundleCrates) (outside : Text → Option Bytes) (t : Staging) :
    Except ShareError (List (Text × Json)) := hashLoop C outside t (collectEntries t) []

def viewerDir : Name := ⟨"viewer".toList, by decide⟩

def vendorDir : Name := ⟨"vendor".toList, by decide⟩

/-- `collect_entries` of `viewer/vendor`, in some order. -/
def vendorEntries (t : Staging) : List Text :=
  t.files.filterMap fun f =>
    match f.1 with
    | a :: b :: c :: rest =>
      if a = viewerDir ∧ b = vendorDir then some (slashed (pathText (c :: rest))) else none
    | _ => none

def sriText (C : BundleCrates) (data : Bytes) : Text :=
  "sha256-".toList ++ C.base64Encode (C.sha256 data).toList

/-- `vendor_dir.join(relative)`. -/
def vendorPath (relative : Text) : Text :=
  if relative.head? = some '/' then relative else "viewer/vendor/".toList ++ relative

/-- One turn of the loop of `compute_viewer_sri`. -/
def addSri (C : BundleCrates) (outside : Text → Option Bytes) (t : Staging)
    (sri : List (Text × Text)) (relative : Text) : List (Text × Text) :=
  match readAt outside t (vendorPath relative) with
  | some data => Assoc.insert ("vendor/".toList ++ relative) (sriText C data) sri
  | none => sri

/-- The map has no order. -/
def computeViewerSri (C : BundleCrates) (outside : Text → Option Bytes) (t : Staging) :
    List (Text × Text) := (vendorEntries t).foldl (addSri C outside t) []

/-! ### The manifest -/

mutual

def sortJsonKeys : Json → Json
  | .obj fields => .obj ((sortFields fields).insertionSort fun a b => a.1 ≤ b.1)
  | .arr values => .arr (sortValues values)
  | .null => .null
  | .bool b => .bool b
  | .int n => .int n
  | .float s => .float s
  | .str s => .str s

def sortFields : List (Text × Json) → List (Text × Json)
  | [] => []
  | (key, value) :: rest => (key, sortJsonKeys value) :: sortFields rest

def sortValues : List Json → List Json
  | [] => []
  | value :: rest => sortJsonKeys value :: sortValues rest

end

/-- What an export is made of, besides the staged files. -/
structure ExportInput where
  chunkThreshold : Nat
  chunkSize : Nat
  ftsEnabled : Bool
  /-- `messages_path` and `meta_info`. -/
  viewerData : Option (Text × Json)
  /-- The sections of the manifest that have no field here. -/
  sections : List (Text × Json)
  sections_distinct : (sections.map (·.1)).Nodup
  sections_other : ∀ key ∈ ["database".toList, "viewer".toList, "files".toList],
    key ∉ sections.map (·.1)
  readme : Bytes
  howToDeploy : Bytes
  entryPage : Bytes
  headers : Bytes

def databaseFile : Name := ⟨"mailbox.sqlite3".toList, by decide⟩

def databaseSection (C : BundleCrates) (input : ExportInput) (chunkManifest : Option ChunkManifest)
    (database : Bytes) : Json :=
  .obj
    [("path".toList, .str databaseFile.val), ("size_bytes".toList, .int database.length),
     ("sha256".toList, .str (hexSha256 C database)), ("chunked".toList, .bool chunkManifest.isSome),
     ("chunk_manifest".toList, (chunkManifest.map ChunkManifest.toValue).getD .null),
     ("fts_enabled".toList, .bool input.ftsEnabled)]

def viewerSection (input : ExportInput) (viewerSri : List (Text × Text)) : Json :=
  match input.viewerData with
  | some (messagesPath, metaInfo) =>
    .obj
      [("messages".toList, .str messagesPath), ("meta_info".toList, metaInfo),
       ("sri".toList, .obj (viewerSri.map fun e => (e.1, .str e.2)))]
  | none => .null

/-- `build_manifest` with the map of files. -/
def buildManifest (C : BundleCrates) (input : ExportInput) (chunkManifest : Option ChunkManifest)
    (database : Bytes) (viewerSri : List (Text × Text)) (files : List (Text × Json)) : Json :=
  .obj (input.sections ++ [("database".toList, databaseSection C input chunkManifest database),
     ("viewer".toList, viewerSection input viewerSri), ("files".toList, .obj files)])

def manifestFile : Name := ⟨"manifest.json".toList, by decide⟩

def readmeFile : Name := ⟨"README.md".toList, by decide⟩

def deployFile : Name := ⟨"HOW_TO_DEPLOY.md".toList, by decide⟩

def entryFile : Name := ⟨"index.html".toList, by decide⟩

def nojekyllFile : Name := ⟨".nojekyll".toList, by decide⟩

def headersFile : Name := ⟨"_headers".toList, by decide⟩

/-- The scaffolding up to the manifest, which records the hash of every file before it. -/
def writeScaffoldingFiles (C : BundleCrates) (outside : Text → Option Bytes) (input : ExportInput)
    (chunkManifest : Option ChunkManifest) (database : Bytes) (viewerSri : List (Text × Text))
    (t : Staging) : Except ShareError (Staging × Json) := do
  let t ← writeOutputBytes t [readmeFile] input.readme
  let t ← writeOutputBytes t [deployFile] input.howToDeploy
  let t ← writeOutputBytes t [entryFile] input.entryPage
  let t ← writeOutputBytes t [nojekyllFile] []
  let t ← writeOutputBytes t [headersFile] input.headers
  let files ← hashBundleFiles C outside t
  return (t, sortJsonKeys (buildManifest C input chunkManifest database viewerSri files))

def writeBundleScaffolding (C : BundleCrates) (outside : Text → Option Bytes) (input : ExportInput)
    (chunkManifest : Option ChunkManifest) (database : Bytes) (viewerSri : List (Text × Text))
    (t : Staging) : Except ShareError Staging := do
  let (t, manifest) ←
    writeScaffoldingFiles C outside input chunkManifest database viewerSri t
  writeOutputBytes t [manifestFile] (C.encodePretty manifest)

/-- The export of staged files, among them the database. -/
def exportBundle (C : BundleCrates) (outside : Text → Option Bytes) (input : ExportInput)
    (database : Bytes) (t : Staging) : Except ShareError Staging := do
  let (t, chunkManifest) ← maybeChunkDatabase C t database input.chunkThreshold input.chunkSize
  let viewerSri := computeViewerSri C outside t
  writeBundleScaffolding C outside input chunkManifest database viewerSri t

/-! ### Signing -/

def signatureFile : Name := ⟨"manifest.sig.json".toList, by decide⟩

/-- The content of `manifest.sig.json`. -/
def signatureValue (C : BundleCrates) (seed : Vector UInt8 32) (generatedAt : Text)
    (manifestBytes : Bytes) : Json :=
  .obj
    [("algorithm".toList, .str "ed25519".toList),
     ("signature".toList, .str (C.base64Encode (C.sign seed manifestBytes).toList)),
     ("manifest_sha256".toList, .str (hexSha256 C manifestBytes)),
     ("public_key".toList, .str (C.base64Encode (C.publicKey seed).toList)),
     ("generated_at".toList, .str generatedAt)]

def signManifest (C : BundleCrates) (seed : Vector UInt8 32) (overwrite : Bool)
    (generatedAt : Text) (t : Staging) : Except ShareError Staging :=
  match t.get? [manifestFile] with
  | none => .error (.manifestNotFound manifestFile.val)
  | some manifestBytes =>
    if (t.get? [signatureFile]).isSome && !overwrite then .error (.ioAt signatureFile.val)
    else
      writeOutputBytes t [signatureFile]
        (C.encodePretty (signatureValue C seed generatedAt manifestBytes))

end AgentMail.Share
