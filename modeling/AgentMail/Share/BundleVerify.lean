import AgentMail.Share.BundleExport

/-!
# Verifying a bundle

`verify_bundle`, `verify_listed_files`, `verify_database_payload` and the resolution of paths
(`crates/mcp-agent-mail-share/src/crypto.rs:128–429`, `441–612`). The bundle is what system calls
answer under its root, whatever lies there.
-/

namespace AgentMail.Share

open Base Lib

inductive FileType where
  | file
  | dir
  | symlink
  | other
  deriving DecidableEq

inductive StatError where
  | notFound
  | other (error : Text)
  deriving DecidableEq

/-- The answers of the file system about paths under the bundle's root. -/
structure Disk where
  /-- `bundle_root.display()`. -/
  root : Text
  /-- `symlink_metadata`. -/
  lstat : Text → Except StatError FileType
  /-- `exists`. -/
  present : Text → Bool
  /-- The components of `canonicalize`. -/
  canonicalize : Text → Except Text (List Text)
  read : Text → Except Text Bytes

/-- `is_real_file`. -/
def Disk.isRealFile (D : Disk) (rel : Text) : Bool := D.lstat rel = .ok .file

/-- `is_real_dir`. -/
def Disk.isRealDir (D : Disk) (rel : Text) : Bool := D.lstat rel = .ok .dir

structure VerifyResult where
  bundle : Text
  sriChecked : Bool
  sriValid : Bool
  signatureChecked : Bool
  signatureVerified : Bool
  keySource : Option Text
  databaseChecked : Bool
  databaseVerified : Bool
  filesChecked : Bool
  filesVerified : Bool
  error : Option Text

/-- `Value::as_object`. -/
def asObject : Json → Option (List (Text × Json))
  | .obj fields => some fields
  | _ => none

/-! ### Paths -/

def validateSriResolvedPath (D : Disk) (candidate relativePath : Text) : Except Text Text :=
  match D.lstat candidate with
  | .error .notFound => .ok candidate
  | .error (.other error) =>
    .error ("failed to inspect '".toList ++ relativePath ++ "': ".toList ++ error)
  | .ok .symlink =>
    .error ("bundle path must not be a symlink: '".toList ++ relativePath ++ ['\''])
  | .ok .dir | .ok .other =>
    .error ("bundle path must be a regular file: '".toList ++ relativePath ++ ['\''])
  | .ok .file =>
    match D.canonicalize [] with
    | .error error => .error ("failed to canonicalize bundle root: ".toList ++ error)
    | .ok canonicalRoot =>
      match D.canonicalize candidate with
      | .error error =>
        .error ("failed to canonicalize '".toList ++ relativePath ++ "': ".toList ++ error)
      | .ok canonicalCandidate =>
        if canonicalRoot.isPrefixOf canonicalCandidate then .ok candidate
        else
          .error ("path traversal blocked: '".toList ++ relativePath ++
            "' resolves outside bundle root".toList)

/-- `relative_path.contains("..")`. -/
def hasDots (relativePath : Text) : Bool := (findFrom ['.', '.'] relativePath 0).isSome

/-- The first guard of `resolve_sri_file_path`. -/
def isProhibited (relativePath : Text) : Bool :=
  hasDots relativePath || relativePath.head? == some '/' || relativePath.contains '\x00'

/-- Relative to the bundle or, in older manifests, to its viewer. -/
def resolveSriFilePath (D : Disk) (relativePath : Text) : Except Text Text :=
  if isProhibited relativePath then
    .error ("path traversal blocked: '".toList ++ relativePath ++
      "' contains prohibited components".toList)
  else if (D.lstat relativePath).isOk then
    validateSriResolvedPath D relativePath relativePath
  else validateSriResolvedPath D ("viewer/".toList ++ relativePath) relativePath

/-- Whether all `Path::components` are normal ones. Of the components that are `.` only a leading
one counts, and empty ones count as a root only in front. -/
def isPlainRelative (relativePath : Text) : Bool :=
  match splitSlash relativePath with
  | [] => true
  | first :: rest =>
    relativePath.head? != some '/' && first != ['.'] && (first :: rest).all fun c => c != ['.', '.']

/-! ### Vendored scripts -/

/-- One entry of `viewer.sri`; the inner error is the verdict's. -/
def checkSri (C : BundleCrates) (D : Disk) (relativePath : Text) (expectedSri : Json) :
    Except ShareError (Except Text Unit) :=
  match expectedSri.asStr with
  | none => .ok (.error ("SRI entry for ".toList ++ relativePath ++ " has non-string value".toList))
  | some expected =>
    match resolveSriFilePath D relativePath with
    | .error error => .ok (.error error)
    | .ok filePath =>
      if D.present filePath then
        match D.read filePath with
        | .error error => .error (.io error)
        | .ok content =>
          if sriText C content = expected then .ok (.ok ())
          else
            .ok (.error ("SRI mismatch for ".toList ++ relativePath ++
              ": file content does not match manifest hash".toList))
      else .ok (.error ("SRI-referenced file missing: ".toList ++ relativePath))

/-- The loop over `viewer.sri`. -/
def checkSriMap (C : BundleCrates) (D : Disk) :
    List (Text × Json) → Except ShareError (Except Text Unit)
  | [] => .ok (.ok ())
  | (relativePath, expectedSri) :: rest =>
    match checkSri C D relativePath expectedSri with
    | .error error => .error error
    | .ok (.error error) => .ok (.error error)
    | .ok (.ok ()) => checkSriMap C D rest

/-! ### The signature -/

/-- The key that counts, and where it is from. -/
def publicKeyOf (publicKeyB64 : Option Text) (sig : Json) : Option Text × Option Text :=
  match publicKeyB64 with
  | some explicit => (some explicit, some "explicit".toList)
  | none =>
    let embedded := sig.strField "public_key".toList
    (embedded, embedded.map fun _ => "embedded".toList)

/-- The bytes of a base64 text, if there are `n`. -/
def decodeVector (C : BundleCrates) (n : Nat) (text : Text) : Option (Vector UInt8 n) :=
  (C.base64Decode text).bind fun bytes =>
    if h : bytes.length = n then some ⟨bytes.toArray, by simpa using h⟩ else none

def signatureHolds (C : BundleCrates) (manifestBytes : Bytes) (publicKey signature : Option Text) :
    Bool :=
  match publicKey.bind (decodeVector C 32), signature.bind (decodeVector C 64) with
  | some pk, some sig => C.isVerifyingKey pk && C.verify pk manifestBytes sig
  | _, _ => false

/-! ### Files and database -/

def matchesHash (C : BundleCrates) (data : Bytes) (expected : Text) : Bool :=
  eqIgnoreAsciiCase (hexSha256 C data) expected

/-- One entry of `files`. -/
def checkListedFile (C : BundleCrates) (D : Disk) (relativePath : Text) (expected : Json) :
    Except Text Unit :=
  match expected.asStr with
  | none => .error ("manifest hash for ".toList ++ relativePath ++ " is not a string".toList)
  | some expected =>
    if isPlainRelative relativePath = false then
      .error ("path traversal blocked: '".toList ++ relativePath ++
        "' is not a plain bundle-relative path".toList)
    else
      match validateSriResolvedPath D relativePath relativePath with
      | .error error => .error error
      | .ok path =>
        if D.isRealFile path = false then
          .error ("bundle file listed in the manifest is missing: ".toList ++ relativePath)
        else
          match D.read path with
          | .error error =>
            .error ("failed to read ".toList ++ relativePath ++ ": ".toList ++ error)
          | .ok data =>
            if matchesHash C data expected then .ok ()
            else .error (relativePath ++ " does not match its hash in the manifest".toList)

def verifyListedFiles (C : BundleCrates) (D : Disk) (manifest : Json) : Option (Except Text Unit) :=
  match manifest.get? "files".toList with
  | none => none
  | some files =>
    match asObject files with
    | none => some (.error "manifest `files` must map bundle paths to SHA-256 hashes".toList)
    | some files => some (files.forM fun e => checkListedFile C D e.1 e.2)

def verifyDbFileAgainstHash (C : BundleCrates) (D : Disk) (dbRel expected : Text) :
    Option (Except Text Unit) :=
  match resolveSriFilePath D dbRel with
  | .error error => some (.error error)
  | .ok dbPath =>
    if D.isRealFile dbPath = false then none
    else
      match D.read dbPath with
      | .error error => some (.error ("failed to read ".toList ++ dbRel ++ ": ".toList ++ error))
      | .ok data =>
        if matchesHash C data expected then some (.ok ())
        else some (.error "database payload does not match the signed manifest hash".toList)

def chunkRel (index : Nat) : Text := "chunks/".toList ++ chunkFile index

/-- One chunk of the database. -/
def readChunk (D : Disk) (index : Nat) : Except Text Bytes :=
  match resolveSriFilePath D (chunkRel index) with
  | .error error => .error error
  | .ok chunkPath =>
    if D.isRealFile chunkPath = false then
      .error ("database chunk missing: ".toList ++ chunkRel index)
    else
      match D.read chunkPath with
      | .error error =>
        .error ("failed to read ".toList ++ chunkRel index ++ ": ".toList ++ error)
      | .ok data => .ok data

def verifyDatabasePayload (C : BundleCrates) (D : Disk) (manifest : Json) :
    Option (Except Text Unit) :=
  match manifest.get? "database".toList with
  | none => none
  | some database =>
    match database.strField "sha256".toList with
    | none => none
    | some expected =>
      let chunked := ((database.get? "chunked".toList).bind Json.asBool).getD false
      let dbRel := (database.strField "path".toList).getD "mailbox.sqlite3".toList
      if chunked then
        match ((database.get? "chunk_manifest".toList).bind (Json.get? "chunk_count".toList)).bind
            Json.asU64 with
        | none => some (.error "chunked database manifest is missing chunk_count".toList)
        | some chunkCount =>
          match (List.range chunkCount).mapM (readChunk D) with
          | .error error => some (.error error)
          | .ok chunks =>
            if matchesHash C chunks.flatten expected = false then
              some (.error
                "reassembled database chunks do not match the signed manifest hash".toList)
            else some ((verifyDbFileAgainstHash C D dbRel expected).getD (.ok ()))
      else verifyDbFileAgainstHash C D dbRel expected

/-! ### The bundle -/

/-- Whether something was checked, whether it is right, and what is wrong. -/
def verdict : Option (Except Text Unit) → Bool × Bool × Option Text
  | some (.ok ()) => (true, true, none)
  | some (.error message) => (true, false, some message)
  | none => (false, false, none)

def maxManifestBytes : Nat := 10 * 1024 * 1024

/-- The result where verification ends early. -/
def endedEarly (D : Disk) (sriChecked sriValid signatureChecked : Bool) (error : Text) :
    VerifyResult where
  bundle := D.root
  sriChecked := sriChecked
  sriValid := sriValid
  signatureChecked := signatureChecked
  signatureVerified := false
  keySource := none
  databaseChecked := false
  databaseVerified := false
  filesChecked := false
  filesVerified := false
  error := some error

/-- The result after the vendored scripts and the signature. -/
def verifyPayload (C : BundleCrates) (D : Disk) (manifest : Json) (sriChecked sriValid : Bool)
    (signatureChecked signatureVerified : Bool) (keySource : Option Text) : VerifyResult :=
  let (databaseChecked, databaseVerified, databaseError) :=
    verdict (verifyDatabasePayload C D manifest)
  let (filesChecked, filesVerified, filesError) := verdict (verifyListedFiles C D manifest)
  { bundle := D.root
    sriChecked := sriChecked
    sriValid := sriValid
    signatureChecked := signatureChecked
    signatureVerified := signatureVerified
    keySource := keySource
    databaseChecked := databaseChecked
    databaseVerified := databaseVerified
    filesChecked := filesChecked
    filesVerified := filesVerified
    error := databaseError.or filesError }

/-- The part of `verify_bundle` after the vendored scripts. -/
def verifySignature (C : BundleCrates) (D : Disk) (publicKeyB64 : Option Text)
    (manifestBytes : Bytes) (manifest : Json) (sriChecked sriValid : Bool) :
    Except ShareError VerifyResult :=
  match D.lstat signatureFile.val with
  | .error .notFound => .ok (verifyPayload C D manifest sriChecked sriValid false false none)
  | .error (.other error) => .error (.io error)
  | .ok .symlink =>
    .ok (endedEarly D sriChecked sriValid true "signature file must not be a symlink".toList)
  | .ok .dir | .ok .other =>
    .ok (endedEarly D sriChecked sriValid true "signature file must be a regular file".toList)
  | .ok .file =>
    match D.read signatureFile.val with
    | .error error => .error (.io error)
    | .ok sigBytes =>
      match C.fromStr sigBytes with
      | .error error => .error error
      | .ok sig =>
        let (publicKey, keySource) := publicKeyOf publicKeyB64 sig
        let signatureVerified :=
          signatureHolds C manifestBytes publicKey (sig.strField "signature".toList)
        .ok (verifyPayload C D manifest sriChecked sriValid true signatureVerified keySource)

/-- `manifest.viewer.sri`, if it is a map. -/
def sriMapOf (manifest : Json) : Option (List (Text × Json)) :=
  ((manifest.get? "viewer".toList).bind (Json.get? "sri".toList)).bind asObject

def verifyBundle (C : BundleCrates) (D : Disk) (publicKeyB64 : Option Text) :
    Except ShareError VerifyResult :=
  if D.isRealDir [] = false then .error (.manifestNotFound D.root)
  else if D.isRealFile manifestFile.val = false then .error (.manifestNotFound D.root)
  else
    match D.read manifestFile.val with
    | .error error => .error (.io error)
    | .ok manifestBytes =>
      if maxManifestBytes < manifestBytes.length then
        .error (.manifestParse "manifest.json too large (>10MB)".toList)
      else
        match C.fromSlice manifestBytes with
        | .error error => .error (.manifestParse error)
        | .ok manifest =>
          match sriMapOf manifest with
          | none => verifySignature C D publicKeyB64 manifestBytes manifest false false
          | some sriMap =>
            match checkSriMap C D sriMap with
            | .error error => .error error
            | .ok (.error error) => .ok (endedEarly D true false false error)
            | .ok (.ok ()) =>
              verifySignature C D publicKeyB64 manifestBytes manifest true !sriMap.isEmpty

end AgentMail.Share
