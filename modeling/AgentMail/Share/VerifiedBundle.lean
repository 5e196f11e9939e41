import AgentMail.Share.SignedExport

/-!
# A verified bundle is the exported one

A bundle that nobody has touched is accepted, and what is accepted is the export, for the exports
whose names have no backslash, whose vendored scripts are where the verifier looks first and have no
two dots in a row, and whose manifest is not too large.
-/

namespace AgentMail.Share

open Base Lib
open List hiding Vector

/-! ### The untouched bundle -/

def noSuchFile : Text := "No such file or directory (os error 2)".toList

def notADirectory : Text := "Not a directory (os error 20)".toList

def isADirectory : Text := "Is a directory (os error 21)".toList

/-- `symlink_metadata` of a place. -/
def lstatIn (t : Staging) : Place → Except StatError FileType
  | .inside p =>
    if (t.get? p).isSome then .ok .file
    else if t.isDir p then .ok .dir
    else .error .notFound
  | .notDirectory => .error (.other notADirectory)
  | .missing | .elsewhere => .error .notFound

/-- The path of a place where there is something. -/
def foundIn (t : Staging) : Place → Except Text (List Name)
  | .inside p => if (t.get? p).isSome || t.isDir p then .ok p else .error noSuchFile
  | .notDirectory => .error notADirectory
  | .missing | .elsewhere => .error noSuchFile

def contentOf (t : Staging) (p : List Name) : Except Text Bytes :=
  match t.get? p with
  | some b => .ok b
  | none => .error isADirectory

/-- The bundle as the export left it. -/
def diskOf (root : Text) (components : List Text) (t : Staging) : Disk where
  root := root
  lstat rel := lstatIn t (place t rel)
  present rel := (foundIn t (place t rel)).isOk
  canonicalize rel := (foundIn t (place t rel)).map fun p => components ++ p.map Subtype.val
  read rel := (foundIn t (place t rel)).bind (contentOf t)

variable {p : List Name} {b : Bytes}

section

variable {C : BundleCrates} (root : Text) (components : List Text) {t : Staging}

theorem isSome_of_get? (h : t.get? p = some b) : (t.get? p).isSome = true := by
  rw [h]
  rfl

theorem place_file (h : t.get? p = some b) : place t (pathText p) = .inside p :=
  place_of_exists (SignedExport.ne_nil_of_get? h) (.inl (isSome_of_get? h))

theorem foundIn_file (h : t.get? p = some b) : foundIn t (place t (pathText p)) = .ok p := by
  rw [place_file h, foundIn, isSome_of_get? h, Bool.true_or, if_pos rfl]

theorem isDir_nil : t.isDir [] = true := FileTree.isDir_iff.mpr (.inl rfl)

theorem place_nil : place t [] = .inside [] := by
  rw [place, if_neg (by simp), splitSlash_nil, walk, isDir_nil, if_neg (by decide),
    if_pos (.inl rfl), walk]

theorem lstat_file (h : t.get? p = some b) :
    (diskOf root components t).lstat (pathText p) = .ok .file := by
  show lstatIn t (place t (pathText p)) = _
  rw [place_file h, lstatIn, if_pos (isSome_of_get? h)]

theorem lstat_dir (hp : p ≠ []) (h : t.isDir p = true) :
    (diskOf root components t).lstat (pathText p) = .ok .dir := by
  have hnone : (t.get? p).isSome = false := by
    cases hget : t.get? p with
    | none => rfl
    | some b =>
      rw [FileTree.isDir_of_get? hget] at h
      cases h
  show lstatIn t (place t (pathText p)) = _
  rw [place_of_exists hp (.inr h), lstatIn, hnone, h, if_neg Bool.false_ne_true, if_pos rfl]

theorem lstat_none (hp : p ≠ []) (h : t.get? p = none) (h' : t.isDir p = false) :
    ∃ e, (diskOf root components t).lstat (pathText p) = .error e := by
  show ∃ e, lstatIn t (place t (pathText p)) = .error e
  cases hplace : place t (pathText p) with
  | inside q =>
    have hq : q = p := by
      rw [place_pathText hp] at hplace
      simpa using eq_of_walk hplace
    rw [hq, lstatIn, h, h']
    exact ⟨.notFound, rfl⟩
  | missing | elsewhere | notDirectory => exact ⟨_, rfl⟩

theorem isRealFile_file (h : t.get? p = some b) :
    (diskOf root components t).isRealFile (pathText p) = true := by
  rw [Disk.isRealFile, lstat_file root components h, decide_eq_true rfl]

theorem read_file (h : t.get? p = some b) :
    (diskOf root components t).read (pathText p) = .ok b := by
  show (foundIn t (place t (pathText p))).bind (contentOf t) = _
  rw [foundIn_file h, Except.bind, contentOf, h]

theorem present_file (h : t.get? p = some b) :
    (diskOf root components t).present (pathText p) = true := by
  show (foundIn t (place t (pathText p))).isOk = true
  rw [foundIn_file h]
  rfl

theorem canonicalize_file (h : t.get? p = some b) :
    (diskOf root components t).canonicalize (pathText p) =
      .ok (components ++ p.map Subtype.val) := by
  show (foundIn t (place t (pathText p))).map _ = _
  rw [foundIn_file h]
  rfl

theorem canonicalize_root : (diskOf root components t).canonicalize [] = .ok components := by
  show (foundIn t (place t [])).map _ = _
  rw [place_nil, foundIn, isDir_nil, Bool.or_true, if_pos rfl, Except.map, map_nil, append_nil]

theorem lstat_root : (diskOf root components t).lstat [] = .ok .dir := by
  show lstatIn t (place t []) = _
  rw [place_nil, lstatIn, FileTree.get?_nil, isDir_nil]
  rfl

theorem validate_file (h : t.get? p = some b) (rel : Text) :
    validateSriResolvedPath (diskOf root components t) (pathText p) rel = .ok (pathText p) := by
  have hpre : components.isPrefixOf (components ++ p.map Subtype.val) = true := by
    rw [List.isPrefixOf_iff_prefix]
    exact prefix_append _ _
  rw [validateSriResolvedPath, lstat_file root components h]
  dsimp only
  rw [canonicalize_root, canonicalize_file root components h]
  dsimp only
  rw [if_pos hpre]

theorem resolve_file (h : t.get? p = some b) (hallowed : isProhibited (pathText p) = false) :
    resolveSriFilePath (diskOf root components t) (pathText p) = .ok (pathText p) := by
  rw [resolveSriFilePath, hallowed, lstat_file root components h, validate_file root components h]
  rfl

end

/-! ### Dots -/

theorem hasDots_iff {rel : Text} : hasDots rel = true ↔ ['.', '.'] <:+: rel := by
  rw [hasDots, findFrom, List.find?_isSome]
  constructor
  · rintro ⟨i, _, hi⟩
    exact (List.isPrefixOf_iff_prefix.mp hi).isInfix.trans (drop_suffix i rel).isInfix
  · rintro ⟨front, back, rfl⟩
    refine ⟨front.length, ?_, ?_⟩
    · rw [mem_range'_1]
      simp only [length_append]
      omega
    · rw [List.isPrefixOf_iff_prefix, append_assoc, drop_left]
      exact prefix_append _ _

theorem hasDots_of_count {rel : Text} (h : rel.count '.' ≤ 1) : hasDots rel = false := by
  rw [← Bool.not_eq_true, hasDots_iff]
  rintro ⟨front, back, rfl⟩
  rw [count_append, count_append] at h
  have : ['.', '.'].count '.' = 2 := by decide
  omega

/-- Of a path of names only the dots can be prohibited. -/
theorem isProhibited_pathText (hp : p ≠ []) : isProhibited (pathText p) = hasDots (pathText p) := by
  obtain ⟨a, q, rfl⟩ := exists_cons_of_ne_nil hp
  have hnul : (pathText (a :: q)).contains '\x00' = false := by
    rw [← Bool.not_eq_true, contains_iff_mem]
    intro hmem
    rcases mem_pathText hmem with hslash | ⟨x, _, hx⟩
    · cases hslash
    · exact x.property.2.2.2.2 hx
  have hhead : ((pathText (a :: q)).head? == some '/') = false := by
    rw [beq_eq_false_iff_ne]
    exact head?_pathText
  rw [isProhibited, hnul, hhead, Bool.or_false, Bool.or_false]

theorem isProhibited_database : isProhibited databaseFile.val = false := by decide

theorem chunkRel_eq (index : Nat) : chunkRel index = pathText [chunksDir, chunkName index] := by
  rw [pathText_cons, pathText_singleton]
  rfl

theorem isProhibited_chunk (index : Nat) : isProhibited (chunkRel index) = false := by
  rw [chunkRel_eq, isProhibited_pathText (cons_ne_nil _ _), ← chunkRel_eq]
  apply hasDots_of_count
  have hdigits : (fiveDigits index).count '.' = 0 := by
    rw [count_eq_zero]
    intro hmem
    have := isDigit_of_mem_fiveDigits hmem
    cases this
  have hlabel : "chunks/".toList.count '.' = 0 := by decide
  have hsuffix : ".bin".toList.count '.' = 1 := by decide
  unfold chunkRel chunkFile
  generalize "chunks/".toList = label at hlabel ⊢
  generalize ".bin".toList = suffix at hsuffix ⊢
  rw [count_append, count_append, hlabel, hdigits, hsuffix]

/-! ### Hypotheses and conditions -/

namespace SignedExport

variable {C : BundleCrates} (X : SignedExport C)

/-- The signer's key, as it is given to the verification. -/
def key : Text := C.base64Encode (C.publicKey X.seed).toList

def signature : Json := signatureValue C X.seed X.generatedAt (C.encodePretty X.manifest)

/-- What the outside functions do with the values of this export. -/
structure Reliable : Prop where
  manifest_read : C.fromSlice (C.encodePretty X.manifest) = .ok X.manifest
  signature_read : C.fromStr (C.encodePretty X.signature) = .ok X.signature
  key_read : C.base64Decode X.key = some (C.publicKey X.seed).toList
  sign_read : C.base64Decode (C.base64Encode (C.sign X.seed (C.encodePretty X.manifest)).toList) =
    some (C.sign X.seed (C.encodePretty X.manifest)).toList
  digest_read : ∀ p b, X.bundle.get? p = some b →
    C.base64Decode (C.base64Encode (C.sha256 b).toList) = some (C.sha256 b).toList
  is_key : C.isVerifyingKey (C.publicKey X.seed) = true
  signed : C.verify (C.publicKey X.seed) (C.encodePretty X.manifest)
    (C.sign X.seed (C.encodePretty X.manifest)) = true
  no_collision : ∀ p q b c, X.bundle.get? p = some b → X.bundle.get? q = some c →
    C.sha256 b = C.sha256 c → b = c

/-- The untouched bundle is verified without an error. -/
def Accepted (root : Text) (components : List Text) : Prop :=
  ∃ r, verifyBundle C (diskOf root components X.bundle) (some X.key) = .ok r ∧
    r.signatureVerified = true ∧ r.filesVerified = true ∧ r.databaseVerified = true ∧ r.error = none

/-- No staged name has a backslash. -/
def NoBackslash : Prop := ∀ p b, X.staged.get? p = some b → Unslashed p

/-- Then the bundle has none with a backslash. -/
theorem unslashed_bundle (h : X.NoBackslash) (hget : X.bundle.get? p = some b) : Unslashed p := by
  by_contra hp
  rw [(X.sameAt_of_backslash hp).file] at hget
  exact hp (h p b hget)

/-- The path of no vendored script has two dots in a row, and what is found under it in the bundle's
root, where it is looked up first, is the same script. -/
def ScriptsResolve : Prop :=
  X.input.viewerData.isSome = true → ∀ rest b, rest ≠ [] →
    X.staged.get? (viewerDir :: vendorDir :: rest) = some b →
      hasDots (pathText (vendorDir :: rest)) = false ∧ X.staged.isDir (vendorDir :: rest) = false ∧
      ∀ c, X.staged.get? (vendorDir :: rest) = some c → c = b

/-- The manifest is at most as large as the verifier reads. -/
def SmallManifest : Prop := (C.encodePretty X.manifest).length ≤ maxManifestBytes

/-! ### The parts of the verification -/

theorem bundle_viewer (rest : List Name) : SameAt X.staged X.bundle (viewerDir :: rest) :=
  X.sameAt_staged (notMem_written _ (by simp)).1 (notMem_written _ (by simp)).2

theorem bundle_vendor (rest : List Name) : SameAt X.staged X.bundle (vendorDir :: rest) :=
  X.sameAt_staged (notMem_written _ (by simp)).1 (notMem_written _ (by simp)).2

section

variable {X} (hX : X.Reliable) (root : Text) (components : List Text)
include hX

theorem sriText_inj {q : List Name} {c : Bytes} (hb : X.bundle.get? p = some b)
    (hc : X.bundle.get? q = some c) (h : sriText C b = sriText C c) : b = c := by
  have hdigest := congrArg C.base64Decode (append_cancel_left h)
  rw [hX.digest_read p b hb, hX.digest_read q c hc, Option.some.injEq, Vector.toList_inj] at hdigest
  exact hX.no_collision p q b c hb hc hdigest

theorem checkSri_iff {rest : List Name}
    (hget : X.staged.get? (viewerDir :: vendorDir :: rest) = some b) :
    checkSri C (diskOf root components X.bundle) (pathText (vendorDir :: rest))
        (.str (sriText C b)) = .ok (.ok ()) ↔ hasDots (pathText (vendorDir :: rest)) = false ∧
        X.staged.isDir (vendorDir :: rest) = false ∧
        ∀ c, X.staged.get? (vendorDir :: rest) = some c → c = b := by
  have hviewer : X.bundle.get? (viewerDir :: vendorDir :: rest) = some b :=
    (X.bundle_viewer _).file.trans hget
  have hpath : "viewer/".toList ++ pathText (vendorDir :: rest) =
      pathText (viewerDir :: vendorDir :: rest) := viewer_append (cons_ne_nil _ _)
  rw [← (X.bundle_vendor rest).file, ← (X.bundle_vendor rest).dir, checkSri]
  simp only [Json.asStr]
  rw [resolveSriFilePath, isProhibited_pathText (cons_ne_nil _ _)]
  cases hdots : hasDots (pathText (vendorDir :: rest)) with
  | true => simp
  | false =>
    rw [if_neg Bool.false_ne_true, hpath]
    cases hfile : X.bundle.get? (vendorDir :: rest) with
    | some c =>
      have hdir := FileTree.isDir_of_get? hfile
      rw [lstat_file root components hfile, validate_file root components hfile]
      simp only [Except.isOk, Except.toBool, if_true, present_file root components hfile,
        read_file root components hfile, hdir, true_and, Option.some.injEq, forall_eq']
      by_cases heq : c = b
      · simp [heq]
      · have hne : sriText C c ≠ sriText C b := fun h => heq (sriText_inj hX hfile hviewer h)
        simp [heq, hne]
    | none =>
      cases hdir : X.bundle.isDir (vendorDir :: rest) with
      | true =>
        rw [lstat_dir root components (cons_ne_nil _ _) hdir, validateSriResolvedPath,
          lstat_dir root components (cons_ne_nil _ _) hdir]
        simp [Except.isOk, Except.toBool]
      | false =>
        obtain ⟨e, he⟩ := lstat_none root components (cons_ne_nil _ _) hfile hdir
        rw [he, validate_file root components hviewer]
        simp [Except.isOk, Except.toBool, present_file root components hviewer,
          read_file root components hviewer]

omit hX in
theorem checkSriMap_eq_ok {D : Disk} {listed : List (Text × Json)} :
    checkSriMap C D listed = .ok (.ok ()) ↔ ∀ e ∈ listed, checkSri C D e.1 e.2 = .ok (.ok ()) := by
  induction listed with
  | nil => exact ⟨fun _ e he => absurd he not_mem_nil, fun _ => rfl⟩
  | cons e listed ih =>
    rw [forall_mem_cons, ← ih, checkSriMap]
    cases checkSri C D e.1 e.2 with
    | error error => simp
    | ok verdict =>
      cases verdict with
      | error error => simp
      | ok _ => simp

theorem signatureHolds_of_reliable :
    signatureHolds C (C.encodePretty X.manifest) (some X.key)
      (X.signature.strField "signature".toList) = true := by
  have hdecode : ∀ (n : Nat) (text : Text) (v : Vector UInt8 n),
      C.base64Decode text = some v.toList → decodeVector C n text = some v := by
    intro n text v h
    have hlength : v.toList.length = n := Vector.length_toList
    rw [decodeVector, h, Option.bind_some, dif_pos hlength]
    congr
  have hsig : X.signature.strField "signature".toList =
      some (C.base64Encode (C.sign X.seed (C.encodePretty X.manifest)).toList) := rfl
  rw [hsig, signatureHolds, Option.bind_some, Option.bind_some, hdecode 32 _ _ hX.key_read,
    hdecode 64 _ _ hX.sign_read]
  simp only [hX.is_key, hX.signed, Bool.and_self]

omit hX in
theorem matchesHash_self (data : Bytes) : matchesHash C data (hexSha256 C data) = true := by
  rw [matchesHash, eqIgnoreAsciiCase, beq_self_eq_true]

omit hX in
theorem verifyListedFiles_untouched (hplain : X.NoBackslash) :
    verifyListedFiles C (diskOf root components X.bundle) X.manifest = some (.ok ()) := by
  obtain ⟨_, listed, _, _, hlisted, _⟩ := X.listedFiles
  rw [verifyListedFiles, hlisted]
  simp only [asObject, Option.some.injEq]
  rw [forM_eq_ok]
  intro e he
  obtain ⟨p, b, hget, rfl⟩ := X.file_of_listed hlisted (fun _ _ => X.unslashed_bundle hplain) he
  have hp := ne_nil_of_get? hget
  have hrel : isPlainRelative (pathText p) = true := by
    obtain ⟨a, q, rfl⟩ := exists_cons_of_ne_nil hp
    rw [isPlainRelative, splitSlash_pathText hp, map_cons]
    simp only [Bool.and_eq_true, bne_iff_ne, all_eq_true]
    refine ⟨⟨head?_pathText, a.property.2.1⟩, ?_⟩
    intro c hc
    rw [← map_cons, mem_map] at hc
    obtain ⟨x, _, rfl⟩ := hc
    exact x.property.2.2.1
  rw [checkListedFile]
  simp only [Json.asStr, hrel, Bool.true_eq_false, if_false]
  rw [validate_file root components hget]
  simp only [isRealFile_file root components hget, Bool.true_eq_false, if_false, read_file root components hget,
    matchesHash_self, if_true]

omit hX in
theorem verifyDbFile_untouched :
    verifyDbFileAgainstHash C (diskOf root components X.bundle) databaseFile.val
      (hexSha256 C X.database) = some (.ok ()) := by
  have hget := X.get?_database
  have hpath : databaseFile.val = pathText [databaseFile] := (pathText_singleton _).symm
  have hresolve := resolve_file root components hget (hpath ▸ isProhibited_database)
  rw [hpath, verifyDbFileAgainstHash, hresolve]
  simp only [isRealFile_file root components hget, Bool.true_eq_false, if_false,
    read_file root components hget, matchesHash_self, if_true]

omit hX in
/-- The chunks and the database are accepted. -/
theorem verifyDatabase_untouched :
    verifyDatabasePayload C (diskOf root components X.bundle) X.manifest = some (.ok ()) := by
  obtain ⟨database, hdatabase, hsha, hchunked, hpath, hchunks⟩ := X.database_fields
  rw [verifyDatabasePayload, hdatabase]
  simp only [hsha, hchunked, hpath, Option.getD_some]
  cases hm : X.chunkManifest with
  | none =>
    rw [Option.isSome_none, if_neg Bool.false_ne_true]
    exact verifyDbFile_untouched root components
  | some m =>
    have hcount : ((database.get? "chunk_manifest".toList).bind
        (Json.get? "chunk_count".toList)).bind Json.asU64 = some m.chunkCount := by
      rw [hchunks, Option.bind_some]
      exact X.chunkCount_field hm
    obtain ⟨chunks, hlength, _, hflatten, hget⟩ := X.get?_chunks hm
    have hread : (range m.chunkCount).mapM (readChunk (diskOf root components X.bundle)) =
        .ok chunks := by
      rw [mapM_eq_ok, List.forall₂_iff_get]
      refine ⟨by rw [length_range, hlength], ?_⟩
      intro i hi hi'
      have hchunk := hget i hi'
      have hresolve := resolve_file root components hchunk (chunkRel_eq i ▸ isProhibited_chunk i)
      simp only [get_eq_getElem, getElem_range, readChunk, chunkRel_eq, hresolve,
        isRealFile_file root components hchunk, Bool.true_eq_false, if_false,
        read_file root components hchunk]
    rw [Option.isSome_some, if_pos rfl, hcount]
    simp only [hread, hflatten, matchesHash_self, Bool.true_eq_false, if_false]
    rw [verifyDbFile_untouched root components]
    rfl

omit hX in
theorem verifyPayload_untouched (hplain : X.NoBackslash) (sriChecked sriValid signatureChecked
    signatureVerified : Bool) (keySource : Option Text) :
    verifyPayload C (diskOf root components X.bundle) X.manifest sriChecked sriValid
        signatureChecked signatureVerified keySource =
      { bundle := root
        sriChecked := sriChecked
        sriValid := sriValid
        signatureChecked := signatureChecked
        signatureVerified := signatureVerified
        keySource := keySource
        databaseChecked := true
        databaseVerified := true
        filesChecked := true
        filesVerified := true
        error := none } := by
  rw [verifyPayload, verifyDatabase_untouched, verifyListedFiles_untouched root components hplain]
  rfl

/-- The signature of the untouched bundle is verified. -/
theorem verifySignature_untouched (hplain : X.NoBackslash) (sriChecked sriValid : Bool) :
    ∃ r, verifySignature C (diskOf root components X.bundle) (some X.key)
        (C.encodePretty X.manifest) X.manifest sriChecked sriValid = .ok r ∧
      r.signatureVerified = true ∧ r.filesVerified = true ∧ r.databaseVerified = true ∧
      r.error = none := by
  have hget := X.get?_signature
  have hparsed : C.fromStr (C.encodePretty (signatureValue C X.seed X.generatedAt
      (C.encodePretty X.manifest))) = .ok X.signature := hX.signature_read
  rw [verifySignature, ← pathText_singleton signatureFile, lstat_file root components hget]
  dsimp only
  rw [read_file root components hget]
  dsimp only
  rw [hparsed]
  dsimp only [publicKeyOf]
  rw [signatureHolds_of_reliable hX, verifyPayload_untouched root components hplain]
  exact ⟨_, rfl, rfl, rfl, rfl, rfl⟩

theorem checkSriMap_untouched (hplain : X.NoBackslash) {listed : List (Text × Json)}
    (hlisted : sriMapOf X.manifest = some listed) :
    checkSriMap C (diskOf root components X.bundle) listed = .ok (.ok ()) ↔
      ∀ rest b, rest ≠ [] → X.staged.get? (viewerDir :: vendorDir :: rest) = some b →
        hasDots (pathText (vendorDir :: rest)) = false ∧
        X.staged.isDir (vendorDir :: rest) = false ∧
        ∀ c, X.staged.get? (vendorDir :: rest) = some c → c = b := by
  rw [checkSriMap_eq_ok]
  constructor
  · intro h rest b hrest hget
    rw [← checkSri_iff hX root components hget]
    exact h _ ((X.mem_sri hlisted hplain _).mpr ⟨rest, b, hrest, hget, rfl⟩)
  · intro h e he
    obtain ⟨rest, b, hrest, hget, rfl⟩ := (X.mem_sri hlisted hplain e).mp he
    exact (checkSri_iff hX root components hget).mpr (h rest b hrest hget)

/-- When the untouched bundle is accepted. -/
theorem accepted_iff (hplain : X.NoBackslash) :
    X.Accepted root components ↔ X.ScriptsResolve ∧ X.SmallManifest := by
  have hroot : (diskOf root components X.bundle).isRealDir [] = true := by
    rw [Disk.isRealDir, lstat_root, decide_eq_true rfl]
  have hget := X.get?_manifest
  rw [Accepted, ScriptsResolve, SmallManifest, verifyBundle]
  rw [hroot, if_neg (by decide), ← pathText_singleton manifestFile,
    isRealFile_file root components hget, if_neg (by decide), read_file root components hget]
  dsimp only
  by_cases hlarge : maxManifestBytes < (C.encodePretty X.manifest).length
  · rw [if_pos hlarge]
    constructor
    · rintro ⟨r, hr, _⟩
      cases hr
    · rintro ⟨_, hsmall⟩
      omega
  · rw [if_neg hlarge, hX.manifest_read]
    dsimp only
    rcases X.sriMap with ⟨hdata, hnone⟩ | ⟨hdata, listed, hsome, _⟩
    · rw [hnone, hdata]
      refine ⟨fun _ => ⟨fun h => absurd h (by decide), by omega⟩, fun _ => ?_⟩
      exact verifySignature_untouched hX root components hplain false false
    · rw [hsome]
      dsimp only
      have hscripts := checkSriMap_untouched hX root components hplain hsome
      constructor
      · rintro ⟨r, hr, hverified, _⟩
        refine ⟨fun _ => hscripts.mp ?_, by omega⟩
        cases hcheck : checkSriMap C (diskOf root components X.bundle) listed with
        | error e =>
          rw [hcheck] at hr
          cases hr
        | ok verdict =>
          rw [hcheck] at hr
          cases verdict with
          | error e =>
            rw [← Except.ok.inj hr] at hverified
            cases hverified
          | ok _ => rfl
      · rintro ⟨h, _⟩
        rw [hscripts.mpr (h hdata)]
        exact verifySignature_untouched hX root components hplain true _

end

end SignedExport

end AgentMail.Share
