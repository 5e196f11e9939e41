import AgentMail.Share.VerifiedBundle

/-!
# What an accepted bundle holds

A directory that is accepted under the signer's key holds every listed file as it was exported. A
staged file whose path has a backslash is not listed, and nothing that is verified leads to it.
-/

namespace AgentMail.Share

open Base Lib
open List hiding Vector

/-! ### What verification has seen -/

variable {rel : Text}

section

variable {C : BundleCrates} {D : Disk}

theorem sha256_eq_of_matchesHash {data data' : Bytes}
    (h : matchesHash C data (hexSha256 C data') = true) : C.sha256 data = C.sha256 data' := by
  rw [matchesHash, eqIgnoreAsciiCase, beq_iff_eq, hexSha256, hexSha256, map_toLower_hexEncode,
    map_toLower_hexEncode] at h
  exact Vector.toList_inj.mp (hexEncode_injective h)

/-- A regular file inside the bundle. -/
def Disk.Holds (D : Disk) (rel : Text) (data : Bytes) : Prop :=
  D.lstat rel = .ok .file ∧ D.read rel = .ok data ∧
    ∃ root path, D.canonicalize [] = .ok root ∧ D.canonicalize rel = .ok path ∧ root <+: path

theorem eq_of_validate {candidate path : Text}
    (h : validateSriResolvedPath D candidate rel = .ok path) : path = candidate := by
  unfold validateSriResolvedPath at h
  repeat' split at h
  all_goals cases h
  all_goals rfl

/-- A regular file is accepted inside the bundle only. -/
theorem inside_of_validate {candidate path : Text}
    (h : validateSriResolvedPath D candidate rel = .ok path)
    (hfile : D.lstat candidate = .ok .file) :
    ∃ root path, D.canonicalize [] = .ok root ∧ D.canonicalize candidate = .ok path ∧
      root <+: path := by
  rw [validateSriResolvedPath, hfile] at h
  dsimp only at h
  cases hroot : D.canonicalize [] with
  | error e =>
    rw [hroot] at h
    cases h
  | ok root =>
    cases hpath : D.canonicalize candidate with
    | error e =>
      rw [hroot, hpath] at h
      cases h
    | ok path =>
      rw [hroot, hpath] at h
      dsimp only at h
      split at h
      · next hpre => exact ⟨root, path, rfl, rfl, List.isPrefixOf_iff_prefix.mp hpre⟩
      · cases h

theorem checkListedFile_eq_ok {hash : Text} (h : checkListedFile C D rel (.str hash) = .ok ()) :
    ∃ data, D.Holds rel data ∧ matchesHash C data hash = true := by
  rw [checkListedFile] at h
  dsimp only [Json.asStr] at h
  split at h
  · cases h
  cases hvalid : validateSriResolvedPath D rel rel with
  | error e =>
    rw [hvalid] at h
    cases h
  | ok path =>
    obtain rfl := eq_of_validate hvalid
    rw [hvalid] at h
    dsimp only at h
    split at h
    · cases h
    · next hreal =>
      have hstat : D.lstat path = .ok .file := by
        rwa [Bool.not_eq_false, Disk.isRealFile, decide_eq_true_iff] at hreal
      cases hread : D.read path with
      | error e =>
        rw [hread] at h
        cases h
      | ok data =>
        rw [hread] at h
        dsimp only at h
        split at h
        · next hmatch => exact ⟨data, ⟨hstat, hread, inside_of_validate hvalid hstat⟩, hmatch⟩
        · cases h

theorem eq_some_of_verdict {checked : Option (Except Text Unit)} (h : (verdict checked).2.1 = true) :
    checked = some (.ok ()) := by
  match checked, h with
  | some (.ok ()), _ => rfl

theorem verifySignature_verified {key : Option Text} {manifestBytes : Bytes} {manifest : Json}
    {sriChecked sriValid : Bool} {r : VerifyResult}
    (h : verifySignature C D key manifestBytes manifest sriChecked sriValid = .ok r)
    (hsigned : r.signatureVerified = true) (hfiles : r.filesVerified = true) :
    ∃ sigBytes sig, D.read signatureFile.val = .ok sigBytes ∧ C.fromStr sigBytes = .ok sig ∧
      signatureHolds C manifestBytes (publicKeyOf key sig).1 (sig.strField "signature".toList) =
        true ∧ verifyListedFiles C D manifest = some (.ok ()) := by
  rw [verifySignature] at h
  cases hstat : D.lstat signatureFile.val with
  | error e =>
    rw [hstat] at h
    cases e with
    | notFound =>
      rw [← Except.ok.inj h] at hsigned
      cases hsigned
    | other error => cases h
  | ok type =>
    rw [hstat] at h
    cases type with
    | dir | symlink | other =>
      rw [← Except.ok.inj h] at hsigned
      cases hsigned
    | file =>
      dsimp only at h
      cases hread : D.read signatureFile.val with
      | error e =>
        rw [hread] at h
        cases h
      | ok sigBytes =>
        rw [hread] at h
        dsimp only at h
        cases hsig : C.fromStr sigBytes with
        | error e =>
          rw [hsig] at h
          cases h
        | ok sig =>
          rw [hsig] at h
          rw [← Except.ok.inj h] at hsigned hfiles
          exact ⟨sigBytes, sig, rfl, hsig, hsigned, eq_some_of_verdict hfiles⟩

/-- A bundle with a verified signature and verified files. -/
theorem verifyBundle_verified {key : Option Text} {r : VerifyResult}
    (h : verifyBundle C D key = .ok r) (hsigned : r.signatureVerified = true)
    (hfiles : r.filesVerified = true) :
    ∃ manifestBytes manifest sigBytes sig,
      D.read manifestFile.val = .ok manifestBytes ∧ C.fromSlice manifestBytes = .ok manifest ∧
      D.read signatureFile.val = .ok sigBytes ∧ C.fromStr sigBytes = .ok sig ∧
      signatureHolds C manifestBytes (publicKeyOf key sig).1 (sig.strField "signature".toList) =
        true ∧ verifyListedFiles C D manifest = some (.ok ()) := by
  rw [verifyBundle] at h
  split at h
  · cases h
  split at h
  · cases h
  cases hread : D.read manifestFile.val with
  | error e =>
    rw [hread] at h
    cases h
  | ok manifestBytes =>
    rw [hread] at h
    dsimp only at h
    split at h
    · cases h
    cases hmanifest : C.fromSlice manifestBytes with
    | error e =>
      rw [hmanifest] at h
      cases h
    | ok manifest =>
      rw [hmanifest] at h
      dsimp only at h
      have hverified : ∃ sriChecked sriValid,
          verifySignature C D key manifestBytes manifest sriChecked sriValid = .ok r := by
        split at h
        · exact ⟨_, _, h⟩
        · split at h
          · cases h
          · rw [← Except.ok.inj h] at hsigned
            cases hsigned
          · exact ⟨_, _, h⟩
      obtain ⟨_, _, hverified⟩ := hverified
      obtain ⟨sigBytes, sig, hsig⟩ := verifySignature_verified hverified hsigned hfiles
      exact ⟨manifestBytes, manifest, sigBytes, sig, rfl, hmanifest, hsig⟩

end

/-! ### The export in a verified bundle -/

variable {listed : List (Text × Json)}

namespace SignedExport

variable {C : BundleCrates} (X : SignedExport C)

/-- What is read in place of an exported file has another digest, unless it is the file. -/
def TellsApart (D : Disk) : Prop :=
  ∀ p b c, X.bundle.get? p = some b → D.read (pathText p) = .ok c → C.sha256 c = C.sha256 b → c = b

/-- The signature that is read is the signer's for the manifest of the export only. -/
def Unforged (D : Disk) : Prop :=
  ∀ manifestBytes sigBytes sig, D.read manifestFile.val = .ok manifestBytes →
    D.read signatureFile.val = .ok sigBytes → C.fromStr sigBytes = .ok sig →
    signatureHolds C manifestBytes (some X.key) (sig.strField "signature".toList) = true →
    manifestBytes = C.encodePretty X.manifest

/-- The exported files, but for the unhashed ones, and the database in chunks. -/
def HeldBy (D : Disk) : Prop :=
  (∀ p b, X.bundle.get? p = some b → pathText p ∉ unhashedBundleFiles → D.Holds (pathText p) b) ∧
    ∀ m, X.chunkManifest = some m →
      ∃ chunks, (range m.chunkCount).mapM (fun i => D.read (chunkRel i)) = .ok chunks ∧
        chunks.flatten = X.database

/-- A bundle that is verified is the exported one. -/
def Binding : Prop :=
  ∀ D r, X.TellsApart D → X.Unforged D → verifyBundle C D (some X.key) = .ok r →
    r.signatureVerified = true → r.filesVerified = true → r.error = none → X.HeldBy D

variable {X}

/-- The manifest that is verified is the exported one. -/
theorem listed_of_verified (hX : X.Reliable) {D : Disk} {r : VerifyResult}
    (hunforged : X.Unforged D) (h : verifyBundle C D (some X.key) = .ok r)
    (hsigned : r.signatureVerified = true) (hfiles : r.filesVerified = true)
    (hlisted : X.manifest.get? "files".toList = some (.obj listed)) :
    ∀ e ∈ listed, checkListedFile C D e.1 e.2 = .ok () := by
  obtain ⟨manifestBytes, manifest, sigBytes, sig, hread, hmanifest, hreadSig, hsig, hholds,
    hverified⟩ := verifyBundle_verified h hsigned hfiles
  have hbytes := hunforged _ _ _ hread hreadSig hsig hholds
  rw [hbytes, hX.manifest_read, Except.ok.injEq] at hmanifest
  rw [← hmanifest, verifyListedFiles, hlisted] at hverified
  exact forM_eq_ok.mp (Option.some.inj hverified)

theorem binding_of_noBackslash (hX : X.Reliable) (hplain : X.NoBackslash) : X.Binding := by
  intro D r hapart hunforged h hsigned hfiles _
  obtain ⟨_, listed, _, _, hlisted, _⟩ := X.listedFiles
  have hchecked := listed_of_verified hX hunforged h hsigned hfiles hlisted
  have hheld : ∀ p b, X.bundle.get? p = some b → pathText p ∉ unhashedBundleFiles →
      D.Holds (pathText p) b := by
    intro p b hget hhashed
    have hmem := X.listed_of_file hlisted hget (X.unslashed_bundle hplain hget) hhashed
    obtain ⟨data, hholds, hmatch⟩ := checkListedFile_eq_ok (hchecked _ hmem)
    have heq := hapart p b data hget hholds.2.1 (sha256_eq_of_matchesHash hmatch)
    rwa [← heq]
  refine ⟨hheld, ?_⟩
  intro m hm
  obtain ⟨chunks, hlength, _, hflatten, hget⟩ := X.get?_chunks hm
  refine ⟨chunks, ?_, hflatten⟩
  rw [mapM_eq_ok, List.forall₂_iff_get]
  refine ⟨by rw [length_range, hlength], ?_⟩
  intro i hi hi'
  rw [get_eq_getElem, get_eq_getElem, getElem_range, chunkRel_eq]
  have hhashed : pathText [chunksDir, chunkName i] ∉ unhashedBundleFiles := by
    have hnone : ∀ k ∈ unhashedBundleFiles, k.head? ≠ some 'c' := by decide
    intro hmem
    refine hnone _ hmem ?_
    rw [pathText_cons]
    rfl
  exact (hheld _ _ (hget i hi') hhashed).2.1

end SignedExport

/-! ### What verification asks for -/

/-- The same answers about paths without a backslash. -/
structure Agrees (D D' : Disk) : Prop where
  root : D'.root = D.root
  lstat : ∀ rel, '\\' ∉ rel → D'.lstat rel = D.lstat rel
  present : ∀ rel, '\\' ∉ rel → D'.present rel = D.present rel
  canonicalize : ∀ rel, '\\' ∉ rel → D'.canonicalize rel = D.canonicalize rel
  read : ∀ rel, '\\' ∉ rel → D'.read rel = D.read rel

namespace Agrees

variable {C : BundleCrates} {D D' : Disk} (h : Agrees D D')
include h

theorem isRealFile (hrel : '\\' ∉ rel) : D'.isRealFile rel = D.isRealFile rel := by
  rw [Disk.isRealFile, Disk.isRealFile, h.lstat rel hrel]

theorem validate {candidate : Text} (hc : '\\' ∉ candidate) (rel : Text) :
    validateSriResolvedPath D' candidate rel = validateSriResolvedPath D candidate rel := by
  rw [validateSriResolvedPath, validateSriResolvedPath, h.lstat candidate hc,
    h.canonicalize [] not_mem_nil, h.canonicalize candidate hc]

theorem resolve (hrel : '\\' ∉ rel) : resolveSriFilePath D' rel = resolveSriFilePath D rel := by
  have hviewer : '\\' ∉ "viewer/".toList ++ rel := by
    have hlabel : '\\' ∉ "viewer/".toList := by decide
    rw [mem_append, not_or]
    exact ⟨hlabel, hrel⟩
  rw [resolveSriFilePath, resolveSriFilePath, h.lstat rel hrel, h.validate hrel, h.validate hviewer]

omit h in
theorem plain_of_resolve {path : Text} (hrel : '\\' ∉ rel)
    (hpath : resolveSriFilePath D rel = .ok path) : '\\' ∉ path := by
  have hlabel : '\\' ∉ "viewer/".toList := by decide
  rw [resolveSriFilePath] at hpath
  split at hpath
  · cases hpath
  · split at hpath
    · rwa [eq_of_validate hpath]
    · rw [eq_of_validate hpath, mem_append, not_or]
      exact ⟨hlabel, hrel⟩

theorem checkSri (hrel : '\\' ∉ rel) (expected : Json) :
    Share.checkSri C D' rel expected = Share.checkSri C D rel expected := by
  rw [Share.checkSri, Share.checkSri, h.resolve hrel]
  cases hpath : resolveSriFilePath D rel with
  | error e => rfl
  | ok path =>
    have hplain := plain_of_resolve hrel hpath
    dsimp only
    rw [h.present path hplain, h.read path hplain]

theorem checkSriMap (hlisted : ∀ e ∈ listed, '\\' ∉ e.1) :
    Share.checkSriMap C D' listed = Share.checkSriMap C D listed := by
  induction listed with
  | nil => rfl
  | cons e listed ih =>
    rw [forall_mem_cons] at hlisted
    rw [Share.checkSriMap, Share.checkSriMap, h.checkSri hlisted.1, ih hlisted.2]

theorem checkListedFile (hrel : '\\' ∉ rel) (expected : Json) :
    Share.checkListedFile C D' rel expected = Share.checkListedFile C D rel expected := by
  rw [Share.checkListedFile, Share.checkListedFile, h.validate hrel]
  cases hpath : validateSriResolvedPath D rel rel with
  | error e => rfl
  | ok path =>
    have hplain : '\\' ∉ path := eq_of_validate hpath ▸ hrel
    dsimp only
    rw [h.isRealFile hplain, h.read path hplain]

theorem verifyListedFiles {manifest : Json}
    (hfiles : manifest.get? "files".toList = some (.obj listed))
    (hlisted : ∀ e ∈ listed, '\\' ∉ e.1) :
    Share.verifyListedFiles C D' manifest = Share.verifyListedFiles C D manifest := by
  rw [Share.verifyListedFiles, Share.verifyListedFiles, hfiles]
  dsimp only [asObject]
  rw [forM_congr fun e he => h.checkListedFile (hlisted e he) e.2]

theorem verifyDbFile (hrel : '\\' ∉ rel) (expected : Text) :
    verifyDbFileAgainstHash C D' rel expected = verifyDbFileAgainstHash C D rel expected := by
  rw [verifyDbFileAgainstHash, verifyDbFileAgainstHash, h.resolve hrel]
  cases hpath : resolveSriFilePath D rel with
  | error e => rfl
  | ok path =>
    have hplain := plain_of_resolve hrel hpath
    dsimp only
    rw [h.isRealFile hplain, h.read path hplain]

theorem readChunk : Share.readChunk D' = Share.readChunk D := by
  ext index : 1
  have hrel : '\\' ∉ chunkRel index := by
    rw [chunkRel_eq]
    exact backslash_notMem_pathText (SignedExport.unslashed_of_written (.inl ⟨index, rfl⟩))
  rw [Share.readChunk, Share.readChunk, h.resolve hrel]
  cases hpath : resolveSriFilePath D (chunkRel index) with
  | error e => rfl
  | ok path =>
    have hplain := plain_of_resolve hrel hpath
    dsimp only
    rw [h.isRealFile hplain, h.read path hplain]

theorem verifyDatabase {manifest database : Json}
    (hdatabase : manifest.get? "database".toList = some database)
    (hpath : database.strField "path".toList = some databaseFile.val) :
    verifyDatabasePayload C D' manifest = verifyDatabasePayload C D manifest := by
  have hplain : '\\' ∉ databaseFile.val := by decide
  rw [verifyDatabasePayload, verifyDatabasePayload, hdatabase]
  dsimp only
  rw [hpath, h.readChunk]
  simp only [Option.getD_some, h.verifyDbFile hplain]

theorem verifySignature {manifest database : Json}
    (hdatabase : manifest.get? "database".toList = some database)
    (hpath : database.strField "path".toList = some databaseFile.val)
    (hfiles : manifest.get? "files".toList = some (.obj listed))
    (hlisted : ∀ e ∈ listed, '\\' ∉ e.1) (key : Option Text) (manifestBytes : Bytes)
    (sriChecked sriValid : Bool) :
    Share.verifySignature C D' key manifestBytes manifest sriChecked sriValid =
      Share.verifySignature C D key manifestBytes manifest sriChecked sriValid := by
  have hplain : '\\' ∉ signatureFile.val := by decide
  simp only [Share.verifySignature, h.lstat _ hplain, h.read _ hplain, verifyPayload, endedEarly,
    h.root, h.verifyDatabase hdatabase hpath, h.verifyListedFiles hfiles hlisted]

/-- The verification of an exported manifest asks only for paths without a backslash. -/
theorem verifyBundle (X : SignedExport C) (hX : X.Reliable)
    (hread : D.read manifestFile.val = .ok (C.encodePretty X.manifest)) (key : Option Text) :
    Share.verifyBundle C D' key = Share.verifyBundle C D key := by
  have hplain : '\\' ∉ manifestFile.val := by decide
  obtain ⟨_, listed, _, _, hfiles, _⟩ := X.listedFiles
  obtain ⟨database, hdatabase, _, _, hpath, _⟩ := X.database_fields
  have hsignature := h.verifySignature (C := C) hdatabase hpath hfiles
    (fun e he => X.unslashed_of_listed hfiles he) key (C.encodePretty X.manifest)
  rw [Share.verifyBundle, Share.verifyBundle, Disk.isRealDir, Disk.isRealDir,
    h.lstat [] not_mem_nil, h.isRealFile hplain, h.read _ hplain, h.root, hread]
  dsimp only
  rw [hX.manifest_read]
  dsimp only
  cases hsri : sriMapOf X.manifest with
  | none => simp only [hsignature]
  | some sri =>
    simp only [h.checkSriMap fun e he => X.unslashed_of_sri hsri he, hsignature, endedEarly, h.root]

end Agrees

/-! ### A file that is not looked for -/

/-- The directory of a bundle, without one of its files. -/
def diskWithout (root : Text) (components : List Text) (t : Staging) (p : List Name) : Disk where
  root := root
  lstat rel :=
    if place t rel = .inside p then .error .notFound else (diskOf root components t).lstat rel
  present rel := if place t rel = .inside p then false else (diskOf root components t).present rel
  canonicalize rel :=
    if place t rel = .inside p then .error noSuchFile
    else (diskOf root components t).canonicalize rel
  read rel :=
    if place t rel = .inside p then .error noSuchFile else (diskOf root components t).read rel

/-- The names on the way are those of the path. -/
theorem mem_of_walk {t : Staging} {dirs p : List Name} {cs : List Text}
    (h : walk t dirs cs = .inside p) : ∀ a ∈ p, a ∈ dirs ∨ a.val ∈ cs := by
  induction cs generalizing dirs with
  | nil =>
    rw [walk, Place.inside.injEq] at h
    exact fun a ha => .inl (h ▸ ha)
  | cons c cs ih =>
    intro a ha
    rw [walk] at h
    split at h
    · split at h <;> cases h
    · split at h
      · exact (ih h a ha).imp_right (mem_cons_of_mem c)
      · split at h
        · split at h
          · cases h
          · exact (ih h a ha).imp mem_of_mem_dropLast (mem_cons_of_mem c)
        · split at h
          · rcases ih h a ha with hmem | hmem
            · rw [mem_append, mem_singleton] at hmem
              refine hmem.imp_right ?_
              rintro rfl
              exact mem_cons_self
            · exact .inr (mem_cons_of_mem c hmem)
          · cases h

/-- A path without a backslash does not lead to a file whose path has one. -/
theorem place_ne_of_backslash {t : Staging} {p : List Name} (hp : ¬ Unslashed p)
    (hrel : '\\' ∉ rel) : place t rel ≠ .inside p := by
  intro hplace
  apply hp
  intro a ha hmem
  rw [place] at hplace
  split at hplace
  · cases hplace
  · rcases mem_of_walk hplace a ha with hnil | hcomponent
    · cases hnil
    · exact hrel (mem_of_mem_splitSlash hcomponent hmem)

theorem agrees_diskWithout {root : Text} {components : List Text} {t : Staging} {p : List Name}
    (hp : ¬ Unslashed p) :
    Agrees (diskOf root components t) (diskWithout root components t p) where
  root := rfl
  lstat _ hrel := if_neg (place_ne_of_backslash hp hrel)
  present _ hrel := if_neg (place_ne_of_backslash hp hrel)
  canonicalize _ hrel := if_neg (place_ne_of_backslash hp hrel)
  read _ hrel := if_neg (place_ne_of_backslash hp hrel)

namespace SignedExport

variable {C : BundleCrates} {X : SignedExport C}

/-- A file is read as it was exported, or not at all. -/
theorem eq_of_read_diskWithout {root : Text} {components : List Text} {t : Staging}
    {p q : List Name} {b c : Bytes} (hget : t.get? q = some b)
    (h : (diskWithout root components t p).read (pathText q) = .ok c) : c = b := by
  rw [diskWithout] at h
  dsimp only at h
  split at h
  · cases h
  · rw [read_file root components hget, Except.ok.injEq] at h
    exact h.symm

/-- Where a verified bundle is the exported one, no staged path has a backslash. -/
theorem noBackslash_of_binding (hX : X.Reliable) {root : Text} {components : List Text}
    (haccepted : X.Accepted root components) (hbinding : X.Binding) : X.NoBackslash := by
  intro p b hget
  by_contra hp
  have hbundle : X.bundle.get? p = some b := by rw [(X.sameAt_of_backslash hp).file, hget]
  have hread : (diskOf root components X.bundle).read manifestFile.val =
      .ok (C.encodePretty X.manifest) := by
    rw [← pathText_singleton manifestFile, read_file root components X.get?_manifest]
  obtain ⟨r, hr, hsigned, hfiles, _, herror⟩ := haccepted
  have hagrees : Agrees (diskOf root components X.bundle)
      (diskWithout root components X.bundle p) := agrees_diskWithout hp
  rw [← hagrees.verifyBundle X hX hread] at hr
  have hapart : X.TellsApart (diskWithout root components X.bundle p) := fun q c c' hq hc _ =>
    eq_of_read_diskWithout hq hc
  have hunforged : X.Unforged (diskWithout root components X.bundle p) := by
    intro manifestBytes _ _ hmanifest _ _ _
    rw [← pathText_singleton manifestFile] at hmanifest
    exact eq_of_read_diskWithout X.get?_manifest hmanifest
  have hhashed : pathText p ∉ unhashedBundleFiles := by
    have hplain : ∀ k ∈ unhashedBundleFiles, '\\' ∉ k := by decide
    intro hmem
    exact hp fun a ha hslash => hplain _ hmem (mem_pathText_of_mem ha hslash)
  have hheld := (hbinding _ r hapart hunforged hr hsigned hfiles herror).1 p b hbundle hhashed
  have hstat := hheld.1
  rw [diskWithout] at hstat
  dsimp only at hstat
  rw [if_pos (place_file hbundle)] at hstat
  cases hstat

end SignedExport

/-! ### A sample -/

/-- `serde_json::to_string_pretty`, where no text has to be escaped. -/
def prettyText : Nat → Text → Json → Text
  | 0, _, _ => []
  | depth + 1, indent, v =>
    let inner := indent ++ "  ".toList
    match v with
    | .obj fields =>
      '{' :: [','].intercalate (fields.map fun f =>
        '\n' :: inner ++ ['"'] ++ f.1 ++ "\": ".toList ++ prettyText depth inner f.2) ++
          '\n' :: indent ++ ['}']
    | .str t => '"' :: t ++ ['"']
    | .int n => natText n.toNat
    | .bool b => if b then "true".toList else "false".toList
    | _ => "null".toList

def sampleEncode (v : Json) : Bytes := utf8 (prettyText 4 [] v)

def base64Alphabet : Text :=
  "ABCDEFGHIJKLMNOPQRSTUVWXYZabcdefghijklmnopqrstuvwxyz0123456789+/".toList

def base64Char (n : Nat) : Char := base64Alphabet.getD n '='

def base64Text : Bytes → Text
  | [] => []
  | [a] => [base64Char (a.toNat / 4), base64Char (a.toNat % 4 * 16), '=', '=']
  | [a, b] =>
    [base64Char (a.toNat / 4), base64Char (a.toNat % 4 * 16 + b.toNat / 16),
     base64Char (b.toNat % 16 * 4), '=']
  | a :: b :: c :: rest =>
    base64Char (a.toNat / 4) :: base64Char (a.toNat % 4 * 16 + b.toNat / 16) ::
      base64Char (b.toNat % 16 * 4 + c.toNat / 64) :: base64Char (c.toNat % 64) :: base64Text rest

/-- The bytes of four letters. -/
def base64Group (a b c d : Nat) : Bytes :=
  [UInt8.ofNat (a * 4 + b / 16), UInt8.ofNat (b % 16 * 16 + c / 4), UInt8.ofNat (c % 4 * 64 + d)]

def base64Bytes : Text → Option Bytes
  | [] => some []
  | a :: b :: c :: d :: rest => do
    let front ← base64Alphabet.idxOf? a
    let second ← base64Alphabet.idxOf? b
    if d = '=' then
      if c = '=' then return (base64Group front second 0 0).take 1
      else return (base64Group front second (← base64Alphabet.idxOf? c) 0).take 2
    else
      let third ← base64Alphabet.idxOf? c
      let last ← base64Alphabet.idxOf? d
      return base64Group front second third last ++ (← base64Bytes rest)
  | _ => none

theorem base64Char_spec : ∀ n < 64,
    base64Alphabet.idxOf? (base64Char n) = some n ∧ base64Char n ≠ '=' := by
  unfold base64Char base64Alphabet
  rw [toList_lit rfl]
  decide +kernel

theorem base64Group_eq (a b c : UInt8) :
    base64Group (a.toNat / 4) (a.toNat % 4 * 16 + b.toNat / 16) (b.toNat % 16 * 4 + c.toNat / 64)
      (c.toNat % 64) = [a, b, c] := by
  have ha := a.toNat_lt
  have hb := b.toNat_lt
  have hc := c.toNat_lt
  have hfirst : a.toNat / 4 * 4 + (a.toNat % 4 * 16 + b.toNat / 16) / 16 = a.toNat := by omega
  have hsecond : (a.toNat % 4 * 16 + b.toNat / 16) % 16 * 16 +
      (b.toNat % 16 * 4 + c.toNat / 64) / 4 = b.toNat := by omega
  have hthird : (b.toNat % 16 * 4 + c.toNat / 64) % 4 * 64 + c.toNat % 64 = c.toNat := by omega
  rw [base64Group, hfirst, hsecond, hthird, UInt8.ofNat_toNat, UInt8.ofNat_toNat,
    UInt8.ofNat_toNat]

theorem base64Bytes_base64Text (bytes : Bytes) : base64Bytes (base64Text bytes) = some bytes := by
  have hchar : ∀ n < 64, base64Alphabet.idxOf? (base64Char n) = some n :=
    fun n hn => (base64Char_spec n hn).1
  have hpad : ∀ n < 64, base64Char n ≠ '=' := fun n hn => (base64Char_spec n hn).2
  induction bytes using base64Text.induct with
  | case1 => rfl
  | case2 a =>
    have ha := a.toNat_lt
    have hgroup := base64Group_eq a 0 0
    rw [base64Text, base64Bytes, hchar _ (by omega), hchar _ (by omega)]
    simpa using congrArg (List.take 1) hgroup
  | case3 a b =>
    have ha := a.toNat_lt
    have hb := b.toNat_lt
    have hgroup := base64Group_eq a b 0
    rw [base64Text, base64Bytes, hchar _ (by omega), hchar _ (by omega), hchar _ (by omega)]
    simp [hpad _ (show b.toNat % 16 * 4 < 64 by omega)]
    simpa using congrArg (List.take 2) hgroup
  | case4 a b c rest ih =>
    have ha := a.toNat_lt
    have hb := b.toNat_lt
    have hc := c.toNat_lt
    rw [base64Text, base64Bytes, hchar _ (by omega), hchar _ (by omega), hchar _ (by omega),
      hchar _ (by omega), ih]
    simp [hpad _ (show c.toNat % 64 < 64 by omega), base64Group_eq]
def sampleScript (dotted : Bool) : Name :=
  if dotted then ⟨"m..js".toList, by decide⟩ else ⟨"m.js".toList, by decide⟩

def sampleContent : Bytes := utf8 "x".toList

def contentDigest : Vector UInt8 32 :=
  #v[45, 113, 22, 66, 183, 38, 176, 68, 1, 98, 124, 169, 251, 172, 50, 245,
    200, 83, 15, 177, 144, 60, 196, 219, 2, 37, 135, 23, 146, 26, 72, 129]

def emptyDigest : Vector UInt8 32 :=
  #v[227, 176, 196, 66, 152, 252, 28, 20, 154, 251, 244, 200, 153, 111, 185, 36,
    39, 174, 65, 228, 100, 155, 147, 76, 164, 149, 153, 27, 120, 82, 184, 85]

def manifestDigest (dotted : Bool) : Vector UInt8 32 :=
  if dotted then
    #v[88, 115, 229, 157, 229, 165, 82, 45, 237, 159, 84, 143, 136, 30, 63, 201,
      58, 145, 58, 152, 113, 26, 190, 246, 60, 87, 226, 121, 60, 210, 171, 92]
  else
    #v[230, 32, 125, 72, 59, 119, 54, 243, 223, 196, 126, 31, 54, 137, 176, 254,
      108, 87, 0, 89, 81, 5, 116, 220, 130, 129, 234, 189, 186, 10, 239, 129]

def signatureDigest (dotted : Bool) : Vector UInt8 32 :=
  if dotted then
    #v[83, 46, 166, 146, 179, 85, 237, 223, 234, 81, 175, 47, 190, 246, 134, 199,
      67, 30, 174, 100, 207, 46, 99, 2, 235, 254, 123, 205, 217, 54, 202, 173]
  else
    #v[212, 36, 247, 201, 159, 165, 173, 186, 9, 195, 164, 138, 155, 174, 191, 27,
      11, 100, 79, 239, 101, 236, 201, 30, 250, 44, 240, 64, 123, 77, 105, 14]

def sampleSeed : Vector UInt8 32 := Vector.replicate 32 7

def samplePublicKey : Vector UInt8 32 :=
  #v[234, 74, 108, 99, 226, 156, 82, 10, 190, 245, 80, 123, 19, 46, 197, 249,
    149, 71, 118, 174, 190, 190, 123, 146, 66, 30, 234, 105, 20, 70, 210, 44]

def manifestSignature (dotted : Bool) : Vector UInt8 64 :=
  if dotted then
    #v[21, 246, 99, 115, 172, 90, 39, 30, 148, 119, 79, 6, 66, 227, 102, 213,
      47, 8, 115, 17, 176, 4, 163, 242, 119, 221, 39, 242, 222, 57, 90, 57,
      114, 92, 143, 219, 225, 2, 208, 71, 57, 35, 28, 180, 209, 22, 228, 101,
      16, 75, 89, 251, 245, 6, 37, 14, 63, 129, 235, 167, 111, 173, 56, 9]
  else
    #v[128, 18, 152, 242, 204, 199, 106, 34, 109, 196, 175, 43, 199, 157, 6, 154,
      113, 244, 74, 166, 52, 204, 138, 233, 117, 162, 206, 39, 79, 247, 29, 216,
      162, 202, 119, 63, 66, 249, 201, 52, 92, 1, 199, 11, 0, 172, 215, 63,
      143, 245, 215, 115, 194, 42, 202, 218, 106, 34, 125, 237, 130, 136, 73, 1]

def sampleManifest (dotted : Bool) : Json :=
  let digest := hexEncode contentDigest.toList
  .obj
    [("database".toList, .obj
      [("chunk_manifest".toList, .null), ("chunked".toList, .bool false),
       ("fts_enabled".toList, .bool true), ("path".toList, .str "mailbox.sqlite3".toList),
       ("sha256".toList, .str digest), ("size_bytes".toList, .int 1)]), ("files".toList, .obj
      [("HOW_TO_DEPLOY.md".toList, .str digest), ("README.md".toList, .str digest),
       ("index.html".toList, .str digest), ("mailbox.sqlite3".toList, .str digest),
       ("viewer/vendor/".toList ++ (sampleScript dotted).val, .str digest)]),
    ("schema_version".toList, .str "0.1.0".toList), ("viewer".toList, .obj
      [("messages".toList, .str "viewer/data/messages.json".toList),
       ("meta_info".toList, .obj [("fts_enabled".toList, .bool true)]), ("sri".toList, .obj
        [("vendor/".toList ++ (sampleScript dotted).val,
          .str ("sha256-".toList ++ base64Text contentDigest.toList))])])]

def sampleSignature (dotted : Bool) : Json :=
  .obj
    [("algorithm".toList, .str "ed25519".toList),
    ("signature".toList, .str (base64Text (manifestSignature dotted).toList)),
    ("manifest_sha256".toList, .str (hexEncode (manifestDigest dotted).toList)),
    ("public_key".toList, .str (base64Text samplePublicKey.toList)),
    ("generated_at".toList, .str "2026-01-01T00:00:00+00:00".toList)]

def sampleSha256 (data : Bytes) : Vector UInt8 32 :=
  if data = sampleContent then contentDigest
  else if data = [] then emptyDigest
  else if data = sampleEncode (sampleManifest false) then manifestDigest false
  else if data = sampleEncode (sampleManifest true) then manifestDigest true
  else if data = sampleEncode (sampleSignature false) then signatureDigest false
  else if data = sampleEncode (sampleSignature true) then signatureDigest true
  else Vector.replicate 32 0

def sampleSign (data : Bytes) : Vector UInt8 64 :=
  manifestSignature (data != sampleEncode (sampleManifest false))

def sampleCrates : BundleCrates where
  sha256 := sampleSha256
  encodePretty := sampleEncode
  fromSlice data :=
    if data = sampleEncode (sampleManifest false) then .ok (sampleManifest false)
    else if data = sampleEncode (sampleManifest true) then .ok (sampleManifest true)
    else .error "expected value at line 1 column 1".toList
  fromStr data :=
    if data = sampleEncode (sampleSignature false) then .ok (sampleSignature false)
    else if data = sampleEncode (sampleSignature true) then .ok (sampleSignature true)
    else .error (.manifestParse "expected value at line 1 column 1".toList)
  base64Encode := base64Text
  base64Decode := base64Bytes
  publicKey _ := samplePublicKey
  sign _ := sampleSign
  isVerifyingKey key := key = samplePublicKey
  verify key data signature := key = samplePublicKey ∧ signature = sampleSign data

def sampleInput : ExportInput where
  chunkThreshold := 10
  chunkSize := 4
  ftsEnabled := true
  viewerData :=
    some ("viewer/data/messages.json".toList, .obj [("fts_enabled".toList, .bool true)])
  sections := [("schema_version".toList, .str "0.1.0".toList)]
  sections_distinct := by decide
  sections_other := by decide
  readme := sampleContent
  howToDeploy := sampleContent
  entryPage := sampleContent
  headers := sampleContent

def sampleStaged (dotted : Bool) : Staging where
  files :=
    [([databaseFile], sampleContent), ([viewerDir, vendorDir, sampleScript dotted], sampleContent)]
  distinct := by cases dotted <;> decide
  named := by simp
  apart := by cases dotted <;> decide

def sampleScaffold (dotted : Bool) : Except ShareError (Staging × Json) :=
  writeScaffoldingFiles sampleCrates (fun _ => none) sampleInput none sampleContent
    (computeViewerSri sampleCrates (fun _ => none) (sampleStaged dotted)) (sampleStaged dotted)

theorem eq_ok_of_isSome {ε α : Type} {x : Except ε α} (h : x.toOption.isSome = true) :
    x = .ok (x.toOption.get h) := by
  cases x with
  | error e => cases h
  | ok a => rfl

theorem sampleScaffold_isSome (dotted : Bool) : (sampleScaffold dotted).toOption.isSome = true := by
  cases dotted <;> decide +kernel

def samplePrepared (dotted : Bool) : Staging × Json :=
  (sampleScaffold dotted).toOption.get (sampleScaffold_isSome dotted)

theorem sampleScaffold_eq (dotted : Bool) :
    sampleScaffold dotted = .ok ((samplePrepared dotted).1, (samplePrepared dotted).2) :=
  (eq_ok_of_isSome (sampleScaffold_isSome dotted)).trans (congrArg Except.ok (Prod.eta _).symm)

def sampleWritten (dotted : Bool) : Except ShareError Staging :=
  writeOutputBytes (samplePrepared dotted).1 [manifestFile]
    (sampleCrates.encodePretty (samplePrepared dotted).2)

theorem sampleWritten_isSome (dotted : Bool) : (sampleWritten dotted).toOption.isSome = true := by
  cases dotted <;> decide +kernel

def sampleSigned (dotted : Bool) : Except ShareError Staging :=
  signManifest sampleCrates sampleSeed false "2026-01-01T00:00:00+00:00".toList
    ((sampleWritten dotted).toOption.get (sampleWritten_isSome dotted))

theorem sampleSigned_isSome (dotted : Bool) : (sampleSigned dotted).toOption.isSome = true := by
  cases dotted <;> decide +kernel

def sampleExport (dotted : Bool) : SignedExport sampleCrates where
  outside _ := none
  input := sampleInput
  database := sampleContent
  staged := sampleStaged dotted
  has_database := by cases dotted <;> decide
  database_lt := by decide
  chunked := sampleStaged dotted
  chunkManifest := none
  chunk_eq := by
    rw [maybeChunkDatabase, if_neg (by decide), if_pos (by decide)]
    rfl
  prepared := (samplePrepared dotted).1
  manifest := (samplePrepared dotted).2
  scaffold_eq := sampleScaffold_eq dotted
  exported := (sampleWritten dotted).toOption.get (sampleWritten_isSome dotted)
  export_eq := eq_ok_of_isSome (sampleWritten_isSome dotted)
  seed := sampleSeed
  overwrite := false
  generatedAt := "2026-01-01T00:00:00+00:00".toList
  bundle := (sampleSigned dotted).toOption.get (sampleSigned_isSome dotted)
  sign_eq := eq_ok_of_isSome (sampleSigned_isSome dotted)

mutual

/-- Whether two values without arrays and fractions are the same. -/
def sameJson : Json → Json → Bool
  | .null, .null => true
  | .bool b, .bool b' => b == b'
  | .int n, .int n' => n == n'
  | .str t, .str t' => t == t'
  | .obj fields, .obj fields' => sameFields fields fields'
  | _, _ => false

def sameFields : List (Text × Json) → List (Text × Json) → Bool
  | [], [] => true
  | (key, v) :: rest, (key', v') :: rest' => key == key' && sameJson v v' && sameFields rest rest'
  | _, _ => false

end

mutual

theorem eq_of_sameJson : ∀ {v v' : Json}, sameJson v v' = true → v = v'
  | .null, .null, _ => rfl
  | .bool _, .bool _, h => congrArg Json.bool (eq_of_beq h)
  | .int _, .int _, h => congrArg Json.int (eq_of_beq h)
  | .str _, .str _, h => congrArg Json.str (eq_of_beq h)
  | .obj _, .obj _, h => congrArg Json.obj (eq_of_sameFields h)

theorem eq_of_sameFields : ∀ {fields fields' : List (Text × Json)},
    sameFields fields fields' = true → fields = fields'
  | [], [], _ => rfl
  | (_, _) :: _, (_, _) :: _, h => by
    rw [sameFields, Bool.and_eq_true, Bool.and_eq_true] at h
    rw [eq_of_beq h.1.1, eq_of_sameJson h.1.2, eq_of_sameFields h.2]

end

theorem sampleExport_staged (dotted : Bool) :
    (sampleExport dotted).staged = sampleStaged dotted := rfl

theorem sampleExport_manifest (dotted : Bool) :
    (sampleExport dotted).manifest = sampleManifest dotted := by
  apply eq_of_sameJson
  cases dotted <;> decide +kernel

theorem sampleEncode_ne (dotted : Bool) :
    sampleEncode (sampleManifest dotted) ≠ sampleContent ∧
      sampleEncode (sampleManifest dotted) ≠ [] ∧
      sampleEncode (sampleSignature dotted) ≠ sampleContent ∧
      sampleEncode (sampleSignature dotted) ≠ [] ∧
      ∀ dotted', sampleEncode (sampleSignature dotted) ≠ sampleEncode (sampleManifest dotted') := by
  cases dotted <;> decide +kernel

theorem sampleEncode_manifest_ne :
    sampleEncode (sampleManifest true) ≠ sampleEncode (sampleManifest false) := by
  decide +kernel

theorem sampleEncode_signature_ne :
    sampleEncode (sampleSignature true) ≠ sampleEncode (sampleSignature false) := by
  decide +kernel

theorem sampleSha256_manifest (dotted : Bool) :
    sampleSha256 (sampleEncode (sampleManifest dotted)) = manifestDigest dotted := by
  obtain ⟨hcontent, hempty, _, _, _⟩ := sampleEncode_ne dotted
  rw [sampleSha256, if_neg hcontent, if_neg hempty]
  cases dotted with
  | false => rw [if_pos rfl]
  | true => rw [if_neg sampleEncode_manifest_ne, if_pos rfl]

theorem sampleSha256_signature (dotted : Bool) :
    sampleSha256 (sampleEncode (sampleSignature dotted)) = signatureDigest dotted := by
  obtain ⟨_, _, hcontent, hempty, hmanifest⟩ := sampleEncode_ne dotted
  rw [sampleSha256, if_neg hcontent, if_neg hempty, if_neg (hmanifest false),
    if_neg (hmanifest true)]
  cases dotted with
  | false => rw [if_pos rfl]
  | true => rw [if_neg sampleEncode_signature_ne, if_pos rfl]

theorem sampleSign_manifest (dotted : Bool) :
    sampleSign (sampleEncode (sampleManifest dotted)) = manifestSignature dotted := by
  rw [sampleSign]
  cases dotted with
  | false => rw [bne_self_eq_false]
  | true => rw [bne_iff_ne.mpr sampleEncode_manifest_ne]

theorem sampleCrates_encodePretty (v : Json) : sampleCrates.encodePretty v = sampleEncode v := rfl

theorem sampleCrates_sha256 : sampleCrates.sha256 = sampleSha256 := rfl

theorem sampleCrates_sign (seed : Vector UInt8 32) : sampleCrates.sign seed = sampleSign := rfl

theorem sampleExport_signature (dotted : Bool) :
    (sampleExport dotted).signature = sampleSignature dotted := by
  have hsha : hexSha256 sampleCrates (sampleEncode (sampleManifest dotted)) =
      hexEncode (manifestDigest dotted).toList := by
    rw [hexSha256, sampleCrates_sha256, sampleSha256_manifest]
  have hvalue : (sampleExport dotted).signature =
      signatureValue sampleCrates sampleSeed "2026-01-01T00:00:00+00:00".toList
        (sampleCrates.encodePretty (sampleExport dotted).manifest) := rfl
  rw [hvalue, sampleExport_manifest, sampleCrates_encodePretty, signatureValue, hsha,
    sampleCrates_sign, sampleSign_manifest]
  rfl

def sampleContents (dotted : Bool) : List (Bytes × Vector UInt8 32) :=
  [(sampleContent, contentDigest), ([], emptyDigest),
   (sampleEncode (sampleManifest dotted), manifestDigest dotted),
   (sampleEncode (sampleSignature dotted), signatureDigest dotted)]

theorem sha256_of_mem {dotted : Bool} {e : Bytes × Vector UInt8 32} (h : e ∈ sampleContents dotted) :
    sampleSha256 e.1 = e.2 := by
  simp only [sampleContents, mem_cons, not_mem_nil, or_false] at h
  rcases h with rfl | rfl | rfl | rfl
  · rfl
  · rfl
  · exact sampleSha256_manifest dotted
  · exact sampleSha256_signature dotted

theorem signature_file {C : BundleCrates} (X : SignedExport C) :
    X.bundle.get? [signatureFile] = some (C.encodePretty X.signature) := X.get?_signature

theorem mem_sampleContents (dotted : Bool) {p : List Name} {b : Bytes}
    (h : (sampleExport dotted).bundle.get? p = some b) :
    (b, sampleSha256 b) ∈ sampleContents dotted := by
  have hsub : b ∈ (sampleContents dotted).map Prod.fst →
      (b, sampleSha256 b) ∈ sampleContents dotted := by
    intro hb
    obtain ⟨e, he, rfl⟩ := mem_map.mp hb
    rw [sha256_of_mem he]
    exact he
  apply hsub
  have hp := SignedExport.ne_nil_of_get? h
  rcases eq_or_ne p [manifestFile] with hmanifest | hmanifest
  · rw [hmanifest, (sampleExport dotted).get?_manifest, sampleExport_manifest,
      sampleCrates_encodePretty, Option.some.injEq] at h
    simp [sampleContents, h]
  rcases eq_or_ne p [signatureFile] with hsignature | hsignature
  · rw [hsignature, signature_file, sampleExport_signature, sampleCrates_encodePretty,
      Option.some.injEq] at h
    simp [sampleContents, h]
  have hnot : ∀ {a : Name}, p ≠ [a] → ¬ p <+: [a] := by
    intro a hne hpre
    obtain ⟨x, q, rfl⟩ := exists_cons_of_ne_nil hp
    rw [cons_prefix_cons, prefix_nil] at hpre
    rw [hpre.1, hpre.2] at hne
    exact hne rfl
  rw [((sampleExport dotted).sameAt_bundle (hnot hmanifest) (hnot hsignature)).file] at h
  have hall : ∀ f ∈ (samplePrepared dotted).1.files, f.2 = sampleContent ∨ f.2 = [] := by
    cases dotted <;> decide +kernel
  have hb : b = sampleContent ∨ b = [] := hall _ (FileTree.get?_eq_some.mp h)
  rcases hb with rfl | rfl
  · simp [sampleContents]
  · simp [sampleContents]

theorem sampleCrates_fromSlice (data : Bytes) : sampleCrates.fromSlice data =
    if data = sampleEncode (sampleManifest false) then .ok (sampleManifest false)
    else if data = sampleEncode (sampleManifest true) then .ok (sampleManifest true)
    else .error "expected value at line 1 column 1".toList := rfl

theorem sampleCrates_fromStr (data : Bytes) : sampleCrates.fromStr data =
    if data = sampleEncode (sampleSignature false) then .ok (sampleSignature false)
    else if data = sampleEncode (sampleSignature true) then .ok (sampleSignature true)
    else .error (.manifestParse "expected value at line 1 column 1".toList) := rfl

theorem sampleCrates_verify (data : Bytes) :
    sampleCrates.verify samplePublicKey data (sampleCrates.sign sampleSeed data) = true :=
  decide_eq_true ⟨rfl, rfl⟩

theorem sample_manifest_read (dotted : Bool) :
    sampleCrates.fromSlice (sampleEncode (sampleManifest dotted)) = .ok (sampleManifest dotted) := by
  rw [sampleCrates_fromSlice]
  cases dotted with
  | false => rw [if_pos rfl]
  | true => rw [if_neg sampleEncode_manifest_ne, if_pos rfl]

theorem sample_signature_read (dotted : Bool) :
    sampleCrates.fromStr (sampleEncode (sampleSignature dotted)) = .ok (sampleSignature dotted) := by
  rw [sampleCrates_fromStr]
  cases dotted with
  | false => rw [if_pos rfl]
  | true => rw [if_neg sampleEncode_signature_ne, if_pos rfl]

theorem sampleExport_reliable (dotted : Bool) : (sampleExport dotted).Reliable where
  manifest_read := by
    rw [sampleExport_manifest, sampleCrates_encodePretty, sample_manifest_read]
  signature_read := by
    rw [sampleExport_signature, sampleCrates_encodePretty, sample_signature_read]
  key_read := base64Bytes_base64Text _
  sign_read := by
    rw [sampleExport_manifest, sampleCrates_encodePretty, sampleCrates_sign, sampleSign_manifest]
    exact base64Bytes_base64Text _
  digest_read := by
    intro p b _
    exact base64Bytes_base64Text _
  is_key := decide_eq_true (Eq.refl samplePublicKey)
  signed := sampleCrates_verify _
  no_collision := by
    intro p q b c hb hc hsha
    have hnodup : ((sampleContents dotted).map Prod.snd).Nodup := by
      cases dotted <;> decide +kernel
    have heq := inj_on_of_nodup_map hnodup (mem_sampleContents dotted hb)
      (mem_sampleContents dotted hc) hsha
    exact congrArg Prod.fst heq

end AgentMail.Share
