import AgentMail.Share.ExportedFiles

/-!
# Signed exports

An export with the stages it went through, and what its bundle and its manifest consist of.
-/

namespace AgentMail.Share

open Base Lib
open List hiding Vector

/-- An export that succeeded and was signed. -/
structure SignedExport (C : BundleCrates) where
  outside : Text → Option Bytes
  input : ExportInput
  database : Bytes
  staged : Staging
  has_database : staged.get? [databaseFile] = some database
  /-- A file length is a `u64`. -/
  database_lt : database.length < 2 ^ 64
  chunked : Staging
  chunkManifest : Option ChunkManifest
  chunk_eq : maybeChunkDatabase C staged database input.chunkThreshold input.chunkSize =
    .ok (chunked, chunkManifest)
  prepared : Staging
  manifest : Json
  scaffold_eq : writeScaffoldingFiles C outside input chunkManifest database
    (computeViewerSri C outside chunked) chunked = .ok (prepared, manifest)
  exported : Staging
  export_eq : writeOutputBytes prepared [manifestFile] (C.encodePretty manifest) = .ok exported
  seed : Vector UInt8 32
  overwrite : Bool
  generatedAt : Text
  bundle : Staging
  sign_eq : signManifest C seed overwrite generatedAt exported = .ok bundle

namespace SignedExport

variable {C : BundleCrates} (X : SignedExport C)

/-! ### The files of the bundle -/

/-- The first names of the paths that chunking writes. -/
def chunkingNames : List Name := [chunksDir, checksumsFile, chunkConfigFile]

/-- The names of the files that the scaffolding writes. -/
def scaffoldingNames : List Name :=
  [readmeFile, deployFile, entryFile, nojekyllFile, headersFile, manifestFile, signatureFile]

/-- The export writes nothing below staged names. -/
theorem notMem_written : ∀ a ∈ [databaseFile, viewerDir, vendorDir],
    a ∉ chunkingNames ∧ a ∉ scaffoldingNames := by
  unfold chunkingNames scaffoldingNames databaseFile viewerDir vendorDir chunksDir checksumsFile
    chunkConfigFile readmeFile deployFile entryFile nojekyllFile headersFile manifestFile signatureFile
  simp (disch := rfl) only [toList_lit]
  decide

theorem chunksDir_apart : chunksDir ∉ scaffoldingNames ∧ chunksDir ≠ chunkConfigFile ∧
    chunksDir ≠ checksumsFile := by
  unfold scaffoldingNames chunksDir checksumsFile chunkConfigFile readmeFile deployFile entryFile
    nojekyllFile headersFile manifestFile signatureFile
  simp (disch := rfl) only [toList_lit]
  decide

theorem unslashed_names : ∀ a ∈ chunkingNames ++ scaffoldingNames, '\\' ∉ a.val := by
  unfold chunkingNames scaffoldingNames chunksDir checksumsFile chunkConfigFile readmeFile deployFile
    entryFile nojekyllFile headersFile manifestFile signatureFile
  simp (disch := rfl) only [toList_lit]
  decide

variable {q : List Name}

theorem not_prefix_of_ne {a b : Name} {p : List Name} (h : a ≠ b) : ¬ a :: p <+: b :: q :=
  fun hpre => h (cons_prefix_cons.mp hpre).1

theorem chunked_cases :
    (X.database.length ≤ X.input.chunkThreshold ∧ X.chunkManifest = none ∧ X.chunked = X.staged) ∨
      ∃ m chunks t₁ lines t₂, X.chunkManifest = some m ∧ m.chunkCount = chunks.length ∧
        chunks.length ≤ X.database.length ∧ chunks.flatten = X.database ∧
        writeChunks C 0 chunks X.staged = .ok (t₁, lines) ∧
        writeOutputBytes t₁ [checksumsFile] (utf8 lines) = .ok t₂ ∧
        writeOutputBytes t₂ [chunkConfigFile] (C.encodePretty m.toValue) = .ok X.chunked := by
  have h := X.chunk_eq
  rw [maybeChunkDatabase] at h
  split at h
  · cases h
  · next hpos =>
    split at h
    · next hsmall =>
      have hpair := Prod.mk.inj (Except.ok.inj h)
      exact .inl ⟨hsmall, hpair.2.symm, hpair.1.symm⟩
    · right
      obtain ⟨⟨t₁, lines⟩, hchunks, h⟩ := bind_eq_ok.mp h
      obtain ⟨t₂, hchecksums, h⟩ := bind_eq_ok.mp h
      obtain ⟨t₃, hconfig, h⟩ := bind_eq_ok.mp h
      have hpair := Prod.mk.inj (Except.ok.inj h)
      rw [hpair.1] at hconfig
      exact ⟨_, _, t₁, lines, t₂, hpair.2.symm, rfl, length_cutChunks,
        flatten_cutChunks (Nat.pos_of_ne_zero hpos) le_rfl, hchunks, hchecksums, hconfig⟩

/-- Chunking leaves the other files alone. -/
theorem sameAt_chunked (hchunks : ∀ j, ¬ q <+: [chunksDir, chunkName j])
    (hchecksums : ¬ q <+: [checksumsFile]) (hconfig : ¬ q <+: [chunkConfigFile]) :
    SameAt X.staged X.chunked q := by
  rcases X.chunked_cases with ⟨_, _, heq⟩ | ⟨m, chunks, t₁, lines, t₂, _, _, _, _, hw, hw', hw''⟩
  · rw [heq]
    exact .refl _ q
  · exact (((writeChunks_spec hw).1 q fun j _ => hchunks j).trans
      (sameAt_writeOutputBytes hw' hchecksums)).trans (sameAt_writeOutputBytes hw'' hconfig)

theorem scaffold_cases :
    ∃ t₁ t₂ t₃ t₄ files, writeOutputBytes X.chunked [readmeFile] X.input.readme = .ok t₁ ∧
      writeOutputBytes t₁ [deployFile] X.input.howToDeploy = .ok t₂ ∧
      writeOutputBytes t₂ [entryFile] X.input.entryPage = .ok t₃ ∧
      writeOutputBytes t₃ [nojekyllFile] [] = .ok t₄ ∧
      writeOutputBytes t₄ [headersFile] X.input.headers = .ok X.prepared ∧
      hashBundleFiles C X.outside X.prepared = .ok files ∧
      X.manifest = sortJsonKeys (buildManifest C X.input X.chunkManifest X.database
        (computeViewerSri C X.outside X.chunked) files) := by
  have h := X.scaffold_eq
  rw [writeScaffoldingFiles] at h
  obtain ⟨t₁, h₁, h⟩ := bind_eq_ok.mp h
  obtain ⟨t₂, h₂, h⟩ := bind_eq_ok.mp h
  obtain ⟨t₃, h₃, h⟩ := bind_eq_ok.mp h
  obtain ⟨t₄, h₄, h⟩ := bind_eq_ok.mp h
  obtain ⟨t₅, h₅, h⟩ := bind_eq_ok.mp h
  obtain ⟨files, hfiles, h⟩ := bind_eq_ok.mp h
  have hpair := Prod.mk.inj (Except.ok.inj h)
  rw [hpair.1] at h₅ hfiles
  exact ⟨t₁, t₂, t₃, t₄, files, h₁, h₂, h₃, h₄, h₅, hfiles, hpair.2.symm⟩

/-- The scaffolding leaves the other files alone. -/
theorem sameAt_prepared (h : ∀ b ∈ scaffoldingNames, ¬ q <+: [b]) :
    SameAt X.chunked X.prepared q := by
  obtain ⟨t₁, t₂, t₃, t₄, files, h₁, h₂, h₃, h₄, h₅, _, _⟩ := X.scaffold_cases
  exact ((((sameAt_writeOutputBytes h₁ (h _ (by simp [scaffoldingNames]))).trans
    (sameAt_writeOutputBytes h₂ (h _ (by simp [scaffoldingNames])))).trans
    (sameAt_writeOutputBytes h₃ (h _ (by simp [scaffoldingNames])))).trans
    (sameAt_writeOutputBytes h₄ (h _ (by simp [scaffoldingNames])))).trans
    (sameAt_writeOutputBytes h₅ (h _ (by simp [scaffoldingNames])))

/-- The bundle's manifest and its signature. -/
theorem sign_cases :
    writeOutputBytes X.exported [signatureFile]
      (C.encodePretty (signatureValue C X.seed X.generatedAt (C.encodePretty X.manifest))) =
        .ok X.bundle := by
  have h := X.sign_eq
  have hmanifest : X.exported.get? [manifestFile] = some (C.encodePretty X.manifest) := by
    rw [get?_writeOutputBytes X.export_eq, if_pos rfl]
  rw [signManifest, hmanifest] at h
  dsimp only at h
  split at h
  · cases h
  · exact h

theorem get?_manifest : X.bundle.get? [manifestFile] = some (C.encodePretty X.manifest) := by
  have hne : [signatureFile] ≠ [manifestFile] := by decide
  rw [get?_writeOutputBytes X.sign_cases, if_neg hne, get?_writeOutputBytes X.export_eq, if_pos rfl]

theorem get?_signature : X.bundle.get? [signatureFile] =
    some (C.encodePretty (signatureValue C X.seed X.generatedAt (C.encodePretty X.manifest))) := by
  rw [get?_writeOutputBytes X.sign_cases, if_pos rfl]

/-- After the hashes nothing changes but the manifest and its signature. -/
theorem sameAt_bundle (hmanifest : ¬ q <+: [manifestFile]) (hsignature : ¬ q <+: [signatureFile]) :
    SameAt X.prepared X.bundle q :=
  (sameAt_writeOutputBytes X.export_eq hmanifest).trans
    (sameAt_writeOutputBytes X.sign_cases hsignature)

/-- The paths of the files that the export writes. -/
def Written (w : List Name) : Prop :=
  (∃ j, w = [chunksDir, chunkName j]) ∨ w = [checksumsFile] ∨ w = [chunkConfigFile] ∨
    ∃ a ∈ scaffoldingNames, w = [a]

/-- Apart from these the bundle is as staged. -/
theorem sameAt_of_not_written (h : ∀ w, Written w → ¬ q <+: w) : SameAt X.staged X.bundle q := by
  have hscaffold : ∀ a ∈ scaffoldingNames, ¬ q <+: [a] := fun a ha =>
    h _ (.inr (.inr (.inr ⟨a, ha, rfl⟩)))
  have hchunked := X.sameAt_chunked (q := q) (fun j => h _ (.inl ⟨j, rfl⟩))
    (h _ (.inr (.inl rfl))) (h _ (.inr (.inr (.inl rfl))))
  exact (hchunked.trans (X.sameAt_prepared hscaffold)).trans
    (X.sameAt_bundle (hscaffold manifestFile (by simp [scaffoldingNames]))
      (hscaffold signatureFile (by simp [scaffoldingNames])))

/-- Below names that the export does not write the bundle is as staged. -/
theorem sameAt_staged {a : Name} (h : a ∉ chunkingNames) (h' : a ∉ scaffoldingNames) :
    SameAt X.staged X.bundle (a :: q) := by
  apply X.sameAt_of_not_written
  rintro w (⟨j, rfl⟩ | rfl | rfl | ⟨b, hb, rfl⟩)
  · exact not_prefix_of_ne fun heq => h (heq ▸ by simp [chunkingNames])
  · exact not_prefix_of_ne fun heq => h (heq ▸ by simp [chunkingNames])
  · exact not_prefix_of_ne fun heq => h (heq ▸ by simp [chunkingNames])
  · exact not_prefix_of_ne fun heq => h' (heq ▸ hb)

/-- No name that the export writes has a backslash. -/
theorem unslashed_of_written {w : List Name} (h : Written w) : Unslashed w := by
  rcases h with ⟨j, rfl⟩ | rfl | rfl | ⟨a, ha, rfl⟩
  · have hdir := unslashed_names chunksDir (by simp [chunkingNames])
    have hsuffix : '\\' ∉ ".bin".toList := by decide
    rw [Unslashed, forall_mem_cons, forall_mem_singleton]
    refine ⟨hdir, fun hmem => ?_⟩
    rcases mem_append.mp hmem with hmem | hmem
    · cases isDigit_of_mem_fiveDigits hmem
    · exact hsuffix hmem
  · rw [Unslashed, forall_mem_singleton]
    exact unslashed_names _ (by simp [chunkingNames])
  · rw [Unslashed, forall_mem_singleton]
    exact unslashed_names _ (by simp [chunkingNames])
  · rw [Unslashed, forall_mem_singleton]
    exact unslashed_names a (mem_append_right _ ha)

/-- A file whose path has a backslash is a staged one. -/
theorem sameAt_of_backslash (h : ¬ Unslashed q) : SameAt X.staged X.bundle q :=
  X.sameAt_of_not_written fun _ hw hpre =>
    h fun a ha => unslashed_of_written hw a (hpre.subset ha)

theorem get?_database : X.bundle.get? [databaseFile] = some X.database := by
  obtain ⟨hchunking, hscaffolding⟩ := notMem_written databaseFile (by simp)
  rw [(X.sameAt_staged hchunking hscaffolding).file, X.has_database]

/-- The chunks of the bundle are the database. -/
theorem get?_chunks {m : ChunkManifest} (hm : X.chunkManifest = some m) :
    ∃ chunks : List Bytes, m.chunkCount = chunks.length ∧ chunks.length ≤ X.database.length ∧
      chunks.flatten = X.database ∧ ∀ j (hj : j < chunks.length),
        X.bundle.get? [chunksDir, chunkName j] = some chunks[j] := by
  rcases X.chunked_cases with ⟨_, hnone, _⟩ |
    ⟨m', chunks, t₁, lines, t₂, hm', hcount, hle, hflatten, hw, hw', hw''⟩
  · rw [hnone] at hm
    cases hm
  · rw [hm', Option.some.injEq] at hm
    rw [hm] at hcount
    refine ⟨chunks, hcount, hle, hflatten, ?_⟩
    intro j hj
    have hwritten := (writeChunks_spec hw).2 j hj
    rw [Nat.zero_add] at hwritten
    have hne {a : Name} (ha : a ∈ scaffoldingNames) : chunksDir ≠ a :=
      (ne_of_mem_of_not_mem ha chunksDir_apart.1).symm
    have hmanifest := hne (a := manifestFile) (by simp [scaffoldingNames])
    have hsignature := hne (a := signatureFile) (by simp [scaffoldingNames])
    rw [(X.sameAt_bundle (not_prefix_of_ne hmanifest) (not_prefix_of_ne hsignature)).file,
      (X.sameAt_prepared fun b hb => not_prefix_of_ne (hne hb)).file,
      (sameAt_writeOutputBytes hw'' (not_prefix_of_ne chunksDir_apart.2.1)).file,
      (sameAt_writeOutputBytes hw' (not_prefix_of_ne chunksDir_apart.2.2)).file, hwritten]

/-! ### The manifest -/

theorem get?_buildManifest {input : ExportInput} {chunkManifest : Option ChunkManifest}
    {database : Bytes} {viewerSri : List (Text × Text)} {files : List (Text × Json)} {key : Text}
    (hkey : key ∈ ["database".toList, "viewer".toList, "files".toList]) :
    (sortJsonKeys (buildManifest C input chunkManifest database viewerSri files)).get? key =
      (Assoc.get? key
        [("database".toList, databaseSection C input chunkManifest database),
         ("viewer".toList, viewerSection input viewerSri),
         ("files".toList, .obj files)]).map sortJsonKeys := by
  rw [buildManifest, get?_sortJsonKeys, Assoc.get?_append,
    Assoc.get?_eq_none.mpr (input.sections_other key hkey), Option.none_or]
  rw [map_append, nodup_append]
  refine ⟨input.sections_distinct, ?_, ?_⟩
  · show ["database".toList, "viewer".toList, "files".toList].Nodup
    decide
  · intro k hk k' hk' heq
    exact input.sections_other k' hk' (heq ▸ hk)

/-- The stages that the manifest's sections come from. -/
theorem manifest_sections :
    ∃ files, hashBundleFiles C X.outside X.prepared = .ok files ∧
      X.manifest.get? "files".toList = some (sortJsonKeys (.obj files)) ∧
      X.manifest.get? "database".toList =
        some (sortJsonKeys (databaseSection C X.input X.chunkManifest X.database)) ∧
      X.manifest.get? "viewer".toList =
        some (sortJsonKeys (viewerSection X.input (computeViewerSri C X.outside X.chunked))) := by
  obtain ⟨t₁, t₂, t₃, t₄, files, _, _, _, _, _, hfiles, hmanifest⟩ := X.scaffold_cases
  refine ⟨files, hfiles, ?_, ?_, ?_⟩
  all_goals
    rw [hmanifest, get?_buildManifest (by simp)]
    rfl

theorem nodup_databaseKeys : ["path".toList, "size_bytes".toList, "sha256".toList,
    "chunked".toList, "chunk_manifest".toList, "fts_enabled".toList].Nodup := by
  decide

theorem nodup_chunkKeys : ["version".toList, "chunk_size".toList, "chunk_count".toList,
    "pattern".toList, "original_bytes".toList, "threshold_bytes".toList].Nodup := by
  decide

theorem database_fields :
    ∃ database, X.manifest.get? "database".toList = some database ∧
      database.strField "sha256".toList = some (hexSha256 C X.database) ∧
      (database.get? "chunked".toList).bind Json.asBool = some X.chunkManifest.isSome ∧
      database.strField "path".toList = some databaseFile.val ∧
      database.get? "chunk_manifest".toList =
        some (sortJsonKeys ((X.chunkManifest.map ChunkManifest.toValue).getD .null)) := by
  obtain ⟨files, _, _, hdatabase, _⟩ := X.manifest_sections
  refine ⟨_, hdatabase, ?_, ?_, ?_, ?_⟩
  · rw [Json.strField, databaseSection, get?_sortJsonKeys (by exact nodup_databaseKeys)]
    rfl
  · rw [databaseSection, get?_sortJsonKeys (by exact nodup_databaseKeys)]
    rfl
  · rw [Json.strField, databaseSection, get?_sortJsonKeys (by exact nodup_databaseKeys)]
    rfl
  · rw [databaseSection, get?_sortJsonKeys (by exact nodup_databaseKeys)]
    rfl

theorem chunkCount_field {m : ChunkManifest} (hm : X.chunkManifest = some m) :
    ((sortJsonKeys ((X.chunkManifest.map ChunkManifest.toValue).getD .null)).get?
      "chunk_count".toList).bind Json.asU64 = some m.chunkCount := by
  obtain ⟨chunks, hcount, hle, _, _⟩ := X.get?_chunks hm
  have hlt := X.database_lt
  rw [hm, Option.map_some, Option.getD_some, ChunkManifest.toValue]
  rw [get?_sortJsonKeys (by exact nodup_chunkKeys),
    (Assoc.get?_eq_some (v := .int m.chunkCount) (by exact nodup_chunkKeys)).mpr (by simp),
    Option.map_some, Option.bind_some, sortJsonKeys, Json.asU64, if_pos (by omega),
    Int.toNat_natCast]

/-! ### Listed files -/

theorem ne_nil_of_get? {t : Staging} {p : List Name} {b : Bytes} (h : t.get? p = some b) :
    p ≠ [] := by
  rintro rfl
  rw [FileTree.get?_nil] at h
  cases h

/-- The path of a file that is hashed is not one of the two files written after the hashes. -/
theorem sameAt_of_hashed {p : List Name} (hp : p ≠ []) (h : pathText p ∉ unhashedBundleFiles) :
    SameAt X.prepared X.bundle p := by
  have hnot : ∀ a : Name, a.val ∈ unhashedBundleFiles → ¬ p <+: [a] := by
    intro a ha hpre
    obtain ⟨b, q, rfl⟩ := exists_cons_of_ne_nil hp
    rw [cons_prefix_cons, prefix_nil] at hpre
    obtain ⟨rfl, rfl⟩ := hpre
    rw [pathText_singleton] at h
    exact h ha
  exact X.sameAt_bundle (hnot manifestFile (by decide)) (hnot signatureFile (by decide))

theorem listedFiles :
    ∃ files listed, hashBundleFiles C X.outside X.prepared = .ok files ∧
      (files.map (·.1)).Nodup ∧ X.manifest.get? "files".toList = some (.obj listed) ∧
      ∀ e, e ∈ listed ↔ ∃ k data, e = (k, .str (hexSha256 C data)) ∧
        k ∈ collectEntries X.prepared ∧ k ∉ unhashedBundleFiles ∧
        readAt X.outside X.prepared k = some data := by
  obtain ⟨files, hfiles, hmanifest, _, _⟩ := X.manifest_sections
  obtain ⟨hin, hout, hnodup⟩ := hashLoop_spec hfiles
  have hkeys := hnodup nodup_nil
  refine ⟨files, _, hfiles, hkeys, by rw [hmanifest, sortJsonKeys_obj], ?_⟩
  intro e
  rw [mem_sortJsonKeys (sortJsonKeys_obj files)]
  constructor
  · rintro ⟨⟨k, v⟩, hf, rfl⟩
    have hget := (Assoc.get?_eq_some hkeys).mpr hf
    have hhashed : k ∈ collectEntries X.prepared ∧ k ∉ unhashedBundleFiles := by
      by_contra hnot
      rw [not_and_or, not_not] at hnot
      rw [hout k hnot] at hget
      cases hget
    obtain ⟨data, hread, hdata⟩ := hin k hhashed.1 hhashed.2
    rw [hget, Option.some.injEq] at hdata
    rw [hdata]
    exact ⟨k, data, rfl, hhashed.1, hhashed.2, hread⟩
  · rintro ⟨k, data, rfl, hk, hhashed, hread⟩
    obtain ⟨data', hread', hget⟩ := hin k hk hhashed
    rw [hread, Option.some.injEq] at hread'
    rw [← hread'] at hget
    exact ⟨_, (Assoc.get?_eq_some hkeys).mp hget, rfl⟩

theorem mem_collectEntries {t : Staging} {k : Text} :
    k ∈ collectEntries t ↔ ∃ p b, t.get? p = some b ∧ k = slashed (pathText p) := by
  rw [collectEntries, mem_map]
  constructor
  · rintro ⟨⟨p, b⟩, hf, rfl⟩
    exact ⟨p, b, FileTree.get?_eq_some.mpr hf, rfl⟩
  · rintro ⟨p, b, hget, rfl⟩
    exact ⟨(p, b), FileTree.get?_eq_some.mp hget, rfl⟩

variable {listed : List (Text × Json)}

section

variable (hlisted : X.manifest.get? "files".toList = some (.obj listed))
include hlisted

/-- Every file whose names are written as they are is listed with its hash. -/
theorem listed_of_file
    {p : List Name} {b : Bytes} (hget : X.bundle.get? p = some b) (hp : Unslashed p)
    (h : pathText p ∉ unhashedBundleFiles) : (pathText p, .str (hexSha256 C b)) ∈ listed := by
  obtain ⟨files, listed', _, _, hmanifest, hmem⟩ := X.listedFiles
  rw [hlisted, Option.some.injEq, Json.obj.injEq] at hmanifest
  rw [hmanifest, hmem]
  rw [(X.sameAt_of_hashed (ne_nil_of_get? hget) h).file] at hget
  refine ⟨_, b, rfl, ?_, h, readAt_pathText hget⟩
  rw [mem_collectEntries]
  exact ⟨p, b, hget, (slashed_of_notMem (backslash_notMem_pathText hp)).symm⟩

/-- What is listed is a file, if no name has a backslash. -/
theorem file_of_listed
    (hplain : ∀ p b, X.bundle.get? p = some b → Unslashed p) {e : Text × Json} (he : e ∈ listed) :
    ∃ p b, X.bundle.get? p = some b ∧ e = (pathText p, .str (hexSha256 C b)) := by
  obtain ⟨files, listed', _, _, hmanifest, hmem⟩ := X.listedFiles
  rw [hlisted, Option.some.injEq, Json.obj.injEq] at hmanifest
  rw [hmanifest, hmem] at he
  obtain ⟨k, data, rfl, hk, hhashed, hread⟩ := he
  obtain ⟨p, b, hget, rfl⟩ := mem_collectEntries.mp hk
  have hunhashed : ∀ k ∈ unhashedBundleFiles, slashed k = k := by
    unfold unhashedBundleFiles
    simp (disch := rfl) only [toList_lit]
    decide
  have hpath : pathText p ∉ unhashedBundleFiles := fun hmem =>
    hhashed ((hunhashed _ hmem).symm ▸ hmem)
  have hbundle : X.bundle.get? p = some b := by
    rw [(X.sameAt_of_hashed (ne_nil_of_get? hget) hpath).file, hget]
  have hslashed := slashed_of_notMem (backslash_notMem_pathText (hplain p b hbundle))
  rw [hslashed] at hread ⊢
  rw [readAt_pathText hget, Option.some.injEq] at hread
  exact ⟨p, b, hbundle, by rw [hread]⟩

theorem unslashed_of_listed
    {e : Text × Json} (he : e ∈ listed) : '\\' ∉ e.1 := by
  obtain ⟨files, listed', _, _, hmanifest, hmem⟩ := X.listedFiles
  rw [hlisted, Option.some.injEq, Json.obj.injEq] at hmanifest
  rw [hmanifest, hmem] at he
  obtain ⟨k, data, rfl, hk, _, _⟩ := he
  obtain ⟨p, b, _, rfl⟩ := mem_collectEntries.mp hk
  exact backslash_notMem_slashed _

end

/-! ### Vendored scripts -/

theorem mem_vendorEntries {t : Staging} {k : Text} :
    k ∈ vendorEntries t ↔ ∃ rest b, rest ≠ [] ∧
      t.get? (viewerDir :: vendorDir :: rest) = some b ∧ k = slashed (pathText rest) := by
  rw [vendorEntries, mem_filterMap]
  constructor
  · rintro ⟨⟨p, b⟩, hf, h⟩
    match p, h with
    | x :: y :: z :: rest, h =>
      dsimp only at h
      split at h
      · next hdirs =>
        obtain ⟨rfl, rfl⟩ := hdirs
        exact ⟨z :: rest, b, cons_ne_nil _ _, FileTree.get?_eq_some.mpr hf,
          (Option.some.inj h).symm⟩
      · cases h
  · rintro ⟨rest, b, hrest, hget, rfl⟩
    obtain ⟨z, rest, rfl⟩ := exists_cons_of_ne_nil hrest
    exact ⟨_, FileTree.get?_eq_some.mp hget, if_pos ⟨rfl, rfl⟩⟩

theorem vendor_append {rest : List Name} (h : rest ≠ []) :
    "vendor/".toList ++ pathText rest = pathText (vendorDir :: rest) := by
  obtain ⟨a, rest, rfl⟩ := exists_cons_of_ne_nil h
  rw [pathText_cons]
  rfl

theorem viewer_append {rest : List Name} (h : rest ≠ []) :
    "viewer/".toList ++ pathText rest = pathText (viewerDir :: rest) := by
  obtain ⟨a, rest, rfl⟩ := exists_cons_of_ne_nil h
  rw [pathText_cons]
  rfl

theorem vendorPath_pathText {rest : List Name} (h : rest ≠ []) :
    vendorPath (pathText rest) = pathText (viewerDir :: vendorDir :: rest) := by
  have hsplit : "viewer/vendor/".toList = "viewer/".toList ++ "vendor/".toList := by decide
  rw [← viewer_append (cons_ne_nil _ _), ← vendor_append h]
  obtain ⟨a, rest, rfl⟩ := exists_cons_of_ne_nil h
  rw [vendorPath, if_neg head?_pathText, hsplit, append_assoc]

theorem get?_sri {input : ExportInput} {data : Text × Json} (h : input.viewerData = some data)
    (viewerSri : List (Text × Text)) :
    (sortJsonKeys (viewerSection input viewerSri)).get? "sri".toList =
      some (sortJsonKeys (.obj (viewerSri.map fun e => (e.1, .str e.2)))) := by
  have hsri : ["messages".toList, "meta_info".toList, "sri".toList].Nodup := by decide
  rw [viewerSection, h]
  dsimp only
  rw [get?_sortJsonKeys (by exact hsri), (Assoc.get?_eq_some (by exact hsri)).mpr]
  · rfl
  · simp

theorem sriMap :
    (X.input.viewerData = none ∧ sriMapOf X.manifest = none) ∨ X.input.viewerData.isSome = true ∧
        ∃ listed, sriMapOf X.manifest = some listed ∧
          ∀ e, e ∈ listed ↔ ∃ relative ∈ vendorEntries X.chunked, ∃ data,
            e = ("vendor/".toList ++ relative, .str (sriText C data)) ∧
              readAt X.outside X.chunked (vendorPath relative) = some data := by
  obtain ⟨_, _, _, _, hviewer⟩ := X.manifest_sections
  rw [sriMapOf, hviewer, Option.bind_some]
  cases hdata : X.input.viewerData with
  | none =>
    left
    rw [viewerSection, hdata]
    exact ⟨rfl, rfl⟩
  | some data =>
    right
    obtain ⟨hget, hkeys⟩ := @foldl_addSri X.chunked C X.outside
      (vendorEntries X.chunked)
    rw [get?_sri hdata, Option.bind_some, sortJsonKeys_obj, asObject]
    refine ⟨rfl, _, rfl, ?_⟩
    intro e
    rw [mem_sortJsonKeys (sortJsonKeys_obj _)]
    constructor
    · rintro ⟨f, hf, rfl⟩
      obtain ⟨⟨k, v⟩, hkv, rfl⟩ := mem_map.mp hf
      obtain ⟨relative, hrel, data, hk, hread, hv⟩ :=
        (hget k v).mp ((Assoc.get?_eq_some hkeys).mpr hkv)
      refine ⟨relative, hrel, data, ?_, hread⟩
      rw [hk, hv, sortJsonKeys]
    · rintro ⟨relative, hrel, data, rfl, hread⟩
      have hkv := (Assoc.get?_eq_some hkeys).mp
        ((hget _ _).mpr ⟨relative, hrel, data, rfl, hread, rfl⟩)
      exact ⟨_, mem_map_of_mem hkv, rfl⟩

/-- No key of the scripts has a backslash. -/
theorem unslashed_of_sri (hlisted : sriMapOf X.manifest = some listed) {e : Text × Json}
    (he : e ∈ listed) : '\\' ∉ e.1 := by
  rcases X.sriMap with ⟨_, hnone⟩ | ⟨_, listed', hsome, hmem⟩
  · rw [hnone] at hlisted
    cases hlisted
  · rw [hlisted, Option.some.injEq] at hsome
    rw [hsome, hmem] at he
    obtain ⟨relative, hrel, data, rfl, _⟩ := he
    obtain ⟨rest, b, _, _, rfl⟩ := mem_vendorEntries.mp hrel
    have hlabel : '\\' ∉ "vendor/".toList := by decide
    exact fun hmem => (mem_append.mp hmem).elim hlabel (backslash_notMem_slashed _)

/-- If no name has a backslash, the scripts are the staged files under `viewer/vendor`. -/
theorem mem_sri (hlisted : sriMapOf X.manifest = some listed)
    (hplain : ∀ p b, X.staged.get? p = some b → Unslashed p) (e : Text × Json) :
    e ∈ listed ↔ ∃ rest b, rest ≠ [] ∧ X.staged.get? (viewerDir :: vendorDir :: rest) = some b ∧
      e = (pathText (vendorDir :: rest), .str (sriText C b)) := by
  have hchunked : ∀ rest, X.chunked.get? (viewerDir :: vendorDir :: rest) =
      X.staged.get? (viewerDir :: vendorDir :: rest) := by
    intro rest
    have hnot := (notMem_written viewerDir (by simp)).1
    simp only [chunkingNames, mem_cons, not_mem_nil, or_false, not_or] at hnot
    exact (X.sameAt_chunked (fun _ => not_prefix_of_ne hnot.1) (not_prefix_of_ne hnot.2.1)
      (not_prefix_of_ne hnot.2.2)).file
  have hslashed : ∀ rest b, X.staged.get? (viewerDir :: vendorDir :: rest) = some b →
      slashed (pathText rest) = pathText rest := by
    intro rest b hget
    apply slashed_of_notMem (backslash_notMem_pathText _)
    exact fun a ha => hplain _ b hget a (mem_cons_of_mem _ (mem_cons_of_mem _ ha))
  rcases X.sriMap with ⟨_, hnone⟩ | ⟨_, listed', hsome, hmem⟩
  · rw [hnone] at hlisted
    cases hlisted
  · rw [hlisted, Option.some.injEq] at hsome
    rw [hsome, hmem]
    constructor
    · rintro ⟨relative, hrel, data, rfl, hread⟩
      obtain ⟨rest, b, hrest, hget, rfl⟩ := mem_vendorEntries.mp hrel
      rw [hchunked] at hget
      rw [hslashed rest b hget, vendorPath_pathText hrest,
        readAt_pathText ((hchunked rest).trans hget), Option.some.injEq] at hread
      exact ⟨rest, b, hrest, hget, by rw [hslashed rest b hget, vendor_append hrest, hread]⟩
    · rintro ⟨rest, b, hrest, hget, rfl⟩
      refine ⟨pathText rest, ?_, b, by rw [vendor_append hrest], ?_⟩
      · rw [mem_vendorEntries]
        exact ⟨rest, b, hrest, (hchunked rest).trans hget, (hslashed rest b hget).symm⟩
      · rw [vendorPath_pathText hrest, readAt_pathText ((hchunked rest).trans hget)]

end SignedExport

end AgentMail.Share
