import AgentMail.Doctor.RunManifest
import AgentMail.Lib.Table

/-!
# Sealed runs are not downgraded

A verdict that lets a recorded run be replayed is about the artifacts that were sealed: either the
manifest carries a MAC of them, or the ledger has their digests.

A record that returns `Ok` behind a torn line is merged with it and forgotten, and then a run without
its manifest passes for one that was never sealed. The histories without such a record are those of
`KeepLines`.
-/

namespace AgentMail.Doctor

open Base Lib
open List hiding Vector

/-! ### What the digests determine -/

variable {runId : Text}

section

variable {C : Crates}

theorem length_sha256Text (bytes : Bytes) : (sha256Text C bytes).length = 71 := by
  have hlabel : "sha256:".toList.length = 7 := by decide
  unfold sha256Text
  generalize "sha256:".toList = label at hlabel ⊢
  rw [length_append, length_hexEncode, Vector.length_toList, hlabel]

theorem length_utf8_sha256Text (bytes : Bytes) : (utf8 (sha256Text C bytes)).length = 71 := by
  have hlabel : ∀ c ∈ "sha256:".toList, c.utf8Size = 1 := by decide
  have hsize : ∀ c ∈ sha256Text C bytes, c.utf8Size = 1 := by
    intro c hc
    rcases mem_append.mp hc with hc | hc
    · exact hlabel c hc
    · exact utf8Size_hexEncode c hc
  rw [length_utf8, byteLen_eq_length hsize, length_sha256Text]

theorem sha256_of_text {x y : Bytes} (h : sha256Text C x = sha256Text C y) :
    C.sha256 x = C.sha256 y :=
  Vector.toList_inj.mp (hexEncode_injective (append_cancel_left h))

theorem length_field (bytes : Bytes) : (field bytes).length = 8 + bytes.length := by
  rw [field, length_append, length_leBytes]

theorem field_append {x y r s : Bytes} (hlength : x.length = y.length)
    (h : field x ++ r = field y ++ s) : x = y ∧ r = s := by
  rw [field, field, hlength, append_assoc, append_assoc, append_cancel_left_eq] at h
  exact append_inj h hlength

/-- The digests have one length, so the message is what it was made of. -/
theorem canonicalMessage_injective {runId' : Text} {actions actions' root root' : Bytes}
    (h : canonicalMessage runId (sha256Text C actions) (sha256Text C root) =
      canonicalMessage runId' (sha256Text C actions') (sha256Text C root')) :
    runId = runId' ∧ C.sha256 actions = C.sha256 actions' ∧ C.sha256 root = C.sha256 root' := by
  have hsize : ∀ x y : Bytes, (utf8 (sha256Text C x)).length = (utf8 (sha256Text C y)).length := by
    intro x y
    rw [length_utf8_sha256Text, length_utf8_sha256Text]
  have hlength : (utf8 runId).length = (utf8 runId').length := by
    have htotal := congrArg List.length h
    simp only [canonicalMessage, length_append, length_field, length_utf8_sha256Text] at htotal
    omega
  simp only [canonicalMessage, append_assoc, append_cancel_left_eq] at h
  obtain ⟨hrun, hdigests⟩ := field_append hlength h
  obtain ⟨hactions, hroot⟩ := field_append (hsize _ _) hdigests
  have hroot' := field_append (r := []) (s := []) (hsize _ _) (by simpa using hroot)
  exact ⟨utf8_injective hrun, sha256_of_text (utf8_injective hactions),
    sha256_of_text (utf8_injective hroot'.1)⟩

/-- What the root hash takes of an entry. -/
def entryDigest (C : Crates) (e : BackupEntry) : Bytes × UInt8 × Vector UInt8 32 :=
  (e.rel, e.item.kind, C.sha256 e.item.payload)

theorem entryBytes_append {e e' : BackupEntry} {r s : Bytes} (he : e.rel.length < 256 ^ 8)
    (he' : e'.rel.length < 256 ^ 8) (h : entryBytes C e ++ r = entryBytes C e' ++ s) :
    entryDigest C e = entryDigest C e' ∧ r = s := by
  simp only [entryBytes, append_assoc] at h
  obtain ⟨hlength, h⟩ := append_inj h (by rw [length_leBytes, length_leBytes])
  have hrels := leBytes_injective he he' hlength
  obtain ⟨hrel, h⟩ := append_inj h hrels
  rw [singleton_append, singleton_append, List.cons.injEq] at h
  obtain ⟨hkind, h⟩ := h
  obtain ⟨hdigest, hrest⟩ := append_inj h (by rw [Vector.length_toList, Vector.length_toList])
  exact ⟨by rw [entryDigest, entryDigest, hrel, hkind, Vector.toList_inj.mp hdigest], hrest⟩

theorem flatMap_entryBytes {l l' : List BackupEntry} (hl : ∀ e ∈ l, e.rel.length < 256 ^ 8)
    (hl' : ∀ e ∈ l', e.rel.length < 256 ^ 8) (hlength : l.length = l'.length)
    (h : l.flatMap (entryBytes C) = l'.flatMap (entryBytes C)) :
    l.map (entryDigest C) = l'.map (entryDigest C) := by
  induction l generalizing l' with
  | nil =>
    cases l' with
    | nil => rfl
    | cons e' l' => cases hlength
  | cons e l ih =>
    cases l' with
    | nil => cases hlength
    | cons e' l' =>
      rw [flatMap_cons, flatMap_cons] at h
      rw [forall_mem_cons] at hl hl'
      obtain ⟨hdigest, hrest⟩ := entryBytes_append hl.1 hl'.1 h
      rw [map_cons, map_cons, hdigest, ih hl.2 hl'.2 (Nat.succ.inj hlength) hrest]

theorem sortedEntries_perm (backups : Backups) :
    (sortedEntries backups).Perm backups.entries := perm_insertionSort _ _

theorem mem_sortedEntries {backups : Backups} {e : BackupEntry} :
    e ∈ sortedEntries backups ↔ e ∈ backups.entries := (sortedEntries_perm backups).mem_iff

theorem rootBytes_digests {backups backups' : Backups}
    (h : rootBytes C backups = rootBytes C backups') :
    (sortedEntries backups).map (entryDigest C) = (sortedEntries backups').map (entryDigest C) := by
  have hcount : ∀ b : Backups, (sortedEntries b).length < 256 ^ 8 := by
    intro b
    rw [(sortedEntries_perm b).length_eq]
    exact b.count_lt
  simp only [rootBytes, append_assoc, append_cancel_left_eq] at h
  obtain ⟨hlength, hentries⟩ := append_inj h (by rw [length_leBytes, length_leBytes])
  exact flatMap_entryBytes (fun e he => backups.rel_lt e (mem_sortedEntries.mp he))
    (fun e he => backups'.rel_lt e (mem_sortedEntries.mp he))
    (leBytes_injective (hcount _) (hcount _) hlength) hentries

end

/-! ### No collisions, no forgeries -/

/-- SHA-256 tells these texts apart. -/
def NoCollision (C : Crates) (texts : List Bytes) : Prop :=
  ∀ x ∈ texts, ∀ y ∈ texts, C.sha256 x = C.sha256 y → x = y

/-- The texts that are hashed for the artifacts of a run. -/
def hashedTexts (C : Crates) (actions : Bytes) (backups : Backups) : List Bytes :=
  actions :: rootBytes C backups :: backups.entries.map fun e => e.item.payload

def Seal.hashed (C : Crates) (s : Seal) : List Bytes := hashedTexts C s.actions s.backups

def RunDir.hashed (C : Crates) (dir : RunDir) : List Bytes :=
  match dir.actions, dir.backups with
  | .ok actions, .ok backups => hashedTexts C actions backups
  | _, _ => []

/-- The message of a run's artifacts. -/
def messageOf (C : Crates) (runId : Text) (actions : Bytes) (backups : Backups) : Bytes :=
  canonicalMessage runId (sha256Text C actions) (backupsRootHash C backups)

/-- A MAC in the directory that is right for its artifacts was made for the message of a seal. -/
def Unforged (C : Crates) (key : Bytes) (seals : List Seal) (dir : RunDir) (runId : Text) : Prop :=
  ∀ content manifest actions backups, dir.manifest = .bytes content →
    C.parseManifest content = .ok manifest → dir.actions = .ok actions → dir.backups = .ok backups →
    hexDecode manifest.hmacSha256 =
      some (hmacSha256 C key (messageOf C runId actions backups)).toList →
    ∃ s ∈ seals, messageOf C runId actions backups = messageOf C s.runId s.actions s.backups

/-- The directory has the artifacts of the seal. -/
def Seal.Matches (s : Seal) (dir : RunDir) : Prop :=
  dir.actions = .ok s.actions ∧ ∃ backups, dir.backups = .ok backups ∧
    backups.item? = s.backups.item?

section

variable {C : Crates}

theorem item_ext {i i' : BackupItem} (hkind : i.kind = i'.kind) (hpayload : i.payload = i'.payload) :
    i = i' := by
  cases i <;> cases i' <;> first | rfl | (cases hkind; done) | exact congrArg _ hpayload

/-- Backups with one root hash are the same. -/
theorem item?_of_rootBytes {backups backups' : Backups} {texts : List Bytes}
    (hC : NoCollision C texts) (hmem : ∀ e ∈ backups.entries, e.item.payload ∈ texts)
    (hmem' : ∀ e ∈ backups'.entries, e.item.payload ∈ texts)
    (h : rootBytes C backups = rootBytes C backups') : backups.item? = backups'.item? := by
  have hinj : ∀ e ∈ sortedEntries backups, ∀ e' ∈ sortedEntries backups',
      entryDigest C e = entryDigest C e' → e = e' := by
    intro e he e' he' heq
    rw [entryDigest, entryDigest, Prod.mk.injEq, Prod.mk.injEq] at heq
    obtain ⟨hrel, hkind, hdigest⟩ := heq
    have hpayload := hC _ (hmem e (mem_sortedEntries.mp he)) _
      (hmem' e' (mem_sortedEntries.mp he')) hdigest
    cases e
    cases e'
    rw [BackupEntry.mk.injEq]
    exact ⟨hrel, item_ext hkind hpayload⟩
  have hsorted := eq_of_map_eq hinj (rootBytes_digests h)
  have hperm : backups.entries.Perm backups'.entries :=
    (sortedEntries_perm backups).symm.trans (hsorted ▸ sortedEntries_perm backups')
  funext rel
  rw [Backups.item?, Backups.item?, find?_perm hperm]
  intro e he e' he' hrel hrel'
  exact inj_on_of_nodup_map backups.distinct he he'
    ((beq_iff_eq.mp hrel).trans (beq_iff_eq.mp hrel').symm)

variable {dir : RunDir}

/-- Artifacts with the digests of a seal are those of the seal. -/
theorem matches_of_digests {s : Seal} {actions : Bytes} {backups : Backups} {texts : List Bytes}
    (hC : NoCollision C texts) (hdir : ∀ x ∈ dir.hashed C, x ∈ texts)
    (hs : ∀ x ∈ s.hashed C, x ∈ texts) (hactions : dir.actions = .ok actions)
    (hbackups : dir.backups = .ok backups) (heqActions : C.sha256 actions = C.sha256 s.actions)
    (heqRoot : C.sha256 (rootBytes C backups) = C.sha256 (rootBytes C s.backups)) :
    s.Matches dir := by
  have hhashed : dir.hashed C = hashedTexts C actions backups := by
    rw [RunDir.hashed, hactions, hbackups]
  rw [hhashed, hashedTexts, forall_mem_cons, forall_mem_cons] at hdir
  rw [Seal.hashed, hashedTexts, forall_mem_cons, forall_mem_cons] at hs
  obtain ⟨hmemActions, hmemRoot, hmemItems⟩ := hdir
  obtain ⟨hsealActions, hsealRoot, hsealItems⟩ := hs
  constructor
  · rw [hactions, hC _ hmemActions _ hsealActions heqActions]
  · refine ⟨backups, hbackups, ?_⟩
    exact item?_of_rootBytes hC (fun e he => hmemItems _ (mem_map_of_mem he))
      (fun e he => hsealItems _ (mem_map_of_mem he)) (hC _ hmemRoot _ hsealRoot heqRoot)

theorem ctEq_foldl (l : List (UInt8 × UInt8)) (diff : UInt8) :
    l.foldl (fun diff p => diff ||| (p.1 ^^^ p.2)) diff = 0 ↔ diff = 0 ∧ ∀ p ∈ l, p.1 = p.2 := by
  induction l generalizing diff with
  | nil => simp
  | cons p l ih =>
    rw [foldl_cons, ih, UInt8.or_eq_zero_iff, UInt8.xor_eq_zero_iff, forall_mem_cons, and_assoc]

/-- The comparison in constant time is the comparison. -/
theorem eq_of_ctEq {a b : Bytes} (h : ctEq a b = true) : a = b := by
  unfold ctEq at h
  split at h
  · cases h
  · next hlength =>
    rw [not_not] at hlength
    rw [beq_iff_eq, ctEq_foldl] at h
    apply ext_getElem hlength
    intro i hi hi'
    have hmem : (a[i], b[i]) ∈ a.zip b := by
      rw [← getElem_zip (h := by rw [length_zip]; omega)]
      exact getElem_mem _
    exact h.2 _ hmem

/-! ### Verdicts -/

/-- A verified manifest has the right MAC on the digests of the directory. -/
theorem verifyArtifacts_eq_verified {key : Bytes} {manifest : RunManifest}
    (h : verifyArtifacts C dir runId key manifest = .verified) :
    ∃ actions backups, dir.actions = .ok actions ∧ dir.backups = .ok backups ∧
      hexDecode manifest.hmacSha256 =
        some (hmacSha256 C key (messageOf C runId actions backups)).toList := by
  unfold verifyArtifacts at h
  cases hactions : dir.actions with
  | error e =>
    rw [hactions] at h
    cases h
  | ok actions =>
    rw [hactions] at h
    dsimp only at h
    split at h
    · cases h
    · cases hbackups : dir.backups with
      | error e =>
        rw [hbackups] at h
        cases h
      | ok backups =>
        rw [hbackups] at h
        dsimp only at h
        split at h
        · cases h
        · cases hstored : hexDecode manifest.hmacSha256 with
          | none =>
            rw [hstored] at h
            cases h
          | some stored =>
            rw [hstored] at h
            dsimp only at h
            split at h
            · next hct => exact ⟨actions, backups, rfl, rfl, congrArg some (eq_of_ctEq hct).symm⟩
            · cases h

/-- What the disk alone can say in favour of a replay. -/
theorem verifyRunManifest_allows {key : Option Bytes}
    (h : verifyRunManifest C dir runId key = .verified) :
    ∃ k content manifest, key = some k ∧ dir.manifest = .bytes content ∧
      C.parseManifest content = .ok manifest ∧
      verifyArtifacts C dir runId k manifest = .verified := by
  unfold verifyRunManifest at h
  cases hmanifest : dir.manifest with
  | bytes content =>
    rw [hmanifest] at h
    dsimp only at h
    cases hparse : C.parseManifest content with
    | error e =>
      rw [hparse] at h
      cases h
    | ok manifest =>
      rw [hparse] at h
      dsimp only at h
      split at h
      · cases h
      · split at h
        · cases h
        · cases key with
          | none => cases h
          | some k => exact ⟨k, content, manifest, rfl, rfl, hparse, h⟩
  | notFound | statError | symlink | unreadable =>
    rw [hmanifest] at h
    cases h

/-- The ledger's word is about the digests of its entry. -/
theorem ledgerKeylessVerify_allows {entry : LedgerEntry}
    (h : (ledgerKeylessVerify C dir runId entry).allowsReplay false = true) :
    ∃ actions backups, dir.actions = .ok actions ∧ dir.backups = .ok backups ∧
      sha256Text C actions = entry.actionsSha256 ∧
      backupsRootHash C backups = entry.backupsRootSha256 := by
  unfold ledgerKeylessVerify at h
  cases hactions : dir.actions with
  | error e =>
    rw [hactions] at h
    cases h
  | ok actions =>
    rw [hactions] at h
    dsimp only at h
    split at h
    · cases h
    · next heqActions =>
      cases hbackups : dir.backups with
      | error e =>
        rw [hbackups] at h
        cases h
      | ok backups =>
        rw [hbackups] at h
        dsimp only at h
        split at h
        · cases h
        · next heqRoot =>
          exact ⟨actions, backups, rfl, rfl, not_not.mp heqActions, not_not.mp heqRoot⟩

/-- With an entry in the ledger, a replay needs a verified manifest or matching digests. -/
theorem reconcileWithLedger_allows {diskVerdict : ManifestVerdict} {entry : LedgerEntry}
    (h : (reconcileWithLedger C dir runId diskVerdict (some entry)).allowsReplay false = true) :
    diskVerdict = .verified ∨
      (ledgerKeylessVerify C dir runId entry).allowsReplay false = true := by
  cases diskVerdict with
  | verified => exact .inl rfl
  | keyUnavailable detail => exact .inr h
  | absent | malformed | tampered | ledgerMismatch => cases h

end

/-- The entry of a run which was sealed. -/
def IsSealed (C : Crates) (seals : List Seal) (entry : LedgerEntry) : Prop :=
  ∃ s ∈ seals, ∃ key repo nowUs, entry = ledgerEntryOf (computeManifest C s key) repo nowUs

/-- As long as records start lines of their own, the runs recorded last are known by their last
successful records, and what may be replayed of them is what was sealed. -/
theorem sealed_not_downgraded (S : EntryCodec) (calls : List RecordCall)
    (hS : S.Reliable (calls.map RecordCall.entry)) (hlines : KeepLines S none calls)
    (runId : Text) (hrecent : runId ∈ recentRuns calls) :
    (∃ e ∈ recorded calls, e.runId = runId ∧ lastRecord calls runId = some e ∧
      lookupRunInLedgerAt S (ledgerAfter S calls) runId = some e) ∧
    ∀ (C : Crates) (seals : List Seal) (dir : RunDir) (key : Option Bytes),
      (∀ e ∈ recorded calls, IsSealed C seals e) →
      NoCollision C (dir.hashed C ++ seals.flatMap (Seal.hashed C)) →
      (∀ k, key = some k → Unforged C k seals dir runId) →
      (reconcileWithLedger C dir runId (verifyRunManifest C dir runId key)
        (lookupRunInLedgerAt S (ledgerAfter S calls) runId)).allowsReplay false = true →
      ∃ s ∈ seals, s.runId = runId ∧ s.Matches dir := by
  obtain ⟨e, hlast, hmem, hid⟩ := exists_lastRecord hrecent
  have hlookup := (lookup_eq_lastRecord hS (fun call hcall => mem_map_of_mem hcall) hlines
    hrecent).trans hlast
  refine ⟨⟨e, hmem, hid, hlast, hlookup⟩, ?_⟩
  intro C seals dir key hseals hC hunforged hallows
  have hdir : ∀ x ∈ dir.hashed C, x ∈ dir.hashed C ++ seals.flatMap (Seal.hashed C) :=
    fun x hx => mem_append_left _ hx
  have hseal : ∀ s ∈ seals, ∀ x ∈ s.hashed C, x ∈ dir.hashed C ++ seals.flatMap (Seal.hashed C) :=
    fun s hs x hx => mem_append_right _ (mem_flatMap.mpr ⟨s, hs, hx⟩)
  rw [hlookup] at hallows
  rcases reconcileWithLedger_allows hallows with hverified | hledger
  · -- The manifest has the right MAC.
    obtain ⟨k, content, manifest, hkey, hmanifest, hparse, hartifacts⟩ :=
      verifyRunManifest_allows hverified
    obtain ⟨actions, backups, hactions, hbackups, hmac⟩ := verifyArtifacts_eq_verified hartifacts
    obtain ⟨s, hs, hmessage⟩ :=
      hunforged k hkey content manifest actions backups hmanifest hparse hactions hbackups hmac
    obtain ⟨hrun, heqActions, heqRoot⟩ := canonicalMessage_injective hmessage
    exact ⟨s, hs, hrun.symm,
      matches_of_digests hC hdir (hseal s hs) hactions hbackups heqActions heqRoot⟩
  · -- The ledger has the digests.
    obtain ⟨actions, backups, hactions, hbackups, heqActions, heqRoot⟩ :=
      ledgerKeylessVerify_allows hledger
    obtain ⟨s, hs, k, repo, nowUs, rfl⟩ := hseals e hmem
    exact ⟨s, hs, hid, matches_of_digests hC hdir (hseal s hs) hactions hbackups
      (sha256_of_text heqActions) (sha256_of_text heqRoot)⟩

/-! ### A sample -/

def sampleActions : Bytes := utf8 "x\n".toList

def sampleBackups : Backups where
  entries := [⟨utf8 "a".toList, .file (utf8 "o".toList)⟩]
  distinct := by simp
  count_lt := by decide
  rel_lt := by decide

def sampleSeal : Seal := ⟨"run-1".toList, sampleActions, sampleBackups⟩

def sampleKey : Bytes := replicate 32 7

def actionsDigest : Vector UInt8 32 :=
  #v[115, 203, 56, 88, 166, 135, 168, 73, 76, 163, 50, 48, 83, 1, 98, 130,
    243, 218, 211, 157, 66, 207, 98, 202, 78, 121, 221, 162, 170, 199, 217, 172]

def contentDigest : Vector UInt8 32 :=
  #v[101, 199, 76, 21, 166, 134, 24, 123, 182, 187, 249, 149, 143, 73, 79, 198,
    184, 0, 104, 3, 74, 101, 154, 154, 212, 73, 145, 176, 140, 88, 242, 210]

def rootDigest : Vector UInt8 32 :=
  #v[194, 203, 139, 188, 7, 59, 111, 89, 98, 11, 223, 76, 172, 218, 126, 103,
    218, 155, 163, 36, 197, 94, 221, 240, 173, 182, 52, 246, 28, 137, 165, 227]

def innerDigest : Vector UInt8 32 :=
  #v[253, 153, 246, 20, 208, 212, 95, 69, 122, 96, 56, 49, 117, 144, 80, 73,
    27, 95, 116, 221, 72, 154, 176, 59, 58, 93, 79, 205, 136, 77, 192, 21]

def macDigest : Vector UInt8 32 :=
  #v[75, 177, 5, 107, 203, 210, 79, 252, 119, 255, 94, 104, 54, 68, 210, 3,
    55, 117, 117, 55, 15, 22, 93, 48, 131, 74, 68, 241, 244, 116, 211, 147]

def sampleRoot : Bytes :=
  utf8 "backups-root/v1".toList ++ leBytes 8 1 ++ leBytes 8 1 ++ utf8 "a".toList ++ [0] ++
    contentDigest.toList

def sampleMessage : Bytes :=
  canonicalMessage "run-1".toList ("sha256:".toList ++ hexEncode actionsDigest.toList)
    ("sha256:".toList ++ hexEncode rootDigest.toList)

def sampleSha256 (bytes : Bytes) : Vector UInt8 32 :=
  if bytes = sampleActions then actionsDigest
  else if bytes = utf8 "o".toList then contentDigest
  else if bytes = sampleRoot then rootDigest
  else if bytes = replicate 32 0x31 ++ replicate 32 0x36 ++ sampleMessage then innerDigest
  else if bytes = replicate 32 0x5b ++ replicate 32 0x5c ++ innerDigest.toList then
    macDigest
  else Vector.replicate 32 0

def sampleManifest : RunManifest where
  manifestVersion := 1
  runId := "run-1".toList
  actionsSha256 := "sha256:".toList ++ hexEncode actionsDigest.toList
  backupsRootSha256 := "sha256:".toList ++ hexEncode rootDigest.toList
  hmacSha256 := hexEncode macDigest.toList

/-- A JSON string, where nothing has to be escaped. -/
def jsonMember (name value : Text) : Text :=
  "\"".toList ++ name ++ "\":\"".toList ++ value ++ "\"".toList

def sampleMembers (runId actionsSha256 backupsRootSha256 hmacSha256 : Text) : Text :=
  jsonMember "run_id".toList runId ++ [','] ++ jsonMember "hmac_sha256".toList hmacSha256 ++ [','] ++
    jsonMember "actions_sha256".toList actionsSha256 ++ [','] ++
    jsonMember "backups_root_sha256".toList backupsRootSha256

def manifestText (m : RunManifest) : Text :=
  "\x7b\"manifest_version\":1,".toList ++
    sampleMembers m.runId m.actionsSha256 m.backupsRootSha256 m.hmacSha256 ++ ['\x7d']

def entryText (e : LedgerEntry) : Text :=
  ['\x7b'] ++ sampleMembers e.runId e.actionsSha256 e.backupsRootSha256 e.hmacSha256 ++ [','] ++
    jsonMember "repo".toList e.repo ++ ",\"sealed_at_us\":0".toList ++ ['\x7d']

def sampleCrates : Crates where
  sha256 := sampleSha256
  parseManifest content :=
    if content = utf8 (manifestText sampleManifest) then .ok sampleManifest
    else .error "expected value at line 1 column 1".toList
  debug t := ['"'] ++ t ++ ['"']

def sampleEntry : LedgerEntry := ledgerEntryOf sampleManifest [] 0

theorem sample_sealed : computeManifest sampleCrates sampleSeal sampleKey = sampleManifest := by
  unfold computeManifest sampleManifest sampleSeal canonicalMessage sha256Text backupsRootHash domain
    sampleBackups rootBytes sampleActions
  simp (disch := rfl) only [toList_lit]
  decide +kernel

def sampleCodec : EntryCodec where
  toVec e := utf8 (entryText e)
  fromSlice line := if line = utf8 (entryText sampleEntry) then some sampleEntry else none

def sampleDir : RunDir where
  manifest := .bytes (utf8 (manifestText sampleManifest))
  actions := .ok sampleActions
  backups := .ok sampleBackups

theorem sampleCrates_parseManifest (content : Bytes) : sampleCrates.parseManifest content =
    if content = utf8 (manifestText sampleManifest) then .ok sampleManifest
    else .error "expected value at line 1 column 1".toList := rfl

theorem sample_verified :
    verifyRunManifest sampleCrates sampleDir "run-1".toList (some sampleKey) = .verified := by
  have hartifacts : verifyArtifacts sampleCrates sampleDir "run-1".toList sampleKey sampleManifest =
      .verified := by
    unfold sampleManifest sampleDir verifyArtifacts canonicalMessage sha256Text backupsRootHash domain
      sampleBackups rootBytes sampleActions
    simp (disch := rfl) only [toList_lit]
    decide +kernel
  have hmanifest : sampleDir.manifest = .bytes (utf8 (manifestText sampleManifest)) := rfl
  have hversion : sampleManifest.manifestVersion = manifestVersion := rfl
  have hid : sampleManifest.runId = "run-1".toList := rfl
  rw [verifyRunManifest, hmanifest]
  dsimp only
  rw [sampleCrates_parseManifest, if_pos rfl]
  dsimp only
  rw [if_neg (not_not.mpr hversion), if_neg (not_not.mpr hid), hartifacts]

/-- Other actions, and no manifest. -/
def strippedDir : RunDir where
  manifest := .notFound
  actions := .ok (utf8 "y\n".toList)
  backups := .ok sampleBackups

theorem sampleCodec_toVec (e : LedgerEntry) : sampleCodec.toVec e = utf8 (entryText e) := rfl

theorem sampleCodec_fromSlice (line : Bytes) : sampleCodec.fromSlice line =
    if line = utf8 (entryText sampleEntry) then some sampleEntry else none := rfl

theorem sampleEntry_text : newline ∉ utf8 (entryText sampleEntry) ∧
    ∃ body, utf8 (entryText sampleEntry) = body ++ [0x7d] ∧ 0x7d ∉ body := by
  constructor
  · decide +kernel
  · exact ⟨(utf8 (entryText sampleEntry)).dropLast, by decide +kernel, by decide +kernel⟩

theorem sampleCodec_reliable : sampleCodec.Reliable [sampleEntry, sampleEntry] := by
  obtain ⟨hline, body, hbody, hbrace⟩ := sampleEntry_text
  have heq : ∀ e ∈ [sampleEntry, sampleEntry], e = sampleEntry := by simp
  constructor
  · intro e he
    rw [heq e he]
    exact hline
  · intro e he
    rw [heq e he, sampleCodec_toVec, sampleCodec_fromSlice, if_pos rfl]
  · intro pieces hpieces
    rw [sampleCodec_fromSlice]
    apply if_neg
    intro htext
    -- The brace that ends the text is in no part of it.
    have hmem : 0x7d ∈ pieces.flatten := by
      rw [htext, hbody]
      exact mem_append_right _ mem_cons_self
    obtain ⟨p, hp, hmem⟩ := mem_flatten.mp hmem
    obtain ⟨e, he, hpart, hne⟩ := hpieces p hp
    have htoVec : sampleCodec.toVec e = body ++ [0x7d] := by
      rw [heq e he]
      exact hbody
    rw [htoVec] at hpart hne
    rcases prefix_concat_iff.mp hpart with hwhole | hpart
    · exact hne hwhole
    · exact hbrace (hpart.mem hmem)

def sampleCalls : List RecordCall := [⟨sampleEntry, .returned⟩, ⟨sampleEntry, .stopped 5⟩]

theorem sampleDir_noCollision :
    NoCollision sampleCrates
      (sampleDir.hashed sampleCrates ++ [sampleSeal].flatMap (Seal.hashed sampleCrates)) := by
  unfold NoCollision
  decide +kernel

theorem sealed_not_downgraded_sample :
    (∃ e ∈ recorded sampleCalls, e.runId = "run-1".toList ∧
      lastRecord sampleCalls "run-1".toList = some e ∧
      lookupRunInLedgerAt sampleCodec (ledgerAfter sampleCodec sampleCalls) "run-1".toList =
        some e) ∧ ∃ s ∈ [sampleSeal], s.runId = "run-1".toList ∧ s.Matches sampleDir := by
  have hlines : KeepLines sampleCodec none sampleCalls := by
    have hshort : 5 < (utf8 (entryText sampleEntry)).length := by
      unfold entryText jsonMember sampleMembers
      simp (disch := rfl) only [toList_lit]
      decide +kernel
    exact ⟨.inl rfl, hshort, trivial⟩
  obtain ⟨hknown, hreplay⟩ := sealed_not_downgraded sampleCodec sampleCalls sampleCodec_reliable
    hlines "run-1".toList (by decide)
  refine ⟨hknown, hreplay sampleCrates [sampleSeal] sampleDir (some sampleKey) ?_
    sampleDir_noCollision ?_ ?_⟩
  · intro e he
    rw [show recorded sampleCalls = [sampleEntry] from rfl, mem_singleton] at he
    exact ⟨sampleSeal, mem_singleton_self _, sampleKey, [], 0, by rw [he, sample_sealed]; rfl⟩
  · intro k hk content manifest actions backups hmanifest hparse hactions hbackups hmac
    cases hactions
    cases hbackups
    exact ⟨sampleSeal, mem_singleton_self _, rfl⟩
  · obtain ⟨e, _, _, _, hlookup⟩ := hknown
    rw [hlookup, sample_verified]
    rfl

/-- A record behind a line that is torn after its first byte. -/
def tornCalls : List RecordCall := [⟨sampleEntry, .stopped 1⟩, ⟨sampleEntry, .returned⟩]

/-- The run is forgotten, and altered actions without a manifest may be replayed. -/
theorem torn_line_forgotten :
    sampleCodec.Reliable (tornCalls.map RecordCall.entry) ∧ "run-1".toList ∈ recentRuns tornCalls ∧
      lastRecord tornCalls "run-1".toList = some sampleEntry ∧
      lookupRunInLedgerAt sampleCodec (ledgerAfter sampleCodec tornCalls) "run-1".toList = none ∧
      (reconcileWithLedger sampleCrates strippedDir "run-1".toList
        (verifyRunManifest sampleCrates strippedDir "run-1".toList (some sampleKey))
        (lookupRunInLedgerAt sampleCodec (ledgerAfter sampleCodec tornCalls)
          "run-1".toList)).allowsReplay false = true ∧ ¬ sampleSeal.Matches strippedDir := by
  refine ⟨sampleCodec_reliable, by decide, rfl, by decide +kernel, by decide +kernel, ?_⟩
  intro h
  have hactions : utf8 "y\n".toList = sampleActions := Except.ok.inj h.1
  revert hactions
  decide

end AgentMail.Doctor
