import AgentMail.Lib.Loop
import AgentMail.Registration.ProofGate

/-!
# What the registration proof gate accepts

`Ed25519TrustAnchorVerifier::verify` and `enforce_with_config`
(`crates/mcp-agent-mail-tools/src/proof_gate.rs:178–391, 465–495`), with the arithmetic of a release
build: `+` and `-` on `i64` wrap there. The JSON reader, base64 and Ed25519 are parameters.
-/

namespace AgentMail.Registration

open Base Lib Artifact

structure ProofBundle where
  claims : ProofClaims
  publicKey : Text
  signature : Text

structure RegistrationRequest where
  agentName : Text
  projectKey : Text
  program : Text
  model : Text
  grantedCapabilities : List Text
  proof : Option Text

structure ProofGateConfig where
  enabled : Bool
  trustedKeys : List Text
  maxLifetimeSeconds : Nat
  clockSkewSeconds : Nat
  requireNonce : Bool

/-- What the verifier takes from other crates. -/
structure ProofCrypto where
  /-- `serde_json::from_str` into a bundle; an error has a text. -/
  parseBundle : Text → Except Text ProofBundle
  /-- The standard engine of base64. -/
  decode : Text → Option (List UInt8)
  encode : List UInt8 → Text
  /-- `VerifyingKey::from_bytes` succeeds. -/
  isVerifyingKey : List UInt8 → Bool
  /-- `verify_strict` of key, message and signature succeeds. -/
  verifyStrict : List UInt8 → Text → List UInt8 → Bool

structure NonceConsume where
  issuerKey : Text
  nonce : Text
  retainUntil : Int

/-- `Verdict::Deny`. -/
structure Denial where
  code : Text
  message : Text
  detail : Json

/-- `Verdict`: a denial, or the nonce to record. -/
abbrev Verdict : Type := Except Denial (Option NonceConsume)

/-- `a - b` on `i64`, which wraps. -/
def wrappingSub (a b : I64) : Int := (a.1 - b.1).bmod (2 ^ 64)

/-- `i64::try_from(n).unwrap_or(i64::MAX)`. -/
def i64OfU64 (n : Nat) : Int := if (n : Int) ≤ i64Max then n else i64Max

def ProofGateConfig.maxLifetime (cfg : ProofGateConfig) : Int := i64OfU64 cfg.maxLifetimeSeconds

def ProofGateConfig.skew (cfg : ProofGateConfig) : Int := i64OfU64 cfg.clockSkewSeconds

def deny (code : String) (message : Text) (detail : List (String × Json)) : Denial :=
  ⟨code.toList, message, .obj (detail.map fun field => (field.1.toList, field.2))⟩

/-- `let Some(x) = x else { return deny(..) }`. -/
def orDeny {α : Type} (x : Option α) (denial : Denial) : Except Denial α :=
  match x with
  | none => .error denial
  | some a => .ok a

/-- `if failed { return deny(..) }`. -/
def denyIf (failed : Bool) (denial : Denial) : Except Denial Unit :=
  if failed then .error denial else .ok ()

/-- `missing.join(", ")`. -/
def joinComma (parts : List Text) : Text := ", ".toList.intercalate parts

section

variable (V : ProofCrypto) (cfg : ProofGateConfig)

def b64DecodeFixed (n : Nat) (input : Text) : Option (List UInt8) :=
  (V.decode (trim input)).filter fun bytes => bytes.length == n

def isTrusted (key : List UInt8) : Bool :=
  (cfg.trustedKeys.filterMap (b64DecodeFixed V 32)).any (· == key)

/-- `Ed25519TrustAnchorVerifier::verify`. -/
def verify (bundleJson : Text) (request : RegistrationRequest) (nowUnix : I64) : Verdict := do
  let bundle ← (V.parseBundle bundleJson).mapError fun e =>
    deny "PROOF_MALFORMED" ("registration_proof is not a valid proof bundle: ".toList ++ e)
      [("stage", .str "parse".toList)]
  let pkBytes ← orDeny (b64DecodeFixed V 32 bundle.publicKey) <| deny "PROOF_MALFORMED"
    "public_key must be base64 (standard) of exactly 32 bytes".toList
    [("stage", .str "decode_public_key".toList)]
  let sigBytes ← orDeny (b64DecodeFixed V 64 bundle.signature) <| deny "PROOF_MALFORMED"
    "signature must be base64 (standard) of exactly 64 bytes".toList
    [("stage", .str "decode_signature".toList)]
  denyIf (!isTrusted V cfg pkBytes) <| deny "PROOF_UNTRUSTED_KEY"
    "registration_proof was signed by a key that is not a configured trust anchor".toList
    [("public_key", .str bundle.publicKey)]
  denyIf (!V.isVerifyingKey pkBytes) <| deny "PROOF_MALFORMED"
    "public_key is not a valid Ed25519 verifying key".toList
    [("stage", .str "verifying_key".toList)]
  let claims := bundle.claims
  denyIf (!V.verifyStrict pkBytes (canonicalMessage claims) sigBytes) <| deny "PROOF_BAD_SIGNATURE"
    "registration_proof signature did not verify against the trusted key".toList
    [("public_key", .str bundle.publicKey)]
  denyIf (decide (claims.expiresAt ≤ claims.issuedAt)) <| deny "PROOF_MALFORMED"
    "expires_at must be strictly greater than issued_at".toList
    [("issued_at", .int claims.issuedAt), ("expires_at", .int claims.expiresAt)]
  let lifetime := wrappingSub claims.expiresAt claims.issuedAt
  denyIf (decide (cfg.maxLifetime < lifetime)) <| deny "PROOF_LIFETIME_TOO_LONG"
    ("proof lifetime ".toList ++ intText lifetime ++ "s exceeds configured maximum ".toList ++
      intText cfg.maxLifetime ++ "s (AM_REGISTRATION_PROOF_MAX_LIFETIME_SECONDS)".toList)
    [("lifetime_seconds", .int lifetime), ("max_lifetime_seconds", .int cfg.maxLifetime)]
  denyIf (decide (nowUnix.1 < saturatingSub claims.issuedAt cfg.skew)) <| deny "PROOF_NOT_YET_VALID"
    "registration_proof issued_at is in the future beyond the allowed clock skew".toList
    [("issued_at", .int claims.issuedAt), ("now", .int nowUnix),
      ("clock_skew_seconds", .int cfg.skew)]
  denyIf (decide (saturatingAdd claims.expiresAt cfg.skew < nowUnix.1)) <| deny "PROOF_EXPIRED"
    "registration_proof has expired".toList
    [("expires_at", .int claims.expiresAt), ("now", .int nowUnix),
      ("clock_skew_seconds", .int cfg.skew)]
  denyIf (!eqIgnoreAsciiCase (trim claims.identity) (trim request.agentName)) <|
    deny "PROOF_IDENTITY_MISMATCH"
      ("registration_proof binds identity '".toList ++ claims.identity ++
        "' but registration is for '".toList ++ request.agentName ++
        ("'. When the proof gate is enabled you must register the exact name the proof " ++
          "authorizes (do not omit `name` to auto-generate).").toList)
      [("proof_identity", .str claims.identity), ("requested_identity", .str request.agentName)]
  denyIf (trim claims.projectKey != trim request.projectKey) <| deny "PROOF_PROJECT_MISMATCH"
    ("registration_proof binds project_key '".toList ++ claims.projectKey ++
      "' but registration targets '".toList ++ request.projectKey ++ "'".toList)
    [("proof_project_key", .str claims.projectKey),
      ("requested_project_key", .str request.projectKey)]
  denyIf (trim claims.program != trim request.program || trim claims.model != trim request.model) <|
    deny "PROOF_BINDING_MISMATCH"
      ("registration_proof binds program/model '".toList ++ claims.program ++ "'/'".toList ++
        claims.model ++ "' but registration uses '".toList ++ request.program ++ "'/'".toList ++
        request.model ++ "'".toList)
      [("proof_program", .str claims.program), ("proof_model", .str claims.model),
        ("requested_program", .str request.program), ("requested_model", .str request.model)]
  let missing := request.grantedCapabilities.filter fun granted =>
    !claims.capabilities.any fun authorized => trim authorized == granted
  denyIf (!missing.isEmpty) <| deny "PROOF_SCOPE_MISMATCH"
    ("registration would grant capabilities not authorized by the proof: ".toList ++
      joinComma missing)
    [("missing_capabilities", .arr (missing.map .str)),
      ("proof_capabilities", .arr (claims.capabilities.map .str))]
  denyIf (cfg.requireNonce && (trim claims.nonce).isEmpty) <| deny "PROOF_MALFORMED"
    "nonce is required when AM_REGISTRATION_PROOF_REQUIRE_NONCE is enabled".toList
    [("stage", .str "nonce".toList)]
  return if cfg.requireNonce then
    some ⟨V.encode pkBytes, trim claims.nonce, saturatingAdd claims.expiresAt cfg.skew⟩
  else none

/-! ### What an accepted proof passes -/

/-- Every check of a bundle but the one of its lifetime, on the integers. -/
structure PassesOthers (bundle : ProofBundle) (pkBytes sigBytes : List UInt8)
    (request : RegistrationRequest) (nowUnix : I64) : Prop where
  publicKey : b64DecodeFixed V 32 bundle.publicKey = some pkBytes
  signature : b64DecodeFixed V 64 bundle.signature = some sigBytes
  trusted : ∃ anchor ∈ cfg.trustedKeys, b64DecodeFixed V 32 anchor = some pkBytes
  verifyingKey : V.isVerifyingKey pkBytes = true
  signed : V.verifyStrict pkBytes (canonicalMessage bundle.claims) sigBytes = true
  ordered : 0 < bundle.claims.expiresAt.1 - bundle.claims.issuedAt.1
  started : bundle.claims.issuedAt.1 - cfg.skew ≤ nowUnix.1
  unexpired : nowUnix.1 ≤ bundle.claims.expiresAt.1 + cfg.skew
  identity : eqIgnoreAsciiCase (trim bundle.claims.identity) (trim request.agentName) = true
  project : trim bundle.claims.projectKey = trim request.projectKey
  program : trim bundle.claims.program = trim request.program
  model : trim bundle.claims.model = trim request.model
  capabilities : ∀ granted ∈ request.grantedCapabilities,
    ∃ authorized ∈ bundle.claims.capabilities, trim authorized = granted
  nonce : cfg.requireNonce = true → trim bundle.claims.nonce ≠ []

end

section

variable {V : ProofCrypto} {cfg : ProofGateConfig}

@[simp] theorem denyIf_eq_ok {failed : Bool} {denial : Denial} {u : Unit} :
    denyIf failed denial = .ok u ↔ failed = false := by
  cases failed <;> simp [denyIf]

theorem i64OfU64_nonneg (n : Nat) : 0 ≤ i64OfU64 n := by
  unfold i64OfU64
  split
  · exact Int.natCast_nonneg n
  · decide

theorem i64OfU64_le (n : Nat) : i64OfU64 n ≤ i64Max := by
  unfold i64OfU64
  split
  · assumption
  · exact Int.le_refl _

/-- The saturated bounds of the window are its bounds. -/
theorem saturatingSub_le_iff (a now : I64) {skew : Int} (hskew : 0 ≤ skew) :
    saturatingSub a skew ≤ now.1 ↔ a.1 - skew ≤ now.1 := by
  have ha := a.2
  have hnow := now.2
  rw [saturatingSub, clampI64]
  omega

theorem le_saturatingAdd_iff (a now : I64) {skew : Int} (hskew : 0 ≤ skew) :
    now.1 ≤ saturatingAdd a skew ↔ now.1 ≤ a.1 + skew := by
  have ha := a.2
  have hnow := now.2
  rw [saturatingAdd, clampI64]
  omega

theorem isTrusted_iff {key : List UInt8} : isTrusted V cfg key = true ↔
    ∃ anchor ∈ cfg.trustedKeys, b64DecodeFixed V 32 anchor = some key := by
  rw [isTrusted, List.any_eq_true]
  simp only [List.mem_filterMap, beq_iff_eq]
  constructor
  · rintro ⟨_, hanchor, rfl⟩
    exact hanchor
  · intro hanchor
    exact ⟨key, hanchor, rfl⟩

/-- The record of an accepted nonce. -/
def consumeOf (V : ProofCrypto) (cfg : ProofGateConfig) (bundle : ProofBundle)
    (pkBytes : List UInt8) : Option NonceConsume :=
  if cfg.requireNonce then
    some ⟨V.encode pkBytes, trim bundle.claims.nonce,
      saturatingAdd bundle.claims.expiresAt cfg.skew⟩
  else none

theorem mapError_eq_ok {ε ε' α : Type} {f : ε → ε'} {x : Except ε α} {a : α} :
    x.mapError f = .ok a ↔ x = .ok a := by
  cases x <;> simp [Except.mapError]

@[simp] theorem orDeny_eq_ok {α : Type} {x : Option α} {denial : Denial} {a : α} :
    orDeny x denial = .ok a ↔ x = some a := by
  cases x <;> simp [orDeny]

theorem authorized_iff {granted authorized : List Text} :
    (granted.filter fun g => !authorized.any fun a => trim a == g).isEmpty = true ↔
      ∀ g ∈ granted, ∃ a ∈ authorized, trim a = g := by
  simp [List.filter_eq_nil_iff]

theorem nonce_named_iff {nonce : Text} : (cfg.requireNonce && nonce.isEmpty) = false ↔
    (cfg.requireNonce = true → nonce ≠ []) := by
  cases cfg.requireNonce <;> simp

/-- A proof is accepted when it passes every check and its lifetime, as the code computes it, is
short enough. -/
theorem verify_eq_ok_iff {bundleJson : Text} {request : RegistrationRequest} {nowUnix : I64}
    {consume : Option NonceConsume} :
    verify V cfg bundleJson request nowUnix = .ok consume ↔
      ∃ bundle pkBytes sigBytes, V.parseBundle bundleJson = .ok bundle ∧
        PassesOthers V cfg bundle pkBytes sigBytes request nowUnix ∧
        wrappingSub bundle.claims.expiresAt bundle.claims.issuedAt ≤ cfg.maxLifetime ∧
        consume = consumeOf V cfg bundle pkBytes := by
  have hskew : 0 ≤ cfg.skew := i64OfU64_nonneg _
  unfold verify
  simp only [bind, bind_eq_ok, mapError_eq_ok, orDeny_eq_ok, denyIf_eq_ok, pure, Except.pure,
    Except.ok.injEq, exists_const, Bool.not_eq_false', decide_eq_false_iff_not, not_lt, not_le,
    bne_eq_false_iff_eq, Bool.or_eq_false_iff, isTrusted_iff, authorized_iff, nonce_named_iff,
    saturatingSub_le_iff _ _ hskew, le_saturatingAdd_iff _ _ hskew]
  constructor
  · rintro ⟨bundle, hparse, pkBytes, hkey, sigBytes, hsig, htrusted, hvalid, hsigned, hordered,
      hlifetime, hstarted, hunexpired, hidentity, hproject, ⟨hprogram, hmodel⟩, hcaps, hnonce, rfl⟩
    have hpos : 0 < bundle.claims.expiresAt.1 - bundle.claims.issuedAt.1 := Int.sub_pos.mpr hordered
    exact ⟨bundle, pkBytes, sigBytes, hparse, ⟨hkey, hsig, htrusted, hvalid, hsigned, hpos, hstarted,
      hunexpired, hidentity, hproject, hprogram, hmodel, hcaps, hnonce⟩, hlifetime, rfl⟩
  · rintro ⟨bundle, pkBytes, sigBytes, hparse, h, hlifetime, rfl⟩
    have hordered : bundle.claims.issuedAt < bundle.claims.expiresAt := Int.sub_pos.mp h.ordered
    exact ⟨bundle, hparse, pkBytes, h.publicKey, sigBytes, h.signature, h.trusted, h.verifyingKey,
      h.signed, hordered, hlifetime, h.started, h.unexpired, h.identity, h.project,
      ⟨h.program, h.model⟩, h.capabilities, h.nonce, rfl⟩

/-! ### The lifetime -/

/-- The difference wraps below zero from `2 ^ 63` on. -/
theorem wrappingSub_of_lt {a b : I64} (hpos : 0 < a.1 - b.1) :
    wrappingSub a b = if a.1 - b.1 ≤ i64Max then a.1 - b.1 else a.1 - b.1 - 2 ^ 64 := by
  have ha := a.2
  have hb := b.2
  unfold wrappingSub
  unfold i64Min i64Max at *
  split
  · rw [Int.bmod_eq_of_le] <;> omega
  · rw [Int.bmod_eq_iff (by decide)]
    refine ⟨?_, ?_, ?_⟩ <;> omega

/-- What the gate says of a proof that it accepts. -/
structure StatesItsChecks (V : ProofCrypto) (cfg : ProofGateConfig) (bundleJson : Text)
    (request : RegistrationRequest) (nowUnix : I64) (consume : Option NonceConsume)
    (bundle : ProofBundle) (pkBytes sigBytes : List UInt8) : Prop where
  parsed : V.parseBundle bundleJson = .ok bundle
  others : PassesOthers V cfg bundle pkBytes sigBytes request nowUnix
  lifetime : bundle.claims.expiresAt.1 - bundle.claims.issuedAt.1 ≤ cfg.maxLifetime
  recorded : cfg.requireNonce = true → ∃ record, consume = some record ∧ record.nonce ≠ [] ∧
    record.issuerKey = V.encode pkBytes ∧ ∀ request' now' consume',
      verify V cfg bundleJson request' now' = .ok consume' → now'.1 ≤ record.retainUntil

/-- Accepted proofs are as stated exactly where the lifetime of a proof that passes the other checks
does not overflow. -/
theorem verify_states_iff (V : ProofCrypto) (cfg : ProofGateConfig) (bundleJson : Text)
    (request : RegistrationRequest) (nowUnix : I64) :
    (∀ consume, verify V cfg bundleJson request nowUnix = .ok consume →
      ∃ bundle pkBytes sigBytes, StatesItsChecks V cfg bundleJson request nowUnix consume bundle
        pkBytes sigBytes) ↔ ∀ bundle pkBytes sigBytes, V.parseBundle bundleJson = .ok bundle →
      PassesOthers V cfg bundle pkBytes sigBytes request nowUnix →
      bundle.claims.expiresAt.1 - bundle.claims.issuedAt.1 ≤ i64Max := by
  have hskew : 0 ≤ cfg.skew := i64OfU64_nonneg _
  constructor
  · intro hstates bundle pkBytes sigBytes hparse hothers
    by_contra hover
    have hlifetime : wrappingSub bundle.claims.expiresAt bundle.claims.issuedAt ≤
        cfg.maxLifetime := by
      have hmax : 0 ≤ cfg.maxLifetime := i64OfU64_nonneg _
      have he := bundle.claims.expiresAt.2
      have hi := bundle.claims.issuedAt.2
      rw [wrappingSub_of_lt hothers.ordered, if_neg hover]
      unfold i64Min i64Max at he hi
      omega
    obtain ⟨bundle', _, _, h⟩ := hstates _
      (verify_eq_ok_iff.mpr ⟨bundle, pkBytes, sigBytes, hparse, hothers, hlifetime, rfl⟩)
    have hsame : bundle = bundle' := Except.ok.inj (hparse.symm.trans h.parsed)
    have hbound := h.lifetime
    rw [← hsame] at hbound
    exact hover (hbound.trans (i64OfU64_le _))
  · intro hfits consume hallow
    obtain ⟨bundle, pkBytes, sigBytes, hparse, hothers, hlifetime, rfl⟩ := verify_eq_ok_iff.mp hallow
    rw [wrappingSub_of_lt hothers.ordered, if_pos (hfits _ _ _ hparse hothers)] at hlifetime
    refine ⟨bundle, pkBytes, sigBytes, hparse, hothers, hlifetime, ?_⟩
    intro hrequired
    rw [consumeOf, if_pos hrequired]
    refine ⟨_, rfl, hothers.nonce hrequired, rfl, ?_⟩
    intro request' now' consume' hlater
    obtain ⟨bundle', _, _, hparse', hothers', -⟩ := verify_eq_ok_iff.mp hlater
    have hsame : bundle = bundle' := Except.ok.inj (hparse.symm.trans hparse')
    rw [hsame]
    exact (le_saturatingAdd_iff _ now' hskew).mpr hothers'.unexpired

end

/-! ### A proof for all times -/

/-- The claims of a proof whose lifetime is longer than an `i64` holds. -/
def endlessClaims : ProofClaims where
  identity := "BlueLake".toList
  projectKey := "/work".toList
  program := "codex".toList
  model := "o3".toList
  capabilities := []
  issuedAt := ⟨i64Min, isI64_min⟩
  expiresAt := ⟨i64Max, isI64_max⟩
  nonce := "n1".toList

def issuerText : Text := "BwcHBwcHBwcHBwcHBwcHBwcHBwcHBwcHBwcHBwcHBwc=".toList

def signatureText : Text :=
  ("CAgICAgICAgICAgICAgICAgICAgICAgICAgICAgICAgICAgICAgICAgICAgI" ++
    "CAgICAgICAgICAgICAgICAgICA==").toList

/-- Base64 and signatures on the texts of one bundle that a trusted issuer has signed. -/
def endlessCrypto : ProofCrypto where
  parseBundle _ := .ok ⟨endlessClaims, issuerText, signatureText⟩
  decode t :=
    if t = issuerText then some (List.replicate 32 7)
    else if t = signatureText then some (List.replicate 64 8)
    else none
  encode _ := issuerText
  isVerifyingKey key := key == List.replicate 32 7
  verifyStrict key message signature := key == List.replicate 32 7 &&
    message == canonicalMessage endlessClaims && signature == List.replicate 64 8

def endlessGate : ProofGateConfig := ⟨true, [issuerText], 300, 60, true⟩

def endlessRequest : RegistrationRequest :=
  ⟨"BlueLake".toList, "/work".toList, "codex".toList, "o3".toList, [], some "bundle".toList⟩

theorem endless_decode (t : Text) : endlessCrypto.decode t =
    if t = issuerText then some (List.replicate 32 7)
    else if t = signatureText then some (List.replicate 64 8) else none := rfl

theorem issuerText_decoded : b64DecodeFixed endlessCrypto 32 issuerText =
    some (List.replicate 32 7) := by
  have htrim : trim issuerText = issuerText := by
    unfold issuerText
    rw [toList_lit rfl]
    decide
  rw [b64DecodeFixed, htrim, endless_decode, if_pos rfl]
  rfl

theorem signatureText_decoded : b64DecodeFixed endlessCrypto 64 signatureText =
    some (List.replicate 64 8) := by
  have htrim : trim signatureText = signatureText ∧ signatureText ≠ issuerText := by
    unfold signatureText issuerText
    rw [String.toList_append]
    simp (disch := rfl) only [toList_lit]
    decide
  rw [b64DecodeFixed, htrim.1, endless_decode, if_neg htrim.2, if_pos rfl]
  rfl

theorem endless_verifyStrict (key : List UInt8) (message : Text) (signature : List UInt8) :
    endlessCrypto.verifyStrict key message signature = (key == List.replicate 32 7 &&
      message == canonicalMessage endlessClaims && signature == List.replicate 64 8) := rfl

theorem endless_passes : PassesOthers endlessCrypto endlessGate
    ⟨endlessClaims, issuerText, signatureText⟩ (List.replicate 32 7) (List.replicate 64 8)
    endlessRequest ⟨0, by decide⟩ where
  publicKey := issuerText_decoded
  signature := signatureText_decoded
  trusted := ⟨issuerText, List.mem_singleton_self _, issuerText_decoded⟩
  verifyingKey := beq_self_eq_true (List.replicate 32 (7 : UInt8))
  signed := by
    rw [endless_verifyStrict, beq_self_eq_true, beq_self_eq_true, beq_self_eq_true]
    rfl
  ordered := by decide
  started := by decide
  unexpired := by decide
  identity := beq_self_eq_true _
  project := rfl
  program := rfl
  model := rfl
  capabilities _ h := absurd h List.not_mem_nil
  nonce _ := by decide

/-- It is accepted with a maximum of 300 seconds. -/
theorem endless_accepted :
    ¬ ∀ consume, verify endlessCrypto endlessGate "bundle".toList endlessRequest ⟨0, by decide⟩ =
        .ok consume →
      ∃ bundle pkBytes sigBytes, StatesItsChecks endlessCrypto endlessGate "bundle".toList
        endlessRequest ⟨0, by decide⟩ consume bundle pkBytes sigBytes := by
  intro hstates
  obtain ⟨bundle, _, _, h⟩ := hstates _ (verify_eq_ok_iff.mpr ⟨_, _, _, rfl, endless_passes,
    by decide, rfl⟩)
  have hsame : ⟨endlessClaims, issuerText, signatureText⟩ = bundle := Except.ok.inj h.parsed
  have hlifetime := h.lifetime
  rw [← hsame] at hlifetime
  exact absurd hlifetime (by decide)

end AgentMail.Registration
