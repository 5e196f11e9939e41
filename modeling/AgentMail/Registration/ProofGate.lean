import AgentMail.Base.Decimal
import AgentMail.Lib.PrefixCode
import Mathlib.Data.List.Sort

/-!
# Signing bytes of a registration proof

`canonical_message` (`crates/mcp-agent-mail-tools/src/proof_gate.rs:561–617`): the text that an
issuer signs. Every string comes after its own byte length and the capabilities after their number,
so what a value contains cannot be taken for what follows it.
-/

namespace AgentMail.Registration

open Base Lib Artifact List

/-! ### The message -/

structure ProofClaims where
  identity : Text
  projectKey : Text
  program : Text
  model : Text
  capabilities : List Text
  issuedAt : I64
  expiresAt : I64
  nonce : Text

def proofDomain : Text := "agent-mail-registration-proof:v2".toList

/-- `Vec::dedup`. -/
def dedup : List Text → List Text
  | [] => []
  | [a] => [a]
  | a :: b :: rest => if a = b then dedup (b :: rest) else a :: dedup (b :: rest)

/-- The capabilities that go into the message. -/
def canonicalCapabilities (capabilities : List Text) : List Text :=
  dedup (((capabilities.map trim).filter fun capability => !capability.isEmpty).insertionSort
    fun a b => textLe a b = true)

def appendSignedField (message : Text) (label : String) (value : Text) : Text :=
  message ++ label.toList ++ ['='] ++ natText (byteLen value) ++ [':'] ++ value ++ ['\n']

def canonicalMessage (claims : ProofClaims) : Text :=
  let caps := canonicalCapabilities claims.capabilities
  let message := proofDomain ++ ['\n']
  let message := [("identity", claims.identity), ("project_key", claims.projectKey),
    ("program", claims.program), ("model", claims.model)].foldl
      (fun message field => appendSignedField message field.1 field.2) message
  let message := message ++ "capabilities=".toList ++ natText caps.length ++ ['\n']
  let message := caps.foldl (fun message capability =>
    appendSignedField message "capability" capability) message
  let message := message ++ "issued_at=".toList ++ intText claims.issuedAt ++
    "\nexpires_at=".toList ++ intText claims.expiresAt ++ ['\n']
  appendSignedField message "nonce" claims.nonce

/-- The capabilities that the claims name. -/
def ProofClaims.named (claims : ProofClaims) : Set Text :=
  { capability | capability ≠ [] ∧ ∃ raw ∈ claims.capabilities, trim raw = capability }

/-! ### The capabilities -/

theorem mem_dedup {l : List Text} {a : Text} : a ∈ dedup l ↔ a ∈ l := by
  induction l using dedup.induct with
  | case1 => rfl
  | case2 => rfl
  | case3 b rest ih =>
    rw [dedup, if_pos rfl, ih]
    simp
  | case4 b c rest hbc ih =>
    rw [dedup, if_neg hbc, mem_cons, ih]
    exact mem_cons.symm

/-- Of a sorted list every element is left once. -/
theorem dedup_strict {l : List Text} (h : l.Pairwise fun a b => textLe a b = true) :
    (dedup l).Pairwise fun a b => textLe a b = true ∧ a ≠ b := by
  induction l using dedup.induct with
  | case1 => exact .nil
  | case2 a => exact pairwise_singleton _ _
  | case3 b rest ih =>
    rw [dedup, if_pos rfl]
    exact ih h.of_cons
  | case4 b c rest hbc ih =>
    rw [dedup, if_neg hbc, pairwise_cons]
    refine ⟨?_, ih h.of_cons⟩
    intro a ha
    rw [mem_dedup] at ha
    have hle := (pairwise_cons.mp h).1
    refine ⟨hle a ha, ?_⟩
    -- Whatever comes after `c` is at least `c`, which is above `b`.
    rintro rfl
    rcases mem_cons.mp ha with rfl | ha
    · exact hbc rfl
    · have hcb := (pairwise_cons.mp h.of_cons).1 b ha
      exact hbc (textLe_antisymm (hle c mem_cons_self) hcb)

theorem mem_canonicalCapabilities {claims : ProofClaims} {capability : Text} :
    capability ∈ canonicalCapabilities claims.capabilities ↔ capability ∈ claims.named := by
  rw [canonicalCapabilities, mem_dedup, mem_insertionSort, mem_filter, mem_map,
    ProofClaims.named, Set.mem_ofPred_eq, and_comm]
  simp

theorem canonicalCapabilities_strict (capabilities : List Text) :
    (canonicalCapabilities capabilities).Pairwise fun a b => textLe a b = true ∧ a ≠ b :=
  dedup_strict (pairwise_insertionSort _ _)

/-- The list of capabilities is their set. -/
theorem canonicalCapabilities_eq_iff {c d : ProofClaims} :
    canonicalCapabilities c.capabilities = canonicalCapabilities d.capabilities ↔
      c.named = d.named := by
  constructor
  · intro heq
    ext capability
    rw [← mem_canonicalCapabilities, heq, mem_canonicalCapabilities]
  · intro hnamed
    have hc := canonicalCapabilities_strict c.capabilities
    have hd := canonicalCapabilities_strict d.capabilities
    have hperm : (canonicalCapabilities c.capabilities).Perm
        (canonicalCapabilities d.capabilities) := by
      rw [perm_ext_iff_of_nodup (hc.imp fun h => h.2) (hd.imp fun h => h.2)]
      intro capability
      rw [mem_canonicalCapabilities, mem_canonicalCapabilities, hnamed]
    exact hperm.eq_of_pairwise (fun _ _ _ _ hab hba => textLe_antisymm hab.1 hba.1) hc hd

/-! ### The message is a code -/

theorem natText_code : PrefixCode fun n => natText n ++ [':'] := by
  apply PrefixCode.terminated
  · intro n hmem
    cases isDigit_of_mem_natText hmem
  · intro m n h
    exact natText_injective h

theorem natLine_code : PrefixCode fun n => natText n ++ ['\n'] := by
  apply PrefixCode.terminated
  · intro n hmem
    cases isDigit_of_mem_natText hmem
  · intro m n h
    exact natText_injective h

theorem intText_injective {m n : Int} (h : intText m = intText n) : m = n := by
  have hsign (k : Nat) (t : Text) : natText k ≠ '-' :: t := by
    intro heq
    have hmem : '-' ∈ natText k := by
      rw [heq]
      exact mem_cons_self
    cases isDigit_of_mem_natText hmem
  unfold intText at h
  by_cases hm : m < 0
  · rw [if_pos hm] at h
    by_cases hn : n < 0
    · rw [if_pos hn, List.cons.injEq] at h
      have := natText_injective h.2
      omega
    · rw [if_neg hn] at h
      exact absurd h.symm (hsign _ _)
  · rw [if_neg hm] at h
    by_cases hn : n < 0
    · rw [if_pos hn] at h
      exact absurd h (hsign _ _)
    · rw [if_neg hn] at h
      have := natText_injective h
      omega

theorem intLine_code : PrefixCode fun n : I64 => intText n ++ ['\n'] := by
  apply PrefixCode.terminated
  · intro n hmem
    unfold intText at hmem
    split at hmem
    · rcases mem_cons.mp hmem with hmem | hmem
      · cases hmem
      · cases isDigit_of_mem_natText hmem
    · cases isDigit_of_mem_natText hmem
  · intro m n h
    exact Subtype.ext (intText_injective h)

/-- What `append_signed_field` appends. -/
def signedField (label : String) (value : Text) : Text :=
  label.toList ++ ['='] ++ (natText (byteLen value) ++ [':'] ++ value ++ ['\n'])

theorem appendSignedField_eq (message : Text) (label : String) (value : Text) :
    appendSignedField message label value = message ++ signedField label value := by
  simp only [appendSignedField, signedField, append_assoc]

theorem signedField_code (label : String) : PrefixCode (signedField label) :=
  ((natText_code.sized fun c : Char => c.utf8Size_pos).closed ['\n']).literal
    (label.toList ++ ['='])

theorem foldl_appendSignedField (label : String) (values : List Text) (message : Text) :
    values.foldl (fun message value => appendSignedField message label value) message =
      message ++ values.flatMap (signedField label) := by
  induction values generalizing message with
  | nil => simp
  | cons value values ih =>
    rw [foldl_cons, ih, appendSignedField_eq, flatMap_cons, append_assoc]

/-- The fields of the message in their order. -/
def ProofClaims.fields (claims : ProofClaims) :
    Text × Text × Text × Text × List Text × I64 × I64 × Text :=
  (claims.identity, claims.projectKey, claims.program, claims.model,
    canonicalCapabilities claims.capabilities, claims.issuedAt, claims.expiresAt, claims.nonce)

/-- The message as a code of its fields. -/
def encodeFields (f : Text × Text × Text × Text × List Text × I64 × I64 × Text) : Text :=
  (proofDomain ++ ['\n']) ++ (signedField "identity" f.1 ++ (signedField "project_key" f.2.1 ++
    (signedField "program" f.2.2.1 ++ (signedField "model" f.2.2.2.1 ++
      (("capabilities=".toList ++ ((natText f.2.2.2.2.1.length ++ ['\n']) ++
        f.2.2.2.2.1.flatMap (signedField "capability"))) ++
          (("issued_at=".toList ++ (intText f.2.2.2.2.2.1 ++ ['\n'])) ++
            (("expires_at=".toList ++ (intText f.2.2.2.2.2.2.1 ++ ['\n'])) ++
              signedField "nonce" f.2.2.2.2.2.2.2)))))))

theorem encodeFields_code : PrefixCode encodeFields :=
  ((signedField_code "identity").pair <| (signedField_code "project_key").pair <|
    (signedField_code "program").pair <| (signedField_code "model").pair <|
      ((natLine_code.counted (signedField_code "capability")).literal "capabilities=".toList).pair <|
        (intLine_code.literal "issued_at=".toList).pair <|
          (intLine_code.literal "expires_at=".toList).pair (signedField_code "nonce")).literal
    (proofDomain ++ ['\n'])

theorem canonicalMessage_eq (claims : ProofClaims) :
    canonicalMessage claims = encodeFields claims.fields := by
  have hexpires : "\nexpires_at=".toList = ['\n'] ++ "expires_at=".toList := by decide
  simp only [canonicalMessage, foldl_appendSignedField]
  simp only [appendSignedField_eq, foldl_cons, foldl_nil, hexpires, encodeFields,
    ProofClaims.fields, append_assoc]

/-- Two claim sets have the same signing bytes only if they make the same claims. -/
theorem canonicalMessage_eq_iff (c d : ProofClaims) :
    canonicalMessage c = canonicalMessage d ↔
      c.identity = d.identity ∧ c.projectKey = d.projectKey ∧ c.program = d.program ∧
        c.model = d.model ∧ c.issuedAt = d.issuedAt ∧ c.expiresAt = d.expiresAt ∧
        c.nonce = d.nonce ∧ c.named = d.named := by
  rw [canonicalMessage_eq, canonicalMessage_eq, ← canonicalCapabilities_eq_iff]
  constructor
  · intro h
    have hfields := encodeFields_code.injective h
    simp only [ProofClaims.fields, Prod.mk.injEq] at hfields
    tauto
  · rintro ⟨hidentity, hproject, hprogram, hmodel, hissued, hexpires, hnonce, hcapabilities⟩
    rw [ProofClaims.fields, ProofClaims.fields, hidentity, hproject, hprogram, hmodel, hissued,
      hexpires, hnonce, hcapabilities]

end AgentMail.Registration
