import AgentMail.Base.Decimal

/-!
# The durable recovery breaker

`RecoveryBreakerState`, its verdicts and its transitions
(`crates/mcp-agent-mail-db/src/recovery_breaker.rs:50–253, 919–952`). The counter is an `u32`, the
times are `i64` seconds, fingerprints are the texts that the breaker compares.
-/

namespace AgentMail.Recovery

open Base List

/-- `u32::MAX`. -/
def u32Max : Nat := 2 ^ 32 - 1

def maxReasonBytes : Nat := 512

structure RecoveryBreakerConfig where
  maxConsecutiveFailures : Nat
  cooldownSecs : Nat
  max_le : maxConsecutiveFailures ≤ u32Max
  cooldown_lt : cooldownSecs < 2 ^ 64

structure RecoveryBreakerState where
  schema : Nat
  dbFingerprint : Text
  consecutiveFailures : Nat
  lastFailureUnix : I64
  lastFailureReason : Text
  tripped : Bool
  attemptInProgress : Bool

/-! ### Fingerprints -/

/-- `split_once` at a character. -/
def splitOnceAt (c : Char) (t : Text) : Option (Text × Text) :=
  if c ∈ t then some (t.takeWhile (· != c), (t.dropWhile (· != c)).tail) else none

/-- `rsplit_once` at a character. -/
def rsplitOnceAt (c : Char) (t : Text) : Option (Text × Text) :=
  (splitOnceAt c t.reverse).map fun parts => (parts.2.reverse, parts.1.reverse)

/-- `parse::<u64>`. -/
def parseU64 (t : Text) : Option Nat :=
  let digits := match t with
    | '+' :: rest => rest
    | rest => rest
  (if digits.isEmpty then none else digitsVal digits).filter fun n => n < 2 ^ 64

def isLowerHex (c : Char) : Bool := c.isDigit || ('a' ≤ c && c ≤ 'f')

def canonicalFingerprintHash (hash : Text) : Bool := byteLen hash == 64 && hash.all isLowerHex

def scalarFingerprintValid (fingerprint : Text) : Bool :=
  fingerprint == "missing".toList || fingerprint == "unreadable".toList ||
    match splitOnceAt ':' fingerprint with
    | none => false
    | some (len, hash) =>
      ((parseU64 len).elim false fun parsed => natText parsed == len) && canonicalFingerprintHash hash

/-- `family_fingerprint_parts`: the main file's fingerprint and the hash of the family. -/
def familyFingerprintParts (fingerprint : Text) : Option (Text × Text) := do
  let rest ← stripHead "family1:".toList fingerprint
  let (main, familyHash) ← rsplitOnceAt ':' rest
  if main != "unreadable".toList && scalarFingerprintValid main &&
      canonicalFingerprintHash familyHash then
    some (main, familyHash)
  else none

/-- The hash of a live, descriptor-neutral fingerprint. -/
def isLockNeutral (fingerprint : Text) : Bool :=
  match splitOnceAt ':' fingerprint with
  | none => false
  | some (_, hash) => "fdc10ce1".toList.isPrefixOf hash

def fingerprintValid (fingerprint : Text) : Bool :=
  scalarFingerprintValid fingerprint || (familyFingerprintParts fingerprint).isSome

/-! ### Verdicts and transitions -/

/-- Whether this history governs the database with that fingerprint. -/
def RecoveryBreakerState.appliesTo (state : RecoveryBreakerState) (fingerprint : Text) : Bool :=
  state.attemptInProgress || state.dbFingerprint == fingerprint ||
    fingerprint == "unreadable".toList || state.dbFingerprint == "unreadable".toList ||
    ((familyFingerprintParts fingerprint).elim false fun parts =>
      state.dbFingerprint == parts.1 || isLockNeutral state.dbFingerprint) ||
    (isLockNeutral fingerprint && (familyFingerprintParts state.dbFingerprint).isSome)

inductive BreakerVerdict where
  | allow
  | allowHalfOpen
  | refuse (consecutiveFailures retryAfterSecs : Nat) (lastFailureReason : Text)

/-- `i64::try_from(config.cooldown_secs).unwrap_or(i64::MAX)`. -/
def RecoveryBreakerConfig.cooldown (config : RecoveryBreakerConfig) : Int :=
  if (config.cooldownSecs : Int) ≤ i64Max then config.cooldownSecs else i64Max

def evaluate (state : Option RecoveryBreakerState) (fingerprint : Text)
    (config : RecoveryBreakerConfig) (nowUnix : I64) : BreakerVerdict :=
  match state with
  | none => .allow
  | some state =>
    if !state.appliesTo fingerprint then .allow
    else if !state.tripped && decide (state.consecutiveFailures < config.maxConsecutiveFailures) then
      .allow
    else
      let elapsed := max (saturatingSub nowUnix state.lastFailureUnix) 0
      if config.cooldown ≤ elapsed then .allowHalfOpen
      else .refuse state.consecutiveFailures (saturatingSub config.cooldown elapsed).toNat
        state.lastFailureReason

/-- The longest beginning of at most `n` bytes. -/
def takeBytes : Nat → Text → Text
  | _, [] => []
  | n, c :: t => if c.utf8Size ≤ n then c :: takeBytes (n - c.utf8Size) t else []

def truncatedReason (reason : Text) : Text :=
  if maxReasonBytes < byteLen reason then takeBytes maxReasonBytes reason ++ ['…'] else reason

def recordFailure (prev : Option RecoveryBreakerState) (fingerprint reason : Text)
    (config : RecoveryBreakerConfig) (nowUnix : I64) : RecoveryBreakerState :=
  let consecutiveFailures := match prev with
    | none => 1
    | some prev =>
      if prev.appliesTo fingerprint then min (prev.consecutiveFailures + 1) u32Max else 1
  { schema := 1
    dbFingerprint := fingerprint
    consecutiveFailures
    lastFailureUnix := nowUnix
    lastFailureReason := truncatedReason reason
    tripped := decide (config.maxConsecutiveFailures ≤ consecutiveFailures)
    attemptInProgress := false }

def recordAttempt (prev : Option RecoveryBreakerState) (fingerprint : Text)
    (config : RecoveryBreakerConfig) (nowUnix : I64) : RecoveryBreakerState :=
  { recordFailure prev fingerprint "automatic recovery attempt did not complete".toList config
      nowUnix with attemptInProgress := true }

def clearedState (fingerprint : Text) : RecoveryBreakerState where
  schema := 1
  dbFingerprint := fingerprint
  consecutiveFailures := 0
  lastFailureUnix := ⟨0, by decide⟩
  lastFailureReason := []
  tripped := false
  attemptInProgress := false

/-- `recovery_breaker_state_is_semantically_valid`. -/
def semanticallyValid (state : RecoveryBreakerState) : Bool :=
  state.schema == 1 && fingerprintValid state.dbFingerprint && decide (0 ≤ state.lastFailureUnix.1) &&
    decide (byteLen state.lastFailureReason ≤ maxReasonBytes + '…'.utf8Size) &&
    (!state.tripped || decide (0 < state.consecutiveFailures)) &&
    (!state.attemptInProgress || decide (0 < state.consecutiveFailures))

/-! ### What the fingerprint functions write -/

structure Digest where
  text : Text
  canonical : canonicalFingerprintHash text = true

/-- The fingerprint of a main file, and of a database with its companions. A family without a
readable main file has no fingerprint but `unreadable`. -/
inductive Fingerprint where
  | missing
  | unreadable
  | contents (len : UInt64) (hash : Digest)
  | familyMissing (familyHash : Digest)
  | family (len : UInt64) (hash familyHash : Digest)

def contentsText (len : UInt64) (hash : Digest) : Text := natText len.toNat ++ ':' :: hash.text

def Fingerprint.text : Fingerprint → Text
  | missing => "missing".toList
  | unreadable => "unreadable".toList
  | contents len hash => contentsText len hash
  | familyMissing familyHash => "family1:".toList ++ ("missing".toList ++ ':' :: familyHash.text)
  | family len hash familyHash =>
    "family1:".toList ++ (contentsText len hash ++ ':' :: familyHash.text)

theorem splitOnceAt_append {c : Char} {front : Text} (hfront : c ∉ front) (back : Text) :
    splitOnceAt c (front ++ c :: back) = some (front, back) := by
  have hpass : ∀ d ∈ front, (d != c) = true := by
    intro d hd
    rw [bne_iff_ne]
    rintro rfl
    exact hfront hd
  rw [splitOnceAt, if_pos (by simp), takeWhile_append_of_pos hpass, dropWhile_append_of_pos hpass]
  simp

theorem rsplitOnceAt_append {c : Char} {back : Text} (hback : c ∉ back) (front : Text) :
    rsplitOnceAt c (front ++ c :: back) = some (front, back) := by
  have hreverse : (front ++ c :: back).reverse = back.reverse ++ c :: front.reverse := by simp
  rw [rsplitOnceAt, hreverse, splitOnceAt_append (by simpa using hback)]
  simp

theorem parseU64_natText (len : UInt64) : parseU64 (natText len.toNat) = some len.toNat := by
  have hne := isEmpty_eq_false_iff.mpr (natText_ne_nil len.toNat)
  have hrange : (some len.toNat).filter (fun n => decide (n < 2 ^ 64)) = some len.toNat := by
    rw [Option.filter_some, decide_eq_true len.toNat_lt]
    rfl
  unfold parseU64
  split
  · next hplus =>
    have hdigit := isDigit_of_mem_natText (hplus ▸ mem_cons_self)
    exact absurd hdigit (by decide)
  · dsimp only
    rw [hne, if_neg Bool.false_ne_true, digitsVal_natText]
    exact hrange

theorem colon_notMem_natText (n : Nat) : ':' ∉ natText n := fun h =>
  absurd (isDigit_of_mem_natText h) (by decide)

theorem Digest.colon_notMem (d : Digest) : ':' ∉ d.text := by
  have hcanonical := d.canonical
  rw [canonicalFingerprintHash, Bool.and_eq_true, all_eq_true] at hcanonical
  intro h
  exact absurd (hcanonical.2 ':' h) (by decide)

theorem scalarFingerprintValid_contents (len : UInt64) (hash : Digest) :
    scalarFingerprintValid (contentsText len hash) = true := by
  unfold scalarFingerprintValid contentsText
  rw [splitOnceAt_append (colon_notMem_natText len.toNat)]
  dsimp only
  rw [parseU64_natText, hash.canonical]
  simp

theorem familyFingerprintParts_append {main : Text} (hmain : main ≠ "unreadable".toList)
    (hvalid : scalarFingerprintValid main = true) (familyHash : Digest) :
    familyFingerprintParts ("family1:".toList ++ (main ++ ':' :: familyHash.text)) =
      some (main, familyHash.text) := by
  have hstrip (rest : Text) : stripHead "family1:".toList ("family1:".toList ++ rest) =
      some rest := by
    rw [stripHead, if_pos (List.isPrefixOf_iff_prefix.mpr (prefix_append _ _)), drop_left']
    rfl
  have hmain' : (main != "unreadable".toList) = true := bne_iff_ne.mpr hmain
  rw [familyFingerprintParts, hstrip]
  dsimp only [bind, Option.bind]
  rw [rsplitOnceAt_append familyHash.colon_notMem]
  dsimp only
  rw [hmain', hvalid, familyHash.canonical]
  rfl

theorem contentsText_ne_unreadable (len : UInt64) (hash : Digest) :
    contentsText len hash ≠ "unreadable".toList := by
  intro heq
  have hmem : ':' ∈ contentsText len hash := by simp [contentsText]
  rw [heq] at hmem
  exact absurd hmem (by decide)

/-- Every fingerprint that is written is valid. -/
theorem fingerprintValid_text (f : Fingerprint) : fingerprintValid f.text = true := by
  rw [fingerprintValid, Bool.or_eq_true]
  cases f with
  | missing => exact .inl (by decide)
  | unreadable => exact .inl (by decide)
  | contents len hash => exact .inl (scalarFingerprintValid_contents len hash)
  | familyMissing familyHash =>
    have hne : "missing".toList ≠ "unreadable".toList := by decide
    have hvalid : scalarFingerprintValid "missing".toList = true := by decide
    have hparts := familyFingerprintParts_append hne hvalid familyHash
    exact .inr (Option.isSome_of_mem hparts)
  | family len hash familyHash =>
    have hparts := familyFingerprintParts_append (contentsText_ne_unreadable len hash)
      (scalarFingerprintValid_contents len hash) familyHash
    exact .inr (Option.isSome_of_mem hparts)

/-! ### What is stored is valid -/

theorem byteLen_takeBytes_le (n : Nat) (t : Text) : byteLen (takeBytes n t) ≤ n := by
  induction t generalizing n with
  | nil => exact Nat.zero_le n
  | cons c t ih =>
    rw [takeBytes]
    split
    · next hfits =>
      have hrest := ih (n - c.utf8Size)
      unfold byteLen at hrest ⊢
      rw [map_cons, sum_cons]
      omega
    · exact Nat.zero_le n

theorem byteLen_truncatedReason_le (reason : Text) :
    byteLen (truncatedReason reason) ≤ maxReasonBytes + '…'.utf8Size := by
  rw [truncatedReason]
  split
  · have hkept := byteLen_takeBytes_le maxReasonBytes reason
    unfold byteLen at hkept ⊢
    rw [map_append, sum_append, map_singleton, sum_singleton]
    omega
  · omega

section

variable {prev : Option RecoveryBreakerState} {config : RecoveryBreakerConfig} {nowUnix : I64}

theorem recordFailure_counts (prev : Option RecoveryBreakerState) (fingerprint reason : Text)
    (config : RecoveryBreakerConfig) (nowUnix : I64) :
    0 < (recordFailure prev fingerprint reason config nowUnix).consecutiveFailures := by
  unfold recordFailure
  dsimp only
  split
  · exact Nat.one_pos
  · split
    · exact Nat.lt_min.mpr ⟨Nat.succ_pos _, by decide⟩
    · exact Nat.one_pos

theorem semanticallyValid_of {state : RecoveryBreakerState} (hschema : state.schema = 1)
    (hfingerprint : fingerprintValid state.dbFingerprint = true)
    (htime : 0 ≤ state.lastFailureUnix.1)
    (hreason : byteLen state.lastFailureReason ≤ maxReasonBytes + '…'.utf8Size)
    (hcount : state.tripped = true ∨ state.attemptInProgress = true → 0 < state.consecutiveFailures) :
    semanticallyValid state = true := by
  have htripped : (!state.tripped || decide (0 < state.consecutiveFailures)) = true := by
    cases h : state.tripped with
    | false => rfl
    | true => exact decide_eq_true (hcount (.inl h))
  have harmed : (!state.attemptInProgress || decide (0 < state.consecutiveFailures)) = true := by
    cases h : state.attemptInProgress with
    | false => rfl
    | true => exact decide_eq_true (hcount (.inr h))
  rw [semanticallyValid, hschema, hfingerprint, decide_eq_true htime, decide_eq_true hreason,
    htripped, harmed]
  rfl

theorem semanticallyValid_recordFailure (f : Fingerprint) (reason : Text) (hnow : 0 ≤ nowUnix.1) :
    semanticallyValid (recordFailure prev f.text reason config nowUnix) = true :=
  semanticallyValid_of rfl (fingerprintValid_text f) hnow (byteLen_truncatedReason_le reason)
    fun _ => recordFailure_counts ..

theorem semanticallyValid_recordAttempt (f : Fingerprint) (hnow : 0 ≤ nowUnix.1) :
    semanticallyValid (recordAttempt prev f.text config nowUnix) = true := by
  let reason : Text := "automatic recovery attempt did not complete".toList
  have hcount := recordFailure_counts prev f.text reason config nowUnix
  exact semanticallyValid_of rfl (fingerprintValid_text f) hnow (byteLen_truncatedReason_le reason)
    fun _ => hcount

end

end AgentMail.Recovery
