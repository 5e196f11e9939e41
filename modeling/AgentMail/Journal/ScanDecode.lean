import AgentMail.Journal.Scan

/-!
# The scanner's decoder

Where `decode` returns a record at all, it is the one that the reader of the same journal takes. The
scanner refuses some journals that a reader would read, but it reads none differently.
-/

namespace AgentMail.Journal

open Base Lib

theorem index_asU64 (key : Text) (v : Json) : (v.index key).asU64 = (v.get? key).bind Json.asU64 := by
  rw [Json.index]
  cases v.get? key <;> rfl

theorem Kind.intentKind_ne_replayKind (kind : Kind) : kind.intentKind ≠ kind.replayKind := by
  cases kind
  · unfold intentKind replayKind ackIntentKind ackIntentReplayKind
    simp (disch := rfl) only [toList_lit]
    decide
  · unfold intentKind replayKind releaseIntentKind releaseIntentReplayKind
    simp (disch := rfl) only [toList_lit]
    decide

variable {v : Json}

theorem decode_other (C : Codec) {kind : Kind}
    (hintent : v.strField "kind".toList ≠ some kind.intentKind)
    (hreplay : v.strField "kind".toList ≠ some kind.replayKind) :
    decode C kind v = .ok .ignored := by
  rw [decode, beq_eq_false_iff_ne.mpr hintent, beq_eq_false_iff_ne.mpr hreplay]
  rfl

variable {r : Record IntentKey Intent} {C : Codec}

/-- A marker counts if it is terminal and its hash is right. -/
theorem decode_replay {kind : Kind} (hkind : v.strField "kind".toList = some kind.replayKind)
    (h : decode C kind v = .ok r) :
    (v.get? "schema_version".toList).bind Json.asU64 = some 1 ∧
      r = if (v.strField "status".toList).any isTerminalReplayStatus = true ∧
            replayRecordHasValidHash C (hashPayload kind false) v = true then terminalKey v
          else .ignored := by
  have hintent : (v.strField "kind".toList == some kind.intentKind) = false := by
    rw [hkind, beq_eq_false_iff_ne, ne_eq, Option.some.injEq]
    exact (Kind.intentKind_ne_replayKind kind).symm
  have hreplay : (v.strField "kind".toList == some kind.replayKind) = true := beq_iff_eq.mpr hkind
  rw [decode, hintent, hreplay] at h
  simp only [Bool.not_true, Bool.and_false, Bool.false_and, Bool.false_eq_true, if_false,
    Bool.not_false, Bool.true_and, Bool.and_true, if_true] at h
  split at h
  · cases h
  · next hversion =>
    rw [bne_iff_ne, not_not] at hversion
    refine ⟨hversion, ?_⟩
    unfold replayRecordHasValidHash terminalKey
    generalize hashJsonValue C (hashPayload kind false v) = expected at h ⊢
    split at h
    · next hash id hhash hid =>
      rw [hhash, hid]
      cases htarget : v.strField "intent_content_sha256".toList with
      | none =>
        rw [htarget] at h
        simp only [ite_self, Except.ok.injEq] at h
        simp [← h]
      | some target =>
        rw [htarget] at h
        simp only at h ⊢
        split at h
        · next hbad =>
          rw [if_neg]
          · exact (Except.ok.inj h).symm
          · simp only [Bool.and_eq_true, beq_iff_eq] at hbad ⊢
            simp only [Bool.or_eq_true, bne_iff_ne] at hbad
            tauto
        · next hgood =>
          simp only [Bool.or_eq_true, bne_iff_ne, not_or, not_not] at hgood
          split at h
          · next hterminal =>
            simp only [Bool.and_eq_true, beq_iff_eq] at hterminal
            rw [if_pos]
            · exact (Except.ok.inj h).symm
            · simp only [Bool.and_eq_true, beq_iff_eq]
              tauto
          · next hterminal =>
            simp only [Bool.and_eq_true, beq_iff_eq] at hterminal
            rw [if_neg]
            · exact (Except.ok.inj h).symm
            · simp only [Bool.and_eq_true, beq_iff_eq]
              tauto
    · next hnone =>
      have hinvalid : ∀ a b, ¬(v.strField "content_sha256".toList = some a ∧
          v.strField "intent_id".toList = some b) := fun a b hab => hnone a b hab.1 hab.2
      have hr := (Except.ok.inj h).symm
      rw [hr]
      cases hhash : v.strField "content_sha256".toList with
      | none => simp
      | some hash =>
        cases hid : v.strField "intent_id".toList with
        | none => simp
        | some id => exact absurd ⟨hhash, hid⟩ (hinvalid hash id)

theorem recordHasValidIntentHash_some {payload : Json → Json} {hash id : Text}
    (hhash : v.strField "content_sha256".toList = some hash)
    (hid : v.strField "intent_id".toList = some id) :
    recordHasValidIntentHash C payload v =
      (byteLen hash == 64 && byteLen id == 16 && id.isPrefixOf hash &&
        hash == hashJsonValue C (payload v)) := by
  unfold recordHasValidIntentHash
  rw [hhash, hid]

theorem recordHasValidIntentHash_none {payload : Json → Json}
    (h : ∀ hash id, v.strField "content_sha256".toList = some hash →
      v.strField "intent_id".toList = some id → False) :
    recordHasValidIntentHash C payload v = false := by
  unfold recordHasValidIntentHash
  split
  · next hash id hhash hid => exact (h hash id hhash hid).elim
  · rfl

/-- An intent of a supported schema counts if its hash is right. -/
theorem decode_intent {kind : Kind} (hkind : v.strField "kind".toList = some kind.intentKind)
    (h : decode C kind v = .ok r) :
    ∃ keyed : Bool,
      (if keyed then kind = .ack ∧ (v.get? "schema_version".toList).bind Json.asU64 = some 2
        else (v.get? "schema_version".toList).bind Json.asU64 = some 1 ∧
          (kind = .ack → v.get? "idempotency".toList = none)) ∧
      if recordHasValidIntentHash C (hashPayload kind true) v = true then
        decodeIntent kind keyed v = .ok r
      else r = .ignored := by
  have hintent : (v.strField "kind".toList == some kind.intentKind) = true := beq_iff_eq.mpr hkind
  have hreplay : (v.strField "kind".toList == some kind.replayKind) = false := by
    rw [hkind, beq_eq_false_iff_ne, ne_eq, Option.some.injEq]
    exact Kind.intentKind_ne_replayKind kind
  rw [decode, hintent, hreplay] at h
  simp only [Bool.not_true, Bool.and_true, Bool.false_eq_true, if_false, Bool.not_false] at h
  split at h
  · cases h
  · next hversion =>
    split at h
    · cases h
    · next hlegacy =>
      refine ⟨kind == .ack &&
        (v.get? "schema_version".toList).bind Json.asU64 == some keyedAckIntentSchemaVersion, ?_, ?_⟩
      · split
        · next hkeyed =>
          rw [Bool.and_eq_true, beq_iff_eq, beq_iff_eq] at hkeyed
          exact hkeyed
        · next hkeyed =>
          rw [Bool.not_eq_true] at hkeyed
          rw [hkeyed] at hversion hlegacy
          simp only [Bool.not_false, Bool.and_true, bne_iff_ne, ne_eq, not_not,
            Bool.true_and, Bool.and_eq_true, beq_iff_eq, not_and, Bool.not_eq_true,
            Option.isSome_eq_false_iff, Option.isNone_iff_eq_none] at hversion hlegacy
          exact ⟨hversion, hlegacy⟩
      · split at h
        · next hash id hhash hid =>
          rw [recordHasValidIntentHash_some hhash hid]
          generalize hashJsonValue C (hashPayload kind true v) = expected at h ⊢
          split at h
          · next hbad =>
            rw [if_neg]
            · exact (Except.ok.inj h).symm
            · simp only [Bool.or_eq_true, bne_iff_ne, Bool.and_eq_true, beq_iff_eq] at hbad ⊢
              tauto
          · next hgood =>
            simp only [Bool.or_eq_true, bne_iff_ne, not_or, not_not] at hgood
            split at h
            · next hlead =>
              rw [if_neg]
              · exact (Except.ok.inj h).symm
              · simp only [Bool.not_eq_true'] at hlead
                simp [hlead]
            · next hlead =>
              rw [if_pos]
              · exact h
              · simp only [Bool.not_eq_true', Bool.not_eq_false] at hlead
                simp only [Bool.and_eq_true, beq_iff_eq]
                exact ⟨⟨hgood.1, hlead⟩, hgood.2⟩
        · next hnone =>
          rw [recordHasValidIntentHash_none hnone, if_neg Bool.false_ne_true]
          exact (Except.ok.inj h).symm

/-- The retry claim of an intent is that of its record. -/
theorem fromValue_idempotency {intent : QueuedAckIntent}
    (h : QueuedAckIntent.fromValue v = some intent) :
    optionField AckIntentIdempotency.fromValue "idempotency" v = some intent.idempotency := by
  unfold QueuedAckIntent.fromValue at h
  simp only [Option.bind_eq_bind, Option.bind_eq_some_iff, Option.pure_def, Option.some.injEq] at h
  obtain ⟨_, _, _, _, _, _, _, _, _, _, _, _, _, _, _, _, claim, hclaim, _, _, rfl⟩ := h
  exact hclaim

/-- A claim that a keyed intent is decoded with. -/
theorem decodeIntent_keyed (h : decodeIntent .ack true v = .ok r) :
    ((v.get? "idempotency".toList).bind AckIntentIdempotency.fromValue).any (·.isValid) = true := by
  unfold decodeIntent at h
  cases hintent : QueuedAckIntent.fromValue v with
  | none =>
    rw [hintent] at h
    cases h
  | some intent =>
    have hfield := fromValue_idempotency hintent
    rw [hintent] at h
    cases hclaim : intent.idempotency with
    | none =>
      simp only [hclaim, if_true] at h
      cases h
    | some claim =>
      simp only [hclaim, if_true] at h
      split at h
      · cases h
      · next hvalid =>
        have hread : (v.get? "idempotency".toList).bind AckIntentIdempotency.fromValue =
            some claim := by
          rw [hclaim, optionField] at hfield
          split at hfield
          · cases hfield
          · cases hfield
          · next value hget =>
            rw [Option.map_eq_some_iff] at hfield
            obtain ⟨claim', hvalue, hsome⟩ := hfield
            rw [hget, ← Option.some.inj hsome]
            exact hvalue
        rw [hread, Option.any_some, AckIntentIdempotency.isValid]
        simp only [Bool.or_eq_true, bne_iff_ne, decide_eq_true_eq, Bool.not_eq_true', not_or,
          not_not, not_lt, Bool.not_eq_true, Bool.not_eq_false] at hvalid
        simp only [Bool.and_eq_true, Bool.not_eq_true', beq_iff_eq, decide_eq_true_eq]
        exact hvalid

/-- An intent that is decoded at all is the reader's. -/
theorem decodeIntent_ack {keyed : Bool} (h : decodeIntent .ack keyed v = .ok r) :
    ∃ intent, QueuedAckIntent.fromValue v = some intent ∧
      r = .intent (intent.intentId, intent.contentSha256) (.ack intent) := by
  unfold decodeIntent at h
  cases hintent : QueuedAckIntent.fromValue v with
  | none =>
    rw [hintent] at h
    cases h
  | some intent =>
    rw [hintent] at h
    refine ⟨intent, rfl, ?_⟩
    simp only at h
    split at h
    · split at h
      · cases h
      · split at h
        · cases h
        · exact (Except.ok.inj h).symm
    · exact (Except.ok.inj h).symm

theorem ackIntentKind_ne : ackIntentKind ≠ ackIntentReplayKind := Kind.intentKind_ne_replayKind .ack

theorem releaseIntentKind_ne : releaseIntentKind ≠ releaseIntentReplayKind :=
  Kind.intentKind_ne_replayKind .release

theorem map_terminalKey {τ : Type} (g : τ → Intent) (v : Json) :
    (terminalKey v : Record IntentKey τ).map g = terminalKey v := by
  unfold terminalKey
  split
  · rfl
  · rfl

/-- The scanner takes from an acknowledgement journal what `read_queued_ack_intents` takes. -/
theorem decode_ack (h : decode C .ack v = .ok r) : r = (ackRecord C v).map .ack := by
  by_cases hintent : v.strField "kind".toList = some ackIntentKind
  · obtain ⟨keyed, hschema, hrecord⟩ := decode_intent (show _ = some Kind.ack.intentKind from hintent) h
    unfold ackRecord
    simp only [hintent, Option.some.injEq, ackIntentKind_ne, false_and, if_false, if_true]
    by_cases hhash : recordHasValidIntentHash C (hashPayload .ack true) v = true
    · rw [if_pos hhash] at hrecord
      have hsupported : ackIntentHasSupportedSchema v = true := by
        unfold ackIntentHasSupportedSchema
        rw [index_asU64]
        cases keyed with
        | false =>
          rw [if_neg Bool.false_ne_true] at hschema
          rw [hschema.1, hschema.2 rfl]
          rfl
        | true =>
          rw [if_pos rfl] at hschema
          rw [hschema.2]
          exact decodeIntent_keyed hrecord
      obtain ⟨intent, hvalue, rfl⟩ := decodeIntent_ack hrecord
      change recordHasValidIntentHash C ackIntentHashPayload v = true at hhash
      rw [hsupported, hhash, hvalue]
      rfl
    · rw [if_neg hhash] at hrecord
      change ¬ recordHasValidIntentHash C ackIntentHashPayload v = true at hhash
      rw [Bool.not_eq_true] at hhash
      rw [hrecord, hhash]
      cases ackIntentHasSupportedSchema v <;> rfl
  · by_cases hreplay : v.strField "kind".toList = some ackIntentReplayKind
    · obtain ⟨hversion, hrecord⟩ := decode_replay (show _ = some Kind.ack.replayKind from hreplay) h
      have hschema : ackReplayRecordHasValidHash C v =
          replayRecordHasValidHash C (hashPayload .ack false) v := by
        rw [ackReplayRecordHasValidHash, index_asU64, hversion]
        rfl
      unfold ackRecord
      rw [hrecord, hschema]
      simp only [hreplay, true_and, Option.some.injEq, ackIntentKind_ne.symm, if_false]
      cases replayRecordHasValidHash C (hashPayload .ack false) v with
      | false =>
        simp only [Bool.false_eq_true, and_false, if_false, Bool.not_false, if_true, ite_self]
        rfl
      | true =>
        simp only [and_true, Bool.not_true, Bool.false_eq_true, if_false]
        split
        · exact (map_terminalKey _ v).symm
        · rfl
    · rw [decode_other C hintent hreplay] at h
      unfold ackRecord
      simp only [hintent, hreplay, false_and, if_false]
      exact (Except.ok.inj h).symm

/-- The scanner takes from a release journal what `read_queued_release_intents` takes. -/
theorem decode_release (h : decode C .release v = .ok r) :
    ∃ r', releaseRecord C v = .ok r' ∧ r = r'.map .release := by
  by_cases hintent : v.strField "kind".toList = some releaseIntentKind
  · obtain ⟨keyed, hschema, hrecord⟩ := decode_intent (show _ = some Kind.release.intentKind from hintent) h
    have hversion : (v.get? "schema_version".toList).bind Json.asU64 = some 1 := by
      cases keyed with
      | false => exact hschema.1
      | true => cases hschema.1
    have hensure : ensureSupportedReleaseSchema v = .ok () := by
      unfold ensureSupportedReleaseSchema
      rw [hversion]
      exact ite_self _
    unfold releaseRecord
    rw [hensure]
    simp only [hintent, Option.some.injEq, releaseIntentKind_ne, false_and, if_false, if_true]
    change if recordHasValidIntentHash C releaseIntentHashPayload v = true then _ else _ at hrecord
    cases hhash : recordHasValidIntentHash C releaseIntentHashPayload v with
    | false =>
      rw [hhash, if_neg Bool.false_ne_true] at hrecord
      exact ⟨.ignored, rfl, hrecord⟩
    | true =>
      rw [hhash, if_pos rfl] at hrecord
      unfold decodeIntent at hrecord
      cases hvalue : QueuedReleaseIntentView.fromValue v with
      | none =>
        rw [hvalue] at hrecord
        cases hrecord
      | some intent =>
        rw [hvalue] at hrecord
        exact ⟨_, rfl, (Except.ok.inj hrecord).symm⟩
  · by_cases hreplay : v.strField "kind".toList = some releaseIntentReplayKind
    · obtain ⟨hversion, hrecord⟩ := decode_replay (show _ = some Kind.release.replayKind from hreplay) h
      have hensure : ensureSupportedReleaseSchema v = .ok () := by
        unfold ensureSupportedReleaseSchema
        rw [hversion]
        exact ite_self _
      unfold releaseRecord
      rw [hensure, hrecord]
      simp only [hreplay, true_and, Option.some.injEq, releaseIntentKind_ne.symm, if_false]
      have hhash : releaseReplayRecordHasValidHash C v =
          replayRecordHasValidHash C (hashPayload .release false) v := rfl
      rw [hhash]
      cases replayRecordHasValidHash C (hashPayload .release false) v with
      | false =>
        refine ⟨.ignored, ?_, by simp only [Bool.false_eq_true, and_false, if_false]; rfl⟩
        split
        · rfl
        · rfl
      | true =>
        simp only [and_true, Bool.not_true, Bool.false_eq_true, if_false]
        split
        · exact ⟨terminalKey v, rfl, (map_terminalKey _ v).symm⟩
        · exact ⟨.ignored, rfl, rfl⟩
    · rw [decode_other C hintent hreplay] at h
      refine ⟨.ignored, ?_, (Except.ok.inj h).symm⟩
      unfold releaseRecord ensureSupportedReleaseSchema
      simp only [hintent, hreplay, or_self, not_false_eq_true, if_true, false_and, if_false]
      rfl

end AgentMail.Journal
