import AgentMail.Journal.Reader

/-!
# Nothing is lost and nothing comes back

The records that a reader finds in the journal are those of the appends that were completely
written, so what it returns is what `queuedIntents` says.
-/

namespace AgentMail.Journal

open Base Lib JournalEvent JournalAppend
open List hiding Vector

/-! ### Reliable codecs -/

section

variable {C : Codec} {values : List Json} (hC : C.Reliable values)
include hC

theorem lineRecord_newline (line : Bytes) :
    lineRecord C (line ++ [newline]) = lineRecord C line := by
  have hblank : (line ++ [newline]).all isAsciiWhitespace = line.all isAsciiWhitespace := by
    rw [all_append]
    show (line.all isAsciiWhitespace && true) = _
    rw [Bool.and_true]
  rw [lineRecord, hblank, hC.line_end]
  rfl

/-- Ending the last line changes no record. -/
theorem recordsIn_newline (journal : Bytes) :
    recordsIn C (journal ++ [newline]) = recordsIn C journal := by
  obtain ⟨front, tail, rfl, hclosed, htail⟩ := exists_closed newline journal
  rw [append_assoc, recordsIn_append C hclosed, recordsIn_append C hclosed]
  congr 1
  rw [recordsIn, recordsIn, lines_concat_of_not_mem htail]
  by_cases hnil : tail = []
  · rw [hnil]
    rfl
  · rw [lines_of_not_mem htail hnil, filterMap_cons, filterMap_cons, lineRecord_newline hC]

/-- Of a record and its newline, what reaches the file is the record or nothing. -/
theorem recordsIn_take {v : Json} (hv : v ∈ values) (n : Nat) :
    recordsIn C ((C.toVec v ++ [newline]).take n) = if (C.toVec v).length ≤ n then [v] else [] := by
  have hline := hC.one_line v hv
  have hrecord : lineRecord C (C.toVec v) = some v := by
    rw [lineRecord]
    split
    · next hblank =>
      have hread := hC.read_back v hv
      rw [hC.blank _ hblank] at hread
      cases hread
    · exact hC.read_back v hv
  have hne : C.toVec v ≠ [] := by
    intro hnil
    rw [hnil] at hrecord
    cases hrecord
  by_cases hlen : (C.toVec v).length ≤ n
  · rw [if_pos hlen]
    by_cases heq : n = (C.toVec v).length
    · rw [heq, take_left, recordsIn, lines_of_not_mem hline hne, filterMap_cons_some hrecord]
      rfl
    · have hall : (C.toVec v ++ [newline]).take n = C.toVec v ++ [newline] := by
        apply take_of_length_le
        rw [length_append, length_singleton]
        omega
      rw [hall, recordsIn, lines_concat_of_not_mem hline,
        filterMap_cons_some ((lineRecord_newline hC _).trans hrecord)]
      rfl
  · rw [if_neg hlen, take_append_of_le_length (by omega)]
    -- A proper prefix of the text is not accepted.
    have hproper : (C.toVec v).take n ≠ C.toVec v := by
      intro heq
      have := congrArg List.length heq
      rw [length_take] at this
      omega
    have hnone : lineRecord C ((C.toVec v).take n) = none := by
      rw [lineRecord]
      split
      · rfl
      · exact hC.torn v hv _ (List.take_prefix _ _) hproper
    have hmem : newline ∉ (C.toVec v).take n := fun hmem => hline (mem_of_mem_take hmem)
    by_cases hnil : (C.toVec v).take n = []
    · rw [hnil]
      rfl
    · rw [recordsIn, lines_of_not_mem hmem hnil, filterMap_cons_none hnone]
      rfl

end

/-! ### One append -/

/-- The line begins on its own: the journal is closed, or the line starts with a newline. -/
theorem journalLine_cases (C : Codec) (journal : Bytes) (record : Json) :
    (Closed newline journal ∧ journalLine C journal record = C.toVec record ++ [newline]) ∨
      journalLine C journal record = newline :: (C.toVec record ++ [newline]) := by
  unfold journalLine
  cases hlast : journal.getLast? with
  | none =>
    left
    rw [List.getLast?_eq_none_iff.mp hlast]
    exact ⟨.inl rfl, rfl⟩
  | some b =>
    by_cases hb : b = newline
    · left
      rw [hb] at hlast ⊢
      obtain ⟨front, rfl⟩ := List.getLast?_eq_some_iff.mp hlast
      exact ⟨.inr ⟨front, rfl⟩, rfl⟩
    · right
      simp [hb]

/-- What one append does: a line of its own, of which some bytes reach the file. -/
theorem JournalEvent.apply_cases (C : Codec) (journal : Bytes) (e : JournalEvent)
    (h : e.append.isRefused C = false) :
    (∃ front n, (front = journal ∨ front = journal ++ [newline]) ∧ Closed newline front ∧
        e.apply C journal = front ++ (C.toVec (e.append.record C) ++ [newline]).take n ∧
        e.isComplete C journal = decide ((C.toVec (e.append.record C)).length ≤ n)) ∨
      (e.apply C journal = journal ∧ e.isComplete C journal = false) := by
  unfold apply isComplete
  rw [h, if_neg Bool.false_ne_true, Bool.not_false, Bool.true_and]
  rcases journalLine_cases C journal (e.append.record C) with ⟨hclosed, hline⟩ | hline
  · refine .inl ⟨journal, e.written, .inl rfl, hclosed, by rw [hline], ?_⟩
    rw [hline, length_append, length_singleton, decide_eq_decide]
    omega
  · cases hw : e.written with
    | zero =>
      refine .inr ⟨by simp, ?_⟩
      rw [hline, length_cons, length_append, length_singleton, decide_eq_false_iff_not]
      omega
    | succ n =>
      refine .inl ⟨journal ++ [newline], n, .inr rfl, .inr ⟨journal, rfl⟩, ?_, ?_⟩
      · rw [hline, take_succ_cons, append_assoc]
        rfl
      · rw [hline, length_cons, length_append, length_singleton, decide_eq_decide]
        omega

variable {C : Codec} {values : List Json}

theorem recordsIn_apply (hC : C.Reliable values) (journal : Bytes) {e : JournalEvent}
    (he : e.append.record C ∈ values) :
    recordsIn C (e.apply C journal) = recordsIn C journal ++
      ((if e.isComplete C journal then [e.append] else []).map (·.record C)) := by
  cases hrefused : e.append.isRefused C with
  | true =>
    rw [apply, if_pos hrefused, isComplete, hrefused]
    simp
  | false =>
    rcases e.apply_cases C journal hrefused with
      ⟨front, n, hfront, hclosed, happly, hcomplete⟩ | ⟨happly, hcomplete⟩
    · have hsame : recordsIn C front = recordsIn C journal := by
        rcases hfront with rfl | rfl
        · rfl
        · exact recordsIn_newline hC journal
      rw [happly, recordsIn_append C hclosed, recordsIn_take hC he, hsame, hcomplete]
      by_cases hn : (C.toVec (e.append.record C)).length ≤ n
      · simp [hn]
      · simp [hn]
    · rw [happly, hcomplete]
      simp

/-! ### No line is too long -/

/-- Every line fits, and the last one would with its newline. -/
def LinesFit (journal : Bytes) : Prop :=
  ∀ l ∈ lines newline (journal ++ [newline]), l.length ≤ maxIntentRecordBytes

variable {journal : Bytes}

theorem LinesFit.of_lines (h : LinesFit journal) :
    ∀ l ∈ lines newline journal, l.length ≤ maxIntentRecordBytes := by
  unfold LinesFit at h
  obtain ⟨front, tail, rfl, hclosed, htail⟩ := exists_closed newline journal
  rw [append_assoc, hclosed.lines_append, lines_concat_of_not_mem htail] at h
  rw [hclosed.lines_append]
  intro l hl
  rcases mem_append.mp hl with hl | hl
  · exact h l (mem_append_left _ hl)
  · by_cases hnil : tail = []
    · rw [hnil] at hl
      cases hl
    · rw [lines_of_not_mem htail hnil, mem_singleton] at hl
      have := h (tail ++ [newline]) (by simp)
      rw [length_append, length_singleton] at this
      rw [hl]
      omega

theorem linesFit_nil : LinesFit [] := by
  intro l hl
  have : l = [newline] := by simpa [lines] using hl
  rw [this]
  decide

theorem LinesFit.newline (h : LinesFit journal) : LinesFit (journal ++ [newline]) := by
  intro l hl
  have hclosed : Closed Base.newline (journal ++ [Base.newline]) := .inr ⟨journal, rfl⟩
  rw [hclosed.lines_append] at hl
  rcases mem_append.mp hl with hl | hl
  · exact h l hl
  · exact linesFit_nil l hl

theorem linesFit_append {front : Bytes} (hclosed : Closed newline front) (h : LinesFit front)
    {text : Bytes} (hline : newline ∉ text) (hlen : text.length < maxIntentRecordBytes) (n : Nat) :
    LinesFit (front ++ (text ++ [newline]).take n) := by
  intro l hl
  rw [append_assoc, hclosed.lines_append] at hl
  rcases mem_append.mp hl with hl | hl
  · exact h.of_lines l hl
  · by_cases hn : n ≤ text.length
    · rw [take_append_of_le_length hn] at hl
      have hmem : newline ∉ text.take n := fun hmem => hline (mem_of_mem_take hmem)
      rw [lines_concat_of_not_mem hmem, mem_singleton] at hl
      rw [hl, length_append, length_take, length_singleton]
      omega
    · have hall : (text ++ [newline]).take n = text ++ [newline] := by
        apply take_of_length_le
        rw [length_append, length_singleton]
        omega
      have hend : Closed newline (text ++ [newline]) := .inr ⟨text, rfl⟩
      rw [hall, hend.lines_append, lines_concat_of_not_mem hline] at hl
      rcases mem_append.mp hl with hl | hl
      · rw [mem_singleton.mp hl, length_append, length_singleton]
        omega
      · exact linesFit_nil l hl

theorem linesFit_apply (hC : C.Reliable values) (h : LinesFit journal) {e : JournalEvent}
    (he : e.append.record C ∈ values) : LinesFit (e.apply C journal) := by
  cases hrefused : e.append.isRefused C with
  | true =>
    rw [apply, if_pos hrefused]
    exact h
  | false =>
    have hlen : (C.toVec (e.append.record C)).length < maxIntentRecordBytes := by
      unfold isRefused at hrefused
      rw [Bool.or_eq_false_iff, decide_eq_false_iff_not] at hrefused
      exact not_le.mp hrefused.2
    rcases e.apply_cases C journal hrefused with
      ⟨front, n, hfront, hclosed, happly, _⟩ | ⟨happly, _⟩
    · rw [happly]
      apply linesFit_append hclosed _ (hC.one_line _ he) hlen
      rcases hfront with rfl | rfl
      · exact h
      · exact h.newline
    · rw [happly]
      exact h

/-! ### Histories -/

/-- The journal has the records of the appends that were completely written, and no others. -/
theorem recordsIn_history (hC : C.Reliable values) (events : List JournalEvent)
    (he : ∀ e ∈ events, e.append.record C ∈ values) (h : LinesFit journal) :
    LinesFit (events.foldl (apply C) journal) ∧ recordsIn C (events.foldl (apply C) journal) =
        recordsIn C journal ++ (completeAppends C journal events).map (·.record C) := by
  induction events generalizing journal with
  | nil => exact ⟨h, by simp [completeAppends]⟩
  | cons e events ih =>
    rw [forall_mem_cons] at he
    obtain ⟨hfit, hrecords⟩ := ih he.2 (linesFit_apply hC h he.1)
    refine ⟨hfit, ?_⟩
    rw [foldl_cons, hrecords, recordsIn_apply hC journal he.1, completeAppends,
      map_append, append_assoc]

theorem completeAppends_accepted (C : Codec) (journal : Bytes) (events : List JournalEvent) :
    ∀ a ∈ completeAppends C journal events, a.isRefused C = false ∧ ∃ e ∈ events, e.append = a := by
  induction events generalizing journal with
  | nil => simp [completeAppends]
  | cons e events ih =>
    intro a ha
    rw [completeAppends] at ha
    rcases mem_append.mp ha with ha | ha
    · split at ha
      · next hcomplete =>
        rw [mem_singleton.mp ha]
        rw [isComplete, Bool.and_eq_true, Bool.not_eq_true'] at hcomplete
        exact ⟨hcomplete.1, e, mem_cons_self .., rfl⟩
      · cases ha
    · obtain ⟨hrefused, e', he', rfl⟩ := ih _ a ha
      exact ⟨hrefused, e', mem_cons_of_mem _ he', rfl⟩

/-! ### Hashes -/

section

variable (C : Codec) (value : Json)

theorem byteLen_hash : byteLen (hashJsonValue C value) = 64 := by
  rw [hashJsonValue, byteLen_eq_length utf8Size_hexEncode, length_hexEncode, Vector.length_toList]

theorem byteLen_hash_take : byteLen ((hashJsonValue C value).take 16) = 16 := by
  have hsize : ∀ c ∈ (hashJsonValue C value).take 16, c.utf8Size = 1 :=
    fun c hc => utf8Size_hexEncode c (mem_of_mem_take hc)
  rw [byteLen_eq_length hsize, length_take, hashJsonValue, length_hexEncode, Vector.length_toList]
  rfl

end

/-! ### What the reader makes of an append -/

theorem asI64_int (n : I64) : (Json.int n).asI64 = some n.val := by
  rw [Json.asI64, if_pos n.property]

section

variable {C : Codec} {a : JournalAppend} {q : QueuedAckIntent} (hq : a.queued C = some q)

include hq

/-- The fields that the reader hashes are those that the writer hashed. -/
theorem ackIntentHashPayload_record : ackIntentHashPayload (a.record C) = a.payload := by
  cases a with
  | marker => cases hq
  | intent _ _ _ _ _ _ idempotency =>
    cases idempotency with
    | none => rfl
    | some claim => rfl

theorem supportedSchema_record (haccepted : a.isRefused C = false) :
    ackIntentHasSupportedSchema (a.record C) = true := by
  cases a with
  | marker => cases hq
  | intent _ _ _ _ _ _ idempotency =>
    cases idempotency with
    | none => rfl
    | some claim =>
      simp only [isRefused, Bool.or_eq_false_iff, Bool.not_eq_false'] at haccepted
      exact haccepted.1

theorem hashFields_record :
    (a.record C).strField "content_sha256".toList = some (hashJsonValue C a.payload) ∧
      (a.record C).strField "intent_id".toList = some ((hashJsonValue C a.payload).take 16) := by
  cases a with
  | marker => cases hq
  | intent _ _ _ _ _ _ idempotency =>
    cases idempotency with
    | none => exact ⟨rfl, rfl⟩
    | some claim => exact ⟨rfl, rfl⟩

theorem validHash_record :
    recordHasValidIntentHash C ackIntentHashPayload (a.record C) = true := by
  have hash := byteLen_hash C a.payload
  have hid := byteLen_hash_take C a.payload
  obtain ⟨hcontent, hintent⟩ := hashFields_record hq
  rw [recordHasValidIntentHash, hcontent, hintent]
  dsimp only
  rw [ackIntentHashPayload_record hq, hash, hid,
    List.isPrefixOf_iff_prefix.mpr (List.take_prefix _ _)]
  simp

theorem fromValue_record : QueuedAckIntent.fromValue (a.record C) = some q := by
  rw [← hq]
  cases a with
  | marker => cases hq
  | intent createdTs projectKey agentName messageId failureStage errorDetail idempotency =>
    let intent := JournalAppend.intent createdTs projectKey agentName messageId failureStage
      errorDetail idempotency
    have hcreated : ((intent.record C).get? "created_ts".toList).bind Json.asI64 =
        some createdTs.val := asI64_int createdTs
    have hmessage : ((intent.record C).get? "message_id".toList).bind Json.asI64 =
        some messageId.val := asI64_int messageId
    rw [QueuedAckIntent.fromValue, hcreated, hmessage]
    cases idempotency with
    | none => rfl
    | some claim => rfl

theorem ackRecord_intent (haccepted : a.isRefused C = false) :
    ackRecord C (a.record C) = .intent (q.intentId, q.contentSha256) q := by
  have hkind : (a.record C).strField "kind".toList = some ackIntentKind := by
    cases a with
    | marker => cases hq
    | intent => rfl
  have hother : ¬ some ackIntentKind = some ackIntentReplayKind := by decide
  rw [ackRecord, hkind, if_neg fun h => hother h.1, if_pos rfl, supportedSchema_record hq haccepted,
    validHash_record hq, fromValue_record hq]
  rfl

end

/-- Whether a marker completes the intent of the given key. -/
def markerIsValid (intentId intentContentSha256 status : Text) : Bool :=
  isTerminalReplayStatus status && byteLen intentId == 16 && byteLen intentContentSha256 == 64 &&
    intentId.isPrefixOf intentContentSha256

/-- A marker completes its key if it is terminal and well formed. -/
theorem ackRecord_marker (C : Codec) (replayedTs : I64) (intentId intentContentSha256 status : Text)
    (errorDetail : Option Text) :
    ackRecord C (record C (.marker replayedTs intentId intentContentSha256 status
        errorDetail)) = if markerIsValid intentId intentContentSha256 status then
        .terminal (intentId, intentContentSha256) else .ignored := by
  have hash := byteLen_hash C (payload (.marker replayedTs intentId
    intentContentSha256 status errorDetail))
  have hcheck : ackReplayRecordHasValidHash C (record C (.marker replayedTs intentId
      intentContentSha256 status errorDetail)) =
      (byteLen intentId == 16 && byteLen intentContentSha256 == 64 &&
        intentId.isPrefixOf intentContentSha256) := by
    show (true && (byteLen (hashJsonValue C _) == 64 && byteLen intentId == 16 &&
      byteLen intentContentSha256 == 64 && intentId.isPrefixOf intentContentSha256 &&
      hashJsonValue C (payload (.marker replayedTs intentId intentContentSha256
        status errorDetail)) == hashJsonValue C (payload (.marker replayedTs intentId
          intentContentSha256 status errorDetail)))) = _
    rw [hash]
    simp
  have hstatus : ((record C (.marker replayedTs intentId intentContentSha256 status
      errorDetail)).strField "status".toList).any isTerminalReplayStatus =
      isTerminalReplayStatus status := rfl
  have hkind : (record C (.marker replayedTs intentId intentContentSha256 status
      errorDetail)).strField "kind".toList = some ackIntentReplayKind := rfl
  have hother : ¬ some ackIntentReplayKind = some ackIntentKind := by decide
  rw [ackRecord, hkind, hstatus, hcheck, markerIsValid]
  cases isTerminalReplayStatus status with
  | false => simp [hother]
  | true =>
    rw [if_pos ⟨rfl, rfl⟩, Bool.true_and]
    cases byteLen intentId == 16 && byteLen intentContentSha256 == 64 &&
        intentId.isPrefixOf intentContentSha256 with
    | false => rfl
    | true => rfl

/-! ### What is read is what is queued -/

/-- The key of an intent. -/
def QueuedAckIntent.key (q : QueuedAckIntent) : IntentKey := (q.intentId, q.contentSha256)

theorem queued_hash {a : JournalAppend} {q : QueuedAckIntent} (hq : a.queued C = some q) :
    q.key = ((hashJsonValue C a.payload).take 16, hashJsonValue C a.payload) := by
  cases a with
  | marker => cases hq
  | intent =>
    cases hq
    rfl

theorem toValue_injective {claim claim' : AckIntentIdempotency}
    (h : claim.toValue = claim'.toValue) : claim = claim' := by
  simp only [AckIntentIdempotency.toValue, Json.obj.injEq, List.cons.injEq, Prod.mk.injEq,
    true_and, Json.str.injEq, and_true] at h
  cases claim
  cases claim'
  simp_all

/-- The payload has every argument of the append. -/
theorem eq_of_payload {a b : JournalAppend} {q q' : QueuedAckIntent} (hq : a.queued C = some q)
    (hq' : b.queued C = some q') (h : a.payload = b.payload) : a = b := by
  cases a with
  | marker => cases hq
  | intent createdTs projectKey agentName messageId failureStage errorDetail idempotency =>
    cases b with
    | marker => cases hq'
    | intent createdTs' projectKey' agentName' messageId' failureStage' errorDetail' idempotency' =>
      simp only [payload, ackIntentFields, Json.obj.injEq, cons_append,
        nil_append, List.cons.injEq, Prod.mk.injEq, true_and, Json.int.injEq, Json.str.injEq,
        and_true] at h
      obtain ⟨_, hcreated, hproject, hagent, hmessage, ⟨hstage, hdetail⟩, hclaim⟩ := h
      have hlist : idempotency.toList = idempotency'.toList :=
        (map_inj_right fun _ _ h => toValue_injective (Prod.mk.inj h).2).mp hclaim
      have hidempotency : idempotency = idempotency' := by simpa using congrArg head? hlist
      rw [Subtype.ext hcreated, hproject, hagent, Subtype.ext hmessage, hstage, hdetail,
        hidempotency]

/-- Without collisions the key of an intent is the intent. -/
theorem queued_of_key (hC : C.Reliable values) {a b : JournalAppend} (ha : a.payload ∈ values)
    (hb : b.payload ∈ values) {q q' : QueuedAckIntent} (hq : a.queued C = some q)
    (hq' : b.queued C = some q') (h : q.key = q'.key) : q = q' := by
  rw [queued_hash hq, queued_hash hq', Prod.mk.injEq] at h
  have hsha : C.sha256 (C.toVec a.payload) = C.sha256 (C.toVec b.payload) :=
    Vector.toList_inj.mp (hexEncode_injective h.2)
  have htext := hC.no_collision _ ha _ hb hsha
  have hpayload : a.payload = b.payload := by
    have hread := hC.read_back _ ha
    rw [htext, hC.read_back _ hb] at hread
    exact (Option.some.inj hread).symm
  have heq := eq_of_payload hq hq' hpayload
  rw [heq, hq'] at hq
  exact (Option.some.inj hq).symm

/-- The intents among the records of the appends. -/
theorem intentsOf_appends {appends : List JournalAppend}
    (h : ∀ a ∈ appends, a.isRefused C = false) :
    intentsOf (appends.map fun a => ackRecord C (a.record C)) =
      (appends.filterMap (·.queued C)).map fun q => (q.key, q) := by
  induction appends with
  | nil => rfl
  | cons a appends ih =>
    rw [forall_mem_cons] at h
    have hrest := ih h.2
    rw [intentsOf] at hrest ⊢
    rw [map_cons]
    cases hq : a.queued C with
    | none =>
      have hnone : (ackRecord C (a.record C)).intent? = none := by
        cases a with
        | intent => cases hq
        | marker replayedTs intentId intentContentSha256 status errorDetail =>
          rw [ackRecord_marker]
          split
          · rfl
          · rfl
      rw [filterMap_cons_none hnone, filterMap_cons_none hq, hrest]
    | some q =>
      have hsome : (ackRecord C (a.record C)).intent? = some (q.key, q) := by
        rw [ackRecord_intent hq h.1]
        rfl
      rw [filterMap_cons_some hsome, filterMap_cons_some hq, hrest, map_cons]

/-- The keys that the records of the appends complete. -/
theorem mem_terminalsOf_appends {appends : List JournalAppend}
    (h : ∀ a ∈ appends, a.isRefused C = false) {q : QueuedAckIntent} {a₀ : JournalAppend}
    (hq : a₀.queued C = some q) :
    q.key ∈ terminalsOf (appends.map fun a => ackRecord C (a.record C)) ↔
      appends.any (·.completes q) = true := by
  rw [terminalsOf, mem_filterMap, any_eq_true]
  have hkey := queued_hash hq
  constructor
  · rintro ⟨r, hr, hterminal⟩
    obtain ⟨a, ha, rfl⟩ := mem_map.mp hr
    refine ⟨a, ha, ?_⟩
    cases a with
    | intent =>
      rw [ackRecord_intent rfl (h _ ha)] at hterminal
      cases hterminal
    | marker replayedTs intentId intentContentSha256 status errorDetail =>
      rw [ackRecord_marker] at hterminal
      split at hterminal
      · next hvalid =>
        rw [markerIsValid, Bool.and_eq_true, Bool.and_eq_true, Bool.and_eq_true] at hvalid
        have hpair : (intentId, intentContentSha256) = q.key := Option.some.inj hterminal
        rw [QueuedAckIntent.key, Prod.mk.injEq] at hpair
        rw [completes, hvalid.1.1.1, hpair.1, hpair.2]
        simp
      · cases hterminal
  · rintro ⟨a, ha, hcompletes⟩
    refine ⟨_, mem_map_of_mem ha, ?_⟩
    cases a with
    | intent => cases hcompletes
    | marker replayedTs intentId intentContentSha256 status errorDetail =>
      rw [completes, Bool.and_eq_true, Bool.and_eq_true, beq_iff_eq, beq_iff_eq] at hcompletes
      obtain ⟨⟨hstatus, hid⟩, hsha⟩ := hcompletes
      rw [QueuedAckIntent.key, Prod.mk.injEq] at hkey
      -- The key of an intent has the lengths that the reader asks for.
      have hvalid : markerIsValid intentId intentContentSha256 status = true := by
        rw [markerIsValid, hstatus, hid, hsha, hkey.1, hkey.2, byteLen_hash, byteLen_hash_take,
          List.isPrefixOf_iff_prefix.mpr (List.take_prefix _ _)]
        rfl
      rw [ackRecord_marker, if_pos hvalid, hid, hsha]
      rfl

theorem outstanding_appends (hC : C.Reliable values) {appends : List JournalAppend}
    (h : ∀ a ∈ appends, a.isRefused C = false) (hvalues : ∀ a ∈ appends, a.payload ∈ values) :
    (outstanding (appends.map fun a => ackRecord C (a.record C))).map (·.2) =
      queuedIntents C appends := by
  apply outstanding_eq_of_key (intentsOf_appends h)
  · intro q hq q' hq'
    obtain ⟨a, ha, hqa⟩ := mem_filterMap.mp hq
    obtain ⟨b, hb, hqb⟩ := mem_filterMap.mp hq'
    rw [beq_iff_eq]
    constructor
    · exact queued_of_key hC (hvalues a ha) (hvalues b hb) hqa hqb
    · rintro rfl
      rfl
  · intro q hq
    obtain ⟨a, _, hqa⟩ := mem_filterMap.mp hq
    exact mem_terminalsOf_appends h hqa

/-- For every history of appends and crashes, the reader returns the intents that were completely
written and not completed: each once, in order of first appearance, as they were appended. -/
theorem readQueuedAckIntents_journalAfter (C : Codec) (events : List JournalEvent)
    (hC : C.Reliable (writtenValues C events)) :
    readQueuedAckIntents C (journalAfter C events) =
      .ok (queuedIntents C (completeAppends C [] events)) := by
  have hrecord : ∀ e ∈ events, e.append.record C ∈ writtenValues C events := by
    intro e he
    exact mem_flatMap.mpr ⟨e, he, by simp⟩
  obtain ⟨hfit, hrecords⟩ := recordsIn_history hC events hrecord linesFit_nil
  have haccepted := completeAppends_accepted C [] events
  have hpayload : ∀ a ∈ completeAppends C [] events, a.payload ∈ writtenValues C events := by
    intro a ha
    obtain ⟨_, e, he, rfl⟩ := haccepted a ha
    exact mem_flatMap.mpr ⟨e, he, by simp⟩
  rw [readQueuedAckIntents, journalAfter, readQueued_eq hfit.of_lines fun _ _ => rfl, hrecords]
  have hempty : recordsIn C [] = [] := rfl
  rw [hempty, nil_append, map_map]
  exact congrArg Except.ok
    (outstanding_appends hC (fun a ha => (haccepted a ha).1) hpayload)

/-! ### A sample history -/

/-- A character in a JSON string. -/
def escapeChar (c : Char) : Text :=
  if c = '"' then ['\\', '"'] else if c = '\\' then ['\\', '\\']
  else if c = '\n' then ['\\', 'n'] else if c = '\r' then ['\\', 'r']
  else if c = '\t' then ['\\', 't'] else if c.toNat = 8 then ['\\', 'b']
  else if c.toNat = 12 then ['\\', 'f']
  else if c.toNat < 32 then
    "\\u00".toList ++ [Nat.digitChar (c.toNat / 16), Nat.digitChar (c.toNat % 16)]
  else [c]

def quote (t : Text) : Text := '"' :: t.flatMap escapeChar ++ ['"']

/-- The compact text of a value that is nested at most `depth` deep. -/
def compactText : Nat → Json → Text
  | _, .null => "null".toList
  | _, .bool b => if b then "true".toList else "false".toList
  | _, .int n => if n < 0 then '-' :: natText n.natAbs else natText n.natAbs
  | _, .float spelling => spelling
  | _, .str t => quote t
  | 0, _ => []
  | depth + 1, .arr values =>
    '[' :: [','].intercalate (values.map (compactText depth)) ++ [']']
  | depth + 1, .obj fields =>
    '{' :: [','].intercalate (fields.map fun f => quote f.1 ++ ':' :: compactText depth f.2) ++ ['}']

def sampleToVec (v : Json) : Bytes := (compactText 8 v).flatMap String.utf8EncodeChar

def sampleClaim : AckIntentIdempotency :=
  ⟨"k1".toList, "0123456789abcdef0123456789abcdef0123456789abcdef0123456789abcdef".toList⟩

def sampleAppend : JournalAppend :=
  .intent ⟨1, by decide⟩ "/p".toList "BlueLake".toList ⟨7, by decide⟩ "resolve_agent".toList
    "busy".toList (some sampleClaim)

def sampleDigest : Vector UInt8 32 :=
  #v[241, 102, 221, 137, 146, 17, 220, 73, 15, 111, 146, 160, 150, 64, 12, 246,
    133, 168, 156, 9, 142, 57, 255, 162, 136, 25, 11, 130, 235, 217, 82, 212]

def sampleSha256 (bytes : Bytes) : Vector UInt8 32 :=
  if bytes = sampleToVec sampleAppend.payload then sampleDigest else Vector.replicate 32 0

def sampleRecord : Json :=
  sampleAppend.record { toVec := sampleToVec, fromSlice := fun _ => none, sha256 := sampleSha256 }

def sampleCodec : Codec where
  toVec := sampleToVec
  fromSlice text := [sampleAppend.payload, sampleRecord].find? fun v =>
    sampleToVec v == text.rdropWhile isAsciiWhitespace
  sha256 := sampleSha256

theorem Codec.Reliable.mono {values' : List Json} (h : C.Reliable values)
    (hsub : ∀ v ∈ values', v ∈ values) : C.Reliable values' where
  one_line v hv := h.one_line v (hsub v hv)
  read_back v hv := h.read_back v (hsub v hv)
  torn v hv := h.torn v (hsub v hv)
  blank := h.blank
  line_end := h.line_end
  no_collision v hv w hw := h.no_collision v (hsub v hv) w (hsub w hw)

theorem sampleSha256_payload : sampleSha256 (sampleToVec sampleAppend.payload) = sampleDigest :=
  if_pos rfl

theorem sampleRecord_eq : sampleRecord = .obj (ackIntentFields ⟨1, by decide⟩ "/p".toList
    "BlueLake".toList ⟨7, by decide⟩ "resolve_agent".toList "busy".toList (some sampleClaim) ++
      [("intent_id".toList, .str ((hexEncode sampleDigest.toList).take 16)),
       ("content_sha256".toList, .str (hexEncode sampleDigest.toList))]) := by
  have hsha := sampleSha256_payload
  unfold sampleAppend at hsha
  unfold sampleRecord sampleAppend JournalAppend.record JournalAppend.contentSha256 hashJsonValue
  dsimp only
  rw [hsha]

theorem sampleValues_distinct :
    (sampleToVec sampleAppend.payload).isPrefixOf (sampleToVec sampleRecord) = false ∧
      (sampleToVec sampleRecord).isPrefixOf (sampleToVec sampleAppend.payload) = false ∧
      ∀ text ∈ [sampleToVec sampleAppend.payload, sampleToVec sampleRecord],
        newline ∉ text ∧ text ≠ [] ∧ text.rdropWhile isAsciiWhitespace = text ∧
          40 < text.length ∧ text.length < 999 := by
  rw [sampleRecord_eq]
  unfold sampleAppend sampleClaim JournalAppend.payload ackIntentFields ackIntentKind
    AckIntentIdempotency.toValue
  simp (disch := rfl) only [toList_lit]
  decide +kernel

theorem sampleCodec_reliable : sampleCodec.Reliable [sampleAppend.payload, sampleRecord] := by
  have hstrip : ∀ v ∈ [sampleAppend.payload, sampleRecord], newline ∉ sampleToVec v ∧
      sampleToVec v ≠ [] ∧ (sampleToVec v).rdropWhile isAsciiWhitespace = sampleToVec v := by
    intro v hv
    have hmem : sampleToVec v ∈ [sampleToVec sampleAppend.payload, sampleToVec sampleRecord] := by
      simp only [mem_cons, not_mem_nil, or_false] at hv ⊢
      exact hv.imp (congrArg _) (congrArg _)
    obtain ⟨hline, hne, hend, _⟩ := sampleValues_distinct.2.2 _ hmem
    exact ⟨hline, hne, hend⟩
  have hlead : ∀ v ∈ [sampleAppend.payload, sampleRecord],
      ∀ w ∈ [sampleAppend.payload, sampleRecord], sampleToVec v <+: sampleToVec w → v = w := by
    intro v hv w hw h
    have hdistinct := sampleValues_distinct
    simp only [mem_cons, not_mem_nil, or_false] at hv hw
    rcases hv with rfl | rfl
    · rcases hw with rfl | rfl
      · rfl
      · rw [← List.isPrefixOf_iff_prefix, hdistinct.1] at h
        cases h
    · rcases hw with rfl | rfl
      · rw [← List.isPrefixOf_iff_prefix, hdistinct.2.1] at h
        cases h
      · rfl
  constructor
  · exact fun v hv => (hstrip v hv).1
  · intro v hv
    show List.find? (fun w => sampleToVec w == (sampleToVec v).rdropWhile isAsciiWhitespace)
      [sampleAppend.payload, sampleRecord] = some v
    rw [(hstrip v hv).2.2]
    simp only [mem_cons, not_mem_nil, or_false] at hv
    rcases hv with rfl | rfl
    · exact List.find?_cons_of_pos (beq_self_eq_true _)
    · have hne : (sampleToVec sampleAppend.payload == sampleToVec sampleRecord) = false := by
        rw [beq_eq_false_iff_ne]
        intro heq
        have hdistinct := sampleValues_distinct.1
        rw [heq, List.isPrefixOf_iff_prefix.mpr prefix_rfl] at hdistinct
        cases hdistinct
      exact (List.find?_cons_of_neg (Bool.not_eq_true _ ▸ hne)).trans
        (List.find?_cons_of_pos (beq_self_eq_true _))
  · intro v hv text htext hne
    show List.find? _ _ = none
    rw [List.find?_eq_none]
    intro w hw heq
    have heq := beq_iff_eq.mp heq
    have hshort : text.rdropWhile isAsciiWhitespace <+: text := List.rdropWhile_prefix _ _
    have hvw := hlead w hw v hv (heq ▸ hshort.trans htext)
    rw [hvw] at heq
    -- The text of `v` would be shorter than itself.
    apply hne
    apply htext.eq_of_length_le
    have := hshort.length_le
    rw [← heq] at this
    exact this
  · intro text hblank
    show List.find? _ _ = none
    rw [List.find?_eq_none]
    intro w hw heq
    have hnil : text.rdropWhile isAsciiWhitespace = [] :=
      rdropWhile_eq_nil_iff.mpr (all_eq_true.mp hblank)
    rw [hnil, beq_iff_eq] at heq
    exact (hstrip w hw).2.1 heq
  · intro text
    show List.find? _ _ = List.find? _ _
    rw [rdropWhile_concat_pos _ _ _ rfl]
  · intro v hv w hw h
    have hdistinct := sampleValues_distinct
    have hsha : sampleSha256 (sampleToVec v) = sampleSha256 (sampleToVec w) := h
    have hrecord : sampleSha256 (sampleToVec sampleRecord) ≠
        sampleSha256 (sampleToVec sampleAppend.payload) := by
      have hne : sampleToVec sampleRecord ≠ sampleToVec sampleAppend.payload := by
        intro heq
        rw [heq, List.isPrefixOf_iff_prefix.mpr prefix_rfl] at hdistinct
        cases hdistinct.1
      rw [sampleSha256_payload, sampleSha256, if_neg hne]
      decide
    simp only [mem_cons, not_mem_nil, or_false] at hv hw
    rcases hv with rfl | rfl
    · rcases hw with rfl | rfl
      · rfl
      · exact absurd hsha.symm hrecord
    · rcases hw with rfl | rfl
      · exact absurd hsha hrecord
      · rfl

/-- Forty bytes are not the whole append, and a thousand are. -/
theorem sample_isComplete (journal : Bytes) :
    JournalEvent.isComplete sampleCodec journal ⟨sampleAppend, 40⟩ = false ∧
      JournalEvent.isComplete sampleCodec journal ⟨sampleAppend, 1000⟩ = true := by
  obtain ⟨_, _, _, hlow, hhigh⟩ :=
    sampleValues_distinct.2.2 (sampleToVec sampleRecord) (mem_cons_of_mem _ mem_cons_self)
  have hrecord : sampleAppend.record sampleCodec = sampleRecord := rfl
  have hclaim : sampleClaim.isValid = true := by
    unfold sampleClaim
    simp (disch := rfl) only [toList_lit]
    decide +kernel
  have htoVec : sampleCodec.toVec sampleRecord = sampleToVec sampleRecord := rfl
  have hline : 40 + 1 < (journalLine sampleCodec journal sampleRecord).length ∧
      (journalLine sampleCodec journal sampleRecord).length ≤ 1000 + 1 := by
    rcases journalLine_cases sampleCodec journal sampleRecord with ⟨_, hline⟩ | hline
    · rw [hline, htoVec, length_append, length_singleton]
      omega
    · rw [hline, htoVec, length_cons, length_append, length_singleton]
      omega
  have haccepted : sampleAppend.isRefused sampleCodec = false := by
    unfold JournalAppend.isRefused
    rw [hrecord, htoVec, maxIntentRecordBytes, Bool.or_eq_false_iff, decide_eq_false_iff_not]
    constructor
    · unfold sampleAppend
      dsimp only
      rw [hclaim, Bool.not_true]
    · omega
  rw [JournalEvent.isComplete, JournalEvent.isComplete, haccepted, hrecord]
  exact ⟨decide_eq_false (Nat.not_le.mpr hline.1), decide_eq_true hline.2⟩

theorem readQueuedAckIntents_sample :
    readQueuedAckIntents sampleCodec (journalAfter sampleCodec
      [⟨sampleAppend, 40⟩, ⟨sampleAppend, 1000⟩, ⟨sampleAppend, 1000⟩]) =
      .ok (sampleAppend.queued sampleCodec).toList := by
  rw [readQueuedAckIntents_journalAfter]
  · have hqueued : queuedIntents sampleCodec (completeAppends sampleCodec []
        [⟨sampleAppend, 40⟩, ⟨sampleAppend, 1000⟩, ⟨sampleAppend, 1000⟩]) =
        (sampleAppend.queued sampleCodec).toList := by
      rw [completeAppends, completeAppends, completeAppends, completeAppends, (sample_isComplete _).1,
        (sample_isComplete _).2, (sample_isComplete _).2]
      obtain ⟨q, hq⟩ : ∃ q, sampleAppend.queued sampleCodec = some q := ⟨_, rfl⟩
      have hnot : sampleAppend.completes q = false := rfl
      simp [queuedIntents, keepNew, hq, hnot]
    rw [hqueued]
  · apply sampleCodec_reliable.mono
    intro v hv
    obtain ⟨e, he, hv⟩ := mem_flatMap.mp hv
    have hsame : e.append = sampleAppend := by
      simp only [mem_cons, not_mem_nil, or_false, or_self] at he
      rcases he with rfl | rfl
      · rfl
      · rfl
    rw [hsame] at hv
    exact hv

end AgentMail.Journal
