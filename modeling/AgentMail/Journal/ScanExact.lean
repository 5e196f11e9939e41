import AgentMail.Journal.ScanDecode

/-!
# The scanner agrees with the one-shot readers

However a scan is cut into polls, and whatever is appended meanwhile, it ends with what the reader
returns on the bytes that it pinned. The invariant of a scan says what the part read so far amounts
to: closed lines that are all accepted, and one open line.
-/

namespace AgentMail.Journal

open Base Lib List

/-! ### What a scan should come to -/

/-- The one-shot reader of a journal. -/
def readQueuedIntents (C : Codec) (kind : Kind) (journal : Bytes) : Except IoError (List Intent) :=
  match kind with
  | .ack => (readQueuedAckIntents C journal).map fun intents => intents.map .ack
  | .release => (readQueuedReleaseIntents C journal).map fun intents => intents.map .release

/-- What the one-shot reader makes of a record, if it does not fail. -/
def recordOf (C : Codec) : Kind → Json → Record IntentKey Intent
  | .ack, v => (ackRecord C v).map .ack
  | .release, v => ((releaseRecord C v).toOption.getD .ignored).map .release

/-- The records of a journal, the intents with the bytes of their lines. -/
def sizedRecords (C : Codec) (kind : Kind) (journal : Bytes) :
    List (Record IntentKey (Intent × Nat)) :=
  (lines newline journal).filterMap fun line =>
    (lineRecord C line).map fun v => (recordOf C kind v).map fun intent => (intent, line.length)

/-- What a snapshot of the journal `pinned` holds between two polls: the intents that are
outstanding of the lines read, with their bytes, and the sum of these. -/
structure Pends (C : Codec) (kind : Kind) (pinned : Bytes) (s : Snapshot) : Prop where
  pending : s.pending.map (fun e => (e.1, e.2.2)) =
    outstanding (sizedRecords C kind (pinned.take (s.position - s.line.length)))
  pendingBytes : s.pendingBytes = (s.pending.map (·.2.2.2)).sum

/-- One poll of a scan that pinned the journal `pinned`. -/
structure PollSound (C : Codec) (kind : Kind) (pinned : Bytes) (v : Visited) : Prop where
  /-- A scan that completes returns what the reader returns. -/
  agrees : ∀ intents, v.result = .ok (some intents) → readQueuedIntents C kind pinned = .ok intents
  /-- It does not complete before the last byte is read. -/
  whole : ∀ intents, v.result = .ok (some intents) →
    ∀ s, v.advanced.snapshot = some s → s.position = pinned.length ∧ s.line = []
  pends : ∀ s, v.after.snapshot = some s → Pends C kind pinned s
  /-- An error leaves nothing behind, and neither does a list. -/
  cleared : v.result ≠ .ok none → v.after = .new kind

/-- Every poll of a run is sound. A scan pins the journal of its first poll and goes on as long as
the polls return no list and no error; `pinned` is what the scan in progress pinned. -/
def RunSound (C : Codec) (kind : Kind) : Option Bytes → List Visited → Prop
  | _, [] => True
  | pinned, v :: vs =>
    let pinned' := pinned.getD (v.journal.getD [])
    PollSound C kind pinned' v ∧
      RunSound C kind (if v.result = .ok none then some pinned' else none) vs

/-! ### Accepted lines -/

theorem sizedRecords_append (C : Codec) (kind : Kind) {front : Bytes} (h : Closed newline front)
    (back : Bytes) :
    sizedRecords C kind (front ++ back) = sizedRecords C kind front ++ sizedRecords C kind back := by
  rw [sizedRecords, h.lines_append, filterMap_append]
  rfl

theorem sizedRecords_map (C : Codec) (kind : Kind) (journal : Bytes) :
    (sizedRecords C kind journal).map (Record.map Prod.fst) =
      (recordsIn C journal).map (recordOf C kind) := by
  rw [sizedRecords, recordsIn, map_filterMap, map_filterMap]
  apply filterMap_congr
  intro line _
  rw [Option.map_map]
  congr 1
  funext v
  rw [Function.comp_apply]
  cases recordOf C kind v <;> rfl

theorem decode_eq {C : Codec} {kind : Kind} {v : Json} {r : Record IntentKey Intent}
    (h : decode C kind v = .ok r) : recordOf C kind v = r := by
  cases kind with
  | ack => exact (decode_ack h).symm
  | release =>
    obtain ⟨r', hr', rfl⟩ := decode_release h
    rw [recordOf, hr']
    rfl

/-- What a snapshot holds once the lines of `front` are accepted. -/
structure Accepted (C : Codec) (kind : Kind) (front : Bytes) (s : Snapshot) : Prop where
  same_kind : s.kind = kind
  defaults : s.limits = .default
  short : ∀ l ∈ lines newline front, l.length ≤ maxIntentRecordBytes
  decoded : ∀ v ∈ recordsIn C front, ∃ r, decode C kind v = .ok r
  holds : Holds (sizedRecords C kind front) ⟨s.pending, s.terminal, s.nextOrder⟩
  pendingBytes : s.pendingBytes = (s.pending.map (·.2.2.2)).sum

theorem filterMap_single {α β : Type} (f : α → Option β) (a : α) :
    [a].filterMap f = (f a).toList := by
  cases h : f a with
  | none => rw [filterMap_cons_none h, filterMap_nil, Option.toList_none]
  | some b => rw [filterMap_cons_some h, filterMap_nil, Option.toList_some]

section

variable {C : Codec} {kind : Kind} {front : Bytes} {s s' : Snapshot}

/-- The scan of a journal whose lines are all accepted agrees with its reader. -/
theorem Accepted.agrees (h : Accepted C kind front s) :
    readQueuedIntents C kind front = .ok s.intoIntents := by
  have hinto : s.intoIntents = (outstanding ((recordsIn C front).map (recordOf C kind))).map (·.2) := by
    have hmap : (outstanding ((sizedRecords C kind front).map (Record.map Prod.fst))).map (·.2) =
        ((outstanding (sizedRecords C kind front)).map (·.2)).map Prod.fst := by
      rw [outstanding_map, map_map, map_map]
      rfl
    rw [← sizedRecords_map, hmap, ← h.holds.intoIntents, OutstandingIntents.intoIntents,
      Snapshot.intoIntents, map_map]
    rfl
  rw [hinto]
  cases kind with
  | ack =>
    have hmap : (recordsIn C front).map (recordOf C .ack) =
        ((recordsIn C front).map (ackRecord C)).map (Record.map .ack) := by
      rw [map_map]
      rfl
    rw [hmap, outstanding_map, map_map, readQueuedIntents, readQueuedAckIntents,
      readQueued_eq (f := ackRecord C) h.short fun _ _ => rfl]
    simp only [Except.map, map_map]
    rfl
  | release =>
    have hmap : (recordsIn C front).map (recordOf C .release) =
        ((recordsIn C front).map fun v => (releaseRecord C v).toOption.getD .ignored).map
          (Record.map .release) := by
      rw [map_map]
      rfl
    rw [hmap, outstanding_map, map_map, readQueuedIntents, readQueuedReleaseIntents,
      readQueued_eq (f := fun v => (releaseRecord C v).toOption.getD .ignored) h.short]
    · simp only [Except.map, map_map]
      rfl
    · intro v hv
      obtain ⟨r, hr⟩ := h.decoded v hv
      obtain ⟨r', hr', -⟩ := decode_release hr
      rw [hr']
      rfl

theorem accept_frame (bytes : Nat) (s : Snapshot) (r : Record IntentKey Intent) :
    ∃ pending terminal pendingBytes nextOrder,
      (s.accept bytes r).2 = { s with pending, terminal, pendingBytes, nextOrder } := by
  cases r with
  | intent key intent =>
    rw [Snapshot.accept]
    split
    · exact ⟨_, _, _, _, rfl⟩
    · split
      · exact ⟨_, _, _, _, rfl⟩
      · split
        · exact ⟨_, _, _, _, rfl⟩
        · split
          · exact ⟨_, _, _, _, rfl⟩
          · exact ⟨_, _, _, _, rfl⟩
  | terminal key =>
    rw [Snapshot.accept]
    cases Assoc.get? key s.pending with
    | none =>
      simp only
      split
      · exact ⟨_, _, _, _, rfl⟩
      · split
        · exact ⟨_, _, _, _, rfl⟩
        · exact ⟨_, _, _, _, rfl⟩
    | some e =>
      simp only
      split
      · exact ⟨_, _, _, _, rfl⟩
      · split
        · exact ⟨_, _, _, _, rfl⟩
        · exact ⟨_, _, _, _, rfl⟩
  | ignored => exact ⟨_, _, _, _, rfl⟩

/-- The bytes of the pending intents without those of one key. -/
theorem sum_erase {key : IntentKey} {e : Nat × Intent × Nat}
    {pending : List (IntentKey × Nat × Intent × Nat)} (hkeys : (pending.map (·.1)).Nodup)
    (h : Assoc.get? key pending = some e) :
    ((Assoc.erase key pending).map (·.2.2.2)).sum = (pending.map (·.2.2.2)).sum - e.2.2 := by
  have hperm := Assoc.perm_cons_erase hkeys (Assoc.mem_of_get? h)
  rw [(hperm.map (·.2.2.2)).sum_nat, map_cons, sum_cons]
  exact (Nat.add_sub_cancel_left _ _).symm

theorem accept_ok {rs : List (Record IntentKey (Intent × Nat))} {bytes : Nat}
    {r : Record IntentKey Intent} (hholds : Holds rs ⟨s.pending, s.terminal, s.nextOrder⟩)
    (hbytes : s.pendingBytes = (s.pending.map (·.2.2.2)).sum)
    (hok : s.accept bytes r = (.ok (), s')) :
    Holds (rs ++ [r.map fun intent => (intent, bytes)]) ⟨s'.pending, s'.terminal, s'.nextOrder⟩ ∧
      s'.pendingBytes = (s'.pending.map (·.2.2.2)).sum := by
  have hstep := hholds.accept (r.map fun intent => (intent, bytes))
  have hkeys : (s.pending.map (·.1)).Nodup := by
    have hnodup := nodup_keys_outstanding rs
    rw [← hholds.pending, map_map] at hnodup
    exact hnodup
  cases r with
  | intent key intent =>
    simp only [Record.map, OutstandingIntents.accept, OutstandingIntents.insert] at hstep ⊢
    rw [Snapshot.accept] at hok
    split at hok
    · next hold =>
      cases hok
      refine ⟨?_, hbytes⟩
      split at hstep
      · exact hstep
      · next hnot => rwa [if_pos (by tauto)] at hstep
    · next hnew =>
      rw [not_or] at hnew
      rw [if_neg hnew.1, if_neg hnew.2] at hstep
      split at hok
      · cases hok
      · split at hok
        · cases hok
        · split at hok
          · cases hok
          · cases hok
            refine ⟨hstep, ?_⟩
            rw [map_append, sum_append, ← hbytes]
            rfl
  | terminal key =>
    simp only [Record.map, OutstandingIntents.accept, OutstandingIntents.complete] at hstep ⊢
    rw [Snapshot.accept] at hok
    cases hget : Assoc.get? key s.pending with
    | none =>
      rw [hget] at hok
      rw [Assoc.erase_of_get?_none hget] at hstep
      simp only at hok
      split at hok
      · next hdone =>
        cases hok
        rw [if_pos hdone] at hstep
        exact ⟨hstep, hbytes⟩
      · next hnot =>
        rw [if_neg hnot] at hstep
        split at hok
        · cases hok
        · cases hok
          exact ⟨hstep, hbytes⟩
    | some e =>
      rw [hget] at hok
      simp only at hok
      have hsum := sum_erase hkeys hget
      rw [← hbytes] at hsum
      split at hok
      · next hdone =>
        cases hok
        rw [if_pos hdone] at hstep
        exact ⟨hstep, hsum.symm⟩
      · next hnot =>
        rw [if_neg hnot] at hstep
        split at hok
        · cases hok
        · cases hok
          exact ⟨hstep, hsum.symm⟩
  | ignored =>
    cases hok
    exact ⟨hstep, hbytes⟩

/-- A line that is accepted leaves the reader where it is. -/
theorem acceptLine_frame (hok : s.acceptLine C = (.ok (), s')) :
    ∃ pending terminal pendingBytes nextOrder skipped,
      s' = { s with line := [], pending, terminal, pendingBytes, nextOrder, skipped } := by
  unfold Snapshot.acceptLine at hok
  split at hok
  · cases hok
    exact ⟨_, _, _, _, _, rfl⟩
  · split at hok
    · next value _ =>
      cases hdecode : decode C s.kind value with
      | error e =>
        rw [hdecode] at hok
        cases hok
      | ok r =>
        rw [hdecode] at hok
        change Snapshot.accept s.line.length { s with line := [] } r = (.ok (), s') at hok
        obtain ⟨pending, terminal, pendingBytes, nextOrder, hframe⟩ :=
          accept_frame s.line.length { s with line := [] } r
        rw [hok] at hframe
        exact ⟨pending, terminal, pendingBytes, nextOrder, _, hframe⟩
    · cases hok
      exact ⟨_, _, _, _, _, rfl⟩

theorem Accepted.acceptLine (h : Accepted C kind front s) (hclosed : Closed newline front)
    (hline : lines newline s.line = [s.line]) (hshort : s.line.length ≤ maxIntentRecordBytes)
    (hok : s.acceptLine C = (.ok (), s')) : Accepted C kind (front ++ s.line) s' := by
  have hsized : sizedRecords C kind (front ++ s.line) = sizedRecords C kind front ++
      ((lineRecord C s.line).map fun v =>
        (recordOf C kind v).map fun intent => (intent, s.line.length)).toList := by
    rw [sizedRecords_append C kind hclosed, sizedRecords, sizedRecords, hline, filterMap_single]
  have hrecords : recordsIn C (front ++ s.line) = recordsIn C front ++ (lineRecord C s.line).toList := by
    rw [recordsIn_append C hclosed, recordsIn, recordsIn, hline, filterMap_single]
  have hlines : ∀ l ∈ lines newline (front ++ s.line), l.length ≤ maxIntentRecordBytes := by
    rw [hclosed.lines_append, hline]
    intro l hl
    rcases mem_append.mp hl with hl | hl
    · exact h.short l hl
    · rwa [mem_singleton.mp hl]
  -- A line without a record leaves the snapshot as it is.
  have hskip (hnone : lineRecord C s.line = none) (skipped : Nat) :
      Accepted C kind (front ++ s.line) { s with line := [], skipped } := by
    rw [hnone, Option.map_none, Option.toList_none, append_nil] at hsized
    rw [hnone, Option.toList_none, append_nil] at hrecords
    exact ⟨h.same_kind, h.defaults, hlines, hrecords ▸ h.decoded, hsized ▸ h.holds, h.pendingBytes⟩
  unfold Snapshot.acceptLine at hok
  split at hok
  · next hblank =>
    cases hok
    exact hskip (if_pos hblank) s.skipped
  · next hblank =>
    split at hok
    · next value hvalue =>
      have hsome : lineRecord C s.line = some value := (if_neg hblank).trans hvalue
      cases hdecode : decode C s.kind value with
      | error e =>
        rw [hdecode] at hok
        cases hok
      | ok r =>
        rw [hdecode] at hok
        rw [h.same_kind] at hdecode
        change Snapshot.accept s.line.length { s with line := [] } r = (.ok (), s') at hok
        rw [hsome, Option.map_some, Option.toList_some, decode_eq hdecode] at hsized
        rw [hsome, Option.toList_some] at hrecords
        obtain ⟨hholds, hbytes⟩ := accept_ok (s := { s with line := [] }) h.holds h.pendingBytes hok
        obtain ⟨_, _, _, _, hframe⟩ := accept_frame s.line.length { s with line := [] } r
        rw [hok] at hframe
        constructor
        · exact (congrArg Snapshot.kind hframe).trans h.same_kind
        · exact (congrArg Snapshot.limits hframe).trans h.defaults
        · exact hlines
        · rw [hrecords]
          intro v hv
          rcases mem_append.mp hv with hv | hv
          · exact h.decoded v hv
          · rw [mem_singleton.mp hv]
            exact ⟨r, hdecode⟩
        · rw [hsized]
          exact hholds
        · exact hbytes
    · next hvalue =>
      cases hok
      exact hskip ((if_neg hblank).trans hvalue) _

end

/-! ### A scan in progress -/

/-- The bytes read so far are closed lines, all accepted, and an open one. -/
structure Reading (C : Codec) (kind : Kind) (pinned front : Bytes) (s : Snapshot) : Prop
    extends Accepted C kind front s where
  initialBytes : s.initialBytes = pinned.length
  position : s.position = front.length + s.line.length
  read : front ++ s.line <+: pinned
  closed : Closed newline front
  opened : newline ∉ s.line
  line_short : s.line.length ≤ maxIntentRecordBytes

/-- The whole journal is accepted. -/
structure Finished (C : Codec) (kind : Kind) (pinned : Bytes) (s : Snapshot) : Prop
    extends Accepted C kind pinned s where
  position : s.position = pinned.length
  line : s.line = []

theorem newlineAt_none {available : Bytes} (h : newlineAt available = none) :
    newline ∉ available := by
  intro hmem
  have := List.findIdx?_eq_none_iff.mp h newline hmem
  cases this

theorem newlineAt_some {available : Bytes} {i : Nat} (h : newlineAt available = some i) :
    available.take (i + 1) = available.take i ++ [newline] ∧ newline ∉ available.take i := by
  obtain ⟨hi, hnewline, hbefore⟩ := List.findIdx?_eq_some_iff_getElem.mp h
  rw [beq_iff_eq] at hnewline
  constructor
  · rw [take_succ_eq_append_getElem hi, hnewline]
  · intro hmem
    obtain ⟨j, hj, hget⟩ := mem_iff_getElem.mp hmem
    rw [length_take] at hj
    rw [getElem_take] at hget
    apply hbefore j (by omega)
    rw [beq_iff_eq]
    exact hget

section

variable {C : Codec} {kind : Kind} {pinned front : Bytes} {s s' : Snapshot}

section

variable (h : Reading C kind pinned front s)
include h

theorem Reading.pends : Pends C kind pinned s where
  pending := by
    have hfront : pinned.take (s.position - s.line.length) = front := by
      rw [h.position, Nat.add_sub_cancel]
      exact (prefix_iff_eq_take.mp ((prefix_append _ _).trans h.read)).symm
    rw [hfront]
    exact h.holds.pending
  pendingBytes := h.pendingBytes

theorem Reading.consume {available : Bytes}
    (hnext : available <+: pinned.drop s.position) (hok : s.consume C available = (.ok (), s')) :
    ∃ front', Reading C kind pinned front' s' := by
  have hread : front ++ s.line = pinned.take s.position := by
    rw [h.position, ← length_append]
    exact prefix_iff_eq_take.mp h.read
  have hmore (n : Nat) : front ++ (s.line ++ available.take n) <+: pinned := by
    rw [← append_assoc, hread]
    have hjoin := (prefix_append_right_inj (pinned.take s.position)).mpr
      ((List.take_prefix n available).trans hnext)
    rwa [take_append_drop] at hjoin
  simp only [Snapshot.consume] at hok
  split at hok
  · cases hok
  · next hfits =>
    rw [h.defaults] at hfits
    have hlimit : s.line.length + consumedBytes available ≤ maxIntentRecordBytes := by
      have hline := h.line_short
      unfold maxIntentRecordBytes at hline ⊢
      simp only [Limits.default] at hfits
      omega
    have hlength : (available.take (consumedBytes available)).length = consumedBytes available := by
      rw [length_take]
      exact min_eq_left (consumedBytes_le available)
    have hposition : s.position + consumedBytes available =
        (front ++ (s.line ++ available.take (consumedBytes available))).length := by
      rw [length_append, length_append, hlength, h.position]
      omega
    have hshort : (s.line ++ available.take (consumedBytes available)).length ≤
        maxIntentRecordBytes := by
      rw [length_append, hlength]
      exact hlimit
    cases hat : newlineAt available with
    | none =>
      have hall : consumedBytes available = available.length := by rw [consumedBytes, hat]
      rw [hat, Option.isSome_none, if_neg Bool.false_ne_true] at hok
      cases hok
      refine ⟨front, ⟨h.same_kind, h.defaults, h.short, h.decoded, h.holds, h.pendingBytes⟩,
        h.initialBytes, ?_, hmore _, h.closed, ?_, hshort⟩
      · rw [← length_append]
        exact hposition
      · rw [hall, take_length, mem_append, not_or]
        exact ⟨h.opened, newlineAt_none hat⟩
    | some i =>
      have hindex : consumedBytes available = i + 1 := by rw [consumedBytes, hat]
      obtain ⟨htake, hbefore⟩ := newlineAt_some hat
      rw [hat, Option.isSome_some, if_pos rfl] at hok
      have hopen : newline ∉ s.line ++ available.take i := by
        rw [mem_append, not_or]
        exact ⟨h.opened, hbefore⟩
      have hline : s.line ++ available.take (consumedBytes available) =
          s.line ++ available.take i ++ [newline] := by
        rw [hindex, htake, append_assoc]
      have hlines : lines newline (s.line ++ available.take (consumedBytes available)) =
          [s.line ++ available.take (consumedBytes available)] := by
        rw [hline]
        exact lines_concat_of_not_mem hopen
      have haccepted := Accepted.acceptLine
        (s := { s with
          line := s.line ++ available.take (consumedBytes available)
          position := s.position + consumedBytes available })
        ⟨h.same_kind, h.defaults, h.short, h.decoded, h.holds, h.pendingBytes⟩ h.closed hlines
        hshort hok
      obtain ⟨_, _, _, _, _, rfl⟩ := acceptLine_frame hok
      refine ⟨_, haccepted, h.initialBytes, hposition, ?_, ?_, not_mem_nil, Nat.zero_le _⟩
      · rw [append_nil]
        exact hmore _
      · right
        exact ⟨front ++ (s.line ++ available.take i), by simp only [hline, append_assoc]⟩

theorem Reading.finish {complete : Bool}
    (hok : s.finish C = (.ok complete, s')) : complete = true ∧ Finished C kind pinned s' := by
  unfold Snapshot.finish at hok
  split at hok
  · cases hok
  · next hposition =>
    rw [not_not, h.initialBytes] at hposition
    have hall : front ++ s.line = pinned := by
      apply h.read.eq_of_length
      rw [length_append, ← h.position, hposition]
    split at hok
    · next hline =>
      cases hok
      rw [hline, append_nil] at hall
      exact ⟨rfl, hall ▸ h.toAccepted, hposition, hline⟩
    · next hline =>
      cases haccept : s.acceptLine C with
      | mk result s₁ =>
        rw [haccept] at hok
        cases result with
        | error e => cases hok
        | ok _ =>
          cases hok
          have haccepted := h.toAccepted.acceptLine h.closed
            (lines_of_not_mem h.opened hline) h.line_short haccept
          obtain ⟨_, _, _, _, _, rfl⟩ := acceptLine_frame haccept
          exact ⟨rfl, hall ▸ haccepted, hposition, rfl⟩

/-- What comes next are pinned bytes, however the journal has grown. -/
theorem Reading.fillBuf {journal : Bytes}
    (hjournal : pinned <+: journal) {available : Except IoError Nat} {filled : Bytes}
    (hfilled : s.fillBuf journal available = .ok filled) : filled <+: pinned.drop s.position := by
  unfold Snapshot.fillBuf at hfilled
  cases available with
  | error e => cases hfilled
  | ok n =>
    cases hfilled
    rw [h.initialBytes, ← prefix_iff_eq_take.mp hjournal]
    exact List.take_prefix _ _

end

theorem Poll.prefix_journalAt (poll : Poll) (journal : Bytes) (turn : Nat) :
    journal <+: poll.journalAt journal turn := prefix_append _ _

theorem Reading.advance (poll : Poll) {journal : Bytes} (hjournal : pinned <+: journal)
    (turn bytes records : Nat) {complete : Bool} (h : Reading C kind pinned front s)
    (hok : s.advance C poll journal turn bytes records = (.ok complete, s')) :
    if complete = true then Finished C kind pinned s' else ∃ front', Reading C kind pinned front' s' := by
  induction bytes using Nat.strong_induction_on generalizing turn records front s with
  | _ bytes ih =>
    rw [Snapshot.advance] at hok
    split at hok
    · cases hok
      exact ⟨front, h⟩
    · next hbytes =>
      split at hok
      · cases hok
        exact ⟨front, h⟩
      · split at hok
        · cases hok
        · split at hok
          · cases hok
          · next filled hfilled =>
            have hgrown := hjournal.trans (poll.prefix_journalAt journal turn)
            split at hok
            · obtain ⟨rfl, hfinished⟩ := h.finish hok
              exact hfinished
            · next hne =>
              have hnext : filled.take bytes <+: pinned.drop s.position :=
                (List.take_prefix _ _).trans (h.fillBuf hgrown hfilled)
              simp only at hok
              split at hok
              · cases hok
              · next s₁ hconsume =>
                obtain ⟨front₁, h₁⟩ := h.consume hnext hconsume
                have hpos : 0 < consumedBytes (filled.take bytes) := by
                  apply consumedBytes_pos
                  rw [ne_eq, take_eq_nil_iff]
                  tauto
                exact ih _ (by omega) _ _ h₁ hok

theorem reading_openAt {journal : Option Bytes} {opened : Except IoError Unit}
    (h : Snapshot.openAt opened kind .default journal = .ok (some s)) :
    journal.isSome = true ∧ Reading C kind (journal.getD []) [] s := by
  unfold Snapshot.openAt at h
  split at h
  · cases h
  · cases h
  · split at h
    · cases h
    · cases h
      exact ⟨rfl, ⟨rfl, rfl, fun _ hl => absurd hl not_mem_nil,
        fun _ hv => absurd hv not_mem_nil, holds_new, rfl⟩, rfl, rfl, List.nil_prefix, .inl rfl,
        not_mem_nil, Nat.zero_le _⟩

end

/-! ### Polls -/

/-- What a poll makes of a scan of `pinned`. -/
structure Advanced (C : Codec) (kind : Kind) (pinned : Bytes) (result : PollResult) (w : Scanner) :
    Prop where
  same_kind : w.kind = kind
  defaults : w.limits = .default
  list : ∀ intents, result = .ok (some intents) → readQueuedIntents C kind pinned = .ok intents ∧
      ∀ s, w.snapshot = some s → s.position = pinned.length ∧ s.line = []
  progress : result = .ok none → ∃ s front, w.snapshot = some s ∧ Reading C kind pinned front s

section

variable {C : Codec} {kind : Kind} {w : Scanner} (hkind : w.kind = kind)
  (hlimits : w.limits = .default)
include hkind hlimits

theorem advanced_error (pinned : Bytes) (e : IoError) (snapshot : Option Snapshot) :
    Advanced C kind pinned (.error e) { w with snapshot } where
  same_kind := hkind
  defaults := hlimits
  list _ h := by cases h
  progress h := by cases h

theorem advanceSnapshot_sound (poll : Poll) {pinned front journal : Bytes} {s : Snapshot}
    (h : Reading C kind pinned front s) (hjournal : pinned <+: journal) :
    Advanced C kind pinned (w.advanceSnapshot C poll journal s).1
      (w.advanceSnapshot C poll journal s).2 := by
  unfold Scanner.advanceSnapshot
  split
  · exact advanced_error hkind hlimits pinned _ _
  · split
    · exact advanced_error hkind hlimits pinned _ _
    · next complete s' hadvance =>
      have hs' := h.advance poll hjournal 0 poll.bytes poll.records hadvance
      split
      · exact advanced_error hkind hlimits pinned _ _
      · cases complete with
        | true =>
          refine ⟨hkind, hlimits, ?_, fun hresult => by cases hresult⟩
          intro intents hresult
          cases hresult
          refine ⟨hs'.agrees, ?_⟩
          intro s'' hs''
          cases hs''
          exact ⟨hs'.position, hs'.line⟩
        | false =>
          obtain ⟨front', hreading⟩ := hs'
          refine ⟨hkind, hlimits, (fun intents hresult => by cases hresult), ?_⟩
          intro _
          exact ⟨s', front', rfl, hreading⟩

end

/-- A scanner before a poll: nothing is in progress, or the scan of `pinned` is. -/
structure Ready (C : Codec) (kind : Kind) (journal : Option Bytes) (pinned : Option Bytes)
    (w : Scanner) : Prop where
  same_kind : w.kind = kind
  defaults : w.limits = .default
  snapshot : match pinned with
    | none => w.snapshot = none
    | some p => p <+: journal.getD [] ∧ ∃ s front, w.snapshot = some s ∧ Reading C kind p front s

section

variable {C : Codec} {kind : Kind} {journal pinned : Option Bytes} {w : Scanner}

theorem Ready.advance (h : Ready C kind journal pinned w) (poll : Poll) :
    Advanced C kind (pinned.getD (journal.getD [])) (w.advance C poll journal).1
      (w.advance C poll journal).2 := by
  unfold Scanner.advance
  split
  · exact advanced_error h.same_kind h.defaults _ _ w.snapshot
  · cases pinned with
    | some p =>
      obtain ⟨hgrown, s, front, hs, hreading⟩ := h.snapshot
      rw [hs]
      exact advanceSnapshot_sound h.same_kind h.defaults poll hreading hgrown
    | none =>
      have hnone : w.snapshot = none := h.snapshot
      rw [hnone]
      simp only
      split
      · exact advanced_error h.same_kind h.defaults _ _ w.snapshot
      · next hopen =>
        -- There is no journal.
        have hjournal : journal = none := by
          unfold Snapshot.openAt at hopen
          split at hopen
          · cases hopen
          · rfl
          · split at hopen
            · cases hopen
            · cases hopen
        rw [hjournal]
        refine ⟨h.same_kind, h.defaults, ?_, fun hresult => by cases hresult⟩
        intro intents hresult
        cases hresult
        refine ⟨?_, fun s hs => ?_⟩
        · cases kind <;> rfl
        · rw [hnone] at hs
          cases hs
      · next s hopen =>
        rw [h.same_kind, h.defaults] at hopen
        exact advanceSnapshot_sound h.same_kind h.defaults poll (reading_openAt hopen).2
          prefix_rfl

/-- One poll is sound, and the next one finds the scanner ready. -/
theorem Ready.pollBounded (h : Ready C kind journal pinned w) (poll : Poll) :
    PollSound C kind (pinned.getD (journal.getD []))
        ⟨journal, (w.advance C poll journal).2, (w.pollBounded C poll journal).1,
          (w.pollBounded C poll journal).2⟩ ∧
      ∀ later, journal.getD [] <+: later.getD [] → Ready C kind later
        (if (w.pollBounded C poll journal).1 = .ok none then some (pinned.getD (journal.getD []))
          else none) (w.pollBounded C poll journal).2 := by
  have hadvance := h.advance poll
  have hpinned : pinned.getD (journal.getD []) <+: journal.getD [] := by
    cases pinned with
    | none => exact prefix_rfl
    | some p => exact h.snapshot.1
  cases hstep : w.advance C poll journal with
  | mk result w' =>
    rw [hstep] at hadvance
    -- The snapshot is gone, whatever was in it.
    have hclear : PollSound C kind (pinned.getD (journal.getD []))
          ⟨journal, w', result, { w' with snapshot := none }⟩ ∧
        ∀ later, Ready C kind later none { w' with snapshot := none } := by
      refine ⟨⟨fun intents hresult => (hadvance.list intents hresult).1,
        fun intents hresult => (hadvance.list intents hresult).2, (fun s hs => by cases hs), ?_⟩,
        fun later => ⟨hadvance.same_kind, hadvance.defaults, rfl⟩⟩
      intro _
      show (⟨w'.kind, none, w'.limits⟩ : Scanner) = .new kind
      rw [hadvance.same_kind, hadvance.defaults]
      rfl
    cases result with
    | error e =>
      have hpoll : w.pollBounded C poll journal = (.error e, { w' with snapshot := none }) := by
        rw [Scanner.pollBounded, hstep]
      rw [hpoll]
      exact ⟨hclear.1, fun later _ => hclear.2 later⟩
    | ok list =>
      cases list with
      | some intents =>
        have hpoll : w.pollBounded C poll journal =
            (.ok (some intents), { w' with snapshot := none }) := by
          rw [Scanner.pollBounded, hstep]
        rw [hpoll]
        exact ⟨hclear.1, fun later _ => hclear.2 later⟩
      | none =>
        have hpoll : w.pollBounded C poll journal = (.ok none, w') := by
          rw [Scanner.pollBounded, hstep]
        rw [hpoll]
        obtain ⟨s, front, hs, hreading⟩ := hadvance.progress rfl
        refine ⟨⟨(fun _ hresult => by cases hresult), (fun _ hresult => by cases hresult), ?_,
          fun hnot => absurd rfl hnot⟩, ?_⟩
        · intro s' hs'
          rw [hs] at hs'
          cases hs'
          exact hreading.pends
        · intro later hlater
          rw [if_pos rfl]
          exact ⟨hadvance.same_kind, hadvance.defaults, hpinned.trans hlater, s, front, hs, hreading⟩

end

theorem prefix_grow (journal appended : Option Bytes) :
    journal.getD [] <+: (grow journal appended).getD [] := by
  cases appended with
  | none => exact prefix_rfl
  | some bytes => exact prefix_append _ _

/-- A run from a scanner that stays ready however the journal grows. -/
theorem runSound_of_ready {C : Codec} {kind : Kind} (visits : List Visit)
    {journal pinned : Option Bytes} {w : Scanner}
    (h : ∀ later, journal.getD [] <+: later.getD [] → Ready C kind later pinned w) :
    RunSound C kind pinned (runPolls C w journal visits) := by
  induction visits generalizing journal pinned w with
  | nil => exact trivial
  | cons visit visits ih =>
    obtain ⟨hsound, hnext⟩ := (h _ (prefix_grow journal visit.appended)).pollBounded visit.poll
    refine ⟨hsound, ih ?_⟩
    intro later hlater
    apply hnext later
    apply List.IsPrefix.trans _ hlater
    cases hgrown : grow journal visit.appended with
    | none => exact prefix_rfl
    | some bytes => exact visit.poll.prefix_journalAt bytes _

/-- For every journal, every sequence of polls with any budgets and any appends before and during
them: a scan that completes has read every byte it pinned and returns what the reader returns on
them, the bytes of what is pending add up at any time, and an error leaves nothing behind. -/
theorem runPolls_sound (C : Codec) (kind : Kind) (journal : Option Bytes) (visits : List Visit) :
    RunSound C kind none (runPolls C (.new kind) journal visits) :=
  runSound_of_ready visits fun _ _ => ⟨rfl, rfl, rfl⟩

end AgentMail.Journal
