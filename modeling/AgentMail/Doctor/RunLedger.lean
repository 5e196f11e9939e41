import AgentMail.Base.Bytes
import AgentMail.Lib.Lines
import AgentMail.Lib.Recency

/-!
# The run ledger

`record_run_in_ledger_at`, `read_ledger_entries`, `lookup_run_in_ledger_at` and the compaction
(`crates/mcp-agent-mail-cli/src/doctor/manifest.rs:636–866`): a file of one JSON line for each sealed
run, outside every repository, that is compacted when it has grown too large.

`serde_json` is a parameter. The ledger is a regular file or absent; its lock makes calls follow one
another, so a history is the list of calls in the order of the lock.
-/

namespace AgentMail.Doctor

open Base Lib List

structure LedgerEntry where
  runId : Text
  hmacSha256 : Text
  actionsSha256 : Text
  backupsRootSha256 : Text
  repo : Text
  sealedAtUs : Int

/-- What the ledger takes from `serde_json`. -/
structure EntryCodec where
  /-- `serde_json::to_vec`. -/
  toVec : LedgerEntry → Bytes
  /-- `serde_json::from_slice`. -/
  fromSlice : Bytes → Option LedgerEntry

def ledgerMaxBytes : Nat := 1024 * 1024

def ledgerKeepEntries : Nat := 2048

/-! ### Reading -/

/-- The entry of a line, which is skipped if it is empty or malformed. -/
def lineEntry (S : EntryCodec) (line : Bytes) : Option LedgerEntry :=
  if line.isEmpty then none else S.fromSlice line

def entriesIn (S : EntryCodec) (bytes : Bytes) : List LedgerEntry :=
  (bytes.splitOn newline).filterMap (lineEntry S)

/-- The ledger file, or that there is none. -/
abbrev LedgerFile : Type := Option Bytes

def readLedgerEntries (S : EntryCodec) : LedgerFile → List LedgerEntry
  | none => []
  | some bytes => entriesIn S bytes

def lookupRunInLedgerAt (S : EntryCodec) (ledger : LedgerFile) (runId : Text) :
    Option LedgerEntry :=
  (readLedgerEntries S ledger).reverse.find? fun e => e.runId = runId

/-! ### Compaction -/

/-- The loop of `compact_entries` over the entries from the newest on. -/
def compactLoop (keep : Nat) :
    List LedgerEntry → List Text → List LedgerEntry → List LedgerEntry
  | [], _, kept => kept
  | entry :: entries, seen, kept =>
    if entry.runId ∈ seen then compactLoop keep entries seen kept
    else
      let kept := kept ++ [entry]
      if keep ≤ kept.length then kept
      else compactLoop keep entries (entry.runId :: seen) kept

def compactEntries (entries : List LedgerEntry) (keep : Nat) : List LedgerEntry :=
  (compactLoop keep entries.reverse [] []).reverse

def ledgerLine (S : EntryCodec) (entry : LedgerEntry) : Bytes := S.toVec entry ++ [newline]

def compactLedgerIfOversized (S : EntryCodec) : LedgerFile → LedgerFile
  | none => none
  | some bytes =>
    if bytes.length ≤ ledgerMaxBytes then some bytes
    else
      let kept := compactEntries (readLedgerEntries S (some bytes)) ledgerKeepEntries
      some (kept.flatMap (ledgerLine S))

/-! ### Recording a run -/

/-- How a call ends. -/
inductive RecordEnding where
  /-- The call returns `Ok`. -/
  | returned
  /-- The call fails or crashes after `written` bytes of its line. -/
  | stopped (written : Nat)
  /-- The call fails or crashes before it, or its compaction, has changed the ledger. -/
  | refused
  deriving DecidableEq

structure RecordCall where
  entry : LedgerEntry
  ending : RecordEnding

/-- The bytes of its line that a call writes. -/
def RecordCall.appended (S : EntryCodec) (call : RecordCall) : Bytes :=
  match call.ending with
  | .returned => ledgerLine S call.entry
  | .stopped written => (ledgerLine S call.entry).take written
  | .refused => []

/-- The ledger that a call appends to. -/
def RecordCall.compacted (S : EntryCodec) (call : RecordCall) (ledger : LedgerFile) : LedgerFile :=
  match call.ending with
  | .refused => ledger
  | .returned | .stopped _ => compactLedgerIfOversized S ledger

def recordRunInLedgerAt (S : EntryCodec) (ledger : LedgerFile) (call : RecordCall) : LedgerFile :=
  match call.ending with
  | .refused => ledger
  | .returned | .stopped _ =>
    some ((call.compacted S ledger).getD [] ++ call.appended S)

/-- The ledger after a history of calls. -/
def ledgerAfter (S : EntryCodec) (calls : List RecordCall) : LedgerFile :=
  calls.foldl (recordRunInLedgerAt S) none

/-! ### What was recorded -/

/-- The entries whose call returned `Ok`, in order. -/
def recorded (calls : List RecordCall) : List LedgerEntry :=
  (calls.filter fun call => call.ending = .returned).map RecordCall.entry

/-- The last successful record of a run. -/
def lastRecord (calls : List RecordCall) (runId : Text) : Option LedgerEntry :=
  (recorded calls).reverse.find? fun e => e.runId = runId

/-- The run ids that were recorded last, without repetitions, the newest first. -/
def recentRuns (calls : List RecordCall) : List Text :=
  (newest id ((recorded calls).map LedgerEntry.runId).reverse).take ledgerKeepEntries

/-!
## What the run ledger remembers

As long as every record starts a line of its own, the newest runs that the ledger can answer for are
the newest runs that were recorded, compacted or not, whatever torn lines lie between them.
-/

variable {S : EntryCodec}

/-! ### Histories -/

/-- The call writes its line on its own, or less than the text of its entry. -/
def RecordCall.KeepsLines (S : EntryCodec) (ledger : LedgerFile) (call : RecordCall) : Prop :=
  match call.ending with
  | .returned => Closed newline ((call.compacted S ledger).getD [])
  | .stopped written => written < (S.toVec call.entry).length
  | .refused => True

/-- Every call of a history does so. -/
def KeepLines (S : EntryCodec) : LedgerFile → List RecordCall → Prop
  | _, [] => True
  | ledger, call :: calls =>
    call.KeepsLines S ledger ∧ KeepLines S (recordRunInLedgerAt S ledger call) calls

/-- Some of the text of an entry, not all. -/
def PartOf (S : EntryCodec) (entries : List LedgerEntry) (piece : Bytes) : Prop :=
  ∃ e ∈ entries, piece <+: S.toVec e ∧ piece ≠ S.toVec e

/-- What the ledger relies on when these entries are written. -/
structure EntryCodec.Reliable (S : EntryCodec) (entries : List LedgerEntry) : Prop where
  one_line : ∀ e ∈ entries, newline ∉ S.toVec e
  read_back : ∀ e ∈ entries, S.fromSlice (S.toVec e) = some e
  /-- Unfinished texts one after another are no text. -/
  torn : ∀ pieces : List Bytes, (∀ p ∈ pieces, PartOf S entries p) →
    S.fromSlice pieces.flatten = none

/-! ### Lines -/

theorem entriesIn_append {front : Bytes} (hclosed : Closed newline front) (tail : Bytes) :
    entriesIn S (front ++ tail) = entriesIn S front ++ entriesIn S tail := by
  rcases hclosed with rfl | ⟨front, rfl⟩
  · rfl
  · have hempty : entriesIn S (front ++ [newline]) = entriesIn S front := by
      rw [entriesIn, splitOn_append_cons_self, filterMap_append]
      exact append_nil _
    rw [hempty, append_assoc, singleton_append, entriesIn,
      splitOn_append_cons_self, filterMap_append]
    rfl

section

variable {entries : List LedgerEntry} (hS : S.Reliable entries)
include hS

theorem toVec_ne_nil {e : LedgerEntry} (he : e ∈ entries) : S.toVec e ≠ [] := by
  intro hnil
  have hread := hS.read_back e he
  rw [hnil] at hread
  have hnone : S.fromSlice [] = none := hS.torn [] fun p hp => absurd hp not_mem_nil
  rw [hnone] at hread
  cases hread

theorem entriesIn_ledgerLine {e : LedgerEntry} (he : e ∈ entries) :
    entriesIn S (ledgerLine S e) = [e] := by
  have hread : lineEntry S (S.toVec e) = some e := by
    rw [lineEntry, if_neg (by simpa using toVec_ne_nil hS he)]
    exact hS.read_back e he
  rw [ledgerLine, entriesIn, splitOn_append_cons_self,
    splitOn_eq_singleton (hS.one_line e he), singleton_append, filterMap_cons_some hread]
  rfl

theorem entriesIn_lines {kept : List LedgerEntry} (hkept : ∀ e ∈ kept, e ∈ entries) :
    entriesIn S (kept.flatMap (ledgerLine S)) = kept := by
  induction kept with
  | nil => rfl
  | cons e kept ih =>
    have hclosed : Closed newline (ledgerLine S e) := .inr ⟨S.toVec e, rfl⟩
    rw [flatMap_cons, entriesIn_append hclosed, entriesIn_ledgerLine hS (hkept e mem_cons_self),
      ih fun e' he' => hkept e' (mem_cons_of_mem _ he')]
    rfl

omit hS in
theorem closed_lines (kept : List LedgerEntry) : Closed newline (kept.flatMap (ledgerLine S)) := by
  induction kept using reverseRecOn with
  | nil => exact .inl rfl
  | append_singleton kept e _ =>
    right
    refine ⟨kept.flatMap (ledgerLine S) ++ S.toVec e, ?_⟩
    rw [flatMap_append, flatMap_singleton, ledgerLine, append_assoc]

/-- A torn end of the ledger has no newline and no entry. -/
theorem entriesIn_torn {pieces : List Bytes} (hpieces : ∀ p ∈ pieces, PartOf S entries p) :
    entriesIn S pieces.flatten = [] := by
  have hline : newline ∉ pieces.flatten := by
    intro hmem
    obtain ⟨p, hp, hmem⟩ := mem_flatten.mp hmem
    obtain ⟨e, he, hpart, _⟩ := hpieces p hp
    exact hS.one_line e he (hpart.subset hmem)
  have hnone : lineEntry S pieces.flatten = none := by
    rw [lineEntry, hS.torn pieces hpieces]
    split <;> rfl
  rw [entriesIn, splitOn_eq_singleton hline, filterMap_cons_none hnone]
  rfl

end

/-! ### Compaction -/

theorem compactLoop_eq (keep : Nat) (entries : List LedgerEntry) (seen : List Text)
    (kept : List LedgerEntry) (h : kept.length < keep) :
    compactLoop keep entries seen kept =
      kept ++ ((newest LedgerEntry.runId entries).filter fun e => e.runId ∉ seen).take
        (keep - kept.length) := by
  induction entries generalizing seen kept with
  | nil => simp [compactLoop, newest]
  | cons e entries ih =>
    rw [compactLoop, newest]
    by_cases hseen : e.runId ∈ seen
    · rw [if_pos hseen, ih seen kept h, filter_cons_of_neg (by simpa using hseen), filter_filter]
      congr 2
      apply filter_congr
      intro x _
      have hne : x.runId ∉ seen → x.runId ≠ e.runId := fun hx heq => hx (heq ▸ hseen)
      by_cases hx : x.runId ∈ seen
      · simp [hx]
      · simp [hx, hne hx]
    · have hsucc : keep - kept.length = (keep - (kept ++ [e]).length) + 1 := by
        rw [length_append, length_singleton]
        omega
      rw [if_neg hseen, filter_cons_of_pos (by simpa using hseen), hsucc, take_succ_cons]
      show (if keep ≤ (kept ++ [e]).length then kept ++ [e] else _) = _
      by_cases hfull : keep ≤ (kept ++ [e]).length
      · rw [if_pos hfull, Nat.sub_eq_zero_of_le hfull, take_zero]
      · rw [if_neg hfull, ih _ _ (by omega), append_assoc, singleton_append, filter_filter]
        congr 3
        apply filter_congr
        intro x _
        simp [not_or, Bool.and_comm]

/-- Of every run the newest entry, and of these the newest. -/
theorem compactEntries_eq (entries : List LedgerEntry) {keep : Nat} (h : 0 < keep) :
    compactEntries entries keep =
      ((newest LedgerEntry.runId entries.reverse).take keep).reverse := by
  rw [compactEntries, compactLoop_eq keep _ [] [] h, nil_append, filter_eq_self.mpr]
  · rfl
  · intro e _
    simp

/-! ### One call -/

/-- The ledger answers for the newest of the entries that were recorded, and only its end is torn. -/
structure Remembers (S : EntryCodec) (entries : List LedgerEntry) (ledger : LedgerFile)
    (done : List LedgerEntry) : Prop where
  shape : ∃ (front : Bytes) (pieces : List Bytes), ledger.getD [] = front ++ pieces.flatten ∧
    Closed newline front ∧ ∀ p ∈ pieces, PartOf S entries p
  known : ∀ e ∈ readLedgerEntries S ledger, e ∈ entries
  recent : SameRecent LedgerEntry.runId ledgerKeepEntries done.reverse
    (readLedgerEntries S ledger).reverse

theorem readLedgerEntries_eq (ledger : LedgerFile) :
    readLedgerEntries S ledger = entriesIn S (ledger.getD []) := by
  cases ledger with
  | none => rfl
  | some bytes => rfl

section

variable {entries : List LedgerEntry} (hS : S.Reliable entries) {ledger : LedgerFile}
  {done : List LedgerEntry}
include hS

section

variable (h : Remembers S entries ledger done)
include h

theorem Remembers.compacted :
    Remembers S entries (compactLedgerIfOversized S ledger) done := by
  cases ledger with
  | none => exact h
  | some bytes =>
    rw [compactLedgerIfOversized]
    split
    · exact h
    · have hkeep : 0 < ledgerKeepEntries := by decide
      have hread : readLedgerEntries S (some bytes) = entriesIn S bytes := rfl
      have hknown : ∀ e ∈ compactEntries (entriesIn S bytes) ledgerKeepEntries, e ∈ entries := by
        intro e he
        rw [compactEntries_eq _ hkeep, mem_reverse] at he
        exact h.known e (mem_reverse.mp (mem_of_mem_newest (mem_of_mem_take he)))
      have hlines := entriesIn_lines hS hknown
      rw [hread]
      refine ⟨⟨_, [], (append_nil _).symm, closed_lines _, fun p hp => absurd hp not_mem_nil⟩,
        ?_, ?_⟩
      · rw [readLedgerEntries, hlines]
        exact hknown
      · rw [readLedgerEntries, hlines, compactEntries_eq _ hkeep, reverse_reverse]
        exact h.recent.cut

theorem Remembers.record
    (hclosed : Closed newline (ledger.getD [])) {e : LedgerEntry} (he : e ∈ entries) :
    Remembers S entries (some (ledger.getD [] ++ ledgerLine S e)) (done ++ [e]) := by
  have hread : readLedgerEntries S (some (ledger.getD [] ++ ledgerLine S e)) =
      readLedgerEntries S ledger ++ [e] := by
    rw [readLedgerEntries_eq, readLedgerEntries_eq, Option.getD_some, entriesIn_append hclosed,
      entriesIn_ledgerLine hS he]
  constructor
  · refine ⟨ledger.getD [] ++ ledgerLine S e, [], (append_nil _).symm, .inr ?_,
      fun p hp => absurd hp not_mem_nil⟩
    exact ⟨ledger.getD [] ++ S.toVec e, by rw [ledgerLine, append_assoc]⟩
  · intro e' he'
    rw [hread, mem_append, mem_singleton] at he'
    rcases he' with he' | rfl
    · exact h.known e' he'
    · exact he
  · rw [hread, reverse_append, reverse_append]
    exact h.recent.cons e

theorem Remembers.tear {piece : Bytes}
    (hpiece : PartOf S entries piece) :
    Remembers S entries (some (ledger.getD [] ++ piece)) done := by
  obtain ⟨front, pieces, hledger, hclosed, hpieces⟩ := h.shape
  have hall : ∀ p ∈ pieces ++ [piece], PartOf S entries p := by
    intro p hp
    rw [mem_append, mem_singleton] at hp
    rcases hp with hp | rfl
    · exact hpieces p hp
    · exact hpiece
  have hbytes : ledger.getD [] ++ piece = front ++ (pieces ++ [piece]).flatten := by
    rw [hledger, append_assoc, flatten_append, flatten_singleton]
  have hread : readLedgerEntries S (some (ledger.getD [] ++ piece)) =
      readLedgerEntries S ledger := by
    rw [readLedgerEntries_eq, readLedgerEntries_eq, Option.getD_some, hbytes, hledger,
      entriesIn_append hclosed, entriesIn_append hclosed, entriesIn_torn hS hall,
      entriesIn_torn hS hpieces]
  constructor
  · exact ⟨front, pieces ++ [piece], hbytes, hclosed, hall⟩
  · rw [hread]
    exact h.known
  · rw [hread]
    exact h.recent

theorem Remembers.step {call : RecordCall}
    (he : call.entry ∈ entries) (hlines : call.KeepsLines S ledger) :
    Remembers S entries (recordRunInLedgerAt S ledger call) (done ++ recorded [call]) := by
  obtain ⟨entry, ending⟩ := call
  cases ending with
  | returned => exact (h.compacted hS).record hS hlines he
  | refused =>
    rw [show recorded [⟨entry, .refused⟩] = [] from rfl, append_nil]
    exact h
  | stopped written =>
    have hwritten : written < (S.toVec entry).length := hlines
    have hpiece : PartOf S entries ((ledgerLine S entry).take written) := by
      rw [ledgerLine, take_append_of_le_length (by omega)]
      refine ⟨entry, he, List.take_prefix _ _, ?_⟩
      intro heq
      have := congrArg List.length heq
      rw [length_take] at this
      omega
    rw [show recorded [⟨entry, .stopped written⟩] = [] from rfl, append_nil]
    exact (h.compacted hS).tear hS hpiece

end

/-! ### Histories -/

theorem Remembers.run (h : Remembers S entries ledger done) {calls : List RecordCall}
    (he : ∀ call ∈ calls, call.entry ∈ entries) (hlines : KeepLines S ledger calls) :
    Remembers S entries (calls.foldl (recordRunInLedgerAt S) ledger) (done ++ recorded calls) := by
  induction calls generalizing ledger done with
  | nil =>
    rw [show recorded [] = [] from rfl, append_nil]
    exact h
  | cons call calls ih =>
    have hcons : recorded (call :: calls) = recorded [call] ++ recorded calls := by
      rw [recorded, recorded, recorded, ← map_append, ← filter_append]
      rfl
    rw [foldl_cons, hcons, ← append_assoc]
    exact ih (h.step hS (he call mem_cons_self) hlines.1)
      (fun call' hcall' => he call' (mem_cons_of_mem _ hcall')) hlines.2

omit ledger done in
/-- Every run among those recorded last is known by its last successful record. -/
theorem lookup_eq_lastRecord {calls : List RecordCall}
    (he : ∀ call ∈ calls, call.entry ∈ entries) (hlines : KeepLines S none calls) {runId : Text}
    (hrecent : runId ∈ recentRuns calls) :
    lookupRunInLedgerAt S (ledgerAfter S calls) runId = lastRecord calls runId := by
  have hstart : Remembers S entries none [] :=
    ⟨⟨[], [], rfl, .inl rfl, fun p hp => absurd hp not_mem_nil⟩,
      fun e he => absurd he not_mem_nil, rfl⟩
  have hafter := hstart.run hS he hlines
  rw [recentRuns, ← map_reverse] at hrecent
  exact hafter.recent.find? hrecent

end

theorem exists_lastRecord {calls : List RecordCall} {runId : Text}
    (hrecent : runId ∈ recentRuns calls) :
    ∃ e, lastRecord calls runId = some e ∧ e ∈ recorded calls ∧ e.runId = runId := by
  have hmem := mem_of_mem_newest (mem_of_mem_take hrecent)
  rw [mem_reverse] at hmem
  obtain ⟨e, he, hrun⟩ := mem_map.mp hmem
  cases hfind : lastRecord calls runId with
  | none =>
    have := List.find?_eq_none.mp hfind e (mem_reverse.mpr he)
    rw [decide_eq_true_eq] at this
    exact absurd hrun this
  | some last =>
    have hlast := mem_of_find?_eq_some hfind
    have hid := List.find?_some hfind
    rw [decide_eq_true_eq] at hid
    exact ⟨last, rfl, mem_reverse.mp hlast, hid⟩

end AgentMail.Doctor
