import AgentMail.Rebuild.Reconstruct

/-!
# What the rebuild loses

Two messages of one project can share `created_ts` and subject. The first pass tells them apart by
their ids, but a file that waits for the second pass is dropped as a duplicate if any message of
the project has its `created_ts` and subject. Messages survive exactly when no such pair meets a
taken id; leases survive exactly when no generated id is claimed later.
-/

namespace AgentMail.Rebuild

open Base Lib Artifact Located
open List

/-! ### Messages -/

/-- The row has the project, time, subject, body and sender of the file. -/
def Stores (N : Names) (f : Located) (r : Int × MessageRow) : Prop :=
  r.2.projectId = f.projectId ∧ r.2.createdTs = f.message.createdTs ∧
    r.2.subject = f.message.subject ∧ r.2.bodyMd = f.message.bodyMd ∧
    N.IsAgent r.2.senderId f.projectId f.message.senderName

/-- Every file has a row of its own, but for files that share project, id, time and subject with a
file that has one. -/
def MessagesKept (C : Candidate) (files : List Located) : Prop :=
  ∃ kept lost, files ~ kept ++ lost ∧
    (∀ f ∈ lost, f.number ≠ none ∧ ∃ g ∈ kept, Intake.Same number identity g f) ∧
    ∃ rows, rows <+~ C.mail.messages.rows ∧ Forall₂ (Stores C.names) kept rows

theorem stores_of_rowOf {N : Names} {r : Int × MessageRow} {b : Int × Located} (h : RowOf N r b) :
    Stores N b.2 r := by
  obtain ⟨_, hcolumns, hsender⟩ := h
  refine ⟨?_, ?_, ?_, ?_, hsender⟩ <;> rw [hcolumns] <;> rfl

theorem identity_of_stores {N : Names} {f : Located} {r : Int × MessageRow} (h : Stores N f r) :
    f.identity = r.2.identity := by
  obtain ⟨hproject, hcreated, hsubject, _, _⟩ := h
  rw [identity, MessageRow.identity, hproject, hcreated, hsubject]

/-- The filed messages, each with its row. -/
theorem forall₂_stores (R : Readers) (Q : RowOrder) (A : Archive) :
    Forall₂ (Stores (reconstruct R Q A).names)
      (Intake.file number identity (A.located R)).ledger.items
      (reconstruct R Q A).mail.messages.rows := by
  obtain ⟨hbuilt, hrows⟩ := reconstruct_rows R Q A
  rw [Ledger.items, ← hbuilt, forall₂_map_left_iff]
  exact hrows.flip.imp fun _ _ hrow => stores_of_rowOf hrow

theorem messagesKept_of_spared {R : Readers} (Q : RowOrder) {A : Archive}
    (h : Intake.Spared number identity (A.located R)) :
    MessagesKept (reconstruct R Q A) (A.located R) := by
  refine ⟨_, _, Intake.perm_file number identity (A.located R), ?_,
    _, List.Subperm.refl _, forall₂_stores R Q A⟩
  intro f hf
  have hnum := Intake.number_of_dropped number identity hf
  have hmem : f ∈ A.located R :=
    (Intake.perm_file number identity (A.located R)).mem_iff.mpr
      (mem_append_right _ hf)
  exact ⟨hnum, (Intake.stored_iff_spared _ _ (A.located R)).mpr h f hmem hnum⟩

theorem spared_of_messagesKept {R : Readers} {Q : RowOrder} {A : Archive}
    (h : MessagesKept (reconstruct R Q A) (A.located R)) :
    Intake.Spared number identity (A.located R) := by
  obtain ⟨kept, lost, hperm, hlost, rows, hsub, hstores⟩ := h
  apply Intake.spared_of_matched number identity hperm hlost
  have hkept : kept.map identity = rows.map fun r => r.2.identity := by
    rw [← forall₂_eq_eq_eq, forall₂_map_left_iff, forall₂_map_right_iff]
    exact hstores.imp fun _ _ hrow => identity_of_stores hrow
  have hitems : (Intake.file number identity (A.located R)).ledger.items.map
      identity = (reconstruct R Q A).mail.messages.rows.map fun r => r.2.identity := by
    rw [← forall₂_eq_eq_eq, forall₂_map_left_iff, forall₂_map_right_iff]
    exact (forall₂_stores R Q A).imp fun _ _ hrow => identity_of_stores hrow
  rw [hkept, hitems]
  obtain ⟨l, hl, hsub⟩ := hsub
  exact ⟨l.map _, hl.map _, hsub.map _⟩

/-- No message is lost exactly when every file whose id is taken, as the walk first comes to its
message, shares project, time and subject with files of its own id only. -/
theorem reconstruct_messagesKept_iff (R : Readers) (Q : RowOrder) (A : Archive) :
    MessagesKept (reconstruct R Q A) (A.located R) ↔ Intake.Spared number identity (A.located R) :=
  ⟨spared_of_messagesKept, messagesKept_of_spared Q⟩

/-- A JSON reader that knows the given texts. -/
def tableReaders (table : List (String × Json)) : Readers where
  parseJson := fun t => (table.find? fun e => e.1.toList == t).map Prod.snd
  dates := ⟨fun _ => none, fun _ => none, fun _ => none, fun _ => none⟩
  parseStamp := fun _ => none

/-- A message file with the given frontmatter. -/
def frontmatterFile (name frontmatter : String) : MessageFile where
  year := "2026".toList
  month := "01".toList
  name := name.toList
  content := some ("---json\n".toList ++ frontmatter.toList ++ "---\n\nbody\n".toList)

/-- A directory with message files only. -/
def messagesDir (name : String) (messages : List MessageFile) : ProjectDir where
  name := name.toList
  projectJson := .missing
  agents := []
  reservations := []
  messages

/-- The row order of a table scan. -/
def scanOrder : RowOrder where
  first := fun _ rows => rows.head?
  first_mem := fun _ _ _ h => mem_of_head? h
  first_isSome := fun _ rows h => by
    cases rows with
    | nil => exact absurd rfl h
    | cons r rows => rfl

/-- Two messages of a project with one time and subject, under the ids 1 and 2, and before them
another message with the id 1. -/
def twinArchive : Archive where
  dirs := [messagesDir "alpha" [
    frontmatterFile "a.md" "\x7b\"id\":1,\"created_ts\":1,\"subject\":\"start\"\x7d\n",
    frontmatterFile "b.md" "\x7b\"id\":1,\"created_ts\":2,\"subject\":\"status\"\x7d\n",
    frontmatterFile "c.md" "\x7b\"id\":2,\"created_ts\":2,\"subject\":\"status\"\x7d\n"]]
  nodup := by simp

def twinReaders : Readers := tableReaders [
  ("\x7b\"id\":1,\"created_ts\":1,\"subject\":\"start\"\x7d\n", .obj [("id".toList, .int 1),
    ("created_ts".toList, .int 1), ("subject".toList, .str "start".toList)]),
  ("\x7b\"id\":1,\"created_ts\":2,\"subject\":\"status\"\x7d\n", .obj [("id".toList, .int 1),
    ("created_ts".toList, .int 2), ("subject".toList, .str "status".toList)]),
  ("\x7b\"id\":2,\"created_ts\":2,\"subject\":\"status\"\x7d\n", .obj [("id".toList, .int 2),
    ("created_ts".toList, .int 2), ("subject".toList, .str "status".toList)])]

theorem twin_located : (twinArchive.located twinReaders).map (fun f => (f.number, f.identity)) =
    [(some 1, (1, 1, "start".toList)), (some 1, (1, 2, "status".toList)),
      (some 2, (1, 2, "status".toList))] := by
  simp (disch := rfl) only [twinReaders, twinArchive, tableReaders, messagesDir, frontmatterFile,
    find?_cons, toList_lit]
  decide +kernel

/-- The second message with the id 1 is gone: it is taken for a duplicate of the one with id 2. -/
theorem twin_message_lost :
    ¬ MessagesKept (reconstruct twinReaders scanOrder twinArchive)
      (twinArchive.located twinReaders) := by
  intro h
  have hspared := spared_of_messagesKept h
  obtain ⟨f₁, _, hl, h₁, hrest⟩ := map_eq_cons_iff.mp twin_located
  obtain ⟨f₂, _, rfl, h₂, hrest⟩ := map_eq_cons_iff.mp hrest
  obtain ⟨f₃, _, rfl, h₃, _⟩ := map_eq_cons_iff.mp hrest
  obtain ⟨hn₁, hk₁⟩ := Prod.mk.inj h₁
  obtain ⟨hn₂, hk₂⟩ := Prod.mk.inj h₂
  obtain ⟨hn₃, hk₃⟩ := Prod.mk.inj h₃
  have hdiff : ∀ a ∈ [f₁], ¬ Intake.Same number identity a f₂ := by
    intro a ha hsame
    rw [mem_singleton.mp ha] at hsame
    have hkey := hsame.1
    rw [hk₁, hk₂] at hkey
    revert hkey
    decide
  have hnum := hspared [f₁] f₂ _ 1 hl hn₂ (Or.inl ⟨f₁, by simp, hn₁⟩) hdiff f₃
    (by rw [hl]; simp) (hk₃.trans hk₂.symm)
  rw [hn₂, hn₃] at hnum
  revert hnum
  decide

/-! ### Leases -/

/-- The leases are replayed from the artifacts of the archive, each with the agent that it names, and
they survive exactly when no artifact claims an id that was generated before. -/
theorem reconstruct_leasesKept_iff (R : Readers) (Q : RowOrder) (A : Archive) :
    (reconstruct R Q A).leases = Leases.empty.replay (reconstruct R Q A).held ∧
    (reconstruct R Q A).held.map (fun a => (a.projectId, a.reservation)) =
      reservationsIn R A.sorted ∧ (∀ a ∈ (reconstruct R Q A).held,
      (reconstruct R Q A).names.IsAgent a.agentId a.projectId a.reservation.agentName) ∧
    (LeasesKept (reconstruct R Q A).held ↔ NoIdOverwritten (reconstruct R Q A).held) := by
  have hwalk := walked_foldl R Q A.nodup_sorted
  refine ⟨hwalk.leases, hwalk.held, ?_, leasesKept_iff _⟩
  intro a ha
  exact (hwalk.holder a ha).mono (insertDeferred_extends Q _)

/-- An artifact without an id, and one with the id 1 that the first one was given. -/
def digestArchive : Archive where
  dirs := [{
    name := "alpha".toList
    projectJson := .missing
    agents := []
    messages := []
    reservations := [
      ⟨"3f.json".toList, some "\x7b\"agent\":\"BlueLake\",\"path_pattern\":\"src/a\"\x7d".toList⟩,
      ⟨"id-1.json".toList,
        some "\x7b\"id\":1,\"agent\":\"BlueLake\",\"path_pattern\":\"src/b\"\x7d".toList⟩] }]
  nodup := by simp

def digestReaders : Readers := tableReaders [
  ("\x7b\"agent\":\"BlueLake\",\"path_pattern\":\"src/a\"\x7d",
    .obj [("agent".toList, .str "BlueLake".toList), ("path_pattern".toList, .str "src/a".toList)]),
  ("\x7b\"id\":1,\"agent\":\"BlueLake\",\"path_pattern\":\"src/b\"\x7d",
    .obj [("id".toList, .int 1), ("agent".toList, .str "BlueLake".toList),
      ("path_pattern".toList, .str "src/b".toList)])]

/-- One row is left, and it is the second lease. -/
theorem digest_rows :
    (reconstruct digestReaders scanOrder digestArchive).leases.rows.rows.map
      (fun r => (r.1, r.2.pathPattern)) = [(1, "src/b".toList)] ∧
    (reconstruct digestReaders scanOrder digestArchive).held.map
      (fun a => (a.generationKey, a.reservation.pathPattern)) =
        [(none, "src/a".toList), (some (1, [], 1), "src/b".toList)] := by
  simp (disch := rfl) only [digestReaders, digestArchive, tableReaders, find?_cons, toList_lit]
  decide +kernel

/-- The lease of the artifact without an id is gone. -/
theorem digest_lease_lost :
    ¬ LeasesKept (reconstruct digestReaders scanOrder digestArchive).held := by
  intro h
  obtain ⟨hrows, hheld⟩ := digest_rows
  obtain ⟨a, back, hsplit, ha, _⟩ := map_eq_cons_iff.mp hheld
  have hcounted : Counted (reconstruct digestReaders scanOrder digestArchive).held a :=
    ⟨[], back, hsplit, by simp⟩
  obtain ⟨id, row, hfilter, _⟩ := h.one_row a hcounted
  have hrow : (id, row) ∈ [(id, row)] := by simp
  rw [← hfilter, mem_filter, decide_eq_true_iff, ← reconstruct_leases] at hrow
  have hpattern : row.pathPattern = "src/a".toList := by
    have hid := congrArg (fun i : ReservationIdentity => i.2.2.1) hrow.2
    exact hid.trans (Prod.mk.inj ha).2
  have hmem := mem_map_of_mem (f := fun r : Int × LeaseRow => (r.1, r.2.pathPattern)) hrow.1
  rw [hrows, mem_singleton, Prod.mk.injEq] at hmem
  rw [hpattern] at hmem
  revert hmem
  simp

end AgentMail.Rebuild
