import Mathlib.Data.List.Sort
import AgentMail.Rebuild.Filing
import AgentMail.Rebuild.LeaseReplay

/-!
# Rebuilding the database

`reconstruct_from_archive` (`crates/mcp-agent-mail-db/src/reconstruct.rs:1588–1922`): the projects in
the order of their directory names, and in each the agents, the reservations and the messages;
then the messages that wait; then the reply edges. The target database is new, so every table
starts empty. A file that cannot be read or parsed is counted and left out; an error of the
database itself, which ends the run, is not modelled.
-/

namespace AgentMail.Rebuild

open Base Lib Artifact List Located

/-! ### The archive -/

/-- `agents/<name>`: `profile` is `none` without a regular `profile.json`, and its content is
`none` where it cannot be read. -/
structure AgentDir where
  name : Text
  profile : Option (Option Text)

/-- What stands under the name `project.json`. A symbolic link has the content of its target. -/
inductive ProjectJson where
  | missing
  | file (content : Option Text)
  | link (content : Option Text)

/-- A directory under `projects/`. The lists hold what the walks accept: real directories and
regular files, with the extensions `json` and `md`. -/
structure ProjectDir where
  name : Text
  projectJson : ProjectJson
  agents : List AgentDir
  reservations : List ReservationFile
  messages : List MessageFile

/-- The directories in the order in which the file system lists them. -/
structure Archive where
  dirs : List ProjectDir
  nodup : (dirs.map ProjectDir.name).Nodup

/-- `project_dirs.sort_by(…)`. -/
def Archive.sorted (A : Archive) : List ProjectDir :=
  A.dirs.insertionSort fun a b => textLe a.name b.name = true

/-- `message_files.sort()`. -/
def ProjectDir.sortedMessages (d : ProjectDir) : List MessageFile :=
  d.messages.insertionSort fun a b =>
    pathLe [a.year, a.month, a.name] [b.year, b.month, b.name] = true

/-- `reservation_files.sort()`. -/
def ProjectDir.sortedReservations (d : ProjectDir) : List ReservationFile :=
  d.reservations.insertionSort fun a b => textLe a.name b.name = true

/-! ### Projects and agents -/

/-- A row of `projects`. -/
structure ProjectRow where
  slug : Text
  humanKey : Text

/-- `Path::is_absolute`. -/
def isAbsolute (t : Text) : Bool := t.head? == some '/'

/-- A `human_key` in the metadata that is used. -/
def metadataHumanKey (R : Readers) (content : Option Text) : Option Text := do
  let metadata ← content.bind R.parseJson
  (((metadata.strField "human_key".toList).map trim).filter fun s => !s.isEmpty).filter isAbsolute

/-- `synthetic_project_placeholder_human_key`. -/
def placeholderHumanKey (slug : Text) : Text := '/' :: slug

/-- `read_project_human_key`, with the number of parse errors. -/
def readProjectHumanKey (R : Readers) (d : ProjectDir) : Text × Nat :=
  match d.projectJson with
  | .file content =>
    match metadataHumanKey R content with
    | some humanKey => (humanKey, 0)
    | none => (placeholderHumanKey d.name, 1)
  | _ => (placeholderHumanKey d.name, 0)

/-- `INSERT OR IGNORE INTO projects`, and the id of the slug. -/
def ensureProject (projects : Ledger ProjectRow) (p : ProjectRow) : Int × Ledger ProjectRow :=
  match projects.rows.find? fun r => r.2.slug == p.slug with
  | some r => (r.1, projects)
  | none => (projects.top + 1, projects.issue p)

/-- The agent of a directory; the number counts a parse error. -/
def profileAgent (R : Readers) (d : AgentDir) : Option Text × Nat :=
  match normalizedArchiveAgentName (some d.name) with
  | none => (none, 1)
  | some agentName =>
    match d.profile with
    | none => (none, 0)
    | some content =>
      match content.bind R.parseJson with
      | none => (none, 1)
      | some profile =>
        (some ((normalizedArchiveAgentName (profile.strField "name".toList)).getD agentName), 0)

/-- `discover_agents`. -/
def discoverAgents (Q : RowOrder) (R : Readers) (projectId : Int) (N : Names)
    (dirs : List AgentDir) : Names :=
  (dirs.filterMap fun d => (profileAgent R d).1).foldl
    (fun N name => (registerAgent Q N projectId name).2) N

/-! ### Reply edges -/

/-- The messages and `applied_edges`. -/
structure EdgeState where
  messages : Ledger MessageRow
  applied : List (Int × Int)

/-- One turn of `apply_pending_reply_edges`. -/
def applyEdge (messageIdMap : List ((Int × Int) × Int)) (E : EdgeState) (edge : PendingReplyEdge) :
    EdgeState :=
  match Assoc.get? (edge.sourceProject, edge.sourceParent) messageIdMap with
  | none => E
  | some parent =>
    if parent = ambiguousReplyMessageId then E
    else if (E.messages.get? parent).map MessageRow.projectId ≠ some edge.targetProject then E
    else
      match Assoc.get? edge.targetChild E.applied with
      | some _ => E
      | none =>
        match (E.messages.get? edge.targetChild).filter fun row =>
            row.projectId = edge.targetProject with
        | none => E
        | some row =>
          match row.replyTo.filter fun p => 0 < p with
          | some existing => { E with applied := Assoc.insert edge.targetChild existing E.applied }
          | none => {
              messages := E.messages.update edge.targetChild fun row =>
                { row with replyTo := some parent }
              applied := Assoc.insert edge.targetChild parent E.applied }

/-- `apply_pending_reply_edges`. -/
def applyPendingReplyEdges (messageIdMap : List ((Int × Int) × Int))
    (edges : List PendingReplyEdge) (messages : Ledger MessageRow) : Ledger MessageRow :=
  (edges.foldl (applyEdge messageIdMap) ⟨messages, []⟩).messages

/-! ### The run -/

/-- The candidate database. `held` is a history variable: the replayed artifacts with their
agents. -/
structure Candidate where
  projects : Ledger ProjectRow
  names : Names
  leases : Leases
  mail : Mail
  held : List HeldArtifact
  parseErrors : Nat

def Candidate.empty : Candidate where
  projects := Ledger.empty
  names := Names.empty
  leases := Leases.empty
  mail := Mail.empty
  held := []
  parseErrors := 0

/-- The parsed messages of a project, in the order of the walk. -/
def ProjectDir.located (R : Readers) (projectId : Int) (d : ProjectDir) : List Located :=
  (d.sortedMessages.filterMap (parseMessage R)).map fun m => ⟨projectId, d.name, m⟩

/-- The number of files that cannot be parsed. -/
def ProjectDir.parseErrors (R : Readers) (d : ProjectDir) : Nat :=
  (readProjectHumanKey R d).2 + (d.agents.map fun a => (profileAgent R a).2).sum +
    d.reservations.countP (fun r => (parseArchivedFileReservation R r).isNone) +
    d.messages.countP fun m => (parseMessage R m).isNone

/-- The turn of the main loop for a project. -/
def rebuildProject (R : Readers) (Q : RowOrder) (C : Candidate) (d : ProjectDir) : Candidate :=
  let (pid, projects) := ensureProject C.projects ⟨d.name, (readProjectHumanKey R d).1⟩
  let names := discoverAgents Q R pid C.names d.agents
  let reservations := d.sortedReservations.filterMap (parseArchivedFileReservation R)
  let held := (holders Q pid names reservations).2
  let (names, leases) := insertReservations Q pid (names, C.leases) reservations
  let (names, mail) := insertMessages Q (names, C.mail) (d.located R pid)
  { projects, names, leases, mail
    held := C.held ++ held
    parseErrors := C.parseErrors + d.parseErrors R }

/-- `reconstruct_from_archive`. -/
def reconstruct (R : Readers) (Q : RowOrder) (A : Archive) : Candidate :=
  let C := A.sorted.foldl (rebuildProject R Q) Candidate.empty
  let (names, mail) := insertDeferred Q (C.names, C.mail)
  { C with
    names
    mail := { mail with
      messages := applyPendingReplyEdges mail.messageIdMap mail.pendingReplyEdges mail.messages } }

/-! ### What the walk has done -/

/-- The parsed messages of directories, whose projects are numbered from one on. -/
def locatedIn (R : Readers) (dirs : List ProjectDir) : List Located :=
  (dirs.zipIdx 1).flatMap fun d => d.1.located R d.2

/-- The parsed messages of the archive in the order of the walk. -/
def Archive.located (R : Readers) (A : Archive) : List Located := locatedIn R A.sorted

/-- The parsed reservations of directories. -/
def reservationsIn (R : Readers) (dirs : List ProjectDir) : List (Int × ArchivedFileReservation) :=
  (dirs.zipIdx 1).flatMap fun d =>
    (d.1.sortedReservations.filterMap (parseArchivedFileReservation R)).map ((d.2 : Int), ·)

/-- The row of the project of a directory. -/
def projectRow (R : Readers) (d : ProjectDir × Nat) : Int × ProjectRow :=
  (d.2, ⟨d.1.name, (readProjectHumanKey R d.1).1⟩)

/-- The candidate after some directories. -/
structure Walked (R : Readers) (C : Candidate) (dirs : List ProjectDir) : Prop where
  projects : C.projects.rows = (dirs.zipIdx 1).map (projectRow R)
  top : C.projects.top = dirs.length
  tracks : Tracks (C.names, C.mail)
    (Intake.firstPass number identity (locatedIn R dirs))
  waiting : C.mail.deferred = (Intake.firstPass number identity (locatedIn R dirs)).waiting
  leases : C.leases = Leases.empty.replay C.held
  held : C.held.map (fun a => (a.projectId, a.reservation)) = reservationsIn R dirs
  holder : ∀ a ∈ C.held, C.names.IsAgent a.agentId a.projectId a.reservation.agentName
  parseErrors : C.parseErrors = (dirs.map (ProjectDir.parseErrors R)).sum

theorem walked_empty (R : Readers) : Walked R Candidate.empty [] where
  projects := rfl
  top := rfl
  tracks := tracks_empty
  waiting := rfl
  leases := rfl
  held := rfl
  holder := by simp [Candidate.empty]
  parseErrors := rfl

theorem discoverAgents_extends (Q : RowOrder) (R : Readers) (projectId : Int) (N : Names)
    (dirs : List AgentDir) : N.Extends (discoverAgents Q R projectId N dirs) := by
  unfold discoverAgents
  generalize dirs.filterMap (fun d => (profileAgent R d).1) = names
  induction names generalizing N with
  | nil => exact Names.Extends.refl N
  | cons name names ih => exact (registerAgent_extends Q N projectId name).trans (ih _)

theorem ensureProject_new {projects : Ledger ProjectRow} {p : ProjectRow}
    (h : ∀ r ∈ projects.rows, r.2.slug ≠ p.slug) :
    ensureProject projects p = (projects.top + 1, projects.issue p) := by
  have hfind : projects.rows.find? (fun r => r.2.slug == p.slug) = none := by
    rw [List.find?_eq_none]
    intro r hr
    rw [beq_iff_eq]
    exact h r hr
  rw [ensureProject, hfind]

theorem locatedIn_concat (R : Readers) (dirs : List ProjectDir) (d : ProjectDir) :
    locatedIn R (dirs ++ [d]) = locatedIn R dirs ++ d.located R (dirs.length + 1) := by
  rw [locatedIn, zipIdx_append, flatMap_append]
  simp [locatedIn, add_comm]

theorem reservationsIn_concat (R : Readers) (dirs : List ProjectDir) (d : ProjectDir) :
    reservationsIn R (dirs ++ [d]) = reservationsIn R dirs ++
      (d.sortedReservations.filterMap (parseArchivedFileReservation R)).map
        ((dirs.length + 1 : Int), ·) := by
  rw [reservationsIn, zipIdx_append, flatMap_append]
  simp [reservationsIn, add_comm]

theorem replay_append (L : Leases) (front back : List HeldArtifact) :
    L.replay (front ++ back) = (L.replay front).replay back :=
  foldl_append

/-- The project of a new directory gets the next id. -/
theorem Walked.ensureProject_eq {R : Readers} {C : Candidate} {dirs : List ProjectDir}
    (h : Walked R C dirs) {d : ProjectDir} (hnew : d.name ∉ dirs.map ProjectDir.name) :
    ensureProject C.projects ⟨d.name, (readProjectHumanKey R d).1⟩ =
      ((dirs.length : Int) + 1, C.projects.issue ⟨d.name, (readProjectHumanKey R d).1⟩) := by
  rw [ensureProject_new, h.top]
  rw [h.projects]
  intro r hr heq
  obtain ⟨⟨e, i⟩, he, rfl⟩ := mem_map.mp hr
  have hname : e.name = d.name := heq
  exact hnew (hname ▸ mem_map_of_mem (fst_mem_of_mem_zipIdx he))

theorem Walked.rebuildProject {R : Readers} {C : Candidate} {dirs : List ProjectDir}
    (h : Walked R C dirs) (Q : RowOrder) {d : ProjectDir}
    (hnew : d.name ∉ dirs.map ProjectDir.name) :
    Walked R (Rebuild.rebuildProject R Q C d) (dirs ++ [d]) := by
  unfold Rebuild.rebuildProject
  rw [h.ensureProject_eq hnew]
  simp only [insertReservations_eq]
  have hagents := discoverAgents_extends Q R (dirs.length + 1) C.names d.agents
  generalize discoverAgents Q R (dirs.length + 1) C.names d.agents = N at hagents
  have hholders := holders_extends Q (dirs.length + 1) N
    (d.sortedReservations.filterMap (parseArchivedFileReservation R))
  have hheld := holders_isAgent Q (dirs.length + 1) N
    (d.sortedReservations.filterMap (parseArchivedFileReservation R))
  have hres := reservationsIn_concat R dirs d
  generalize d.sortedReservations.filterMap (parseArchivedFileReservation R) = reservations
    at hholders hheld hres
  generalize holders Q (dirs.length + 1) N reservations = H at hholders hheld
  rcases H with ⟨N', held⟩
  have htracks : Tracks (N', C.mail)
      (Intake.firstPass number identity (locatedIn R dirs)) :=
    h.tracks.frame (hagents.trans hholders) ⟨rfl, rfl, rfl, rfl, rfl⟩
  obtain ⟨hmail, hwaiting⟩ := htracks.insertMessages h.waiting Q (d.located R (dirs.length + 1))
  have hext := insertMessages_extends Q (N', C.mail) (d.located R (dirs.length + 1))
  refine ⟨?_, ?_, ?_, ?_, ?_, ?_, ?_, ?_⟩
  · rw [zipIdx_append, map_append, ← h.projects, Ledger.rows_issue, h.top]
    simp [projectRow, add_comm]
  · simp [h.top]
  · rw [locatedIn_concat, Intake.firstPass, foldl_append]
    exact hmail
  · rw [locatedIn_concat, Intake.firstPass, foldl_append]
    exact hwaiting
  · rw [replay_append, ← h.leases]
  · rw [map_append, h.held, hres, hheld.1]
  · intro a ha
    rcases mem_append.mp ha with ha | ha
    · exact ((h.holder a ha).mono (hagents.trans hholders)).mono hext
    · have hproject : a.projectId = dirs.length + 1 := by
        have hmem := mem_map_of_mem (f := fun a : HeldArtifact => (a.projectId, a.reservation)) ha
        rw [hheld.1] at hmem
        obtain ⟨_, _, heq⟩ := mem_map.mp hmem
        exact (congrArg Prod.fst heq).symm
      rw [hproject]
      exact (hheld.2 a ha).mono hext
  · rw [h.parseErrors, map_append, sum_append]
    simp

theorem walked_foldl (R : Readers) (Q : RowOrder) {dirs : List ProjectDir}
    (hnodup : (dirs.map ProjectDir.name).Nodup) :
    Walked R (dirs.foldl (rebuildProject R Q) Candidate.empty) dirs := by
  induction dirs using reverseRecOn with
  | nil => exact walked_empty R
  | append_singleton dirs d ih =>
    rw [map_append, nodup_append] at hnodup
    rw [foldl_append]
    apply (ih hnodup.1).rebuildProject Q
    intro hmem
    exact hnodup.2.2 _ hmem d.name (by simp) rfl

theorem Archive.nodup_sorted (A : Archive) : (A.sorted.map ProjectDir.name).Nodup :=
  ((perm_insertionSort _ A.dirs).map _).nodup_iff.mpr A.nodup

/-- A stable property holds before the edges are applied. -/
theorem Mail.Stable.walk {P : Mail → Prop} (h : Mail.Stable P) (R : Readers) (Q : RowOrder)
    (dirs : List ProjectDir) (hempty : P Mail.empty) :
    P (Rebuild.insertDeferred Q ((dirs.foldl (rebuildProject R Q) Candidate.empty).names,
      (dirs.foldl (rebuildProject R Q) Candidate.empty).mail)).2 := by
  apply h.insertDeferred
  induction dirs using reverseRecOn with
  | nil => exact hempty
  | append_singleton dirs d ih =>
    rw [foldl_append]
    exact h.insertMessages Q (_, _) _ ih

/-! ### What the edges change -/

/-- A step sets at most the reply target of one row. -/
theorem applyEdge_cases (messageIdMap : List ((Int × Int) × Int)) (E : EdgeState)
    (edge : PendingReplyEdge) :
    (applyEdge messageIdMap E edge).messages = E.messages ∨
    ∃ parent row, Assoc.get? (edge.sourceProject, edge.sourceParent) messageIdMap = some parent ∧
      parent ≠ ambiguousReplyMessageId ∧ (∃ parentRow, (parent, parentRow) ∈ E.messages.rows ∧
        parentRow.projectId = edge.targetProject) ∧
      (edge.targetChild, row) ∈ E.messages.rows ∧ row.projectId = edge.targetProject ∧
      (applyEdge messageIdMap E edge).messages = E.messages.update edge.targetChild fun row =>
        { row with replyTo := some parent } := by
  unfold applyEdge
  cases hget : Assoc.get? (edge.sourceProject, edge.sourceParent) messageIdMap with
  | none => exact Or.inl rfl
  | some parent =>
    simp only
    split
    · exact Or.inl rfl
    · next hamb =>
      split
      · exact Or.inl rfl
      · next hproject =>
        cases Assoc.get? edge.targetChild E.applied with
        | some _ => exact Or.inl rfl
        | none =>
          simp only
          cases hrow : (E.messages.get? edge.targetChild).filter fun row =>
              row.projectId = edge.targetProject with
          | none => exact Or.inl rfl
          | some row =>
            simp only
            cases row.replyTo.filter fun p => 0 < p with
            | some existing => exact Or.inl rfl
            | none =>
              right
              rw [not_ne_iff, Option.map_eq_some_iff] at hproject
              obtain ⟨parentRow, hparent, hpid⟩ := hproject
              rw [Option.filter_eq_some_iff, decide_eq_true_iff] at hrow
              exact ⟨parent, row, rfl, hamb, ⟨parentRow, Ledger.get?_eq_some.mp hparent, hpid⟩,
                Ledger.get?_eq_some.mp hrow.1, hrow.2, rfl⟩

/-- A row without its reply target. -/
def MessageRow.bare (row : MessageRow) : MessageRow := { row with replyTo := none }

theorem bare_update (L : Ledger MessageRow) (n : Int) (p : Option Int) :
    (L.update n fun row => { row with replyTo := p }).rows.map (fun r => (r.1, r.2.bare)) =
      L.rows.map fun r => (r.1, r.2.bare) := by
  rw [Ledger.update, map_map]
  apply map_congr_left
  intro r _
  simp only [Function.comp_apply]
  split <;> rfl

theorem bare_applyPendingReplyEdges (messageIdMap : List ((Int × Int) × Int))
    (edges : List PendingReplyEdge) (messages : Ledger MessageRow) :
    (applyPendingReplyEdges messageIdMap edges messages).rows.map (fun r => (r.1, r.2.bare)) =
      messages.rows.map fun r => (r.1, r.2.bare) := by
  unfold applyPendingReplyEdges
  induction edges using reverseRecOn with
  | nil => rfl
  | append_singleton edges edge ih =>
    rw [foldl_append, foldl_cons, foldl_nil, ← ih]
    obtain heq | ⟨parent, row, _, _, _, _, _, heq⟩ :=
      applyEdge_cases messageIdMap (edges.foldl (applyEdge messageIdMap) ⟨messages, []⟩) edge
    · rw [heq]
    · rw [heq, bare_update]

theorem rowOf_bare {N : Names} {r : Int × MessageRow} {b : Int × Located} :
    RowOf N (r.1, r.2.bare) b ↔ RowOf N r b := by
  rcases r with ⟨n, row⟩
  constructor
  · rintro ⟨hn, hcolumns, hsender⟩
    refine ⟨hn, ?_, hsender⟩
    rcases row with ⟨⟩
    simpa [MessageRow.bare, messageRow] using hcolumns
  · rintro ⟨hn, hcolumns, hsender⟩
    refine ⟨hn, ?_, hsender⟩
    rcases row with ⟨⟩
    simpa [MessageRow.bare, messageRow] using hcolumns

theorem rowOf_applyPendingReplyEdges {N : Names} {messages : Ledger MessageRow}
    {built : List (Int × Located)} (h : Forall₂ (RowOf N) messages.rows built)
    (messageIdMap : List ((Int × Int) × Int)) (edges : List PendingReplyEdge) :
    Forall₂ (RowOf N) (applyPendingReplyEdges messageIdMap edges messages).rows built := by
  have hbare : Forall₂ (RowOf N) (messages.rows.map fun r => (r.1, r.2.bare)) built := by
    rw [forall₂_map_left_iff]
    exact h.imp fun _ _ => rowOf_bare.mpr
  rw [← bare_applyPendingReplyEdges messageIdMap edges, forall₂_map_left_iff] at hbare
  exact hbare.imp fun _ _ => rowOf_bare.mp

/-! ### The rebuilt rows -/

theorem number_of_waiting {files : List Located} {f : Located}
    (h : f ∈ (Intake.firstPass number identity files).waiting) : f.number ≠ none := by
  rw [Intake.waiting_firstPass, mem_filter, Intake.displaced_iff] at h
  obtain ⟨_, n, _, hn, _⟩ := h
  rw [hn]
  simp

theorem insertDeferred_tracks (R : Readers) (Q : RowOrder) (A : Archive) :
    Tracks (insertDeferred Q ((A.sorted.foldl (rebuildProject R Q) Candidate.empty).names,
        (A.sorted.foldl (rebuildProject R Q) Candidate.empty).mail))
      (Intake.file number identity (A.located R)) := by
  have hwalk := walked_foldl R Q A.nodup_sorted
  unfold insertDeferred
  rw [hwalk.waiting]
  have hstart : Tracks _ { Intake.firstPass number identity (A.located R) with
      waiting := [] } := ⟨hwalk.tracks.built, hwalk.tracks.top, hwalk.tracks.rows⟩
  exact hstart.foldl_place Q [] _ fun f hf => number_of_waiting hf

/-- The rebuilt messages are the filed ones, with everything that their files say. -/
theorem reconstruct_rows (R : Readers) (Q : RowOrder) (A : Archive) :
    (reconstruct R Q A).mail.built = (Intake.file number identity (A.located R)).ledger.rows ∧
      Forall₂ (RowOf (reconstruct R Q A).names) (reconstruct R Q A).mail.messages.rows
        (reconstruct R Q A).mail.built := by
  have h := insertDeferred_tracks R Q A
  exact ⟨h.built, rowOf_applyPendingReplyEdges h.rows _ _⟩

theorem reconstruct_leases (R : Readers) (Q : RowOrder) (A : Archive) :
    (reconstruct R Q A).leases = Leases.empty.replay (reconstruct R Q A).held :=
  (walked_foldl R Q A.nodup_sorted).leases

end AgentMail.Rebuild
