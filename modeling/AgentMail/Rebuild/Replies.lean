import AgentMail.Rebuild.NoLoss

/-!
# Rebuilt reply edges

A reply names its parent by a source id, which the rebuild translates with a map that stored files
fill (`crates/mcp-agent-mail-db/src/reconstruct.rs:2639–2725`, `2973–3002`): one stored file with a
source id makes the id known, a second one makes it ambiguous. A file that is dropped leaves no
mark in the map, so an id that two generations used can still look unambiguous.
-/

namespace AgentMail.Rebuild

open Base Lib Artifact List

/-! ### The map and the edges of stored files -/

/-- The project and source id of a stored file. -/
def sourceKey (b : Int × Located) : Option (Int × Int) := b.2.number.map (b.2.projectId, ·)

/-- The reply edge of a stored file. -/
def edgeOf (b : Int × Located) : Option PendingReplyEdge :=
  match b.2.number, b.2.message.sourceReplyTo with
  | some source, some parent => some ⟨b.2.projectId, source, parent, b.2.projectId, b.1⟩
  | _, _ => none

theorem edgeOf_eq_some {b : Int × Located} {e : PendingReplyEdge} :
    edgeOf b = some e ↔ ∃ source parent, b.2.number = some source ∧
      b.2.message.sourceReplyTo = some parent ∧
      e = ⟨b.2.projectId, source, parent, b.2.projectId, b.1⟩ := by
  unfold edgeOf
  cases b.2.number with
  | none => simp
  | some source =>
    cases b.2.message.sourceReplyTo with
    | none => simp
    | some parent => simp [eq_comm]

/-- The map after some stored files. -/
def sourceMap (built : List (Int × Located)) : List ((Int × Int) × Int) :=
  built.foldl (fun map b => match b.2.number with
    | some source => recordSource map (b.2.projectId, source) b.1
    | none => map) []

theorem sourceMap_concat (built : List (Int × Located)) (b : Int × Located) :
    sourceMap (built ++ [b]) = match b.2.number with
      | some source => recordSource (sourceMap built) (b.2.projectId, source) b.1
      | none => sourceMap built := by
  rw [sourceMap, foldl_append]
  rfl

/-- Map and edges are those of the stored files, and no edge is applied yet. -/
structure Linked (M : Mail) : Prop where
  map : M.messageIdMap = sourceMap M.built
  edges : M.pendingReplyEdges = M.built.filterMap edgeOf
  unset : ∀ r ∈ M.messages.rows, r.2.replyTo = none

theorem stable_linked : Mail.Stable Linked where
  same := fun M M' hsame h => by
    refine ⟨?_, ?_, ?_⟩
    · rw [hsame.messageIdMap, hsame.built, h.map]
    · rw [hsame.pendingReplyEdges, hsame.built, h.edges]
    · rw [hsame.messages]
      exact h.unset
  wait := fun M f h => ⟨h.map, h.edges, h.unset⟩
  store := fun M f id senderId messages h _ hrows => by
    refine ⟨?_, ?_, ?_⟩
    · have hconcat := sourceMap_concat M.built (id, f)
      rw [← h.map] at hconcat
      exact hconcat.symm
    · simp only [recordMessage, filterMap_append, filterMap_cons, filterMap_nil]
      rw [← h.edges]
      cases hnum : f.number with
      | none => simp [edgeOf, hnum]
      | some source =>
        cases hreply : f.message.sourceReplyTo with
        | none => simp [edgeOf, hnum, hreply]
        | some parent => simp [edgeOf, hnum, hreply]
    · intro r hr
      rw [recordMessage, hrows, mem_append, mem_singleton] at hr
      rcases hr with hr | rfl
      · exact h.unset r hr
      · rfl

theorem get?_recordSource (map : List ((Int × Int) × Int)) (key k : Int × Int) (id : Int) :
    Assoc.get? k (recordSource map key id) = if key = k then
        match Assoc.get? key map with
        | some existing =>
          some (if existing ≠ id ∧ existing ≠ ambiguousReplyMessageId then ambiguousReplyMessageId
            else existing)
        | none => some id
      else Assoc.get? k map := by
  unfold recordSource
  cases hget : Assoc.get? key map with
  | none => rw [Assoc.get?_insert]
  | some existing =>
    simp only
    by_cases hk : key = k
    · subst hk
      split
      · rw [Assoc.get?_insert]
      · simp [hget]
    · split
      · rw [Assoc.get?_insert, if_neg hk]
      · rfl

variable {built : List (Int × Located)}

/-- A source id is known if one stored file carries it, and ambiguous if several do. -/
theorem get?_sourceMap (hnodup : (built.map Prod.fst).Nodup) (hpos : ∀ b ∈ built, 0 < b.1)
    (k : Int × Int) :
    Assoc.get? k (sourceMap built) = match built.filter fun b => sourceKey b = some k with
      | [] => none
      | [b] => some b.1
      | _ => some ambiguousReplyMessageId := by
  induction built using reverseRecOn with
  | nil => rfl
  | append_singleton built b ih =>
    rw [map_append, nodup_append] at hnodup
    have ih := ih hnodup.1 fun c hc => hpos c (mem_append_left _ hc)
    have hother (c : Int × Located) (hc : c ∈ built) : c.1 ≠ b.1 := fun heq =>
      hnodup.2.2 c.1 (mem_map_of_mem hc) b.1 (by simp) heq
    rw [sourceMap_concat, filter_append]
    cases hnum : b.2.number with
    | none =>
      have hkey : sourceKey b = none := by rw [sourceKey, hnum]; rfl
      simp [hkey, ih]
    | some source =>
      have hkey : sourceKey b = some (b.2.projectId, source) := by rw [sourceKey, hnum]; rfl
      simp only [get?_recordSource]
      by_cases hk : (b.2.projectId, source) = k
      · subst hk
        rw [if_pos rfl, ih, filter_cons_of_pos (by simp [hkey]), filter_nil]
        rcases hfilter : built.filter fun c => sourceKey c = some (b.2.projectId, source) with
          _ | ⟨c, _ | ⟨d, rest⟩⟩
        · rfl
        · have hc : c ∈ built := by
            have hmem : c ∈ built.filter fun c => sourceKey c = some (b.2.projectId, source) := by
              rw [hfilter]
              exact mem_singleton_self c
            exact (mem_filter.mp hmem).1
          have hcpos := hpos c (mem_append_left _ hc)
          have hne : c.1 ≠ b.1 ∧ c.1 ≠ ambiguousReplyMessageId :=
            ⟨hother c hc, by unfold ambiguousReplyMessageId; omega⟩
          simp [hne]
        · cases rest <;> simp
      · rw [if_neg hk, filter_cons_of_neg (by simpa [hkey] using hk), filter_nil, append_nil, ih]

/-! ### Applying the edges -/

/-- The parent that an edge links to, if its source id is known. -/
def linkTarget (map : List ((Int × Int) × Int)) (edge : PendingReplyEdge) : Option Int :=
  (Assoc.get? (edge.sourceProject, edge.sourceParent) map).filter fun p =>
    p ≠ ambiguousReplyMessageId

/-- The row under an id is in a project. -/
def InProject (messages : Ledger MessageRow) (id projectId : Int) : Prop :=
  ∃ row, (id, row) ∈ messages.rows ∧ row.projectId = projectId

variable {messages : Ledger MessageRow}

theorem inProject_of_bare {messages' : Ledger MessageRow}
    (h : messages'.rows.map (fun r => (r.1, r.2.bare)) = messages.rows.map fun r => (r.1, r.2.bare))
    {id projectId : Int} (hin : InProject messages id projectId) :
    InProject messages' id projectId := by
  obtain ⟨row, hrow, hproject⟩ := hin
  have hmem : (id, row.bare) ∈ messages'.rows.map fun r => (r.1, r.2.bare) := by
    rw [h]
    exact mem_map_of_mem (f := fun r : Int × MessageRow => (r.1, r.2.bare)) hrow
  obtain ⟨⟨id', row'⟩, hrow', heq⟩ := mem_map.mp hmem
  obtain ⟨rfl, hbare⟩ := Prod.mk.inj heq
  refine ⟨row', hrow', ?_⟩
  rw [← hproject]
  show row'.bare.projectId = row.bare.projectId
  rw [← hbare]

/-- The edges can be applied: each is about another row, and it and its parent are in the project. -/
structure Applicable (map : List ((Int × Int) × Int)) (edges : List PendingReplyEdge)
    (messages : Ledger MessageRow) : Prop where
  child_nodup : (edges.map PendingReplyEdge.targetChild).Nodup
  child : ∀ e ∈ edges, InProject messages e.targetChild e.targetProject
  parent : ∀ e ∈ edges, ∀ p, linkTarget map e = some p → InProject messages p e.targetProject
  unset : ∀ r ∈ messages.rows, r.2.replyTo = none

variable {map : List ((Int × Int) × Int)}

theorem Applicable.front {edges : List PendingReplyEdge} {edge : PendingReplyEdge}
    (h : Applicable map (edges ++ [edge]) messages) : Applicable map edges messages where
  child_nodup := by
    have hnodup := h.child_nodup
    rw [map_append, nodup_append] at hnodup
    exact hnodup.1
  child := fun e he => h.child e (mem_append_left _ he)
  parent := fun e he => h.parent e (mem_append_left _ he)
  unset := h.unset

/-- The edges applied so far, and nothing else. -/
structure Applied (map : List ((Int × Int) × Int)) (edges : List PendingReplyEdge)
    (E : EdgeState) : Prop where
  applied : ∀ e ∈ E.applied, e.1 ∈ edges.map PendingReplyEdge.targetChild
  replyTo : ∀ m row, (m, row) ∈ E.messages.rows →
    row.replyTo = (edges.find? fun e => e.targetChild = m).bind (linkTarget map)

theorem find?_child_concat (edges : List PendingReplyEdge) (edge : PendingReplyEdge) (m : Int) :
    ((edges ++ [edge]).find? fun e => e.targetChild = m) = (edges.find? fun e => e.targetChild = m).or
        (if edge.targetChild = m then some edge else none) := by
  rw [List.find?_append]
  by_cases hm : edge.targetChild = m
  · simp [hm]
  · simp [hm]

theorem applyEdge_of_unknown {edge : PendingReplyEdge} (h : linkTarget map edge = none)
    (E : EdgeState) : applyEdge map E edge = E := by
  unfold linkTarget at h
  unfold applyEdge
  cases hget : Assoc.get? (edge.sourceProject, edge.sourceParent) map with
  | none => rfl
  | some p =>
    rw [hget] at h
    have hp : p = ambiguousReplyMessageId := by simpa using h
    simp only [if_pos hp]

theorem applyEdge_of_known {edge : PendingReplyEdge} {p : Int} {E : EdgeState} {row : MessageRow}
    (h : linkTarget map edge = some p) (hparent : InProject E.messages p edge.targetProject)
    (happlied : Assoc.get? edge.targetChild E.applied = none)
    (hchild : (edge.targetChild, row) ∈ E.messages.rows)
    (hproject : row.projectId = edge.targetProject) (hunset : row.replyTo = none) :
    applyEdge map E edge =
      ⟨E.messages.update edge.targetChild fun row => { row with replyTo := some p },
        Assoc.insert edge.targetChild p E.applied⟩ := by
  unfold linkTarget at h
  obtain ⟨hget, hp⟩ := Option.filter_eq_some_iff.mp h
  rw [decide_eq_true_iff] at hp
  obtain ⟨parentRow, hrow, hpid⟩ := hparent
  have hin : ¬ (E.messages.get? p).map MessageRow.projectId ≠ some edge.targetProject := by
    rw [not_not, Ledger.get?_eq_some.mpr hrow, Option.map_some, hpid]
  have hfilter : (E.messages.get? edge.targetChild).filter (fun row =>
      row.projectId = edge.targetProject) = some row := by
    rw [Ledger.get?_eq_some.mpr hchild, Option.filter_some, if_pos (decide_eq_true hproject)]
  unfold applyEdge
  simp only [hget, if_neg hp, if_neg hin, happlied, hfilter, hunset, Option.filter_none]

theorem applied_foldl {edges : List PendingReplyEdge} (h : Applicable map edges messages) :
    Applied map edges (edges.foldl (applyEdge map) ⟨messages, []⟩) := by
  induction edges using reverseRecOn with
  | nil => exact ⟨by simp, fun m row hrow => h.unset _ hrow⟩
  | append_singleton edges edge ih =>
    have hfront := ih h.front
    have hbare := bare_applyPendingReplyEdges map edges messages
    rw [applyPendingReplyEdges] at hbare
    rw [foldl_append, foldl_cons, foldl_nil]
    generalize edges.foldl (applyEdge map) ⟨messages, []⟩ = E at hfront hbare
    have hedge : edge ∈ edges ++ [edge] := by simp
    have hnew : edge.targetChild ∉ edges.map PendingReplyEdge.targetChild := by
      have hnodup := h.child_nodup
      rw [map_append, nodup_append] at hnodup
      intro hmem
      exact hnodup.2.2 _ hmem edge.targetChild (by simp) rfl
    have hfind : (edges.find? fun e => e.targetChild = edge.targetChild) = none := by
      rw [List.find?_eq_none]
      intro e he heq
      exact hnew (mem_map.mpr ⟨e, he, of_decide_eq_true heq⟩)
    cases hlink : linkTarget map edge with
    | none =>
      rw [applyEdge_of_unknown hlink]
      constructor
      · intro e he
        rw [map_append]
        exact mem_append_left _ (hfront.applied e he)
      · intro m row hrow
        rw [hfront.replyTo m row hrow, find?_child_concat]
        by_cases hm : edge.targetChild = m
        · rw [← hm, hfind]
          simp [hlink]
        · simp [hm]
    | some p =>
      obtain ⟨row, hchild, hproject⟩ := inProject_of_bare hbare (h.child edge hedge)
      have hparent := inProject_of_bare hbare (h.parent edge hedge p hlink)
      have hunset : row.replyTo = none := by rw [hfront.replyTo _ row hchild, hfind]; rfl
      have happlied : Assoc.get? edge.targetChild E.applied = none := by
        rw [← Option.not_isSome_iff_eq_none, Assoc.get?_isSome, Assoc.contains_iff]
        intro hmem
        obtain ⟨e, he, heq⟩ := mem_map.mp hmem
        exact hnew (heq ▸ hfront.applied e he)
      rw [applyEdge_of_known hlink hparent happlied hchild hproject hunset]
      constructor
      · intro e he
        rw [Assoc.insert, mem_append, mem_singleton] at he
        rw [map_append, mem_append]
        rcases he with he | rfl
        · exact Or.inl (hfront.applied e (mem_of_mem_filter he))
        · exact Or.inr (by simp)
      · intro m row' hrow'
        obtain ⟨old, hold, rfl⟩ := Ledger.mem_rows_update.mp hrow'
        rw [find?_child_concat]
        by_cases hm : m = edge.targetChild
        · rw [if_pos hm, hm, hfind]
          simp [hlink]
        · rw [if_neg hm, hfront.replyTo m old hold, if_neg (Ne.symm hm), Option.or_none]

/-! ### The edges of the rebuilt messages -/

/-- The message tables before the edges are applied. -/
def beforeEdges (R : Readers) (Q : RowOrder) (A : Archive) : Mail :=
  (insertDeferred Q ((A.sorted.foldl (rebuildProject R Q) Candidate.empty).names,
    (A.sorted.foldl (rebuildProject R Q) Candidate.empty).mail)).2

theorem positiveId_pos {key : Text} {msg : Json} {n : Int} (h : positiveId key msg = some n) :
    0 < n := by
  obtain ⟨_, hn⟩ := Option.filter_eq_some_iff.mp h
  exact of_decide_eq_true hn

variable {R : Readers} {A : Archive}

theorem number_pos_of_located {f : Located} (h : f ∈ A.located R) {n : Int}
    (hn : f.number = some n) : 0 < n := by
  obtain ⟨⟨d, i⟩, _, hf⟩ := mem_flatMap.mp h
  obtain ⟨m, hm, rfl⟩ := mem_map.mp hf
  obtain ⟨file, _, hparse⟩ := mem_filterMap.mp hm
  unfold parseMessage at hparse
  simp only [Option.bind_eq_bind, Option.pure_def, Option.bind_eq_some_iff, Option.some.injEq]
    at hparse
  obtain ⟨_, _, _, _, msg, _, rfl⟩ := hparse
  exact positiveId_pos hn

theorem pos_of_mem_built {b : Int × Located}
    (h : b ∈ (Intake.file Located.number Located.identity (A.located R)).ledger.rows) : 0 < b.1 :=
  Intake.pos_of_mem_file Located.number Located.identity
    (fun _ hf _ hn => number_pos_of_located hf hn) h

/-- One stored file carries the source id of the parent. -/
theorem linkTarget_sourceMap (hnodup : (built.map Prod.fst).Nodup) (hpos : ∀ b ∈ built, 0 < b.1)
    (edge : PendingReplyEdge) (p : Int) :
    linkTarget (sourceMap built) edge = some p ↔
      ∃ g, built.filter (fun b => sourceKey b = some (edge.sourceProject, edge.sourceParent)) =
        [(p, g)] := by
  rw [linkTarget, get?_sourceMap hnodup hpos]
  rcases hfilter : built.filter fun b => sourceKey b = some (edge.sourceProject, edge.sourceParent)
    with _ | ⟨⟨n, g⟩, _ | ⟨c, rest⟩⟩
  · simp
  · have hmem : (n, g) ∈ built := by
      have hmem : (n, g) ∈ built.filter fun b =>
          sourceKey b = some (edge.sourceProject, edge.sourceParent) := by
        rw [hfilter]
        exact mem_singleton_self _
      exact (mem_filter.mp hmem).1
    have hne : n ≠ ambiguousReplyMessageId := by
      have hn := hpos _ hmem
      unfold ambiguousReplyMessageId
      simp only at hn
      omega
    simp [Option.filter_some, hne]
  · simp [Option.filter_some]

/-- The edges of stored files can be applied. -/
theorem applicable_built {N : Names} (hnodup : (built.map Prod.fst).Nodup)
    (hpos : ∀ b ∈ built, 0 < b.1) (hrows : Forall₂ (RowOf N) messages.rows built)
    (hunset : ∀ r ∈ messages.rows, r.2.replyTo = none) :
    Applicable (sourceMap built) (built.filterMap edgeOf) messages := by
  have hin (b : Int × Located) (hb : b ∈ built) : InProject messages b.1 b.2.projectId := by
    obtain ⟨⟨m, row⟩, hrow, rfl, hshows⟩ := exists_of_forall₂_right hrows hb
    exact ⟨row, hrow, congrArg Prod.fst hshows.identity_eq⟩
  refine ⟨?_, ?_, ?_, hunset⟩
  · refine List.Nodup.sublist (map_filterMap_sublist (f := Prod.fst) ?_ built) hnodup
    intro b e hbe
    obtain ⟨_, _, _, _, rfl⟩ := edgeOf_eq_some.mp hbe
    rfl
  · intro e he
    obtain ⟨b, hb, hbe⟩ := mem_filterMap.mp he
    obtain ⟨_, _, _, _, rfl⟩ := edgeOf_eq_some.mp hbe
    exact hin b hb
  · intro e he p hp
    obtain ⟨b, _, hbe⟩ := mem_filterMap.mp he
    obtain ⟨_, parent, _, _, rfl⟩ := edgeOf_eq_some.mp hbe
    obtain ⟨g, hfilter⟩ := (linkTarget_sourceMap hnodup hpos _ p).mp hp
    have hmem : (p, g) ∈ built.filter fun c => sourceKey c = some (b.2.projectId, parent) := by
      rw [hfilter]
      exact mem_singleton_self _
    rw [mem_filter, decide_eq_true_iff, sourceKey, Option.map_eq_some_iff] at hmem
    obtain ⟨hg, s, _, hkey⟩ := hmem
    have hproject : g.projectId = b.2.projectId := congrArg Prod.fst hkey
    have hparent := hin (p, g) hg
    rwa [hproject] at hparent

/-- A rebuilt row has the parent of its file, if one stored file carries its source id. -/
theorem replyTo_reconstruct {Q : RowOrder} {m : Int} {row : MessageRow} {f : Located}
    (hrow : (m, row) ∈ (reconstruct R Q A).mail.messages.rows)
    (hf : (m, f) ∈ (reconstruct R Q A).mail.built) :
    row.replyTo = (edgeOf (m, f)).bind
      (linkTarget (sourceMap (reconstruct R Q A).mail.built)) := by
  have htracks := insertDeferred_tracks R Q A
  have hlinked : Linked (beforeEdges R Q A) :=
    stable_linked.walk R Q A.sorted ⟨rfl, rfl, by simp [Mail.empty]⟩
  have hbuilt : (beforeEdges R Q A).built =
      (Intake.file Located.number Located.identity (A.located R)).ledger.rows := htracks.built
  have hnodup : ((beforeEdges R Q A).built.map Prod.fst).Nodup := by
    rw [hbuilt]
    exact Ledger.nodup _
  have happlicable := applicable_built hnodup
    (fun b hb => pos_of_mem_built (hbuilt ▸ hb)) htracks.rows hlinked.unset
  have hfinal : (m, row) ∈ (applyPendingReplyEdges (beforeEdges R Q A).messageIdMap
      (beforeEdges R Q A).pendingReplyEdges (beforeEdges R Q A).messages).rows := hrow
  rw [hlinked.map, hlinked.edges] at hfinal
  rw [(applied_foldl happlicable).replyTo m row hfinal]
  congr 1
  -- the edge of the row is the one of its own file
  have hmem : (m, f) ∈ (beforeEdges R Q A).built := hf
  cases hedge : edgeOf (m, f) with
  | none =>
    rw [List.find?_eq_none]
    intro e he heq
    obtain ⟨b, hb, hbe⟩ := mem_filterMap.mp he
    obtain ⟨_, _, _, _, rfl⟩ := edgeOf_eq_some.mp hbe
    have hb1 : b.1 = m := of_decide_eq_true heq
    have heq := inj_on_of_nodup_map hnodup hb hmem hb1
    rw [heq, hedge] at hbe
    cases hbe
  | some e =>
    have hchild : e.targetChild = m := by
      obtain ⟨_, _, _, _, rfl⟩ := edgeOf_eq_some.mp hedge
      rfl
    have hfind := (find?_key_eq_some happlicable.child_nodup (k := m) (a := e)).mpr
      ⟨mem_filterMap.mpr ⟨_, hmem, hedge⟩, hchild⟩
    rw [← hfind]
    rfl

/-! ### When the edges are the archived ones -/

/-- Every edge joins messages of one project, its parent's file carries the source id that the
child's file names, and every file of the project with that id is the same message. -/
def RepliesFaithful (C : Candidate) (files : List Located) : Prop :=
  ∀ m row p, (m, row) ∈ C.mail.messages.rows → row.replyTo = some p →
    ∃ parentRow f g s, (p, parentRow) ∈ C.mail.messages.rows ∧
      parentRow.projectId = row.projectId ∧ (m, f) ∈ C.mail.built ∧ (p, g) ∈ C.mail.built ∧
      f.message.sourceReplyTo = some s ∧ g.number = some s ∧
      ∀ h ∈ files, h.projectId = row.projectId → h.number = some s → h.identity = g.identity

/-- The file gets a row, in the first pass or in the second. -/
def Stored (files : List Located) (f : Located) : Prop :=
  ∃ front back, files = front ++ f :: back ∧ (Intake.Fresh Located.number front f ∨
      Intake.Late Located.number Located.identity files front f)

/-- If the stored files with the source id that a stored reply names are one message, then all
files of the project with that id are this message. -/
def ParentsUnambiguous (files : List Located) : Prop :=
  ∀ f g s, Stored files f → Stored files g → f.number ≠ none →
    f.message.sourceReplyTo = some s → g.number = some s → g.projectId = f.projectId →
    (∀ g', Stored files g' → g'.number = some s → g'.projectId = f.projectId →
      g'.identity = g.identity) →
    ∀ h ∈ files, h.number = some s → h.projectId = f.projectId → h.identity = g.identity

theorem stored_iff_built {Q : RowOrder} {f : Located} :
    Stored (A.located R) f ↔ ∃ n, (n, f) ∈ (reconstruct R Q A).mail.built := by
  rw [(reconstruct_rows R Q A).1, ← Ledger.mem_items, Intake.mem_items_file]
  rfl

theorem mem_filter_sourceKey {n projectId s : Int} {g : Located} :
    (n, g) ∈ built.filter (fun b => sourceKey b = some (projectId, s)) ↔
      (n, g) ∈ built ∧ g.number = some s ∧ g.projectId = projectId := by
  rw [mem_filter, decide_eq_true_iff, sourceKey, Option.map_eq_some_iff]
  constructor
  · rintro ⟨hmem, s', hs, hkey⟩
    obtain ⟨hproject, rfl⟩ := Prod.mk.inj hkey
    exact ⟨hmem, hs, hproject⟩
  · rintro ⟨hmem, hs, rfl⟩
    exact ⟨hmem, s, hs, rfl⟩

theorem repliesFaithful_of_unambiguous {Q : RowOrder} (h : ParentsUnambiguous (A.located R)) :
    RepliesFaithful (reconstruct R Q A) (A.located R) := by
  intro m row p hrow hreply
  obtain ⟨hbuilt, hrows⟩ := reconstruct_rows R Q A
  obtain ⟨⟨m', f⟩, hf, hm, hshows⟩ := exists_of_forall₂_left hrows hrow
  obtain rfl : m = m' := hm
  rw [replyTo_reconstruct hrow hf, Option.bind_eq_some_iff] at hreply
  obtain ⟨e, hedge, hlink⟩ := hreply
  obtain ⟨source, s, hnum, hparent, rfl⟩ := edgeOf_eq_some.mp hedge
  have hnodup : ((reconstruct R Q A).mail.built.map Prod.fst).Nodup := by
    rw [hbuilt]
    exact Ledger.nodup _
  obtain ⟨g, hfilter⟩ := (linkTarget_sourceMap hnodup
    (fun b hb => pos_of_mem_built (hbuilt ▸ hb)) _ p).mp hlink
  have hmem : (p, g) ∈ (reconstruct R Q A).mail.built.filter fun b =>
      sourceKey b = some (f.projectId, s) := by
    rw [hfilter]
    exact mem_singleton_self _
  obtain ⟨hg, hgs, hgproject⟩ := mem_filter_sourceKey.mp hmem
  obtain ⟨⟨p', parentRow⟩, hparentRow, hp, hparentShows⟩ := exists_of_forall₂_right hrows hg
  obtain rfl : p' = p := hp
  have hproject : row.projectId = f.projectId := congrArg Prod.fst hshows.identity_eq
  have hparentProject : parentRow.projectId = g.projectId :=
    congrArg Prod.fst hparentShows.identity_eq
  refine ⟨parentRow, f, g, s, hparentRow, ?_, hf, hg, hparent, hgs, ?_⟩
  · rw [hparentProject, hgproject, hproject]
  · intro k hk hkproject hks
    refine h f g s (stored_iff_built.mpr ⟨m, hf⟩) (stored_iff_built.mpr ⟨p', hg⟩) ?_ hparent hgs
      hgproject ?_ k hk hks (hkproject.trans hproject)
    · rw [hnum]
      simp
    · intro g' hg' hg's hg'project
      obtain ⟨n, hn⟩ := (stored_iff_built (Q := Q)).mp hg'
      have hmem' := mem_filter_sourceKey.mpr ⟨hn, hg's, hg'project⟩
      rw [hfilter, mem_singleton] at hmem'
      rw [(Prod.mk.inj hmem').2]

theorem unambiguous_of_repliesFaithful {Q : RowOrder}
    (h : RepliesFaithful (reconstruct R Q A) (A.located R)) : ParentsUnambiguous (A.located R) := by
  intro f g s hf hg hnum hparent hgs hgproject hone k hk hks hkproject
  obtain ⟨hbuilt, hrows⟩ := reconstruct_rows R Q A
  obtain ⟨m, hm⟩ := (stored_iff_built (Q := Q)).mp hf
  obtain ⟨p, hp⟩ := (stored_iff_built (Q := Q)).mp hg
  have hnodup : ((reconstruct R Q A).mail.built.map Prod.fst).Nodup := by
    rw [hbuilt]
    exact Ledger.nodup _
  obtain ⟨source, hsource⟩ := Option.ne_none_iff_exists'.mp hnum
  obtain ⟨⟨m', row⟩, hrow, hm', hshows⟩ := exists_of_forall₂_right hrows hm
  obtain rfl : m' = m := hm'
  -- the only stored file with the source id
  have hfilter : (reconstruct R Q A).mail.built.filter
      (fun b => sourceKey b = some (f.projectId, s)) = [(p, g)] := by
    refine eq_singleton_of_nodup ((List.Nodup.of_map _ hnodup).filter _)
      (mem_filter_sourceKey.mpr ⟨hp, hgs, hgproject⟩) ?_
    rintro ⟨n, g'⟩ hmem
    obtain ⟨hn, hg's, hg'project⟩ := mem_filter_sourceKey.mp hmem
    have hid := hone g' (stored_iff_built.mpr ⟨n, hn⟩) hg's hg'project
    rw [hbuilt] at hn hp
    obtain rfl := Intake.row_unique Located.number Located.identity hn hp (by simp [hg's])
      ⟨hid, hg's.trans hgs.symm⟩
    rw [Ledger.eq_of_mem hn hp]
  have hedge : edgeOf (m', f) = some ⟨f.projectId, source, s, f.projectId, m'⟩ :=
    edgeOf_eq_some.mpr ⟨source, s, hsource, hparent, rfl⟩
  have hlink := (linkTarget_sourceMap hnodup (fun b hb => pos_of_mem_built (hbuilt ▸ hb))
    ⟨f.projectId, source, s, f.projectId, m'⟩ p).mpr ⟨g, hfilter⟩
  have hreply : row.replyTo = some p := by
    rw [replyTo_reconstruct hrow hm, hedge]
    exact hlink
  obtain ⟨_, f', g', s', _, _, hf', hg', hs', _, hall⟩ := h m' row p hrow hreply
  rw [hbuilt] at hf' hg' hm hp
  obtain rfl := Ledger.eq_of_mem hf' hm
  obtain rfl := Ledger.eq_of_mem hg' hp
  obtain rfl : s' = s := Option.some.inj (hs'.symm.trans hparent)
  have hproject : row.projectId = f'.projectId := congrArg Prod.fst hshows.identity_eq
  exact hall k hk (hkproject.trans hproject.symm) hks

/-- The rebuilt edges are the archived ones exactly when no dropped file makes the source id of a
linked parent ambiguous. -/
theorem reconstruct_repliesFaithful_iff (R : Readers) (Q : RowOrder) (A : Archive) :
    RepliesFaithful (reconstruct R Q A) (A.located R) ↔ ParentsUnambiguous (A.located R) :=
  ⟨unambiguous_of_repliesFaithful, repliesFaithful_of_unambiguous⟩

/-- Two generations used the id 1; the second message with it is dropped for its twin with the id 2.
A reply names the parent 1. -/
def replyArchive : Archive where
  dirs := [messagesDir "alpha" [
    frontmatterFile "a.md" "\x7b\"id\":1,\"created_ts\":1,\"subject\":\"start\"\x7d\n",
    frontmatterFile "b.md" "\x7b\"id\":1,\"created_ts\":2,\"subject\":\"status\"\x7d\n",
    frontmatterFile "c.md" "\x7b\"id\":2,\"created_ts\":2,\"subject\":\"status\"\x7d\n",
    frontmatterFile "d.md" "\x7b\"id\":3,\"created_ts\":3,\"reply_to\":1\x7d\n"]]
  nodup := by simp

def replyReaders : Readers := tableReaders [
  ("\x7b\"id\":1,\"created_ts\":1,\"subject\":\"start\"\x7d\n", .obj [("id".toList, .int 1),
    ("created_ts".toList, .int 1), ("subject".toList, .str "start".toList)]),
  ("\x7b\"id\":1,\"created_ts\":2,\"subject\":\"status\"\x7d\n", .obj [("id".toList, .int 1),
    ("created_ts".toList, .int 2), ("subject".toList, .str "status".toList)]),
  ("\x7b\"id\":2,\"created_ts\":2,\"subject\":\"status\"\x7d\n", .obj [("id".toList, .int 2),
    ("created_ts".toList, .int 2), ("subject".toList, .str "status".toList)]),
  ("\x7b\"id\":3,\"created_ts\":3,\"reply_to\":1\x7d\n", .obj [("id".toList, .int 3),
    ("created_ts".toList, .int 3), ("reply_to".toList, .int 1)])]

theorem reply_rows :
    (reconstruct replyReaders scanOrder replyArchive).mail.messages.rows.map
      (fun r => (r.1, r.2.projectId, r.2.replyTo)) =
        [(1, 1, none), (2, 1, none), (3, 1, some 1)] := by
  simp (disch := rfl) only [replyReaders, replyArchive, tableReaders, messagesDir, frontmatterFile,
    find?_cons, toList_lit]
  decide +kernel

theorem reply_built :
    (reconstruct replyReaders scanOrder replyArchive).mail.built.map
      (fun b => (b.1, b.2.message.sourceReplyTo, b.2.identity)) =
        [(1, none, (1, 1, "start".toList)), (2, none, (1, 2, "status".toList)),
          (3, some 1, (1, 3, []))] := by
  simp (disch := rfl) only [replyReaders, replyArchive, tableReaders, messagesDir, frontmatterFile,
    find?_cons, toList_lit]
  decide +kernel

theorem reply_located :
    (replyArchive.located replyReaders).map (fun f => (f.number, f.identity)) =
      [(some 1, (1, 1, "start".toList)), (some 1, (1, 2, "status".toList)),
        (some 2, (1, 2, "status".toList)), (some 3, (1, 3, []))] := by
  simp (disch := rfl) only [replyReaders, replyArchive, tableReaders, messagesDir, frontmatterFile,
    find?_cons, toList_lit]
  decide +kernel

/-- The reply is linked to the first message with the id 1, though its parent may be the second. -/
theorem reply_linked_across_generations :
    ¬ RepliesFaithful (reconstruct replyReaders scanOrder replyArchive)
      (replyArchive.located replyReaders) := by
  intro h
  have hrow : (3, 1, some 1) ∈ (reconstruct replyReaders scanOrder replyArchive).mail.messages.rows.map
      fun r => (r.1, r.2.projectId, r.2.replyTo) := by
    rw [reply_rows]
    decide
  obtain ⟨⟨m, row⟩, hmem, hrow⟩ := mem_map.mp hrow
  simp only [Prod.mk.injEq] at hrow
  obtain ⟨rfl, hproject, hreply⟩ := hrow
  obtain ⟨_, f, g, s, _, _, hf, hg, hs, _, hall⟩ := h 3 row 1 hmem hreply
  have hf' := mem_map_of_mem (f := fun b : Int × Located =>
    (b.1, b.2.message.sourceReplyTo, b.2.identity)) hf
  have hg' := mem_map_of_mem (f := fun b : Int × Located =>
    (b.1, b.2.message.sourceReplyTo, b.2.identity)) hg
  rw [reply_built] at hf' hg'
  have hs' : s = 1 := by
    simp only [mem_cons, not_mem_nil, Prod.mk.injEq, hs] at hf'
    simp at hf'
    exact hf'.1
  have hgid : g.identity = (1, 1, "start".toList) := by
    simp only [mem_cons, not_mem_nil, Prod.mk.injEq] at hg'
    simp at hg'
    simpa using hg'.2
  have hfile : (some (1 : Int), ((1 : Int), (2 : Int), "status".toList)) ∈
      (replyArchive.located replyReaders).map fun f => (f.number, f.identity) := by
    rw [reply_located]
    decide
  obtain ⟨k, hk, heq⟩ := mem_map.mp hfile
  obtain ⟨hknum, hkid⟩ := Prod.mk.inj heq
  have hkproject : k.projectId = 1 := congrArg Prod.fst hkid
  have hsame := hall k hk (hkproject.trans hproject.symm) (hs' ▸ hknum)
  rw [hkid, hgid] at hsame
  revert hsame
  decide

end AgentMail.Rebuild
