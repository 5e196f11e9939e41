import AgentMail.Rebuild.NoLoss
import AgentMail.Salvage.Stages

/-!
# Which messages keep their ids

A message is renumbered when its id is taken. Ids are generated from the running maximum of the
table, so an id that was generated for a file without one, for a file that waited, or for a salvaged
message whose own id was taken, can be the id of a message that comes later.
-/

namespace AgentMail.Salvage

open Base Lib Rebuild List

/-! ### What the merge keeps -/

variable {R : Readers} {Q : QueryOrder} {D : Database} {I : Identities}

/-- The rows of the merged database without their reply edges: those of the candidate, and then those
that were carried over. -/
theorem Stages.bare_rows {C : Candidate} {M : Merged} {S : Carry} (h : Stages Q R C D M I S) :
    M.messages.rows.map (fun r => (r.1, r.2.bare)) =
      S.messages.rows.map fun r => (r.1, r.2.bare) := by
  rw [h.merged]
  exact bare_applyPendingReplyEdges _ _ _

variable {row : MessageRow}

theorem exists_bare_row {L L' : Ledger MessageRow}
    (h : L'.rows.map (fun r => (r.1, r.2.bare)) = L.rows.map fun r => (r.1, r.2.bare)) {n : Int}
    (hrow : (n, row) ∈ L.rows) : ∃ row', (n, row') ∈ L'.rows ∧ row'.bare = row.bare := by
  have hmem : (n, row.bare) ∈ L'.rows.map fun r => (r.1, r.2.bare) := by
    rw [h]
    exact mem_map_of_mem (f := fun r : Int × MessageRow => (r.1, r.2.bare)) hrow
  obtain ⟨⟨n', row'⟩, hrow', heq⟩ := mem_map.mp hmem
  obtain ⟨rfl, hbare⟩ := Prod.mk.inj heq
  exact ⟨row', hrow', hbare⟩

theorem identity_of_bare {row' : MessageRow} (h : row'.bare = row.bare) :
    row'.identity = row.identity := by
  show row'.bare.identity = row.bare.identity
  rw [h]

/-- Every message of the candidate is still there. -/
theorem Stages.exists_row {C : Candidate} {M : Merged} {S : Carry} (h : Stages Q R C D M I S)
    {n : Int} (hrow : (n, row) ∈ C.mail.messages.rows) :
    ∃ row', (n, row') ∈ M.messages.rows ∧ row'.bare = row.bare := by
  obtain ⟨added, hrows, _⟩ :=
    (carriedOver_of_ok (agents_of_identities h.identities).2 h.messages).rows
  apply exists_bare_row h.bare_rows
  rw [hrows]
  exact mem_append_left _ hrow

/-! ### Messages under their own ids -/

/-- The row has the columns of the salvaged message. -/
def CarriesMessage (R : Readers) (projectId : Int) (m : SalvagedMessage) (row : MessageRow) : Prop :=
  row.bare = m.row R projectId row.senderId

/-- No other message, archived or salvaged, has the project, time and subject of a salvaged one. -/
structure Unmatched (files : List Located) (D : Database) (projectIdMap : IdMap)
    (m : SalvagedMessage) : Prop where
  archived : ∀ projectId, Assoc.get? m.projectId projectIdMap = some projectId →
    ∀ f ∈ files, f.identity ≠ m.identity projectId
  salvaged : ∀ projectId, Assoc.get? m.projectId projectIdMap = some projectId →
    ∀ n ∈ D.messages, n.id ≠ m.id → Assoc.get? n.projectId projectIdMap = some projectId →
      n.identity projectId ≠ m.identity projectId

/-- Every message whose id does not collide is stored under it. -/
structure IdsKept (R : Readers) (files : List Located) (C : Candidate) (D : Database)
    (M : Merged) : Prop where
  archived : ∀ front f back c, files = front ++ f :: back → f.number = some c →
    (∀ g ∈ front ++ back, g.number ≠ some c) →
    (c, f) ∈ C.mail.built ∧ ∃ row, (c, row) ∈ M.messages.rows ∧ Shows C.names row f
  salvaged : ∀ m ∈ D.messages, (∀ f ∈ files, f.number ≠ some m.id) →
    Unmatched files D M.projectIdMap m →
    ∃ projectId row, Assoc.get? m.projectId M.projectIdMap = some projectId ∧
      (m.id, row) ∈ M.messages.rows ∧ CarriesMessage R projectId m row

/-- Before a file, no file without an id is given the id that the file brings; and a salvaged message
is not skipped, and finds its id free when its turn comes. -/
structure IdsFree (Q : QueryOrder) (R : Readers) (files : List Located) (C : Candidate)
    (D : Database) : Prop where
  archived : ∀ front f back c, files = front ++ f :: back → f.number = some c →
    (∀ g ∈ front ++ back, g.number ≠ some c) →
    ∀ front' g back', front = front' ++ g :: back' → g.number = none →
      Intake.highest Located.number front' + 1 ≠ c
  salvaged : ∀ I, mergeIdentities Q C D = .ok I → ∀ front m back,
    D.messages = front ++ m :: back → (∀ f ∈ files, f.number ≠ some m.id) →
    Unmatched files D I.projectIdMap m → (∃ projectId, Eligible I m projectId) ∧
      ∀ S, carryMessages Q R C I front = .ok S → m.id ∉ S.messages.numbers

variable {m : SalvagedMessage}

theorem identity_of_carries {projectId : Int} (h : CarriesMessage R projectId m row) :
    row.identity = m.identity projectId := by
  show row.bare.identity = m.identity projectId
  rw [h]
  rfl

/-- The rows of a candidate show files of the archive. -/
theorem exists_file_of_row {Q : RowOrder} {A : Archive} {n : Int}
    (h : (n, row) ∈ (reconstruct R Q A).mail.messages.rows) :
    ∃ f ∈ A.located R, row.identity = f.identity := by
  obtain ⟨hbuilt, hrows⟩ := reconstruct_rows R Q A
  obtain ⟨⟨n', f⟩, hf, _, hshows⟩ := exists_of_forall₂_left hrows h
  rw [hbuilt] at hf
  have hitem := (Intake.mem_items_file Located.number Located.identity).mp
    (Ledger.mem_items.mpr ⟨n', hf⟩)
  obtain ⟨front, back, hsplit, _⟩ := hitem
  refine ⟨f, ?_, hshows.identity_eq⟩
  rw [hsplit]
  simp

section

variable {R : Readers} {Q : QueryOrder} {A : Archive} {D : Database} {M : Merged}

theorem archived_kept_iff
    (h : mergeSalvagedDatabase Q R (reconstruct R Q.agents A) D = .ok M) {front back : List Located}
    {f : Located} {c : Int} (hsplit : A.located R = front ++ f :: back) (hnum : f.number = some c)
    (hunique : ∀ g ∈ front ++ back, g.number ≠ some c) :
    ((c, f) ∈ (reconstruct R Q.agents A).mail.built ∧
      ∃ row, (c, row) ∈ M.messages.rows ∧ Shows (reconstruct R Q.agents A).names row f) ↔
    ∀ front' g back', front = front' ++ g :: back' → g.number = none →
      Intake.highest Located.number front' + 1 ≠ c := by
  obtain ⟨hbuilt, hrows⟩ := reconstruct_rows R Q.agents A
  rw [← Intake.mem_file_own_iff Located.number Located.identity hsplit hnum hunique, ← hbuilt]
  constructor
  · exact And.left
  · intro hf
    obtain ⟨I, S, hstages⟩ := exists_stages h
    obtain ⟨⟨n, row⟩, hrow, hn, hshows⟩ := exists_of_forall₂_right hrows hf
    obtain rfl : n = c := hn
    obtain ⟨row', hrow', hbare⟩ := hstages.exists_row hrow
    refine ⟨hf, row', hrow', ?_⟩
    have hbareOf : RowOf (reconstruct R Q.agents A).names (n, row.bare) (n, f) :=
      rowOf_bare.mpr ⟨rfl, hshows⟩
    rw [← hbare] at hbareOf
    exact (rowOf_bare (r := (n, row')).mp hbareOf).2

/-- Before its turn, no row has the identity of a message that nothing matches. -/
theorem Unmatched.new (hm : Unmatched (A.located R) D I.projectIdMap m) {projectId : Int}
    (hproject : Assoc.get? m.projectId I.projectIdMap = some projectId)
    {front : List SalvagedMessage} (hfront : ∀ n ∈ front, n ∈ D.messages ∧ n.id ≠ m.id) {S : Carry}
    (hcarried : CarriedOver R I (Carry.start (reconstruct R Q.agents A) I.agents) front S) :
    ∀ r ∈ S.messages.rows, r.2.identity ≠ m.identity projectId := by
  intro r hr hid
  obtain ⟨added, hrows, hadded⟩ := hcarried.rows
  rw [hrows, mem_append] at hr
  rcases hr with hr | hr
  · obtain ⟨f, hf, hfid⟩ := exists_file_of_row hr
    exact hm.archived projectId hproject f hf (hfid.symm.trans hid)
  · obtain ⟨b, hb, _, p, heligible, hrow, _⟩ := exists_of_forall₂_left hadded hr
    have hidentity : b.2.identity p = m.identity projectId := by
      rw [← hid, hrow]
      rfl
    obtain ⟨hmem, hne⟩ := hfront b.2 (hcarried.origin b hb)
    obtain rfl : p = projectId := congrArg Prod.fst hidentity
    exact hm.salvaged p hproject b.2 hmem hne heligible.1 hidentity

/-- The messages beside one are different ones. -/
theorem id_ne_of_split {front back : List SalvagedMessage}
    (hsplit : D.messages = front ++ m :: back) :
    (∀ n ∈ front, n ∈ D.messages ∧ n.id ≠ m.id) ∧ ∀ n ∈ back, n.id ≠ m.id := by
  have hascending := D.messages_ascending
  rw [hsplit, pairwise_append, pairwise_cons] at hascending
  constructor
  · intro n hn
    have hlt := hascending.2.2 n hn m mem_cons_self
    refine ⟨?_, by omega⟩
    rw [hsplit]
    exact mem_append_left _ hn
  · intro n hn
    have hlt := hascending.2.1.1 n hn
    omega

theorem salvaged_kept_iff {S : Carry} (h : Stages Q R (reconstruct R Q.agents A) D M I S)
    {front back : List SalvagedMessage} (hsplit : D.messages = front ++ m :: back)
    (hm : Unmatched (A.located R) D I.projectIdMap m) :
    (∃ projectId row, Assoc.get? m.projectId I.projectIdMap = some projectId ∧
      (m.id, row) ∈ M.messages.rows ∧ CarriesMessage R projectId m row) ↔
    (∃ projectId, Eligible I m projectId) ∧
      ∀ T, carryMessages Q R (reconstruct R Q.agents A) I front = .ok T →
        m.id ∉ T.messages.numbers := by
  have hleads := (agents_of_identities h.identities).2
  obtain ⟨hfront, hback⟩ := id_ne_of_split hsplit
  have hrun := h.messages
  rw [hsplit, carryMessages] at hrun
  obtain ⟨T, hT, hrest⟩ := foldlM_append_eq_ok.mp hrun
  obtain ⟨T', hstep, hend⟩ := foldlM_cons_eq_ok.mp hrest
  have hbefore := carriedOver_of_ok hleads hT
  have hafter := hbefore.mergeMessage hleads hstep
  obtain ⟨hlead, horigin⟩ := carry_extends hleads hafter.agents hend
  have hcases := mergeMessage_cases hbefore.agents hleads hstep
  constructor
  · rintro ⟨projectId, row, hproject, hrow, hcarries⟩
    obtain ⟨row', hrow', hbare⟩ := exists_bare_row h.bare_rows.symm hrow
    have hid : row'.identity = m.identity projectId :=
      (identity_of_bare hbare).trans (identity_of_carries hcarries)
    -- the row was made for the message itself
    have hcarried : (m.id, m) ∈ S.carried := by
      obtain ⟨added, hrows, hadded⟩ := (carriedOver_of_ok hleads h.messages).rows
      rw [hrows, mem_append] at hrow'
      rcases hrow' with hrow' | hrow'
      · obtain ⟨f, hf, hfid⟩ := exists_file_of_row hrow'
        exact absurd (hfid.symm.trans hid) (hm.archived projectId hproject f hf)
      · obtain ⟨⟨n, b⟩, hb, hn, p, heligible, hcolumns, _⟩ := exists_of_forall₂_left hadded hrow'
        obtain rfl : m.id = n := hn
        have hidentity : b.identity p = m.identity projectId := by
          rw [← hid]
          exact (congrArg MessageRow.identity hcolumns).symm
        obtain rfl : p = projectId := congrArg Prod.fst hidentity
        have hmem : b ∈ D.messages := (carriedOver_of_ok hleads h.messages).origin _ hb
        have hsame : b.id = m.id := by
          by_contra hne
          exact hm.salvaged p hproject b hmem hne heligible.1 hidentity
        have heq : b = m := by
          rw [hsplit, mem_append, mem_cons] at hmem
          rcases hmem with hmem | rfl | hmem
          · exact absurd hsame (hfront b hmem).2
          · rfl
          · exact absurd hsame (hback b hmem)
        exact heq ▸ hb
    have hown : (m.id, m) ∈ T'.carried := by
      rcases horigin _ hcarried with hmem | hmem
      · exact hmem
      · exact absurd rfl (hback m hmem)
    have hnot : (m.id, m) ∉ T.carried := fun hmem =>
      (hfront m (hbefore.origin _ hmem)).2 rfl
    rcases hcases with ⟨rfl, _⟩ | ⟨_, _, _, _, _, _, rfl⟩ | ⟨p, target, senderId, hins⟩
    · exact absurd hown hnot
    · exact absurd hown hnot
    · rw [hins.carried, mem_append, mem_singleton] at hown
      have htarget : m.id = target := congrArg Prod.fst (hown.resolve_left hnot)
      refine ⟨⟨p, hins.eligible⟩, ?_⟩
      intro U hU
      rw [carryMessages, hT] at hU
      cases hU
      rw [htarget]
      exact hins.free
  · rintro ⟨⟨projectId, heligible⟩, hfree⟩
    have hnew := hm.new (Q := Q) heligible.1 hfront hbefore
    rcases hcases with ⟨_, hskip⟩ | ⟨p, target, row, hp, hrow, hid, _⟩ |
      ⟨p, target, senderId, hins⟩
    · exact absurd heligible (hskip projectId)
    · rw [heligible.1, Option.some.injEq] at hp
      exact absurd (hp ▸ hid) (hnew _ hrow)
    · have htarget := hins.own (hfree T hT)
      have hrow : (m.id, m.row R p senderId) ∈ S.messages.rows := by
        apply hlead.subset
        rw [hins.rows, htarget]
        simp
      obtain ⟨row', hrow', hbare⟩ := exists_bare_row h.bare_rows hrow
      refine ⟨p, row', hins.eligible.1, hrow', ?_⟩
      have hsender : row'.senderId = senderId := congrArg MessageRow.senderId hbare
      rw [CarriesMessage, hsender, hbare]
      rfl

end

theorem idsKept_of_free {A : Archive} {M : Merged}
    (h : mergeSalvagedDatabase Q R (reconstruct R Q.agents A) D = .ok M)
    (hfree : IdsFree Q R (A.located R) (reconstruct R Q.agents A) D) :
    IdsKept R (A.located R) (reconstruct R Q.agents A) D M := by
  obtain ⟨I, S, hstages⟩ := exists_stages h
  have hmap : M.projectIdMap = I.projectIdMap := by rw [hstages.merged]
  constructor
  · intro front f back c hsplit hnum hunique
    exact (archived_kept_iff h hsplit hnum hunique).mpr
      (hfree.archived front f back c hsplit hnum hunique)
  · intro m hm hid hunmatched
    obtain ⟨front, back, hsplit⟩ := append_of_mem hm
    rw [hmap] at hunmatched ⊢
    exact (salvaged_kept_iff hstages hsplit hunmatched).mpr
      (hfree.salvaged I hstages.identities front m back hsplit hid hunmatched)

theorem idsFree_of_kept {A : Archive} {M : Merged}
    (h : mergeSalvagedDatabase Q R (reconstruct R Q.agents A) D = .ok M)
    (hkept : IdsKept R (A.located R) (reconstruct R Q.agents A) D M) :
    IdsFree Q R (A.located R) (reconstruct R Q.agents A) D := by
  obtain ⟨I, S, hstages⟩ := exists_stages h
  have hmap : M.projectIdMap = I.projectIdMap := by rw [hstages.merged]
  constructor
  · intro front f back c hsplit hnum hunique
    exact (archived_kept_iff h hsplit hnum hunique).mp
      (hkept.archived front f back c hsplit hnum hunique)
  · intro J hJ front m back hsplit hid hunmatched
    rw [hstages.identities] at hJ
    cases hJ
    have hmem : m ∈ D.messages := by
      rw [hsplit]
      simp
    have hstored := hkept.salvaged m hmem hid (hmap ▸ hunmatched)
    rw [hmap] at hstored
    exact (salvaged_kept_iff hstages hsplit hunmatched).mp hstored

/-- The order of table scans. -/
def scanQueries : QueryOrder where
  agents := scanOrder
  projects := {
    first := fun _ rows => rows.head?
    first_mem := fun _ _ _ h => mem_of_head? h
    first_isSome := fun _ rows h => by
      cases rows with
      | nil => exact absurd rfl h
      | cons r rows => rfl }
  messages := {
    first := fun _ rows => rows.head?
    first_mem := fun _ _ _ h => mem_of_head? h
    first_isSome := fun _ rows h => by
      cases rows with
      | nil => exact absurd rfl h
      | cons r rows => rfl }

/-- A file without an id, and after it one with the id 1. -/
def unnumberedArchive : Archive where
  dirs := [messagesDir "alpha" [
    frontmatterFile "a.md" "\x7b\"created_ts\":1,\"subject\":\"start\"\x7d\n",
    frontmatterFile "b.md" "\x7b\"id\":1,\"created_ts\":2,\"subject\":\"status\"\x7d\n"]]
  nodup := by simp

def unnumberedReaders : Readers := tableReaders [
  ("\x7b\"created_ts\":1,\"subject\":\"start\"\x7d\n", .obj [("created_ts".toList, .int 1),
    ("subject".toList, .str "start".toList)]),
  ("\x7b\"id\":1,\"created_ts\":2,\"subject\":\"status\"\x7d\n", .obj [("id".toList, .int 1),
    ("created_ts".toList, .int 2), ("subject".toList, .str "status".toList)])]

/-- A salvaged database with one message of the project. -/
def singleMessageDatabase : Database where
  projects := [⟨4, "alpha".toList, none⟩]
  agents := [⟨3, 4, "BlueLake".toList⟩]
  reservations := []
  releases := []
  messages := [{
    id := 7
    projectId := 4
    senderId := 3
    threadId := none
    topic := none
    replyTo := none
    subject := some "plan".toList
    bodyMd := some "body".toList
    importance := none
    ackRequired := none
    createdTs := some 5
    recipientsJson := none
    attachments := none }]
  recipients := []
  receipts := []
  projects_ascending := by simp
  agents_ascending := by simp
  reservations_ascending := by simp
  releases_ascending := by simp
  messages_ascending := by simp
  recipients_nodup := by simp

theorem unnumbered_merge_isOk :
    (mergeSalvagedDatabase scanQueries unnumberedReaders
      (reconstruct unnumberedReaders scanOrder unnumberedArchive) singleMessageDatabase).isOk =
        true := by
  simp (disch := rfl) only [unnumberedReaders, unnumberedArchive, tableReaders, messagesDir,
    frontmatterFile, find?_cons, toList_lit]
  decide +kernel

theorem exists_merged_of_isOk {C : Candidate} (h : (mergeSalvagedDatabase Q R C D).isOk = true) :
    ∃ M, mergeSalvagedDatabase Q R C D = .ok M := by
  cases hmerge : mergeSalvagedDatabase Q R C D with
  | error e =>
    rw [hmerge] at h
    cases h
  | ok M => exact ⟨M, rfl⟩

theorem unnumbered_located :
    (unnumberedArchive.located unnumberedReaders).map Located.number = [none, some 1] := by
  simp (disch := rfl) only [unnumberedReaders, unnumberedArchive, tableReaders, messagesDir,
    frontmatterFile, find?_cons, toList_lit]
  decide +kernel

end AgentMail.Salvage
