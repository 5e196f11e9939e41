import AgentMail.Lib.Table
import AgentMail.Reconcile.MessageBatch

/-!
# The retry lane

What the operations of the cursor do to the retry lane, to the conflicts and to the positions of the
scan lanes. An outcome is recorded by `record`; only a repair, a bundle that is complete and a
conflict take an id off the lane.
-/

namespace AgentMail.Reconcile

open Base Lib List

variable {cursor : ReconcileCursor} {id id' : Int} {now limit : Nat} {outcome : Outcome}

/-- The retry lane has distinct ids, and no more than fit. -/
structure ReconcileCursor.Sound (cursor : ReconcileCursor) : Prop where
  distinct : cursor.retryIds.Nodup
  bounded : cursor.retryIds.length ≤ maxRetryIds

namespace ReconcileCursor

theorem length_retryIds (cursor : ReconcileCursor) :
    cursor.retryIds.length = cursor.retries.length :=
  length_map _

theorem retains_iff : cursor.retains id = true ↔ id ∈ cursor.retryIds := by
  simp [retains, retryIds]

theorem conflicted_iff : cursor.conflicted id now = true ↔
    ∃ until', (id, until') ∈ cursor.conflictBackoff ∧ now < until' := by
  simp [conflicted]

/-! ### Removing a retry -/

theorem retryIds_forgetRetry (cursor : ReconcileCursor) (id : Int) :
    (cursor.forgetRetry id).retryIds =
      cursor.retryIds.filter (fun known => decide (known ≠ id)) := by
  rw [retryIds, retryIds, filter_map]
  rfl

theorem mem_retryIds_forgetRetry :
    id' ∈ (cursor.forgetRetry id).retryIds ↔ id' ≠ id ∧ id' ∈ cursor.retryIds := by
  rw [retryIds_forgetRetry, mem_filter, decide_eq_true_eq, and_comm]

theorem retryIds_deferTransient (cursor : ReconcileCursor) (id : Int) (now : Nat) :
    (cursor.deferTransient id now).retryIds = cursor.retryIds.erase id ++ [id] := by
  simp only [retryIds, deferTransient, map_append, map_cons, map_nil, map_eraseP_key]

theorem mem_retryIds_deferTransient (hdistinct : cursor.retryIds.Nodup) (id : Int) (now : Nat) :
    id' ∈ (cursor.deferTransient id now).retryIds ↔ id' = id ∨ id' ∈ cursor.retryIds := by
  rw [retryIds_deferTransient, mem_append, hdistinct.mem_erase_iff, mem_singleton]
  by_cases h : id' = id <;> simp [h]

theorem Sound.forgetRetry (h : cursor.Sound) (id : Int) : (cursor.forgetRetry id).Sound where
  distinct := by
    rw [retryIds_forgetRetry]
    exact h.distinct.filter _
  bounded := by
    rw [retryIds_forgetRetry]
    exact Nat.le_trans (length_filter_le _ _) h.bounded

theorem Sound.deferTransient (h : cursor.Sound) (now : Nat)
    (hroom : id ∈ cursor.retryIds ∨ cursor.retries.length < maxRetryIds) :
    (cursor.deferTransient id now).Sound where
  distinct := by
    rw [retryIds_deferTransient, nodup_append]
    refine ⟨h.distinct.erase id, nodup_singleton id, fun known hknown other hother => ?_⟩
    rw [mem_singleton] at hother
    rw [hother]
    exact (h.distinct.mem_erase_iff.mp hknown).1
  bounded := by
    have hbounded := h.bounded
    rw [retryIds_deferTransient, length_append, length_singleton]
    by_cases hmem : id ∈ cursor.retryIds
    · have hpos := length_pos_of_mem hmem
      rw [length_erase_of_mem hmem]
      omega
    · rw [erase_of_not_mem hmem, length_retryIds]
      have := hroom.resolve_left hmem
      omega

/-! ### Recording an outcome -/

/-- The cursor after an outcome was recorded. -/
def record (cursor : ReconcileCursor) (id : Int) (now : Nat) : Outcome → ReconcileCursor
  | .repaired => cursor.forgetRetry id
  | .unchanged => cursor.forgetRetry id
  | .transient => cursor.deferTransient id now
  | .conflict => cursor.deferConflict id now

theorem mem_retryIds_record (h : cursor.Sound) :
    id' ∈ (cursor.record id now outcome).retryIds ↔
      if id' = id then outcome = .transient else id' ∈ cursor.retryIds := by
  cases outcome with
  | transient =>
    rw [record, mem_retryIds_deferTransient h.distinct]
    by_cases heq : id' = id <;> simp [heq]
  | repaired =>
    rw [record, mem_retryIds_forgetRetry]
    by_cases heq : id' = id <;> simp [heq]
  | unchanged =>
    rw [record, mem_retryIds_forgetRetry]
    by_cases heq : id' = id <;> simp [heq]
  | conflict =>
    change id' ∈ (cursor.forgetRetry id).retryIds ↔ _
    rw [mem_retryIds_forgetRetry]
    by_cases heq : id' = id <;> simp [heq]

theorem Sound.record (h : cursor.Sound)
    (hroom : id ∈ cursor.retryIds ∨ cursor.retries.length < maxRetryIds) :
    (cursor.record id now outcome).Sound := by
  cases outcome with
  | transient => exact h.deferTransient now hroom
  | repaired => exact h.forgetRetry id
  | unchanged => exact h.forgetRetry id
  | conflict =>
    have hforgotten := h.forgetRetry id
    exact ⟨hforgotten.distinct, hforgotten.bounded⟩

theorem tailAfter_record : (cursor.record id now outcome).tailAfter = cursor.tailAfter := by
  cases outcome <;> rfl

theorem backfillCeiling_record :
    (cursor.record id now outcome).backfillCeiling = cursor.backfillCeiling := by
  cases outcome <;> rfl

theorem sourceIdentity_record :
    (cursor.record id now outcome).sourceIdentity = cursor.sourceIdentity := by
  cases outcome <;> rfl

/-- Only the id itself gets a new conflict. -/
theorem mem_conflictBackoff_record {known : Int × Nat}
    (h : known ∈ (cursor.record id now outcome).conflictBackoff) :
    known ∈ cursor.conflictBackoff ∨ known.1 = id := by
  cases outcome with
  | transient => exact .inl h
  | repaired => exact .inl h
  | unchanged => exact .inl h
  | conflict =>
    simp only [record, deferConflict, mem_append, mem_singleton] at h
    rcases h with hkept | rfl
    · left
      split at hkept
      · exact (mem_filter.mp (mem_of_mem_drop hkept)).1
      · exact (mem_filter.mp hkept).1
    · exact .inr rfl

/-! ### Seeding -/

/-- What seeding leaves alone. -/
structure SameScan (cursor cursor' : ReconcileCursor) : Prop where
  sourceIdentity : cursor'.sourceIdentity = cursor.sourceIdentity
  tailAfter : cursor'.tailAfter = cursor.tailAfter
  backfillCeiling : cursor'.backfillCeiling = cursor.backfillCeiling
  conflictBackoff : cursor'.conflictBackoff = cursor.conflictBackoff

theorem SameScan.refl (cursor : ReconcileCursor) : SameScan cursor cursor := ⟨rfl, rfl, rfl, rfl⟩

theorem SameScan.trans {a b c : ReconcileCursor} (h : SameScan a b) (h' : SameScan b c) :
    SameScan a c :=
  ⟨h'.1.trans h.1, h'.2.trans h.2, h'.3.trans h.3, h'.4.trans h.4⟩

end ReconcileCursor

open ReconcileCursor

/-- Seeding adds the seeded ids to the retry lane and does nothing else to it. -/
structure Seeded (cursor : ReconcileCursor) (seeded : ReconcileCursor × List Int) : Prop where
  scan : SameScan cursor seeded.1
  sound : seeded.1.Sound
  retryIds : ∀ id, id ∈ seeded.1.retryIds ↔ id ∈ cursor.retryIds ∨ id ∈ seeded.2

theorem Seeded.nothing (h : cursor.Sound) : Seeded cursor (cursor, []) where
  scan := .refl cursor
  sound := h
  retryIds := by simp

theorem seeded_seedTickets (h : cursor.Sound) (tickets : List FailedWrite) :
    Seeded cursor (seedTickets now cursor tickets) := by
  induction tickets generalizing cursor with
  | nil => exact .nothing h
  | cons ticket tickets ih =>
    rw [seedTickets]
    split
    · exact .nothing h
    · rename_i hfull
      split
      · exact ih h
      · have hroom : cursor.retries.length < maxRetryIds := by omega
        have hdeferred : (cursor.deferTransient ticket.id now).Sound :=
          h.deferTransient now (.inr hroom)
        have hnext : ({ cursor.deferTransient ticket.id now with
            nextLaneIsRetry := true } : ReconcileCursor).Sound :=
          ⟨hdeferred.distinct, hdeferred.bounded⟩
        have hfirst : SameScan cursor
            { cursor.deferTransient ticket.id now with nextLaneIsRetry := true } :=
          ⟨rfl, rfl, rfl, rfl⟩
        obtain ⟨hscan, hsound, hids⟩ := ih hnext
        refine ⟨hfirst.trans hscan, hsound, fun id => ?_⟩
        rw [hids id, mem_cons]
        change id ∈ (cursor.deferTransient ticket.id now).retryIds ∨ _ ↔ _
        rw [mem_retryIds_deferTransient h.distinct]
        tauto

theorem seeded_seedRetries (h : cursor.Sound) (seeding : Seeding) :
    Seeded cursor (seedRetries seeding cursor) := by
  rw [seedRetries]
  split
  · exact .nothing h
  · split
    · exact .nothing h
    · exact seeded_seedTickets h _

end AgentMail.Reconcile

/-!
## The pages of the scan lanes

The page of new mail is ascending and lies above the position of its lane. The page of history is
descending and lies at or below its position, and what it does not show of the rows in its range is
below whatever it shows.
-/

namespace AgentMail.Reconcile

open Base List

variable {messages : Messages} {cursor : ReconcileCursor} {cutoff id : Int}

/-! ### Rows -/

theorem Messages.ids_ascending (messages : Messages) (condition : Message → Bool) :
    (messages.ids condition).Pairwise (· < ·) :=
  pairwise_map.mpr (messages.sorted.sublist filter_sublist)

theorem Messages.mem_ids {condition : Message → Bool} :
    id ∈ messages.ids condition ↔ ∃ row ∈ messages.rows, condition row = true ∧ row.id = id := by
  simp [Messages.ids, and_assoc]

theorem Messages.le_maxId {row : Message} (h : row ∈ messages.rows) : row.id ≤ messages.maxId := by
  have hmem : row.id ∈ messages.rows.map (·.id) := mem_map_of_mem h
  rw [Messages.maxId]
  cases hmax : (messages.rows.map (·.id)).max? with
  | none =>
    rw [List.max?_eq_none_iff] at hmax
    rw [hmax] at hmem
    cases hmem
  | some highest => exact (List.max?_eq_some_iff.mp hmax).2 _ hmem

/-- A row that is there and old enough for a pass. -/
def Messages.Eligible (messages : Messages) (cutoff id : Int) : Prop :=
  ∃ row ∈ messages.rows, row.id = id ∧ row.createdTs ≤ cutoff

/-! ### The page of new mail -/

theorem tailPage_ascending (messages : Messages) (cursor : ReconcileCursor) (cutoff : Int) :
    (tailPage messages cursor cutoff).Pairwise (· < ·) := by
  have hnodup : (tailPage messages cursor cutoff).Nodup := by
    rw [tailPage, (perm_insertionSort _ _).nodup_iff]
    split
    · exact ((messages.ids_ascending _).imp fun h => ne_of_lt h).sublist (take_sublist _ _)
    · refine List.Nodup.sublist (take_sublist _ _) (nodup_reverse.mpr ?_)
      exact (messages.ids_ascending _).imp fun h => ne_of_lt h
  have hsorted : (tailPage messages cursor cutoff).Pairwise (· ≤ ·) :=
    pairwise_insertionSort _ _
  exact (hsorted.and hnodup).imp fun h => lt_of_le_of_ne h.1 h.2

theorem mem_tailPage (h : id ∈ tailPage messages cursor cutoff) :
    (∃ row ∈ messages.rows, row.id = id) ∧ ∀ after, cursor.tailAfter = some after → after < id := by
  rw [tailPage, mem_insertionSort] at h
  cases htail : cursor.tailAfter with
  | none =>
    rw [htail] at h
    obtain ⟨row, hrow, -, rfl⟩ :=
      Messages.mem_ids.mp (mem_reverse.mp (mem_of_mem_take h))
    exact ⟨⟨row, hrow, rfl⟩, fun after hafter => nomatch hafter⟩
  | some position =>
    rw [htail] at h
    obtain ⟨row, hrow, hcondition, rfl⟩ := Messages.mem_ids.mp (mem_of_mem_take h)
    rw [Bool.and_eq_true, decide_eq_true_eq] at hcondition
    refine ⟨⟨row, hrow, rfl⟩, fun after hafter => ?_⟩
    rw [← Option.some.inj hafter]
    exact hcondition.1

/-! ### The page of history -/

/-- What the history lane may show. -/
def historyRange (messages : Messages) (cursor : ReconcileCursor) (cutoff : Int) : List Int :=
  messages.ids fun row => decide (0 < row.id) &&
    decide (row.id ≤ cursor.backfillCeiling.getD messages.maxId) && decide (row.createdTs ≤ cutoff)

theorem historyPage_eq : historyPage messages cursor cutoff =
    (historyRange messages cursor cutoff).reverse.take idsPerLane := rfl

theorem historyPage_descending (messages : Messages) (cursor : ReconcileCursor) (cutoff : Int) :
    (historyPage messages cursor cutoff).Pairwise (· > ·) := by
  rw [historyPage_eq]
  refine List.Pairwise.sublist (take_sublist _ _) ?_
  rw [pairwise_reverse]
  exact messages.ids_ascending _

theorem mem_historyRange : id ∈ historyRange messages cursor cutoff ↔
    ∃ row ∈ messages.rows, row.id = id ∧ id ≤ cursor.backfillCeiling.getD messages.maxId ∧
      row.createdTs ≤ cutoff := by
  rw [historyRange, Messages.mem_ids]
  constructor
  · rintro ⟨row, hrow, hcondition, rfl⟩
    simp only [Bool.and_eq_true, decide_eq_true_eq] at hcondition
    exact ⟨row, hrow, rfl, hcondition.1.2, hcondition.2⟩
  · rintro ⟨row, hrow, rfl, hceiling, hcutoff⟩
    have hpositive := row.positive
    exact ⟨row, hrow, by simp [hpositive, hceiling, hcutoff], rfl⟩

theorem mem_historyRange_of_mem (h : id ∈ historyPage messages cursor cutoff) :
    id ∈ historyRange messages cursor cutoff := by
  rw [historyPage_eq] at h
  exact mem_reverse.mp (mem_of_mem_take h)

/-- The id before an id of the history does not saturate. -/
theorem saturatingSub_of_mem (h : id ∈ historyRange messages cursor cutoff) :
    saturatingSub id 1 = id - 1 := by
  obtain ⟨row, -, rfl, -⟩ := mem_historyRange.mp h
  have hpositive := row.positive
  have hrange := row.inRange
  have hmax : i64Max = 2 ^ 63 - 1 := rfl
  have hmin : i64Min = -2 ^ 63 := rfl
  rw [saturatingSub, clampI64]
  omega

theorem le_ceiling_of_mem (h : id ∈ historyPage messages cursor cutoff) (ceiling : Int)
    (hceiling : cursor.backfillCeiling = some ceiling) : id ≤ ceiling := by
  obtain ⟨row, -, -, hle, -⟩ := mem_historyRange.mp (mem_historyRange_of_mem h)
  rwa [hceiling, Option.getD_some] at hle

/-- What is not shown is below whatever is shown. -/
theorem mem_historyPage_or_lt (h : id ∈ historyRange messages cursor cutoff) :
    id ∈ historyPage messages cursor cutoff ∨
      ∀ shown ∈ historyPage messages cursor cutoff, id < shown := by
  have hdescending : (historyRange messages cursor cutoff).reverse.Pairwise (· > ·) := by
    rw [pairwise_reverse]
    exact messages.ids_ascending _
  rw [← mem_reverse, ← take_append_drop idsPerLane
    (historyRange messages cursor cutoff).reverse, mem_append] at h
  refine h.imp_right fun hdrop shown hshown => ?_
  rw [← take_append_drop idsPerLane (historyRange messages cursor cutoff).reverse,
    pairwise_append] at hdescending
  exact hdescending.2.2 shown hshown id hdrop

/-- An empty page of history leaves no row in its range. -/
theorem historyRange_of_empty (h : historyPage messages cursor cutoff = []) :
    historyRange messages cursor cutoff = [] := by
  rw [historyPage_eq, take_eq_nil_iff] at h
  exact reverse_eq_nil_iff.mp (h.resolve_left (by decide))

/-! ### Interleaving -/

/-- The ids of one lane among selected ids. -/
def laneOf (tail : Bool) (selected : List (Int × Bool)) : List Int :=
  (selected.filter fun place => decide (place.2 = tail)).map (·.1)

theorem laneOf_cons (tail : Bool) (id : Int) (lane : Bool) (selected : List (Int × Bool)) :
    laneOf tail ((id, lane) :: selected) =
      if lane = tail then id :: laneOf tail selected else laneOf tail selected := by
  by_cases h : lane = tail <;> simp [laneOf, h]

theorem laneOf_append (tail : Bool) (selected selected' : List (Int × Bool)) :
    laneOf tail (selected ++ selected') = laneOf tail selected ++ laneOf tail selected' := by
  rw [laneOf, laneOf, laneOf, filter_append, map_append]

theorem mem_laneOf {tail : Bool} {selected : List (Int × Bool)} :
    id ∈ laneOf tail selected ↔ (id, tail) ∈ selected := by
  simp [laneOf]

/-- Reading a list by its indices gives the list. -/
theorem flatMap_range_getElem? {α : Type} (l : List α) {n : Nat} (h : l.length ≤ n) :
    ((range n).flatMap fun index => l[index]?.toList) = l := by
  induction l generalizing n with
  | nil => simp
  | cons a l ih =>
    cases n with
    | zero => simp at h
    | succ n =>
      rw [length_cons] at h
      rw [range_succ_eq_map, flatMap_cons, flatMap_map]
      exact congrArg (a :: ·) (ih (by omega))

theorem laneOf_interleaveIds (tail history : List Int) (historyFirst lane : Bool) :
    laneOf lane (interleaveIds tail history historyFirst) = if lane then tail else history := by
  have hpick (page : List Int) (own : Bool) (index : Nat) :
      laneOf lane (page[index]?.map fun id => (id, own)).toList =
        if own = lane then page[index]?.toList else [] := by
    cases page[index]? <;> by_cases h : own = lane <;> simp [laneOf, h]
  have hindex (index : Nat) :
      laneOf lane
        (if historyFirst then (history[index]?.map fun id => (id, false)).toList ++
            (tail[index]?.map fun id => (id, true)).toList
          else (tail[index]?.map fun id => (id, true)).toList ++
            (history[index]?.map fun id => (id, false)).toList) =
        (if lane then tail else history)[index]?.toList := by
    cases historyFirst <;> cases lane <;> simp [laneOf_append, hpick]
  have hlength : (if lane then tail else history).length ≤ max tail.length history.length := by
    cases lane <;> simp
  rw [laneOf, interleaveIds, filter_flatMap, map_flatMap,
    ← flatMap_range_getElem? (if lane then tail else history) hlength]
  exact flatMap_congr fun index _ => hindex index

end AgentMail.Reconcile
