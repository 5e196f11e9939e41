import AgentMail.Reconcile.Checkpoint

/-!
# Merging unsaved debt

A merge keeps every retry of both sides, the local ones first. It does not lower a count of attempts
or bring a local instant forward, it parts retries and conflicts, and doing it again at the same
instant changes nothing.
-/

namespace AgentMail.Reconcile

open Base Lib ReconcileCursor List

variable {cursor : ReconcileCursor} {snapshot : Snapshot} {now : Nat} {wallUs : Int}
  {retained rest out : List DeferredRetry} {retries retries' : List DeferredRetry}
  {conflicts conflicts' : List (Int × Nat)} {observed : List Observed} {id : Int}

/-! ### Retries -/

/-- The retry is there with no fewer attempts and no earlier instant. -/
def KeptIn (retries : List DeferredRetry) (retry : DeferredRetry) : Prop :=
  ∃ kept ∈ retries, kept.id = retry.id ∧ retry.attempts ≤ kept.attempts ∧
    retry.readyAt ≤ kept.readyAt

/-- The retry is there with no fewer attempts. -/
def CountedIn (retries : List DeferredRetry) (retry : DeferredRetry) : Prop :=
  ∃ kept ∈ retries, kept.id = retry.id ∧ retry.attempts ≤ kept.attempts

theorem observe_id (known retry : DeferredRetry) : (known.observe retry).id = known.id := by
  rw [DeferredRetry.observe]
  split <;> rfl

theorem observe_le (known retry : DeferredRetry) :
    known.attempts ≤ (known.observe retry).attempts ∧
      known.readyAt ≤ (known.observe retry).readyAt ∧
      retry.attempts ≤ (known.observe retry).attempts := by
  rw [DeferredRetry.observe]
  split
  · exact ⟨Nat.le_of_lt ‹_›, Nat.le_max_left _ _, Nat.le_refl _⟩
  · exact ⟨Nat.le_refl _, Nat.le_refl _, by omega⟩

/-- One observation of a known id. -/
def observeIn (retained : List DeferredRetry) (retry : DeferredRetry) : List DeferredRetry :=
  retained.map fun known => if known.id = retry.id then known.observe retry else known

theorem ids_observeIn (retained : List DeferredRetry) (retry : DeferredRetry) :
    (observeIn retained retry).map (·.id) = retained.map (·.id) := by
  rw [observeIn, map_map]
  apply map_congr_left
  intro known _
  dsimp only [Function.comp_apply]
  split
  · exact observe_id known retry
  · rfl

variable {known : DeferredRetry}

theorem keptIn_observeIn (h : known ∈ retained) (retry : DeferredRetry) :
    KeptIn (observeIn retained retry) known := by
  refine ⟨_, mem_map_of_mem h, ?_⟩
  split
  · exact ⟨observe_id known retry, (observe_le known retry).1, (observe_le known retry).2.1⟩
  · exact ⟨rfl, Nat.le_refl _, Nat.le_refl _⟩

theorem KeptIn.trans (h : KeptIn retained known) (hnext : ∀ kept ∈ retained, KeptIn out kept) :
    KeptIn out known := by
  obtain ⟨kept, hkept, hid, hattempts, hready⟩ := h
  obtain ⟨kept', hkept', hid', hattempts', hready'⟩ := hnext kept hkept
  exact ⟨kept', hkept', hid'.trans hid, Nat.le_trans hattempts hattempts',
    Nat.le_trans hready hready'⟩

theorem CountedIn.trans (h : CountedIn retained known)
    (hnext : ∀ kept ∈ retained, KeptIn out kept) : CountedIn out known := by
  obtain ⟨kept, hkept, hid, hattempts⟩ := h
  obtain ⟨kept', hkept', hid', hattempts', -⟩ := hnext kept hkept
  exact ⟨kept', hkept', hid'.trans hid, Nat.le_trans hattempts hattempts'⟩

theorem any_id_iff {retry : DeferredRetry} :
    (retained.any fun known => decide (known.id = retry.id)) = true ↔
      retry.id ∈ retained.map (·.id) := by
  simp

theorem mergeRetries_known {retry : DeferredRetry} (h : retry.id ∈ retained.map (·.id))
    (rest : List DeferredRetry) :
    mergeRetries retained (retry :: rest) = mergeRetries (observeIn retained retry) rest := by
  rw [mergeRetries, if_pos (any_id_iff.mpr h)]
  rfl

theorem mergeRetries_new {retry : DeferredRetry} (h : retry.id ∉ retained.map (·.id))
    (hroom : retained.length ≠ maxRetryIds) (rest : List DeferredRetry) :
    mergeRetries retained (retry :: rest) = mergeRetries (retained ++ [retry]) rest := by
  rw [mergeRetries, if_neg (mt any_id_iff.mp h), if_neg hroom]

/-- What a merge of retries leaves. -/
structure MergedRetries (retained rest out : List DeferredRetry) : Prop where
  kept : ∀ known ∈ retained, KeptIn out known
  counted : ∀ retry ∈ rest, CountedIn out retry
  bounded : out.length ≤ maxRetryIds

theorem mergedRetries (hbounded : retained.length ≤ maxRetryIds)
    (h : mergeRetries retained rest = some out) : MergedRetries retained rest out := by
  induction rest generalizing retained with
  | nil =>
    cases h
    exact ⟨fun known hknown => ⟨known, hknown, rfl, Nat.le_refl _, Nat.le_refl _⟩,
      forall_mem_nil _, hbounded⟩
  | cons retry rest ih =>
    by_cases hknown : retry.id ∈ retained.map (·.id)
    · rw [mergeRetries_known hknown] at h
      have hlength : (observeIn retained retry).length = retained.length := length_map _
      obtain ⟨hkept, hcounted, hout⟩ := ih (by omega) h
      refine ⟨fun known hmem => (keptIn_observeIn hmem retry).trans hkept, ?_, hout⟩
      rw [forall_mem_cons]
      refine ⟨?_, hcounted⟩
      obtain ⟨known, hmem, hid⟩ := mem_map.mp hknown
      have hobserved : CountedIn (observeIn retained retry) retry := by
        refine ⟨_, mem_map_of_mem hmem, ?_⟩
        rw [if_pos hid]
        exact ⟨(observe_id known retry).trans hid, (observe_le known retry).2.2⟩
      exact hobserved.trans hkept
    · by_cases hfull : retained.length = maxRetryIds
      · rw [mergeRetries, if_neg (mt any_id_iff.mp hknown), if_pos hfull] at h
        cases h
      · rw [mergeRetries_new hknown hfull] at h
        have hlength : (retained ++ [retry]).length = retained.length + 1 := by simp
        obtain ⟨hkept, hcounted, hout⟩ := ih (by omega) h
        rw [forall_mem_append, forall_mem_singleton] at hkept
        refine ⟨hkept.1, ?_, hout⟩
        rw [forall_mem_cons]
        obtain ⟨kept, hmem, hid, hattempts, -⟩ := hkept.2
        exact ⟨⟨kept, hmem, hid, hattempts⟩, hcounted⟩

/-- The ids are those known, then the others in their order. -/
theorem ids_mergeRetries (hdistinct : (rest.map (·.id)).Nodup)
    (h : mergeRetries retained rest = some out) :
    out.map (·.id) = retained.map (·.id) ++
      (rest.map (·.id)).filter fun id => decide (id ∉ retained.map (·.id)) := by
  induction rest generalizing retained with
  | nil =>
    cases h
    simp
  | cons retry rest ih =>
    rw [map_cons, nodup_cons] at hdistinct
    by_cases hknown : retry.id ∈ retained.map (·.id)
    · rw [mergeRetries_known hknown] at h
      rw [ih hdistinct.2 h, ids_observeIn, map_cons, filter_cons_of_neg (by simpa using hknown)]
    · by_cases hfull : retained.length = maxRetryIds
      · rw [mergeRetries, if_neg (mt any_id_iff.mp hknown), if_pos hfull] at h
        cases h
      · rw [mergeRetries_new hknown hfull] at h
        have hothers : (rest.map (·.id)).filter (fun id =>
              decide (id ∉ (retained ++ [retry]).map (·.id))) =
            (rest.map (·.id)).filter fun id => decide (id ∉ retained.map (·.id)) := by
          apply filter_congr
          intro id hid
          have hne : id ≠ retry.id := fun heq => hdistinct.1 (heq ▸ hid)
          simp [hne]
        rw [ih hdistinct.2 h, hothers, map_cons,
          filter_cons_of_pos (by simpa using hknown), map_append, append_assoc]
        rfl

/-- Retries that are distinct are taken over as they are. -/
theorem mergeRetries_append {locals : List DeferredRetry}
    (hdistinct : ((retained ++ locals).map (·.id)).Nodup)
    (hbounded : (retained ++ locals).length ≤ maxRetryIds) (rest : List DeferredRetry) :
    mergeRetries retained (locals ++ rest) = mergeRetries (retained ++ locals) rest := by
  induction locals generalizing retained with
  | nil => rw [nil_append, append_nil]
  | cons retry locals ih =>
    have hassoc : retained ++ retry :: locals = (retained ++ [retry]) ++ locals := by simp
    have hnew : retry.id ∉ retained.map (·.id) := by
      rw [map_append, map_cons, nodup_append] at hdistinct
      exact fun hmem => hdistinct.2.2 _ hmem _ mem_cons_self rfl
    have hroom : retained.length ≠ maxRetryIds := by
      rw [length_append, length_cons] at hbounded
      omega
    rw [hassoc] at hdistinct hbounded ⊢
    rw [cons_append, mergeRetries_new hnew hroom, ih hdistinct hbounded]

/-- Retries that are known with no fewer attempts change nothing. -/
theorem mergeRetries_absorbed (h : ∀ retry ∈ rest, retry.id ∈ retained.map (·.id) ∧
      ∀ known ∈ retained, known.id = retry.id → retry.attempts ≤ known.attempts) :
    mergeRetries retained rest = some retained := by
  induction rest with
  | nil => rfl
  | cons retry rest ih =>
    rw [forall_mem_cons] at h
    have hsame : observeIn retained retry = retained := by
      rw [observeIn]
      refine (map_congr_left fun known hknown => ?_).trans (map_id _)
      split
      · rename_i hid
        have hle := h.1.2 known hknown hid
        rw [DeferredRetry.observe, if_neg (by omega)]
        rfl
      · rfl
    rw [mergeRetries_known h.1.1, hsame]
    exact ih h.2

/-! ### Conflicts -/

/-- What a merge of conflicts leaves. -/
structure MergedConflicts (now : Nat) (retries : List DeferredRetry) (conflicts : List (Int × Nat))
    (observed : List Observed) (retries' : List DeferredRetry) (conflicts' : List (Int × Nat)) :
    Prop where
  ids : retries'.map (·.id) = retries.map (·.id)
  attempts : retries'.map (·.attempts) = retries.map (·.attempts)
  kept : ∀ known ∈ retries, KeptIn retries' known
  once : (conflicts'.map (·.1)).Nodup
  bounded : conflicts'.length ≤ maxRetryIds
  unexpired : ∀ known ∈ conflicts', now < known.2
  apart : ∀ known ∈ conflicts', known.1 ∉ retries.map (·.id)
  known : ∀ known ∈ conflicts, known.1 ∈ conflicts'.map (·.1)
  covered : ∀ known ∈ observed, now < known.until' →
    known.id ∈ retries.map (·.id) ∨ known.id ∈ conflicts'.map (·.1)
  source : ∀ known ∈ conflicts', known.1 ∈ conflicts.map (·.1) ∨ known.1 ∈ observed.map (·.id)

/-- The conflicts that were kept so far. -/
structure ConflictsSound (now : Nat) (retries : List DeferredRetry) (conflicts : List (Int × Nat)) :
    Prop where
  once : (conflicts.map (·.1)).Nodup
  bounded : conflicts.length ≤ maxRetryIds
  unexpired : ∀ known ∈ conflicts, now < known.2
  apart : ∀ known ∈ conflicts, known.1 ∉ retries.map (·.id)

/-- A local conflict puts off the retry of its id. -/
def putOff (retries : List DeferredRetry) (id : Int) (until' : Nat) : List DeferredRetry :=
  retries.map fun known =>
    if known.id = id then { known with readyAt := max known.readyAt until' } else known

theorem ids_putOff (retries : List DeferredRetry) (id : Int) (until' : Nat) :
    (putOff retries id until').map (·.id) = retries.map (·.id) := by
  rw [putOff, map_map]
  apply map_congr_left
  intro known _
  dsimp only [Function.comp_apply]
  split <;> rfl

theorem attempts_putOff (retries : List DeferredRetry) (id : Int) (until' : Nat) :
    (putOff retries id until').map (·.attempts) = retries.map (·.attempts) := by
  rw [putOff, map_map]
  apply map_congr_left
  intro known _
  dsimp only [Function.comp_apply]
  split <;> rfl

theorem keptIn_putOff (h : known ∈ retries) (id : Int) (until' : Nat) :
    KeptIn (putOff retries id until') known := by
  refine ⟨_, mem_map_of_mem h, ?_⟩
  split
  · exact ⟨rfl, Nat.le_refl _, Nat.le_max_left _ _⟩
  · exact ⟨rfl, Nat.le_refl _, Nat.le_refl _⟩

/-- A local conflict renews the conflict of its id. -/
def renew (conflicts : List (Int × Nat)) (id : Int) (until' : Nat) : List (Int × Nat) :=
  conflicts.map fun known => if known.1 = id then (known.1, max known.2 until') else known

theorem ids_renew (conflicts : List (Int × Nat)) (id : Int) (until' : Nat) :
    (renew conflicts id until').map (·.1) = conflicts.map (·.1) := by
  rw [renew, map_map]
  apply map_congr_left
  intro known _
  dsimp only [Function.comp_apply]
  split <;> rfl

section

variable (h : ConflictsSound now retries conflicts)
include h

theorem ConflictsSound.renew (id : Int) (until' : Nat) :
    ConflictsSound now retries (renew conflicts id until') where
  once := by
    rw [ids_renew]
    exact h.once
  bounded := by
    rw [Reconcile.renew, length_map]
    exact h.bounded
  unexpired := by
    rintro known hknown
    obtain ⟨old, hold, rfl⟩ := mem_map.mp hknown
    have hlt := h.unexpired old hold
    split
    · dsimp only
      omega
    · exact hlt
  apart := by
    intro known hknown
    obtain ⟨old, hold, rfl⟩ := mem_map.mp hknown
    have hapart := h.apart old hold
    split <;> exact hapart

theorem ConflictsSound.putOff (id : Int) (until' : Nat) :
    ConflictsSound now (putOff retries id until') conflicts := by
  obtain ⟨honce, hbounded, hunexpired, hapart⟩ := h
  exact ⟨honce, hbounded, hunexpired, by rwa [ids_putOff]⟩

theorem ConflictsSound.add {observed : Observed}
    (hunexpired : now < observed.until') (hretries : observed.id ∉ retries.map (·.id))
    (hnew : observed.id ∉ conflicts.map (·.1)) (hroom : conflicts.length ≠ maxRetryIds) :
    ConflictsSound now retries (conflicts ++ [(observed.id, observed.until')]) where
  once := nodup_map_concat h.once hnew
  bounded := by
    have hbounded := h.bounded
    rw [length_append, length_singleton]
    omega
  unexpired := by
    rw [forall_mem_append, forall_mem_singleton]
    exact ⟨h.unexpired, hunexpired⟩
  apart := by
    rw [forall_mem_append, forall_mem_singleton]
    exact ⟨h.apart, hretries⟩

end

theorem any_retry_iff : (retries.any fun known => decide (known.id = id)) = true ↔
    id ∈ retries.map (·.id) := by
  simp

theorem any_conflict_iff : (conflicts.any fun known => decide (known.1 = id)) = true ↔
    id ∈ conflicts.map (·.1) := by
  simp

/-- What one observed conflict can do. -/
inductive Merged (now : Nat) (retries : List DeferredRetry) (conflicts : List (Int × Nat))
    (o : Observed) : List DeferredRetry → List (Int × Nat) → Prop where
  | expired (h : o.until' ≤ now) : Merged now retries conflicts o retries conflicts
  | retried (h : now < o.until') (hid : o.id ∈ retries.map (·.id)) :
    Merged now retries conflicts o
      (if o.isLocal then putOff retries o.id o.until' else retries) conflicts
  | renewed (h : now < o.until') (hid : o.id ∈ conflicts.map (·.1)) :
    Merged now retries conflicts o retries
      (if o.isLocal then renew conflicts o.id o.until' else conflicts)
  | added (h : now < o.until') (hretries : o.id ∉ retries.map (·.id))
    (hnew : o.id ∉ conflicts.map (·.1)) (hroom : conflicts.length ≠ maxRetryIds) :
    Merged now retries conflicts o retries (conflicts ++ [(o.id, o.until')])

theorem mergeConflicts_cons {o : Observed}
    (h : mergeConflicts now retries conflicts (o :: observed) = some (retries', conflicts')) :
    ∃ retries₁ conflicts₁, Merged now retries conflicts o retries₁ conflicts₁ ∧
      mergeConflicts now retries₁ conflicts₁ observed = some (retries', conflicts') := by
  rw [mergeConflicts] at h
  split at h
  · exact ⟨_, _, .expired ‹_›, h⟩
  rename_i hexpired
  split at h
  · exact ⟨_, _, .retried (by omega) (any_retry_iff.mp ‹_›), h⟩
  rename_i hretries
  split at h
  · exact ⟨_, _, .renewed (by omega) (any_conflict_iff.mp ‹_›), h⟩
  rename_i hconflicts
  split at h
  · cases h
  · exact ⟨_, _, .added (by omega) (mt any_retry_iff.mpr hretries)
      (mt any_conflict_iff.mpr hconflicts) ‹_›, h⟩

/-- What one observed conflict keeps. -/
structure MergedOne (now : Nat) (retries : List DeferredRetry) (conflicts : List (Int × Nat))
    (o : Observed) (retries' : List DeferredRetry) (conflicts' : List (Int × Nat)) : Prop where
  ids : retries'.map (·.id) = retries.map (·.id)
  attempts : retries'.map (·.attempts) = retries.map (·.attempts)
  kept : ∀ known ∈ retries, KeptIn retries' known
  sound : ConflictsSound now retries' conflicts'
  known : ∀ known ∈ conflicts.map (·.1), known ∈ conflicts'.map (·.1)
  covered : now < o.until' → o.id ∈ retries.map (·.id) ∨ o.id ∈ conflicts'.map (·.1)
  source : ∀ known ∈ conflicts'.map (·.1), known ∈ conflicts.map (·.1) ∨ known = o.id

theorem keptIn_self (retries : List DeferredRetry) : ∀ known ∈ retries, KeptIn retries known :=
  fun known hknown => ⟨known, hknown, rfl, Nat.le_refl _, Nat.le_refl _⟩

theorem Merged.one {o : Observed} (hsound : ConflictsSound now retries conflicts)
    (h : Merged now retries conflicts o retries' conflicts') :
    MergedOne now retries conflicts o retries' conflicts' := by
  cases h with
  | expired h =>
    exact ⟨rfl, rfl, keptIn_self retries, hsound, fun _ hknown => hknown,
      fun hunexpired => absurd hunexpired (by omega), fun _ hknown => .inl hknown⟩
  | retried h hid =>
    cases o.isLocal with
    | true =>
      exact ⟨ids_putOff _ _ _, attempts_putOff _ _ _, fun known hknown => keptIn_putOff hknown _ _,
        hsound.putOff _ _, fun _ hknown => hknown, fun _ => .inl hid, fun _ hknown => .inl hknown⟩
    | false =>
      exact ⟨rfl, rfl, keptIn_self retries, hsound, fun _ hknown => hknown, fun _ => .inl hid,
        fun _ hknown => .inl hknown⟩
  | renewed h hid =>
    cases o.isLocal with
    | true =>
      rw [if_pos rfl]
      refine ⟨rfl, rfl, keptIn_self retries, hsound.renew _ _, ?_, fun _ => .inr ?_, ?_⟩
      · rw [ids_renew]
        exact fun _ hknown => hknown
      · rwa [ids_renew]
      · rw [ids_renew]
        exact fun _ hknown => .inl hknown
    | false =>
      exact ⟨rfl, rfl, keptIn_self retries, hsound, fun _ hknown => hknown, fun _ => .inr hid,
        fun _ hknown => .inl hknown⟩
  | added h hretries hnew hroom =>
    refine ⟨rfl, rfl, keptIn_self retries, hsound.add h hretries hnew hroom, ?_, fun _ => .inr ?_,
      ?_⟩
    · intro known hknown
      rw [map_append]
      exact mem_append_left _ hknown
    · simp
    · intro known hknown
      rwa [map_append, map_singleton, mem_append, mem_singleton] at hknown

theorem mergedConflicts (hsound : ConflictsSound now retries conflicts)
    (h : mergeConflicts now retries conflicts observed = some (retries', conflicts')) :
    MergedConflicts now retries conflicts observed retries' conflicts' := by
  induction observed generalizing retries conflicts with
  | nil =>
    cases h
    exact ⟨rfl, rfl, keptIn_self retries', hsound.once, hsound.bounded, hsound.unexpired,
      hsound.apart, fun known hknown => mem_map_of_mem hknown, forall_mem_nil _,
      fun known hknown => .inl (mem_map_of_mem hknown)⟩
  | cons o observed ih =>
    obtain ⟨retries₁, conflicts₁, hmerged, hrest⟩ := mergeConflicts_cons h
    have hone := hmerged.one hsound
    have hall := ih hone.sound hrest
    have hapart := hall.apart
    have hcovered := hall.covered
    rw [hone.ids] at hapart hcovered
    have hkeeps (id : Int) (hid : id ∈ conflicts₁.map (·.1)) : id ∈ conflicts'.map (·.1) := by
      obtain ⟨known, hknown, rfl⟩ := mem_map.mp hid
      exact hall.known known hknown
    refine ⟨hall.ids.trans hone.ids, hall.attempts.trans hone.attempts,
      fun known hknown => (hone.kept known hknown).trans hall.kept, hall.once, hall.bounded,
      hall.unexpired, hapart,
      fun known hknown => hkeeps _ (hone.known _ (mem_map_of_mem hknown)), ?_, ?_⟩
    · rw [forall_mem_cons]
      exact ⟨fun hunexpired => (hone.covered hunexpired).imp_right (hkeeps _), hcovered⟩
    · intro known hknown
      rw [map_cons, mem_cons]
      rcases hall.source known hknown with hold | hnew
      · exact (hone.source _ hold).imp_right .inl
      · exact .inr (.inr hnew)

/-- Conflicts that are distinct, unexpired and apart from the retries are taken over. -/
theorem mergeConflicts_append {locals : List (Int × Nat)}
    (h : ConflictsSound now retries (conflicts ++ locals)) (observed : List Observed) :
    mergeConflicts now retries conflicts
        (locals.map (fun known => ⟨true, known.1, known.2⟩) ++ observed) =
      mergeConflicts now retries (conflicts ++ locals) observed := by
  induction locals generalizing conflicts with
  | nil => rw [map_nil, nil_append, append_nil]
  | cons known locals ih =>
    have hassoc : conflicts ++ known :: locals = (conflicts ++ [known]) ++ locals := by simp
    have hmem : known ∈ conflicts ++ known :: locals := by simp
    have hunexpired : ¬ known.2 ≤ now := by
      have := h.unexpired known hmem
      omega
    have hretries : known.1 ∉ retries.map (·.id) := h.apart known hmem
    have hnew : known.1 ∉ conflicts.map (·.1) := by
      have honce := h.once
      rw [map_append, map_cons, nodup_append] at honce
      exact fun hold => honce.2.2 _ hold _ mem_cons_self rfl
    have hroom : conflicts.length ≠ maxRetryIds := by
      have hbounded := h.bounded
      rw [length_append, length_cons] at hbounded
      omega
    rw [map_cons, cons_append, mergeConflicts]
    dsimp only
    rw [if_neg hunexpired, if_neg (mt any_retry_iff.mp hretries),
      if_neg (mt any_conflict_iff.mp hnew), if_neg hroom, hassoc]
    exact ih (hassoc ▸ h)

/-- Conflicts of the other side that are expired or known change nothing. -/
theorem mergeConflicts_absorbed
    (h : ∀ known ∈ observed, known.isLocal = false ∧ (now < known.until' →
      known.id ∈ retries.map (·.id) ∨ known.id ∈ conflicts.map (·.1))) :
    mergeConflicts now retries conflicts observed = some (retries, conflicts) := by
  induction observed with
  | nil => rfl
  | cons o observed ih =>
    rw [forall_mem_cons] at h
    obtain ⟨⟨hremote, hcovered⟩, hrest⟩ := h
    rw [mergeConflicts, hremote]
    simp only [Bool.false_eq_true, if_false]
    split
    · exact ih hrest
    · split
      · exact ih hrest
      · rename_i hexpired hretries
        have hknown := (hcovered (by omega)).resolve_left (mt any_retry_iff.mpr hretries)
        rw [if_pos (any_conflict_iff.mpr hknown)]
        exact ih hrest

/-! ### The merge -/

/-- What a merge keeps. -/
structure MergeKept (cursor : ReconcileCursor) (snapshot : Snapshot) (now : Nat) (wallUs : Int)
    (merged : ReconcileCursor) : Prop where
  union : merged.retryIds = cursor.retryIds ++
    snapshot.retryIds.filter fun id => decide (id ∉ cursor.retryIds)
  distinct : merged.retryIds.Nodup
  bounded : merged.retries.length ≤ maxRetryIds
  localKept : ∀ retry ∈ cursor.retries, KeptIn merged.retries retry
  storedKept : ∀ retry ∈ snapshot.retries,
    ∃ kept ∈ merged.retries, kept.id = retry.id ∧ retry.attempts ≤ kept.attempts
  apart : ∀ known ∈ merged.conflictBackoff, known.1 ∉ merged.retryIds
  conflicts : ConflictsSound now merged.retries merged.conflictBackoff
  conflictSource : ∀ known ∈ merged.conflictBackoff,
    known.1 ∈ cursor.conflictBackoff.map (·.1) ∨ known.1 ∈ snapshot.conflicts.map (·.id)
  rest : merged = { cursor with
    retries := merged.retries, conflictBackoff := merged.conflictBackoff }
  idempotent : mergeUnsavedDebt merged snapshot now wallUs = (true, merged)

/-- What the checkpoint owes has its ids and its attempts. -/
theorem durableDebt_retries (snapshot : Snapshot) (now : Nat) (wallUs : Int) :
    (durableDebt snapshot now wallUs).retries.map (fun retry => (retry.id, retry.attempts)) =
      snapshot.retries.map fun retry => (retry.id, retry.attempts) := by
  rw [durableDebt]
  split
  · rw [Snapshot.restore, map_map, map_map]
    rfl
  · rw [Snapshot.restore, map_map]
    rfl

theorem durableDebt_ids (snapshot : Snapshot) (now : Nat) (wallUs : Int) :
    (durableDebt snapshot now wallUs).retries.map (·.id) = snapshot.retryIds := by
  have h := congrArg (List.map Prod.fst) (durableDebt_retries snapshot now wallUs)
  rw [map_map, map_map] at h
  exact h

theorem mem_restored_conflicts {known : Int × Nat}
    (h : known ∈ (snapshot.restore cursor now wallUs).conflictBackoff) :
    known.1 ∈ snapshot.conflicts.map (·.id) ∧ now < known.2 := by
  obtain ⟨conflict, hconflict, hsome⟩ := mem_filterMap.mp h
  split at hsome
  · cases hsome
    exact ⟨mem_map_of_mem hconflict, ‹_›⟩
  · cases hsome

theorem durableDebt_conflicts {known : Int × Nat}
    (h : known ∈ (durableDebt snapshot now wallUs).conflictBackoff) :
    known.1 ∈ snapshot.conflicts.map (·.id) := by
  rw [durableDebt] at h
  split at h
  · cases h
  · exact (mem_restored_conflicts h).1

/-- The conflicts of both sides in the order in which they are merged. -/
def bothConflicts (cursor : ReconcileCursor) (snapshot : Snapshot) (now : Nat) (wallUs : Int) :
    List Observed :=
  cursor.conflictBackoff.map (fun known => ⟨true, known.1, known.2⟩) ++
    (durableDebt snapshot now wallUs).conflictBackoff.map fun known => ⟨false, known.1, known.2⟩

theorem mergeUnsavedDebt_eq (hsound : cursor.Sound) (snapshot : Snapshot) (now : Nat)
    (wallUs : Int) :
    mergeUnsavedDebt cursor snapshot now wallUs =
      match mergeRetries cursor.retries (durableDebt snapshot now wallUs).retries with
      | none => (false, cursor)
      | some retries =>
        match mergeConflicts now retries [] (bothConflicts cursor snapshot now wallUs) with
        | none => (false, cursor)
        | some (retries, conflicts) =>
          (true, { cursor with retries := retries, conflictBackoff := conflicts }) := by
  have hbounded : cursor.retries.length ≤ maxRetryIds := by
    rw [← length_retryIds]
    exact hsound.bounded
  have hlocals : mergeRetries [] (cursor.retries ++ (durableDebt snapshot now wallUs).retries) =
      mergeRetries cursor.retries (durableDebt snapshot now wallUs).retries := by
    have hdistinct : (([] ++ cursor.retries).map DeferredRetry.id).Nodup := hsound.distinct
    exact mergeRetries_append hdistinct hbounded _
  rw [mergeUnsavedDebt, hlocals]
  rfl

theorem mergeKept_of_merged (hsound : cursor.Sound) (hstored : snapshot.retryIds.Nodup)
    (hretries : mergeRetries cursor.retries (durableDebt snapshot now wallUs).retries =
      some retries)
    (hconflicts : mergeConflicts now retries [] (bothConflicts cursor snapshot now wallUs) =
      some (retries', conflicts')) :
    MergeKept cursor snapshot now wallUs
      { cursor with retries := retries', conflictBackoff := conflicts' } := by
  have hbounded : cursor.retries.length ≤ maxRetryIds := by
    rw [← length_retryIds]
    exact hsound.bounded
  have hmerged := mergedRetries hbounded hretries
  have hstart : ConflictsSound now retries [] :=
    ⟨nodup_nil, Nat.zero_le _, forall_mem_nil _, forall_mem_nil _⟩
  have hall := mergedConflicts hstart hconflicts
  have hids := ids_mergeRetries (durableDebt_ids snapshot now wallUs ▸ hstored) hretries
  rw [durableDebt_ids] at hids
  have hunion : retries'.map (·.id) = cursor.retryIds ++
      snapshot.retryIds.filter fun id => decide (id ∉ cursor.retryIds) := hall.ids.trans hids
  have hdistinct : (retries'.map (·.id)).Nodup := by
    rw [hunion, nodup_append]
    refine ⟨hsound.distinct, hstored.filter _, fun known hknown other hother heq => ?_⟩
    rw [mem_filter, decide_eq_true_eq] at hother
    exact hother.2 (heq ▸ hknown)
  have hlength : retries'.length ≤ maxRetryIds := by
    have hsame := congrArg List.length hall.ids
    rw [length_map, length_map] at hsame
    rw [hsame]
    exact hmerged.bounded
  have hcounted (retry : DeferredRetry)
      (hretry : retry ∈ (durableDebt snapshot now wallUs).retries) :
      CountedIn retries' retry := (hmerged.counted retry hretry).trans hall.kept
  have hsound' : ConflictsSound now retries' conflicts' :=
    ⟨hall.once, hall.bounded, hall.unexpired, hall.ids ▸ hall.apart⟩
  refine ⟨hunion, hdistinct, hlength, ?_, ?_, hsound'.apart, hsound', ?_, rfl, ?_⟩
  · intro retry hretry
    exact (hmerged.kept retry hretry).trans hall.kept
  · intro retry hretry
    have hmem : (retry.id, retry.attempts) ∈
        (durableDebt snapshot now wallUs).retries.map fun retry => (retry.id, retry.attempts) := by
      rw [durableDebt_retries]
      exact mem_map_of_mem hretry
    obtain ⟨durable, hdurable, heq⟩ := mem_map.mp hmem
    have hid : durable.id = retry.id := congrArg Prod.fst heq
    have hattempts : durable.attempts = retry.attempts := congrArg Prod.snd heq
    obtain ⟨kept, hkept, hkeptId, hle⟩ := hcounted durable hdurable
    exact ⟨kept, hkept, hkeptId.trans hid, hattempts ▸ hle⟩
  · intro known hknown
    have hsource := (hall.source known hknown).resolve_left (by simp)
    rw [bothConflicts, map_append, map_map, map_map, mem_append] at hsource
    refine hsource.imp id fun hremote => ?_
    obtain ⟨other, hother, hid⟩ := mem_map.mp hremote
    exact hid ▸ durableDebt_conflicts hother
  · have habsorbed : mergeRetries retries' (durableDebt snapshot now wallUs).retries =
        some retries' := by
      apply mergeRetries_absorbed
      intro retry hretry
      obtain ⟨kept, hkept, hid, hle⟩ := hcounted retry hretry
      refine ⟨hid ▸ mem_map_of_mem hkept, fun known hknown hknownId => ?_⟩
      have hsame : known = kept :=
        inj_on_of_nodup_map hdistinct hknown hkept (hknownId.trans hid.symm)
      exact hsame ▸ hle
    have hagain : mergeConflicts now retries' []
        (bothConflicts { cursor with retries := retries', conflictBackoff := conflicts' } snapshot
          now wallUs) = some (retries', conflicts') := by
      rw [bothConflicts, mergeConflicts_append (by rwa [nil_append]), nil_append]
      apply mergeConflicts_absorbed
      intro known hknown
      refine ⟨?_, fun hunexpired => ?_⟩
      · obtain ⟨other, -, rfl⟩ := mem_map.mp hknown
        rfl
      · have hcovered := hall.covered known (mem_append_right _ hknown) hunexpired
        rwa [hall.ids]
    have hsoundMerged : ({ cursor with
        retries := retries', conflictBackoff := conflicts' } : ReconcileCursor).Sound :=
      ⟨hdistinct, by rw [length_retryIds]; exact hlength⟩
    rw [mergeUnsavedDebt_eq hsoundMerged]
    dsimp only
    rw [habsorbed]
    dsimp only
    rw [hagain]

/-- A merge changes nothing, or keeps the debt of both sides. -/
theorem mergeKept (hsound : cursor.Sound) (hstored : snapshot.retryIds.Nodup) (now : Nat)
    (wallUs : Int) :
    mergeUnsavedDebt cursor snapshot now wallUs = (false, cursor) ∨
      ∃ merged, mergeUnsavedDebt cursor snapshot now wallUs = (true, merged) ∧
        MergeKept cursor snapshot now wallUs merged := by
  rw [mergeUnsavedDebt_eq hsound]
  cases hretries : mergeRetries cursor.retries (durableDebt snapshot now wallUs).retries with
  | none => exact .inl rfl
  | some retries =>
    dsimp only
    cases hconflicts : mergeConflicts now retries [] (bothConflicts cursor snapshot now wallUs) with
    | none => exact .inl rfl
    | some both => exact .inr ⟨_, rfl, mergeKept_of_merged hsound hstored hretries hconflicts⟩

end AgentMail.Reconcile
