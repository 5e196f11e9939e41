import AgentMail.Reservation.Exclusion

/-!
# Released leases

Runs of the lease transactions together with replays of queued releases
(`replay_single_release_intent`, `crates/mcp-agent-mail-tools/src/reservations.rs:1276–1372`) and
stale releases that recheck the holder's activity (`crates/mcp-agent-mail-db/src/queries.rs`,
`16320–16456,17922–18000`). A released lease stays released, a replay stays inside the scope and
the creation cutoff of its intent, and a stale release acts on unchanged evidence only.
-/

namespace AgentMail.Reservation

open Base Pattern List

/-! ### Activity evidence -/

/-- The columns of `agents` that a stale release reads. -/
structure AgentHeartbeat where
  id : Int
  projectId : Int
  lastActiveTs : Int
  reaperExempt : Int

structure SentMessage where
  id : Int
  projectId : Int
  senderId : Int
  createdTs : Int

/-- The receipt of one agent for one message, of `message_recipients` or of
`project_mailbox_receipts`. -/
structure MailReceipt where
  messageId : Int
  agentId : Int
  readTs : Option Int
  ackTs : Option Int

/-- The tables outside `file_reservations` that a stale release reads. -/
structure Activity where
  agents : List AgentHeartbeat
  messages : List SentMessage
  recipients : List MailReceipt
  /-- `project_mailbox_deliveries`: message and project. -/
  deliveries : List (Int × Int)
  receipts : List MailReceipt

/-- `MAX(MAX(COALESCE(read_ts, 0)), MAX(COALESCE(ack_ts, 0)))`, which is NULL for no rows. -/
def latestReceipt (rs : List MailReceipt) : Option Int := do
  let read ← (rs.map fun r => r.readTs.getD 0).max?
  let ack ← (rs.map fun r => r.ackTs.getD 0).max?
  return max read ack

/-- `get_agent_last_mail_activity_on_connection`. -/
def Activity.lastMailActivity (A : Activity) (agentId projectId : Int) : Option Int :=
  let inProject (messageId : Int) : Bool :=
    A.messages.any fun m => m.id == messageId && m.projectId == projectId
  let sent := ((A.messages.filter fun m => m.senderId == agentId && m.projectId == projectId).map
    (·.createdTs)).max?
  let direct := latestReceipt
    (A.recipients.filter fun r => r.agentId == agentId && inProject r.messageId)
  let shared := latestReceipt (A.receipts.filter fun r => r.agentId == agentId &&
    A.deliveries.contains (r.messageId, projectId) && inProject r.messageId)
  ([sent, direct, shared].filterMap id).max?.filter (0 < ·)

structure StaleReservationCandidate where
  reservation : FileReservationRow
  agentLastActiveTs : Int
  lastMailActivityTs : Option Int

/-- The candidates are distinct by id, so looking one up by its id is `find?`. -/
structure StaleReservationReleaseGuard where
  candidates : List StaleReservationCandidate
  observedAt : Int
  inactivityUs : Int
  graceUs : Int

def StaleReservationReleaseGuard.candidate (g : StaleReservationReleaseGuard) (id : Int) :
    Option StaleReservationCandidate :=
  g.candidates.find? (·.reservation.id == id)

/-- `stale_reservation_activity_still_matches`. -/
def staleReservationActivityStillMatches (A : Activity) (g : StaleReservationReleaseGuard)
    (c : StaleReservationCandidate) : Bool :=
  match A.agents.find? (·.id == c.reservation.agentId) with
  | none => false
  | some agent =>
    if agent.projectId ≠ c.reservation.projectId ∨ agent.reaperExempt ≠ 0 ∨
        agent.lastActiveTs ≠ c.agentLastActiveTs ∨
        saturatingSub g.observedAt agent.lastActiveTs ≤ g.inactivityUs then false
    else
      let lastMail := A.lastMailActivity c.reservation.agentId agent.projectId
      lastMail == c.lastMailActivityTs &&
        lastMail.all fun ts => g.graceUs < saturatingSub g.observedAt ts

/-! ### The stale release with its cache of activity checks -/

/-- The cache key: two candidates of one holder with the same evidence share one check. -/
def StaleReservationCandidate.activityKey (c : StaleReservationCandidate) :
    Int × Int × Option Int :=
  (c.reservation.agentId, c.agentLastActiveTs, c.lastMailActivityTs)

structure StaleReleaseState where
  activityCache : List ((Int × Int × Option Int) × Bool)
  release : ReleaseState

theorem releasedRow_id (s : ReleaseState) (r : FileReservationRow) :
    ({ r with releasedTs := some s.marker } : FileReservationRow).id = r.id :=
  rfl

/-- The two writes of a release, and the next marker. -/
def ReleaseState.record (s : ReleaseState) (id : Int) : ReleaseState where
  marker := saturatingAdd s.marker 1
  released := s.released ++ [(id, s.marker)]
  table := (s.table.update (·.id == id) (fun r => { r with releasedTs := some s.marker })
    (releasedRow_id s)).recordRelease id

/-- One turn of the loop of `release_reservations_by_ids_with_constraints` under a stale guard. -/
def releaseStaleId (A : Activity) (g : StaleReservationReleaseGuard) (s : StaleReleaseState)
    (id : Int) : StaleReleaseState :=
  match g.candidate id with
  | none => s
  | some c =>
    let eligible := s.release.table.rows.any fun r => r.id == id &&
      s.release.table.isUnreleased r && sameObserved c.reservation r
    if !eligible then s
    else
      match s.activityCache.lookup c.activityKey with
      | some activityMatches =>
        if !activityMatches then s else { s with release := s.release.record id }
      | none =>
        let activityMatches := staleReservationActivityStillMatches A g c
        let activityCache := (c.activityKey, activityMatches) :: s.activityCache
        if !activityMatches then { s with activityCache := activityCache }
        else ⟨activityCache, s.release.record id⟩

/-- `release_stale_reservations` on the activity that its transaction sees. -/
def Activity.releaseStale (A : Activity) (t : LeaseTable) (now projectId : Int)
    (candidates : List StaleReservationCandidate) (observedAt inactivityUs graceUs : Int) :
    Except DbError ReleaseState :=
  if inactivityUs < 0 ∨ graceUs < 0 then
    .error (.invalidArgument "stale reservation thresholds"
      "inactivity and activity grace must be nonnegative")
  else
    match staleCandidateError projectId observedAt [] (candidates.map (·.reservation)) with
    | some e => .error e
    | none =>
      .ok ((candidates.map (·.reservation.id)).foldl
        (releaseStaleId A ⟨candidates, observedAt, inactivityUs, graceUs⟩) ⟨[], now, [], t⟩).release

/-! ### Replayed releases -/

/-- The part of `QueuedReleaseIntent` that a replay uses. -/
structure QueuedReleaseIntent where
  projectKey : String
  agentName : String
  paths : Option (List Text)
  fileReservationIds : Option (List Int)
  createdTs : Int

/-- What a replay looks up, as it finds it; `none` is an error that ends the replay. -/
structure ReplayLookups where
  /-- `resolve_project`: the id and the human key. -/
  resolveProject : String → Option (Int × String)
  resolveAgent : Int → String → Option Int
  normalizeFilterPaths : String → Option (List Text) → Option (Option (List Text))

/-- `renewal_filter_matches`. -/
def renewalFilterMatches (P : Platform) (agentId : Int) (paths : Option (List Text))
    (reservationIds : Option (List Int)) (row : FileReservationRow) : Bool :=
  !row.releasedTs.any (0 < ·) && row.agentId == agentId && reservationIds.all (·.contains row.id) &&
    paths.all fun patterns => patterns.any fun pat => row.pathPattern == pat ||
      (CompiledPattern.new P pat).overlaps P.caseInsensitive (CompiledPattern.new P row.pathPattern)

/-- `list_unreleased_file_reservations`; rows are appended in the order of their ids. -/
def listUnreleasedFileReservations (t : LeaseTable) (projectId : Int) : List FileReservationRow :=
  t.rows.filter fun r => r.projectId == projectId && t.isUnreleased r

def maxReleaseReservationChunkItems : Nat := 128

/-- `release_reservation_chunk_plan` without a path filter: the id filter of each chunk. -/
def releaseChunks : Option (List Int) → List (Option (List Int))
  | none => [none]
  | some ids =>
    if maxReleaseReservationChunkItems < ids.length then
      (ids.toChunks maxReleaseReservationChunkItems).map some
    else [some ids]

/-- The rows that the first transaction of `release_reservations_with_created_cutoff` selects. -/
def releaseTargets (t : LeaseTable) (scope : ReleaseScope) (paths : Option (List Text))
    (ids : Option (List Int)) : List Int :=
  (t.rows.filter fun r => scope.allows r && t.isUnreleased r && matchesFilters paths ids r).map (·.id)

/-- What the write transaction for one chunk of a replay releases, and in which scope. The reads
`listed` and `selected` come from earlier transactions, so other agents may act in between. -/
def replayWrite (P : Platform) (D : ReplayLookups) (intent : QueuedReleaseIntent)
    (listed selected : LeaseTable) (chunk : Nat) : Option (ReleaseScope × List Int) := do
  let (projectId, humanKey) ← D.resolveProject intent.projectKey
  let normalizedPaths ← D.normalizeFilterPaths humanKey intent.paths
  let agentId ← D.resolveAgent projectId intent.agentName
  let idsToRelease :=
    if normalizedPaths.isSome || intent.fileReservationIds.isSome then
      some (((listUnreleasedFileReservations listed projectId).filter
        (renewalFilterMatches P agentId normalizedPaths intent.fileReservationIds)).map (·.id))
    else none
  let ids ← (releaseChunks idsToRelease)[chunk]?
  let scope : ReleaseScope := ⟨projectId, agentId, some intent.createdTs⟩
  return (scope, releaseTargets selected scope none ids)

/-- One write transaction of `replay_single_release_intent`. -/
def replaySingleReleaseIntent (P : Platform) (t : LeaseTable) (now : Int) (D : ReplayLookups)
    (intent : QueuedReleaseIntent) (listed selected : LeaseTable) (chunk : Nat) : LeaseTable :=
  match replayWrite P D intent listed selected chunk with
  | none => t
  | some (scope, ids) =>
    (releaseReservationsByIdsWithConstraints t now ids .any (some scope) none).table

/-! ### Runs -/

/-- The operations of a run. A release selects its rows in an earlier transaction, so the table it
saw is an argument; `activity` is whatever agents and messages do in between. -/
inductive ReservationOp where
  | create (now : Int) (q : CreateRequest)
  | claim (now : Int) (q : ClaimRequest)
  | renew (now : Int) (q : RenewRequest)
  | releaseByIds (now : Int) (ids : List Int) (constraint : ExpiryConstraint)
  | release (now : Int) (scope : ReleaseScope) (selected : LeaseTable) (paths : Option (List Text))
      (ids : Option (List Int))
  | replay (now : Int) (D : ReplayLookups) (intent : QueuedReleaseIntent)
      (listed selected : LeaseTable) (chunk : Nat)
  | releaseStale (now projectId : Int) (candidates : List StaleReservationCandidate)
      (observedAt inactivityUs graceUs : Int)
  | activity (A : Activity)

structure ReservationWorld where
  table : LeaseTable
  activity : Activity

/-- The world after one operation; an error rolls back. -/
def ReservationOp.apply (P : Platform) (w : ReservationWorld) : ReservationOp → ReservationWorld
  | .create now q => { w with table := (LeaseTxn.create now q).apply P w.table }
  | .claim now q => { w with table := (LeaseTxn.claim now q).apply P w.table }
  | .renew now q => { w with table := (LeaseTxn.renew now q).apply P w.table }
  | .releaseByIds now ids constraint =>
    { w with table := (LeaseTxn.releaseByIds now ids constraint).apply P w.table }
  | .release now scope selected paths ids =>
    { w with table := (releaseReservationsByIdsWithConstraints w.table now
        (releaseTargets selected scope paths ids) .any (some scope) none).table }
  | .replay now D intent listed selected chunk =>
    { w with table := replaySingleReleaseIntent P w.table now D intent listed selected chunk }
  | .releaseStale now projectId candidates observedAt inactivityUs graceUs =>
    { w with table := ((w.activity.releaseStale w.table now projectId candidates observedAt
        inactivityUs graceUs).toOption.map (·.table)).getD w.table }
  | .activity A => { w with activity := A }

def ReservationWorld.run (P : Platform) (w : ReservationWorld) (ops : List ReservationOp) :
    ReservationWorld :=
  ops.foldl (ReservationOp.apply P) w

/-! ### No lease comes back -/

/-- What every operation does to the table: rows stay, and an unreleased row is new or was
unreleased before. -/
structure Evolves (t t' : LeaseTable) : Prop where
  sequence_le : t.sequence ≤ t'.sequence
  kept : ∀ r ∈ t.rows, ∃ r' ∈ t'.rows, r'.id = r.id
  unreleased : ∀ r' ∈ t'.rows, t'.isUnreleased r' = true →
    t.sequence < r'.id ∨ ∃ r ∈ t.rows, r.id = r'.id ∧ t.isUnreleased r = true

section

variable {t t' t'' : LeaseTable}

theorem Evolves.refl (t : LeaseTable) : Evolves t t :=
  ⟨le_rfl, fun r hr => ⟨r, hr, rfl⟩, fun r hr hu => .inr ⟨r, hr, rfl, hu⟩⟩

theorem Evolves.trans (h : Evolves t t') (h' : Evolves t' t'') : Evolves t t'' where
  sequence_le := h.sequence_le.trans h'.sequence_le
  kept := by
    intro r hr
    obtain ⟨r', hr', hid⟩ := h.kept r hr
    obtain ⟨r'', hr'', hid'⟩ := h'.kept r' hr'
    exact ⟨r'', hr'', hid'.trans hid⟩
  unreleased := by
    intro r'' hr'' hu''
    have hseq := h.sequence_le
    rcases h'.unreleased r'' hr'' hu'' with hnew | ⟨r', hr', hid', hu'⟩
    · left
      omega
    · rw [← hid']
      exact h.unreleased r' hr' hu'

/-- The row of a released lease is released in every later table. -/
theorem Evolves.released (h : Evolves t t') {r : FileReservationRow} (hr : r ∈ t.rows)
    (hu : t.isUnreleased r = false) {r' : FileReservationRow} (hr' : r' ∈ t'.rows)
    (hid : r'.id = r.id) : t'.isUnreleased r' = false := by
  by_contra hne
  rw [Bool.not_eq_false] at hne
  have hle := t.ids_le r hr
  rcases h.unreleased r' hr' hne with hnew | ⟨r₀, hr₀, hid₀, hu₀⟩
  · omega
  · have heq : r₀ = r := inj_on_of_nodup_map t.ids_nodup hr₀ hr (hid₀.trans hid)
    rw [heq, hu] at hu₀
    cases hu₀

theorem evolves_insert (row : FileReservationRow) : Evolves t (t.insert row) where
  sequence_le := by
    show t.sequence ≤ t.sequence + 1
    omega
  kept r hr := ⟨r, mem_append_left _ hr, rfl⟩
  unreleased := by
    intro r' hr' hu'
    rcases mem_append.mp hr' with hr | hr
    · exact .inr ⟨r', hr, rfl, hu'⟩
    · left
      rw [mem_singleton.mp hr]
      show t.sequence < t.sequence + 1
      omega

/-- An update that leaves the release stamps alone. -/
theorem evolves_update {test : FileReservationRow → Bool}
    {set : FileReservationRow → FileReservationRow} (hset : ∀ r, (set r).id = r.id)
    (hreleased : ∀ r, (set r).releasedTs = r.releasedTs) : Evolves t (t.update test set hset) where
  sequence_le := le_rfl
  kept := by
    intro r hr
    refine ⟨_, mem_map_of_mem hr, ?_⟩
    split
    · exact hset r
    · rfl
  unreleased := by
    intro r' hr' hu'
    right
    obtain ⟨r, hr, rfl⟩ := mem_map.mp hr'
    refine ⟨r, hr, ?_, ?_⟩
    · split
      · exact (hset r).symm
      · rfl
    · simp only [LeaseTable.isUnreleased, LeaseTable.update] at hu' ⊢
      split at hu'
      · rw [hreleased, hset] at hu'
        exact hu'
      · exact hu'

end

/-! ### What a release leaves alone -/

theorem contains_recordRelease (t : LeaseTable) (id x : Int) :
    (t.recordRelease id).releases.contains x = (t.releases.contains x || x == id) := by
  simp only [LeaseTable.recordRelease]
  by_cases hid : t.releases.contains id = true
  · rw [if_pos hid]
    by_cases hx : x = id
    · rw [hx, hid, Bool.true_or]
    · rw [beq_false_of_ne hx, Bool.or_false]
  · rw [if_neg hid, contains_append, Bool.eq_iff_iff]
    simp

/-- The rows outside `reached` are unchanged, and no row comes or goes. -/
structure Spares (reached : FileReservationRow → Prop) (t t' : LeaseTable) : Prop where
  ids : t'.rows.map (·.id) = t.rows.map (·.id)
  rows : ∀ r ∈ t.rows, ¬ reached r → r ∈ t'.rows ∧ t'.isUnreleased r = t.isUnreleased r

theorem Spares.refl (reached : FileReservationRow → Prop) (t : LeaseTable) : Spares reached t t :=
  ⟨rfl, fun _ hr _ => ⟨hr, rfl⟩⟩

theorem Spares.trans {reached : FileReservationRow → Prop} {t t' t'' : LeaseTable}
    (h : Spares reached t t') (h' : Spares reached t' t'') : Spares reached t t'' where
  ids := h'.ids.trans h.ids
  rows := by
    intro r hr hn
    obtain ⟨hr', hu'⟩ := h.rows r hr hn
    obtain ⟨hr'', hu''⟩ := h'.rows r hr' hn
    exact ⟨hr'', hu''.trans hu'⟩

theorem Spares.mono {reached reached' : FileReservationRow → Prop} {t t' : LeaseTable}
    (h : Spares reached t t') (himp : ∀ r ∈ t.rows, reached r → reached' r) :
    Spares reached' t t' :=
  ⟨h.ids, fun r hr hn => h.rows r hr fun hreach => hn (himp r hr hreach)⟩

section

variable (s : ReleaseState) (id : Int)

theorem record_evolves : Evolves s.table (s.record id).table where
  sequence_le := le_rfl
  kept := by
    intro r hr
    refine ⟨_, mem_map_of_mem hr, ?_⟩
    split
    · rfl
    · rfl
  unreleased := by
    intro r' hr' hu'
    right
    obtain ⟨r, hr, rfl⟩ := mem_map.mp hr'
    simp only [LeaseTable.isUnreleased, ReleaseState.record, contains_recordRelease,
      Bool.and_eq_true, Bool.not_eq_true', Bool.or_eq_false_iff, beq_eq_false_iff_ne] at hu'
    by_cases hid : r.id = id
    · rw [if_pos (beq_iff_eq.mpr hid)] at hu'
      exact absurd hid hu'.2.2
    · have hne : ¬ (r.id == id) = true := fun h => hid (beq_iff_eq.mp h)
      rw [if_neg hne] at hu' ⊢
      refine ⟨r, hr, rfl, ?_⟩
      simp only [LeaseTable.isUnreleased, Bool.and_eq_true, Bool.not_eq_true']
      exact ⟨hu'.1, hu'.2.1⟩

theorem record_spares : Spares (·.id = id) s.table (s.record id).table where
  ids := by
    show (s.table.rows.map _).map _ = _
    rw [map_map]
    apply map_congr_left
    intro r _
    simp only [Function.comp_apply]
    split
    · rfl
    · rfl
  rows := by
    intro r hr hid
    have hne : (r.id == id) = false := beq_false_of_ne hid
    constructor
    · refine mem_map.mpr ⟨r, hr, ?_⟩
      exact if_neg fun h => hid (beq_iff_eq.mp h)
    · simp only [LeaseTable.isUnreleased, ReleaseState.record, contains_recordRelease]
      rw [hne, Bool.or_false]
      rfl

end

/-- A release by id skips the id or releases it, and then a row of that id was eligible. -/
theorem releaseId_cases (constraint : ExpiryConstraint) (scope : Option ReleaseScope)
    (guard : Option StaleGuard) (s : ReleaseState) (id : Int) :
    releaseId constraint scope guard s id = s ∨
    releaseId constraint scope guard s id = s.record id ∧ ∃ r ∈ s.table.rows, r.id = id ∧
      scope.all (·.allows r) = true ∧ ∀ g ∈ guard, ∃ observed ∈ g.candidate id,
        sameObserved observed r = true ∧ g.activityMatches observed = true := by
  unfold releaseId
  dsimp only
  split
  · exact .inl rfl
  · next test htest =>
    split
    · exact .inl rfl
    · next heligible =>
      right
      refine ⟨rfl, ?_⟩
      rw [Bool.not_eq_true', Bool.not_eq_false, any_eq_true] at heligible
      obtain ⟨r, hr, hr'⟩ := heligible
      simp only [Bool.and_eq_true, beq_iff_eq] at hr'
      obtain ⟨⟨⟨⟨hid, _⟩, _⟩, hscope⟩, hok⟩ := hr'
      refine ⟨r, hr, hid, hscope, ?_⟩
      intro g hg
      rw [Option.mem_def.mp hg] at htest
      obtain ⟨observed, hobserved, rfl⟩ := Option.map_eq_some_iff.mp htest
      rw [Bool.and_eq_true] at hok
      exact ⟨observed, hobserved, hok⟩

/-- The rows that a release may change. -/
def Reached (scope : Option ReleaseScope) (guard : Option StaleGuard) (r : FileReservationRow) :
    Prop :=
  scope.all (·.allows r) = true ∧ ∀ g ∈ guard, ∃ observed ∈ g.candidate r.id,
    sameObserved observed r = true ∧ g.activityMatches observed = true

theorem releaseId_evolves (constraint : ExpiryConstraint) (scope : Option ReleaseScope)
    (guard : Option StaleGuard) (s : ReleaseState) (id : Int) :
    Evolves s.table (releaseId constraint scope guard s id).table ∧
      Spares (Reached scope guard) s.table (releaseId constraint scope guard s id).table := by
  rcases releaseId_cases constraint scope guard s id with h | ⟨h, r₀, hr₀, hid₀, hscope, hguard⟩
  · rw [h]
    exact ⟨.refl _, .refl _ _⟩
  · rw [h]
    refine ⟨record_evolves s id, (record_spares s id).mono ?_⟩
    intro r hr hid
    have heq : r = r₀ := inj_on_of_nodup_map s.table.ids_nodup hr hr₀ (hid.trans hid₀.symm)
    rw [heq, Reached, hid₀]
    exact ⟨hscope, hguard⟩

theorem release_evolves (t : LeaseTable) (now : Int) (ids : List Int)
    (constraint : ExpiryConstraint) (scope : Option ReleaseScope) (guard : Option StaleGuard) :
    Evolves t (releaseReservationsByIdsWithConstraints t now ids constraint scope guard).table ∧
      Spares (Reached scope guard) t
        (releaseReservationsByIdsWithConstraints t now ids constraint scope guard).table := by
  unfold releaseReservationsByIdsWithConstraints
  have hfold (ids : List Int) (s : ReleaseState) :
      Evolves s.table (ids.foldl (releaseId constraint scope guard) s).table ∧
        Spares (Reached scope guard) s.table
          (ids.foldl (releaseId constraint scope guard) s).table := by
    induction ids generalizing s with
    | nil => exact ⟨.refl _, .refl _ _⟩
    | cons id ids ih =>
      rw [foldl_cons]
      have hstep := releaseId_evolves constraint scope guard s id
      have hrest := ih (releaseId constraint scope guard s id)
      exact ⟨hstep.1.trans hrest.1, hstep.2.trans hrest.2⟩
  exact hfold ids ⟨now, [], t⟩

/-! ### The other transactions -/

theorem foldlM_evolves {α : Type} {f : List FileReservationRow × LeaseTable → α →
      Except DbError (List FileReservationRow × LeaseTable)}
    (hf : ∀ acc x acc', f acc x = .ok acc' → Evolves acc.2 acc'.2) {l : List α}
    {acc acc' : List FileReservationRow × LeaseTable} (h : l.foldlM f acc = .ok acc') :
    Evolves acc.2 acc'.2 := by
  induction l generalizing acc with
  | nil =>
    cases h
    exact .refl _
  | cons x l ih =>
    rw [foldlM_cons] at h
    cases hx : f acc x with
    | error e =>
      rw [hx] at h
      cases h
    | ok acc₁ =>
      rw [hx] at h
      exact (hf acc x acc₁ hx).trans (ih h)

-- Re-acquiring a lease rewrites its expiry, mode and reason in place, and nothing else.
theorem foldl_storeLease_evolves (renewed : List FileReservationRow) (t : LeaseTable) :
    Evolves t (renewed.foldl storeLease t) := by
  induction renewed generalizing t with
  | nil => exact .refl _
  | cons row renewed ih =>
    rw [foldl_cons]
    have hstep : Evolves t (storeLease t row) := by
      apply evolves_update
      intro r
      rfl
    exact hstep.trans (ih _)

theorem reservePath_evolves {now : Int} {q : CreateRequest}
    (acc : List FileReservationRow × LeaseTable) (path : Text)
    (acc' : List FileReservationRow × LeaseTable) (h : reservePath now q acc path = .ok acc') :
    Evolves acc.2 acc'.2 := by
  unfold reservePath at h
  dsimp only at h
  split at h
  · cases h
    exact foldl_storeLease_evolves _ _
  · split at h
    · cases h
    · cases h
      exact evolves_insert _

theorem createFileReservations_evolves {P : Platform} {t t' : LeaseTable} {now : Int}
    {q : CreateRequest} {rows : List FileReservationRow}
    (h : createFileReservations P t now q = .ok (rows, t')) : Evolves t t' := by
  unfold createFileReservations at h
  split at h
  · cases h
    exact .refl _
  · cases h
  · split at h
    · cases h
    · dsimp only at h
      split at h
      · cases h
      · exact foldlM_evolves reservePath_evolves h

theorem applyClaim_evolves {P : Platform} {t t' : LeaseTable} {now : Int} {q : ClaimRequest}
    {outcome : AckEscalationOutcome} (h : applyClaim P t now q = .ok (outcome, t')) :
    Evolves t t' := by
  unfold applyClaim at h
  dsimp only at h
  split at h
  · cases h
    exact .refl _
  · split at h
    · cases h
    · split at h
      · cases h
      · cases h
        exact .refl _
      · split at h
        · cases h
        · split at h
          · cases h
          · cases h
            exact evolves_insert _

theorem renewReservations_evolves {t t' : LeaseTable} {now : Int} {q : RenewRequest}
    {rows : List FileReservationRow} (h : renewReservations t now q = .ok (rows, t')) :
    Evolves t t' := by
  unfold renewReservations at h
  split at h
  · cases h
  · refine foldlM_evolves ?_ h
    intro acc row acc' hstep
    unfold renewRow at hstep
    dsimp only at hstep
    split at hstep
    · cases hstep
    · cases hstep
      apply evolves_update
      · intro r
        rfl
      · intro r
        rfl

/-! ### Stale releases -/

/-- The guard that the uncached loop checks. -/
def StaleReservationReleaseGuard.uncached (g : StaleReservationReleaseGuard) (A : Activity) :
    StaleGuard where
  candidate id := (g.candidate id).map (·.reservation)
  activityMatches observed :=
    (g.candidate observed.id).any (staleReservationActivityStillMatches A g)

/-- Every cached check is the check of each candidate with its key. -/
def CacheAgrees (A : Activity) (g : StaleReservationReleaseGuard)
    (cache : List ((Int × Int × Option Int) × Bool)) : Prop :=
  ∀ c ∈ g.candidates, ∀ b ∈ cache.lookup c.activityKey,
    staleReservationActivityStillMatches A g c = b

variable {g : StaleReservationReleaseGuard} {A : Activity}

/-- Candidates of one project with the same key pass or fail together. -/
theorem stillMatches_congr {c c' : StaleReservationCandidate}
    (hkey : c.activityKey = c'.activityKey)
    (hproject : c.reservation.projectId = c'.reservation.projectId) :
    staleReservationActivityStillMatches A g c = staleReservationActivityStillMatches A g c' := by
  simp only [StaleReservationCandidate.activityKey, Prod.mk.injEq] at hkey
  obtain ⟨hagent, hactive, hmail⟩ := hkey
  simp only [staleReservationActivityStillMatches, hagent, hactive, hmail, hproject]

theorem CacheAgrees.cons {projectId : Int}
    (hproject : ∀ c ∈ g.candidates, c.reservation.projectId = projectId)
    {cache : List ((Int × Int × Option Int) × Bool)} (h : CacheAgrees A g cache)
    {c : StaleReservationCandidate} (hc : c ∈ g.candidates) :
    CacheAgrees A g ((c.activityKey, staleReservationActivityStillMatches A g c) :: cache) := by
  intro c' hc' b hb
  rw [Option.mem_def, lookup_cons] at hb
  by_cases hkey : c'.activityKey = c.activityKey
  · rw [beq_iff_eq.mpr hkey] at hb
    cases hb
    exact stillMatches_congr hkey ((hproject c' hc').trans (hproject c hc).symm)
  · rw [beq_false_of_ne hkey] at hb
    exact h c' hc' b hb

/-- The cache changes no outcome: it is keyed without the project, but all candidates of a call
are of one project. -/
theorem releaseStaleId_eq {projectId : Int}
    (hproject : ∀ c ∈ g.candidates, c.reservation.projectId = projectId) {s : StaleReleaseState}
    (hcache : CacheAgrees A g s.activityCache) (id : Int) :
    (releaseStaleId A g s id).release = releaseId .any none (some (g.uncached A)) s.release id ∧
      CacheAgrees A g (releaseStaleId A g s id).activityCache := by
  unfold releaseStaleId releaseId
  simp only [StaleReservationReleaseGuard.uncached]
  cases hc : g.candidate id with
  | none => exact ⟨rfl, hcache⟩
  | some c =>
    have hmem : c ∈ g.candidates := mem_of_find?_eq_some hc
    have hcid : c.reservation.id = id := by simpa using List.find?_some hc
    -- The uncached loop tests the row and the activity at once.
    have heligible : (s.release.table.rows.any fun r => r.id == id &&
        s.release.table.isUnreleased r && ExpiryConstraint.any.allows r.expiresTs &&
        Option.all (fun x : ReleaseScope => x.allows r) none &&
        (sameObserved c.reservation r && staleReservationActivityStillMatches A g c)) =
        ((s.release.table.rows.any fun r => r.id == id && s.release.table.isUnreleased r &&
          sameObserved c.reservation r) && staleReservationActivityStillMatches A g c) := by
      simp only [ExpiryConstraint.allows, Option.all_none, Bool.and_true]
      rw [Bool.eq_iff_iff, Bool.and_eq_true, any_eq_true, any_eq_true]
      simp only [Bool.and_eq_true]
      grind
    simp only [Option.map_some, hcid, hc, Option.any_some]
    rw [heligible]
    generalize s.release.table.rows.any _ = eligible
    cases eligible with
    | false => exact ⟨rfl, hcache⟩
    | true =>
      cases hlookup : s.activityCache.lookup c.activityKey with
      | some b =>
        have hb : staleReservationActivityStillMatches A g c = b := hcache c hmem b hlookup
        rw [hb]
        cases b with
        | false => exact ⟨rfl, hcache⟩
        | true => exact ⟨rfl, hcache⟩
      | none =>
        have hcons := hcache.cons hproject hmem
        cases hb : staleReservationActivityStillMatches A g c with
        | false =>
          rw [hb] at hcons
          exact ⟨rfl, hcons⟩
        | true =>
          rw [hb] at hcons
          exact ⟨rfl, hcons⟩

/-- Admitted candidates are of the project. -/
theorem staleCandidateError_none {projectId observedAt : Int} {seen : List Int}
    {candidates : List FileReservationRow}
    (h : staleCandidateError projectId observedAt seen candidates = none) :
    ∀ c ∈ candidates, c.projectId = projectId := by
  induction candidates generalizing seen with
  | nil => simp
  | cons c candidates ih =>
    unfold staleCandidateError at h
    split at h
    · cases h
    · next hok =>
      rw [forall_mem_cons]
      have hproject : c.projectId = projectId := by
        by_contra hne
        exact hok (.inl hne)
      exact ⟨hproject, ih h⟩

/-- The loop with the cache is the loop without. -/
theorem foldl_releaseStaleId {projectId : Int}
    (hproject : ∀ c ∈ g.candidates, c.reservation.projectId = projectId) (ids : List Int)
    {s : StaleReleaseState} (hcache : CacheAgrees A g s.activityCache) :
    (ids.foldl (releaseStaleId A g) s).release =
      ids.foldl (releaseId .any none (some (g.uncached A))) s.release := by
  induction ids generalizing s with
  | nil => rfl
  | cons id ids ih =>
    rw [foldl_cons, foldl_cons]
    obtain ⟨hrelease, hnext⟩ := releaseStaleId_eq hproject hcache id
    rw [ih hnext, hrelease]

/-- A stale release is the one of `Leases` on the activity of its snapshot. -/
theorem Activity.releaseStale_eq (A : Activity) (t : LeaseTable) (now projectId : Int)
    (candidates : List StaleReservationCandidate) (observedAt inactivityUs graceUs : Int) :
    A.releaseStale t now projectId candidates observedAt inactivityUs graceUs =
      releaseStaleReservations t now projectId (candidates.map (·.reservation)) observedAt
        inactivityUs graceUs (StaleReservationReleaseGuard.uncached
          ⟨candidates, observedAt, inactivityUs, graceUs⟩ A).activityMatches := by
  unfold Activity.releaseStale releaseStaleReservations
  split
  · rfl
  · cases hnone : staleCandidateError projectId observedAt [] (candidates.map (·.reservation)) with
    | some e => rfl
    | none =>
      dsimp only
      have hproject : ∀ c ∈ candidates, c.reservation.projectId = projectId := by
        intro c hc
        exact staleCandidateError_none hnone _ (mem_map_of_mem hc)
      have hempty : CacheAgrees A ⟨candidates, observedAt, inactivityUs, graceUs⟩ [] := by
        intro c _ b hb
        cases hb
      have hloop := foldl_releaseStaleId (A := A)
        (g := ⟨candidates, observedAt, inactivityUs, graceUs⟩) hproject
        (candidates.map (·.reservation.id)) (s := ⟨[], now, [], t⟩) hempty
      rw [hloop, releaseReservationsByIdsWithConstraints, map_map]
      simp only [List.find?_map]
      rfl

/-! ### The claims about one operation -/

/-- The rows that an operation changed or released. -/
def Touched (t t' : LeaseTable) (r : FileReservationRow) : Prop :=
  r ∈ t.rows ∧ (r ∉ t'.rows ∨ t'.isUnreleased r ≠ t.isUnreleased r)

theorem Spares.reached {reached : FileReservationRow → Prop} {t t' : LeaseTable}
    (h : Spares reached t t') {r : FileReservationRow} (hr : Touched t t' r) : reached r := by
  by_contra hn
  obtain ⟨hmem, hstatus⟩ := h.rows r hr.1 hn
  rcases hr.2 with hr | hr
  · exact hr hmem
  · exact hr hstatus

/-- A replay acts on leases of the agent and the project that the intent names, created at or
before the intent. -/
structure WithinIntent (D : ReplayLookups) (intent : QueuedReleaseIntent) (r : FileReservationRow) :
    Prop where
  project : ∃ humanKey, D.resolveProject intent.projectKey = some (r.projectId, humanKey)
  agent : D.resolveAgent r.projectId intent.agentName = some r.agentId
  created : r.createdTs ≤ intent.createdTs

theorem replaySingleReleaseIntent_spec (P : Platform) (t : LeaseTable) (now : Int)
    (D : ReplayLookups) (intent : QueuedReleaseIntent) (listed selected : LeaseTable)
    (chunk : Nat) :
    Evolves t (replaySingleReleaseIntent P t now D intent listed selected chunk) ∧
      Spares (WithinIntent D intent) t
        (replaySingleReleaseIntent P t now D intent listed selected chunk) := by
  unfold replaySingleReleaseIntent
  split
  · exact ⟨.refl _, .refl _ _⟩
  · next scope ids hwrite =>
    have hrelease := release_evolves t now ids .any (some scope) none
    refine ⟨hrelease.1, hrelease.2.mono ?_⟩
    intro r _ hr
    unfold replayWrite at hwrite
    simp only [Option.bind_eq_bind, Option.bind_eq_some_iff, Option.pure_def, Option.some.injEq,
      Prod.mk.injEq] at hwrite
    obtain ⟨⟨projectId, humanKey⟩, hproject, _, _, agentId, hagent, _, _, rfl, _⟩ := hwrite
    have hallows := hr.1
    simp only [Option.all_some, ReleaseScope.allows, Bool.and_eq_true, beq_iff_eq,
      decide_eq_true_eq] at hallows
    obtain ⟨⟨hp, ha⟩, hcreated⟩ := hallows
    refine ⟨⟨humanKey, ?_⟩, ?_, hcreated⟩
    · rw [hp]
      exact hproject
    · rw [hp, ha]
      exact hagent

/-- The row is one of the observed leases, unchanged up to its release stamp, and at this moment
its holder is not exempt and has neither a newer heartbeat nor newer mail than observed. -/
def EvidenceStands (A : Activity) (g : StaleReservationReleaseGuard) (r : FileReservationRow) :
    Prop :=
  ∃ c ∈ g.candidates, r = { c.reservation with releasedTs := r.releasedTs } ∧
    ∃ agent ∈ A.agents.find? (·.id == r.agentId), agent.projectId = r.projectId ∧
      agent.reaperExempt = 0 ∧ agent.lastActiveTs = c.agentLastActiveTs ∧
      g.inactivityUs < saturatingSub g.observedAt c.agentLastActiveTs ∧
      A.lastMailActivity r.agentId r.projectId = c.lastMailActivityTs ∧
      ∀ ts ∈ c.lastMailActivityTs, g.graceUs < saturatingSub g.observedAt ts

theorem evidenceStands_of_reached {r : FileReservationRow}
    (h : Reached none (some (g.uncached A)) r) : EvidenceStands A g r := by
  obtain ⟨observed, hobserved, hsame, hactivity⟩ := h.2 _ rfl
  obtain ⟨c, hc, rfl⟩ := Option.map_eq_some_iff.mp hobserved
  have hid : c.reservation.id = r.id := by simpa using List.find?_some hc
  simp only [sameObserved, Bool.and_eq_true, beq_iff_eq] at hsame
  obtain ⟨⟨⟨⟨⟨⟨hp, ha⟩, hpat⟩, hex⟩, hreason⟩, hcreated⟩, hexpires⟩ := hsame
  have hrow : r = { c.reservation with releasedTs := r.releasedTs } := by
    cases r
    simp_all
  refine ⟨c, mem_of_find?_eq_some hc, hrow, ?_⟩
  simp only [StaleReservationReleaseGuard.uncached, hid, hc, Option.any_some,
    staleReservationActivityStillMatches] at hactivity
  rw [ha, hp]
  split at hactivity
  · cases hactivity
  · next agent hagent =>
    split at hactivity
    · cases hactivity
    · next hsame =>
      simp only [not_or, not_not, not_le] at hsame
      obtain ⟨hproject, hexempt, hactive, hinactive⟩ := hsame
      simp only [Bool.and_eq_true, beq_iff_eq] at hactivity
      obtain ⟨hmail, hgrace⟩ := hactivity
      rw [hactive] at hinactive
      rw [hproject] at hmail
      refine ⟨agent, hagent, hproject, hexempt, hactive, hinactive, hmail, ?_⟩
      intro ts hts
      rw [hproject, hmail, Option.mem_def.mp hts] at hgrace
      simpa using hgrace

theorem releaseStale_spec (A : Activity) (t : LeaseTable) (now projectId : Int)
    (candidates : List StaleReservationCandidate) (observedAt inactivityUs graceUs : Int) :
    Evolves t (((A.releaseStale t now projectId candidates observedAt inactivityUs
        graceUs).toOption.map (·.table)).getD t) ∧
      Spares (EvidenceStands A ⟨candidates, observedAt, inactivityUs, graceUs⟩) t
        (((A.releaseStale t now projectId candidates observedAt inactivityUs
          graceUs).toOption.map (·.table)).getD t) := by
  rw [Activity.releaseStale_eq, releaseStaleReservations]
  split
  · exact ⟨.refl _, .refl _ _⟩
  · split
    · exact ⟨.refl _, .refl _ _⟩
    · have hguard : (⟨fun id => (candidates.map (·.reservation)).find? (·.id == id),
          (StaleReservationReleaseGuard.uncached
            ⟨candidates, observedAt, inactivityUs, graceUs⟩ A).activityMatches⟩ : StaleGuard) =
          StaleReservationReleaseGuard.uncached ⟨candidates, observedAt, inactivityUs, graceUs⟩ A := by
        simp only [List.find?_map]
        rfl
      rw [hguard]
      have hrelease := release_evolves t now ((candidates.map (·.reservation)).map (·.id)) .any none
        (some (StaleReservationReleaseGuard.uncached
          ⟨candidates, observedAt, inactivityUs, graceUs⟩ A))
      exact ⟨hrelease.1, hrelease.2.mono fun r _ hr => evidenceStands_of_reached hr⟩

/-! ### Whole runs -/

theorem evolves_getD {ε α : Type} {t : LeaseTable} {result : Except ε (α × LeaseTable)}
    (h : ∀ a t', result = .ok (a, t') → Evolves t t') :
    Evolves t ((result.toOption.map (·.2)).getD t) := by
  cases result with
  | error e => exact .refl t
  | ok at' => exact h at'.1 at'.2 rfl

theorem ReservationOp.apply_evolves (P : Platform) (w : ReservationWorld) (op : ReservationOp) :
    Evolves w.table (op.apply P w).table := by
  cases op with
  | create now q => exact evolves_getD fun _ _ h => createFileReservations_evolves h
  | claim now q => exact evolves_getD fun _ _ h => applyClaim_evolves h
  | renew now q => exact evolves_getD fun _ _ h => renewReservations_evolves h
  | releaseByIds now ids constraint => exact (release_evolves _ _ _ _ _ _).1
  | release now scope selected paths ids => exact (release_evolves _ _ _ _ _ _).1
  | replay now D intent listed selected chunk =>
    exact (replaySingleReleaseIntent_spec P w.table now D intent listed selected chunk).1
  | releaseStale now projectId candidates observedAt inactivityUs graceUs =>
    exact (releaseStale_spec w.activity w.table now projectId candidates observedAt inactivityUs
      graceUs).1
  | activity A => exact .refl _

theorem ReservationWorld.run_evolves (P : Platform) (w : ReservationWorld)
    (ops : List ReservationOp) : Evolves w.table (w.run P ops).table := by
  unfold ReservationWorld.run
  induction ops generalizing w with
  | nil => exact .refl _
  | cons op ops ih =>
    rw [foldl_cons]
    exact (op.apply_evolves P w).trans (ih _)

/-- What holds of an operation in state `w` and of the operations after it. -/
structure ReleasesSafely (P : Platform) (w : ReservationWorld) (op : ReservationOp)
    (later : List ReservationOp) : Prop where
  stays : ∀ r ∈ (op.apply P w).table.rows, (op.apply P w).table.isUnreleased r = false →
    ∃ r' ∈ ((op.apply P w).run P later).table.rows, r'.id = r.id ∧
      ((op.apply P w).run P later).table.isUnreleased r' = false
  replay : ∀ now D intent listed selected chunk, op = .replay now D intent listed selected chunk →
      (op.apply P w).table.rows.map (·.id) = w.table.rows.map (·.id) ∧
      ∀ r, Touched w.table (op.apply P w).table r → WithinIntent D intent r
  stale : ∀ now projectId candidates observedAt inactivityUs graceUs,
    op = .releaseStale now projectId candidates observedAt inactivityUs graceUs →
      (op.apply P w).table.rows.map (·.id) = w.table.rows.map (·.id) ∧
      ∀ r, Touched w.table (op.apply P w).table r →
        EvidenceStands w.activity ⟨candidates, observedAt, inactivityUs, graceUs⟩ r

/-- In every run, released leases stay released, replays do not reach past their intent, and a
stale release acts on standing evidence. -/
theorem run_releasesSafely (P : Platform) (w : ReservationWorld) (earlier : List ReservationOp)
    (op : ReservationOp) (later : List ReservationOp) :
    ReleasesSafely P (w.run P earlier) op later where
  stays := by
    intro r hr hu
    have hlater := ((op.apply P (w.run P earlier)).run_evolves P later)
    obtain ⟨r', hr', hid⟩ := hlater.kept r hr
    exact ⟨r', hr', hid, hlater.released hr hu hr' hid⟩
  replay := by
    intro now D intent listed selected chunk hop
    have hspec := replaySingleReleaseIntent_spec P (w.run P earlier).table now D intent listed
      selected chunk
    rw [hop]
    exact ⟨hspec.2.ids, fun r hr => hspec.2.reached hr⟩
  stale := by
    intro now projectId candidates observedAt inactivityUs graceUs hop
    have hspec := releaseStale_spec (w.run P earlier).activity (w.run P earlier).table now projectId
      candidates observedAt inactivityUs graceUs
    rw [hop]
    exact ⟨hspec.2.ids, fun r hr => hspec.2.reached hr⟩

-- A release queued at 5 ends the lease of time 0 and not the one taken at 10.
example :
    let w : ReservationWorld := ⟨.empty, ⟨[], [], [], [], []⟩⟩
    let held := w.run exactPlatform
      [.create 0 (requestOf 1 "src/a.rs".toList true), .create 10 (requestOf 1 "src/b.rs".toList true)]
    let intent : QueuedReleaseIntent := ⟨"p", "BlueLake", some ["src".toList], none, 5⟩
    let lookups : ReplayLookups := ⟨fun _ => some (1, "/p"), fun _ _ => some 1, fun _ paths => some paths⟩
    ((held.run exactPlatform [.replay 20 lookups intent held.table held.table 0]).table.rows.map
      (·.releasedTs)) = [some 20, none] := by decide +kernel

end AgentMail.Reservation
