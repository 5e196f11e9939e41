import AgentMail.Reservation.Leases

/-!
# Mutual exclusion of leases

The transactions of `Leases` in any order, by any agents, under a clock that does not run
backwards. No two agents hold overlapping active leases of which one is exclusive, as long as
every request of `create_file_reservations` shares a route with the conflicting leases it
overlaps; on targets that compare paths exactly this is always so.
-/

namespace AgentMail.Reservation

open Base Pattern List CompiledPattern ReservationConflictIndex

/-- Whether two pattern texts overlap. -/
def patternsOverlap (P : Platform) (a b : Text) : Bool :=
  (new P a).overlaps P.caseInsensitive (new P b)

theorem patternsOverlap_comm (P : Platform) (a b : Text) :
    patternsOverlap P a b = patternsOverlap P b a := overlaps_comm _ _ _

/-- No two active leases of different agents in a project overlap while one is exclusive. -/
def MutualExclusion (P : Platform) (t : LeaseTable) (now : Int) : Prop :=
  ∀ r ∈ t.rows, ∀ r' ∈ t.rows, t.isActive now r = true → t.isActive now r' = true →
    r.projectId = r'.projectId → r.agentId ≠ r'.agentId → (r.exclusive || r'.exclusive) = true →
    patternsOverlap P r.pathPattern r'.pathPattern = false

/-- A pattern other than the root. -/
def NonRoot (pattern : Text) : Prop := normalizePattern pattern ≠ []

/-! ### What a transaction can do to the active leases -/

/-- `r'` is held by the same agent on the same pattern, and is exclusive only if `r` was. -/
structure Continues (r r' : FileReservationRow) : Prop where
  project : r'.projectId = r.projectId
  agent : r'.agentId = r.agentId
  pattern : r'.pathPattern = r.pathPattern
  exclusive : r'.exclusive = true → r.exclusive = true

theorem Continues.refl (r : FileReservationRow) : Continues r r := ⟨rfl, rfl, rfl, id⟩

theorem Continues.trans {a b c : FileReservationRow} (h : Continues a b) (h' : Continues b c) :
    Continues a c :=
  ⟨h'.project.trans h.project, h'.agent.trans h.agent, h'.pattern.trans h.pattern,
    fun he => h.exclusive (h'.exclusive he)⟩

/-- A lease that one request grants. -/
structure Granted (projectId agentId : Int) (paths : List Text) (exclusive : Bool)
    (r : FileReservationRow) : Prop where
  project : r.projectId = projectId
  agent : r.agentId = agentId
  pattern : r.pathPattern ∈ paths
  exclusive : r.exclusive = true → exclusive = true

theorem Granted.continues {p a : Int} {paths : List Text} {e : Bool} {r r' : FileReservationRow}
    (h : Granted p a paths e r) (hc : Continues r r') : Granted p a paths e r' :=
  ⟨hc.project.trans h.project, hc.agent.trans h.agent, hc.pattern ▸ h.pattern,
    fun he => h.exclusive (hc.exclusive he)⟩

/-- Every active lease of `t'` continues an active lease of `t` or has been granted. -/
def Derived (now : Int) (granted : FileReservationRow → Prop) (t t' : LeaseTable) : Prop :=
  ∀ r' ∈ t'.rows, t'.isActive now r' = true →
    (∃ r ∈ t.rows, t.isActive now r = true ∧ Continues r r') ∨ granted r'

section

variable {now : Int} {granted : FileReservationRow → Prop} {t t' t'' : LeaseTable}

theorem Derived.refl (t : LeaseTable) : Derived now granted t t :=
  fun r hr ha => .inl ⟨r, hr, ha, .refl r⟩

theorem Derived.trans (hclosed : ∀ r r', granted r → Continues r r' → granted r')
    (h : Derived now granted t t') (h' : Derived now granted t' t'') :
    Derived now granted t t'' := by
  intro r'' hr'' ha''
  rcases h' r'' hr'' ha'' with ⟨r', hr', ha', hc'⟩ | hg
  · rcases h r' hr' ha' with ⟨r, hr, ha, hc⟩ | hg
    · exact .inl ⟨r, hr, ha, hc.trans hc'⟩
    · exact .inr (hclosed r' r'' hg hc')
  · exact .inr hg

theorem derived_insert {row : FileReservationRow}
    (hg : granted { row with id := t.sequence + 1 }) : Derived now granted t (t.insert row) := by
  intro r' hr' ha'
  rcases mem_append.mp hr' with hr | hr
  · exact .inl ⟨r', hr, ha', .refl r'⟩
  · rw [mem_singleton] at hr
    rw [hr]
    exact .inr hg

/-- An update continues the rows it does not touch. -/
theorem derived_update {test : FileReservationRow → Bool}
    {set : FileReservationRow → FileReservationRow} {hset : ∀ r, (set r).id = r.id}
    (h : ∀ r ∈ t.rows, test r = true → t.isActive now (set r) = true →
      (t.isActive now r = true ∧ Continues r (set r)) ∨ granted (set r)) :
    Derived now granted t (t.update test set hset) := by
  intro r' hr' ha'
  obtain ⟨r, hr, rfl⟩ := mem_map.mp hr'
  by_cases ht : test r = true
  · rw [if_pos ht] at ha' ⊢
    rcases h r hr ht ha' with ⟨ha, hc⟩ | hg
    · exact .inl ⟨r, hr, ha, hc⟩
    · exact .inr hg
  · rw [if_neg ht] at ha' ⊢
    exact .inl ⟨r, hr, ha', .refl r⟩

end

variable {t : LeaseTable}

theorem isActive_of_le {now now' : Int} (h : now ≤ now') {r : FileReservationRow}
    (ha : t.isActive now' r = true) : t.isActive now r = true := by
  simp only [LeaseTable.isActive, Bool.and_eq_true, decide_eq_true_eq] at ha ⊢
  exact ⟨ha.1, by omega⟩

/-- The invariant of a run: exclusion, and no active lease on the root. -/
structure LeaseInvariant (P : Platform) (t : LeaseTable) (now : Int) : Prop where
  exclusion : MutualExclusion P t now
  nonRoot : ∀ r ∈ t.rows, t.isActive now r = true → NonRoot r.pathPattern

variable {P : Platform}

theorem LeaseInvariant.mono {now now' : Int} (h : LeaseInvariant P t now) (hn : now ≤ now') :
    LeaseInvariant P t now' where
  exclusion r hr r' hr' ha ha' :=
    h.exclusion r hr r' hr' (isActive_of_le hn ha) (isActive_of_le hn ha')
  nonRoot r hr ha := h.nonRoot r hr (isActive_of_le hn ha)

/-- A request whose patterns overlap no conflicting lease keeps the invariant. -/
theorem LeaseInvariant.derived {t' : LeaseTable} {now p a : Int}
    {paths : List Text} {e : Bool} (h : LeaseInvariant P t now)
    (hd : Derived now (Granted p a paths e) t t') (hroot : ∀ path ∈ paths, NonRoot path)
    (hfree : ∀ path ∈ paths, ∀ r ∈ t.rows, t.isActive now r = true → r.projectId = p →
      r.agentId ≠ a → (e || r.exclusive) = true → patternsOverlap P r.pathPattern path = false) :
    LeaseInvariant P t' now where
  exclusion := by
    -- An old lease against a granted one is what the request was checked for.
    have hmixed {r r₀ r' : FileReservationRow} (hr₀ : r₀ ∈ t.rows) (ha₀ : t.isActive now r₀ = true)
        (hc : Continues r₀ r) (hg : Granted p a paths e r') (hp : r.projectId = r'.projectId)
        (hne : r.agentId ≠ r'.agentId) (hex : (r.exclusive || r'.exclusive) = true) :
        patternsOverlap P r.pathPattern r'.pathPattern = false := by
      rw [hc.pattern]
      apply hfree _ hg.pattern r₀ hr₀ ha₀
      · rw [← hc.project, hp, hg.project]
      · rw [← hc.agent, ← hg.agent]
        exact hne
      · rw [Bool.or_eq_true] at hex ⊢
        exact hex.symm.imp hg.exclusive hc.exclusive
    intro r hr r' hr' ha ha' hp hne hex
    rcases hd r hr ha with ⟨r₀, hr₀, ha₀, hc⟩ | hg
    · rcases hd r' hr' ha' with ⟨r₁, hr₁, ha₁, hc'⟩ | hg'
      · rw [hc.pattern, hc'.pattern]
        apply h.exclusion r₀ hr₀ r₁ hr₁ ha₀ ha₁
        · rw [← hc.project, ← hc'.project, hp]
        · rw [← hc.agent, ← hc'.agent]
          exact hne
        · rw [Bool.or_eq_true] at hex ⊢
          exact hex.imp hc.exclusive hc'.exclusive
      · exact hmixed hr₀ ha₀ hc hg' hp hne hex
    · rcases hd r' hr' ha' with ⟨r₁, hr₁, ha₁, hc'⟩ | hg'
      · rw [patternsOverlap_comm]
        exact hmixed hr₁ ha₁ hc' hg hp.symm hne.symm (by rw [Bool.or_comm]; exact hex)
      · exact absurd (hg.agent.trans hg'.agent.symm) hne
  nonRoot := by
    intro r hr ha
    rcases hd r hr ha with ⟨r₀, hr₀, ha₀, hc⟩ | hg
    · rw [hc.pattern]
      exact h.nonRoot r₀ hr₀ ha₀
    · exact hroot _ hg.pattern

/-- A transaction that grants nothing keeps the invariant. -/
theorem LeaseInvariant.derived_nothing {t' : LeaseTable} {now : Int} (h : LeaseInvariant P t now)
    (hd : Derived now (fun _ => False) t t') : LeaseInvariant P t' now := by
  have hd' : Derived now (Granted 0 0 [] false) t t' :=
    fun r hr ha => (hd r hr ha).imp_right False.elim
  exact h.derived hd' (by simp) (by simp)

/-! ### One lemma for each transaction -/

theorem foldlM_derived {α : Type} {now : Int} {granted : FileReservationRow → Prop}
    (hclosed : ∀ r r', granted r → Continues r r' → granted r')
    {f : List FileReservationRow × LeaseTable → α →
      Except DbError (List FileReservationRow × LeaseTable)} {l : List α}
    (hf : ∀ x ∈ l, ∀ acc acc', f acc x = .ok acc' → Derived now granted acc.2 acc'.2)
    {acc acc' : List FileReservationRow × LeaseTable} (h : l.foldlM f acc = .ok acc') :
    Derived now granted acc.2 acc'.2 := by
  induction l generalizing acc with
  | nil =>
    cases h
    exact .refl _
  | cons x l ih =>
    rw [foldlM_cons] at h
    cases hx : f acc x with
    | error e =>
      rw [hx] at h
      cases h
    | ok acc₁ =>
      rw [hx] at h
      have htail := ih (fun y hy => hf y (mem_cons_of_mem _ hy)) h
      exact (hf x (mem_cons_self ..) acc acc₁ hx).trans hclosed htail

/-- The columns that no update changes. -/
def keyOf (r : FileReservationRow) : Int × Int × Int × Text :=
  (r.id, r.projectId, r.agentId, r.pathPattern)

theorem storeLease_keys (t : LeaseTable) (row : FileReservationRow) :
    (storeLease t row).rows.map keyOf = t.rows.map keyOf := by
  simp only [storeLease, LeaseTable.update, map_map]
  apply map_congr_left
  intro r _
  simp only [Function.comp_apply]
  split
  · rfl
  · rfl

/-- The row of a table that agrees with another table on its keys, found by its id. -/
theorem keyOf_of_id {t₀ : LeaseTable} (hkeys : t.rows.map keyOf = t₀.rows.map keyOf)
    {r r₀ : FileReservationRow} (hr : r ∈ t.rows) (hr₀ : r₀ ∈ t₀.rows) (hid : r.id = r₀.id) :
    keyOf r = keyOf r₀ := by
  have hmem : keyOf r ∈ t₀.rows.map keyOf := by
    rw [← hkeys]
    exact mem_map_of_mem hr
  obtain ⟨r₁, hr₁, hk⟩ := mem_map.mp hmem
  have hid₁ : r₁.id = r₀.id := by
    rw [← hid]
    exact congrArg Prod.fst hk
  have heq : r₁ = r₀ := inj_on_of_nodup_map t₀.ids_nodup hr₁ hr₀ hid₁
  rw [← hk, heq]

/-- A stored row that comes from one of the agent's own leases on `path`. -/
def Renews (t₀ : LeaseTable) (q : CreateRequest) (path : Text) (row : FileReservationRow) :
    Prop :=
  ∃ r₀ ∈ t₀.rows, row.id = r₀.id ∧ r₀.projectId = q.projectId ∧ r₀.agentId = q.agentId ∧
    r₀.pathPattern = path ∧ row.exclusive = q.exclusive

variable {q : CreateRequest}

theorem renews_of_existing {now : Int} {path : Text} :
    ∀ row ∈ (existingRows t now q path).map (renewedRow now q), Renews t q path row := by
  intro row hrow
  obtain ⟨r₀, hr₀, rfl⟩ := mem_map.mp hrow
  simp only [existingRows, mem_filter, Bool.and_eq_true, beq_iff_eq] at hr₀
  obtain ⟨hmem, ⟨⟨hp, ha⟩, hpat⟩, _⟩ := hr₀
  exact ⟨r₀, hmem, rfl, hp, ha, hpat, rfl⟩

-- Ids are unique in `t₀` and no update changes a key, so an update by id hits the lease it means.
theorem foldl_storeLease_derived {now : Int} {path : Text} (hpath : path ∈ q.paths)
    {t₀ : LeaseTable} (renewed : List FileReservationRow)
    (hrenewed : ∀ row ∈ renewed, Renews t₀ q path row)
    (hkeys : t.rows.map keyOf = t₀.rows.map keyOf)
    (hd : Derived now (Granted q.projectId q.agentId q.paths q.exclusive) t₀ t) :
    Derived now (Granted q.projectId q.agentId q.paths q.exclusive) t₀
      (renewed.foldl storeLease t) := by
  induction renewed generalizing t with
  | nil => exact hd
  | cons row renewed ih =>
    obtain ⟨r₀, hr₀, hid, hp, ha, hpat, hex⟩ := hrenewed row (mem_cons_self ..)
    rw [foldl_cons]
    apply ih (fun x hx => hrenewed x (mem_cons_of_mem _ hx))
    · rw [storeLease_keys, hkeys]
    · apply hd.trans (fun _ _ hg hc => hg.continues hc)
      apply derived_update
      intro r hr ht _
      right
      have hk := keyOf_of_id hkeys hr hr₀ ((beq_iff_eq.mp ht).trans hid)
      simp only [keyOf, Prod.mk.injEq] at hk
      obtain ⟨_, hkp, hka, hkpat⟩ := hk
      have hpattern : r.pathPattern ∈ q.paths := by
        rw [hkpat, hpat]
        exact hpath
      exact ⟨hkp.trans hp, hka.trans ha, hpattern, fun he => hex ▸ he⟩

theorem reservePath_derived {now : Int} {path : Text} (hpath : path ∈ q.paths)
    (acc acc' : List FileReservationRow × LeaseTable) (h : reservePath now q acc path = .ok acc') :
    Derived now (Granted q.projectId q.agentId q.paths q.exclusive) acc.2 acc'.2 := by
  unfold reservePath at h
  dsimp only at h
  split at h
  · cases h
    exact foldl_storeLease_derived hpath _ renews_of_existing rfl (.refl _)
  · split at h
    · cases h
    · cases h
      exact derived_insert ⟨rfl, rfl, hpath, id⟩

/-- A successful request to create derives its table, and no path met a conflict. -/
theorem createFileReservations_ok {t' : LeaseTable} {now : Int} {rows : List FileReservationRow}
    (h : createFileReservations P t now q = .ok (rows, t')) :
    t' = t ∨ (Derived now (Granted q.projectId q.agentId q.paths q.exclusive) t t' ∧
      ∀ path ∈ q.paths, firstConflict P.caseInsensitive
        (build P
          ((conflictRows t now q.projectId q.agentId q.exclusive).map (·.pathPattern)))
        (new P path) = none) := by
  unfold createFileReservations at h
  cases hi : q.idempotency with
  | replay replayed =>
    rw [hi] at h
    cases h
    exact .inl rfl
  | conflict =>
    rw [hi] at h
    cases h
  | proceed =>
    rw [hi] at h
    dsimp only at h
    split at h
    · cases h
    · split at h
      · cases h
      · next hnone =>
        right
        refine ⟨?_, ?_⟩
        · exact foldlM_derived (fun _ _ hg hc => hg.continues hc)
            (fun path hpath => reservePath_derived hpath) h
        · intro path hpath
          exact Option.map_eq_none_iff.mp (List.findSome?_eq_none_iff.mp hnone path hpath)

theorem claimedBy_ok {q : ClaimRequest} {active : List FileReservationRow}
    {b result : Bool} (h : claimedBy P q active b = .ok result) :
    ∀ r ∈ active, r.agentId ≠ q.holderId → (q.exclusive || r.exclusive) = true →
      patternsOverlap P r.pathPattern q.pattern = false := by
  induction active generalizing b with
  | nil => simp
  | cons row active ih =>
    unfold claimedBy at h
    rw [forall_mem_cons]
    split at h
    · cases h
    · split at h
      · cases h
      · split at h
        · next hholder =>
          have hrow : row.agentId ≠ q.holderId → (q.exclusive || row.exclusive) = true →
              patternsOverlap P row.pathPattern q.pattern = false := fun hne => absurd hholder hne
          split at h
          · split at h
            · cases h
            · split at h
              · cases h
              · exact ⟨hrow, ih h⟩
          · exact ⟨hrow, ih h⟩
        · split at h
          · cases h
          · next hover =>
            refine ⟨fun _ hex => ?_, ih h⟩
            rw [hex, Bool.true_and, Bool.not_eq_true] at hover
            exact hover

/-- A successful claim derives its table, and its pattern overlaps no conflicting lease. -/
theorem applyClaim_ok {t' : LeaseTable} {now : Int} {q : ClaimRequest}
    {outcome : AckEscalationOutcome} (h : applyClaim P t now q = .ok (outcome, t')) :
    t' = t ∨ (Derived now (Granted q.projectId q.holderId [q.pattern] q.exclusive) t t' ∧
      ∀ r ∈ t.rows, t.isActive now r = true → r.projectId = q.projectId →
        r.agentId ≠ q.holderId → (q.exclusive || r.exclusive) = true →
        patternsOverlap P r.pathPattern q.pattern = false) := by
  unfold applyClaim at h
  split at h
  · cases h
    exact .inl rfl
  · dsimp only at h
    split at h
    · cases h
    · next hbudget =>
      split at h
      · cases h
      · cases h
        exact .inl rfl
      · next hclaimed =>
        split at h
        · cases h
        · split at h
          · cases h
          · cases h
            right
            refine ⟨derived_insert ⟨rfl, rfl, mem_singleton_self _, id⟩, ?_⟩
            intro r hr ha hp hne hex
            -- The budget was not exceeded, so the query returned every active row.
            have hall : ∀ (l : List FileReservationRow),
                ¬ maxActiveCandidates < (l.take (maxActiveCandidates + 1)).length →
                  l.take (maxActiveCandidates + 1) = l := by
              intro l hl
              rw [length_take] at hl
              exact take_of_length_le (by omega)
            rw [hall _ hbudget] at hclaimed
            apply claimedBy_ok hclaimed r _ hne hex
            simp only [mem_filter, Bool.and_eq_true, beq_iff_eq]
            exact ⟨hr, hp, ha⟩

theorem storeExpiry_derived {now : Int} {q : RenewRequest} {row : FileReservationRow}
    {expires : Int} : Derived now (fun _ => False) t (storeExpiry t now q row expires) := by
  apply derived_update
  intro r _ ht _
  left
  simp only [renewable, Bool.and_eq_true, beq_iff_eq, decide_eq_true_eq] at ht
  have hactive : t.isActive now r = true := by
    simp only [LeaseTable.isActive, Bool.and_eq_true, decide_eq_true_eq]
    exact ⟨ht.1.1.2, ht.2⟩
  exact ⟨hactive, rfl, rfl, rfl, id⟩

/-- Renewals only move the expiry of active leases. -/
theorem renewReservations_ok {t' : LeaseTable} {now : Int} {q : RenewRequest}
    {rows : List FileReservationRow} (h : renewReservations t now q = .ok (rows, t')) :
    Derived now (fun _ => False) t t' := by
  unfold renewReservations at h
  split at h
  · cases h
  · refine foldlM_derived (fun _ _ hg _ => hg) ?_ h
    intro row _ acc acc' hstep
    unfold renewRow at hstep
    dsimp only at hstep
    split at hstep
    · cases hstep
    · cases hstep
      exact storeExpiry_derived

theorem releaseId_derived {now : Int} (constraint : ExpiryConstraint)
    (scope : Option ReleaseScope) (guard : Option StaleGuard) (s : ReleaseState) (id : Int) :
    Derived now (fun _ => False) s.table (releaseId constraint scope guard s id).table := by
  unfold releaseId
  dsimp only
  split
  · exact .refl _
  · split
    · exact .refl _
    · intro r' hr' ha'
      left
      obtain ⟨r, hr, rfl⟩ := mem_map.mp hr'
      simp only [LeaseTable.isActive, LeaseTable.isUnreleased, LeaseTable.recordRelease,
        Bool.and_eq_true, Bool.not_eq_true', decide_eq_true_eq] at ha'
      -- A row with the released id is in the ledger and cannot be active.
      have hledger (x : Int) (hx : (if s.table.releases.contains id then s.table.releases
          else s.table.releases ++ [id]).contains x = false) :
          x ≠ id ∧ s.table.releases.contains x = false := by
        split at hx
        · next hc =>
          refine ⟨?_, hx⟩
          rintro rfl
          rw [hc] at hx
          cases hx
        · rw [contains_append, Bool.or_eq_false_iff] at hx
          refine ⟨?_, hx.1⟩
          rintro rfl
          simp at hx
      by_cases hid : r.id = id
      · rw [if_pos (beq_iff_eq.mpr hid)] at ha'
        exact absurd hid (hledger _ ha'.1.2).1
      · have hne : ¬ (r.id == id) = true := fun h => hid (beq_iff_eq.mp h)
        rw [if_neg hne] at ha' ⊢
        refine ⟨r, hr, ?_, .refl r⟩
        simp only [LeaseTable.isActive, LeaseTable.isUnreleased, Bool.and_eq_true,
          Bool.not_eq_true', decide_eq_true_eq]
        exact ⟨⟨ha'.1.1, (hledger _ ha'.1.2).2⟩, ha'.2⟩

theorem release_derived {now clock : Int} (ids : List Int) (constraint : ExpiryConstraint)
    (scope : Option ReleaseScope) (guard : Option StaleGuard) :
    Derived clock (fun _ => False) t
      (releaseReservationsByIdsWithConstraints t now ids constraint scope guard).table := by
  unfold releaseReservationsByIdsWithConstraints
  have hfold (ids : List Int) (s : ReleaseState) : Derived clock (fun _ => False) s.table
      (ids.foldl (releaseId constraint scope guard) s).table := by
    induction ids generalizing s with
    | nil => exact .refl _
    | cons id ids ih =>
      rw [foldl_cons]
      exact (releaseId_derived constraint scope guard s id).trans (fun _ _ hg _ => hg) (ih _)
  exact hfold ids ⟨now, [], t⟩

/-! ### Runs -/

/-- The transactions on the lease table, each with the clock it reads. -/
inductive LeaseTxn where
  | create (now : Int) (q : CreateRequest)
  | claim (now : Int) (q : ClaimRequest)
  | renew (now : Int) (q : RenewRequest)
  | releaseByIds (now : Int) (ids : List Int) (constraint : ExpiryConstraint)
  | release (now : Int) (scope : ReleaseScope) (paths : Option (List Text)) (ids : Option (List Int))
  | releaseStale (now projectId : Int) (candidates : List FileReservationRow)
      (observedAt inactivityUs graceUs : Int) (activityMatches : FileReservationRow → Bool)

namespace LeaseTxn

def now : LeaseTxn → Int
  | .create now _ | .claim now _ | .renew now _ | .releaseByIds now _ _ | .release now _ _ _
  | .releaseStale now _ _ _ _ _ _ => now

/-- The table after the transaction; an error rolls back. -/
def apply (P : Platform) (t : LeaseTable) : LeaseTxn → LeaseTable
  | .create now q => ((createFileReservations P t now q).toOption.map (·.2)).getD t
  | .claim now q => ((applyClaim P t now q).toOption.map (·.2)).getD t
  | .renew now q => ((renewReservations t now q).toOption.map (·.2)).getD t
  | .releaseByIds now ids constraint =>
    (releaseReservationsByIdsWithConstraints t now ids constraint none none).table
  | .release now scope paths ids => (releaseReservations t now scope paths ids).table
  | .releaseStale now projectId candidates observedAt inactivityUs graceUs activityMatches =>
    ((releaseStaleReservations t now projectId candidates observedAt inactivityUs graceUs
      activityMatches).toOption.map (·.table)).getD t

/-- The patterns that the transaction may reserve. -/
def requested : LeaseTxn → List Text
  | .create _ q => q.paths
  | .claim _ q => [q.pattern]
  | _ => []

/-- Every requested pattern is usable: not the root, and its globs compile. -/
def Usable (P : Platform) (txn : LeaseTxn) : Prop :=
  ∀ path ∈ txn.requested, NonRoot path ∧ (new P path).isMatchable = true

/-- A request of `create_file_reservations` shares a route with every conflicting lease that it
overlaps. -/
def RoutesAgree (P : Platform) (t : LeaseTable) : LeaseTxn → Prop
  | .create now q => ∀ path ∈ q.paths, ∀ r ∈ conflictRows t now q.projectId q.agentId q.exclusive,
        patternsOverlap P r.pathPattern path = true →
          ReservationConflictIndex.SharesRoute (new P r.pathPattern)
            (new P path)
  | _ => True

end LeaseTxn

/-- The table and the last clock reading. -/
structure LeaseState where
  table : LeaseTable
  clock : Int

/-- One transaction that meets `ok`, at a clock that does not run backwards. -/
def LeaseStep (P : Platform) (ok : LeaseTable → LeaseTxn → Prop) (s s' : LeaseState) : Prop :=
  ∃ txn : LeaseTxn, s.clock ≤ txn.now ∧ ok s.table txn ∧ s' = ⟨txn.apply P s.table, txn.now⟩

/-- The transactions under which exclusion is kept. -/
def ExclusionSafe (P : Platform) (t : LeaseTable) (txn : LeaseTxn) : Prop :=
  txn.Usable P ∧ (P.caseInsensitive = true → txn.RoutesAgree P t)

theorem create_free (hg : P.globset.FirstLiteral)
    {now : Int}  (hinv : LeaseInvariant P t now) (hok : ExclusionSafe P t (.create now q))
    (hnone : ∀ path ∈ q.paths, firstConflict P.caseInsensitive
      (build P
        ((conflictRows t now q.projectId q.agentId q.exclusive).map (·.pathPattern)))
      (new P path) = none) :
    ∀ path ∈ q.paths, ∀ r ∈ t.rows, t.isActive now r = true → r.projectId = q.projectId →
      r.agentId ≠ q.agentId → (q.exclusive || r.exclusive) = true →
      patternsOverlap P r.pathPattern path = false := by
  intro path hpath r hr ha hp hne hex
  have hrow : r ∈ conflictRows t now q.projectId q.agentId q.exclusive := by
    simp only [conflictRows, mem_filter, Bool.and_eq_true, beq_iff_eq, bne_iff_ne]
    exact ⟨hr, ⟨⟨hp, hne⟩, ha⟩, hex⟩
  by_contra hover
  rw [Bool.not_eq_false] at hover
  have hroute : ReservationConflictIndex.SharesRoute (new P r.pathPattern)
      (new P path) := by
    cases hci : P.caseInsensitive with
    | true => exact hok.2 hci path hpath r hrow hover
    | false =>
      exact sharesRoute_of_overlaps hg hci (hinv.nonRoot r hr ha)
        (hok.1 path hpath).1 hover
  have hfree := firstConflict_none
    (mem_map_of_mem hrow) (hnone path hpath) hroute
  rw [patternsOverlap, hfree] at hover
  cases hover

/-- One safe transaction keeps the invariant. -/
theorem apply_invariant (hg : P.globset.FirstLiteral) {txn : LeaseTxn}
    (hinv : LeaseInvariant P t txn.now) (hok : ExclusionSafe P t txn) :
    LeaseInvariant P (txn.apply P t) txn.now := by
  cases txn with
  | create now q =>
    simp only [LeaseTxn.apply]
    cases h : createFileReservations P t now q with
    | error e => exact hinv
    | ok result =>
      rcases createFileReservations_ok h with h | ⟨hd, hnone⟩
      · simp only [Except.toOption, Option.map_some, Option.getD_some]
        rw [h]
        exact hinv
      · exact hinv.derived hd (fun path hpath => (hok.1 path hpath).1)
          (create_free hg hinv hok hnone)
  | claim now q =>
    simp only [LeaseTxn.apply]
    cases h : applyClaim P t now q with
    | error e => exact hinv
    | ok result =>
      rcases applyClaim_ok h with h | ⟨hd, hfree⟩
      · simp only [Except.toOption, Option.map_some, Option.getD_some]
        rw [h]
        exact hinv
      · apply hinv.derived hd
        · intro path hpath
          exact (hok.1 path hpath).1
        · intro path hpath
          rw [mem_singleton] at hpath
          rw [hpath]
          exact hfree
  | renew now q =>
    simp only [LeaseTxn.apply]
    cases h : renewReservations t now q with
    | error e => exact hinv
    | ok result => exact hinv.derived_nothing (renewReservations_ok h)
  | releaseByIds now ids constraint =>
    exact hinv.derived_nothing (release_derived ids constraint none none)
  | release now scope paths ids =>
    exact hinv.derived_nothing (release_derived _ .any (some scope) none)
  | releaseStale now projectId candidates observedAt inactivityUs graceUs activityMatches =>
    simp only [LeaseTxn.apply]
    unfold releaseStaleReservations
    split
    · exact hinv
    · split
      · exact hinv
      · exact hinv.derived_nothing (release_derived _ .any none _)

/-- The invariant holds in every state that safe transactions reach from the empty table. -/
theorem reachable_invariant (hg : P.globset.FirstLiteral) {clock : Int} {s : LeaseState}
    (h : Relation.ReflTransGen (LeaseStep P (ExclusionSafe P)) ⟨.empty, clock⟩ s) :
    LeaseInvariant P s.table s.clock := by
  induction h with
  | refl =>
    constructor
    · intro r hr
      cases hr
    · intro r hr
      cases hr
  | tail _ hstep ih =>
    obtain ⟨txn, hclock, hok, rfl⟩ := hstep
    exact apply_invariant hg (ih.mono hclock) hok

/-- A request of one agent for one path. -/
def requestOf (agentId : Int) (path : Text) (exclusive : Bool) : CreateRequest :=
  ⟨1, agentId, [path], 60, exclusive, "edit", .proceed, true⟩

end AgentMail.Reservation
