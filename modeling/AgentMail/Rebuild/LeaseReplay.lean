import AgentMail.Rebuild.Leases

/-!
# What the replay of reservations keeps

The rows are those of a claiming of ids (`Lib/Claiming`), one for each lease. A claimed id can
be one that was generated before, for an artifact without an id or with an id that was claimed
already; `INSERT OR REPLACE` then removes the row of another lease. The leases survive exactly
when this does not happen.
-/

namespace AgentMail.Rebuild

open Base Lib Artifact List

/-- The artifacts have one project, generation and id. -/
def sameArtifact (a b : HeldArtifact) : Bool :=
  a.generationKey.isSome && a.generationKey == b.generationKey

def sameLease (a b : HeldArtifact) : Bool := a.identity == b.identity

/-- The artifacts without the second ones of a project, generation and id. -/
def firstArtifacts (artifacts : List HeldArtifact) : List HeldArtifact :=
  keepNew sameArtifact artifacts

/-- The artifacts that get a row: the first of each lease. -/
def imports (artifacts : List HeldArtifact) : List HeldArtifact :=
  keepNew sameLease (firstArtifacts artifacts)

/-- A lease counts as released from a positive time on. -/
def released (releasedTs : Option Int) : Prop := ∃ t, releasedTs = some t ∧ 0 < t

variable {a : HeldArtifact}

theorem sameArtifact_iff {b : HeldArtifact} :
    sameArtifact a b = true ↔ ∃ k, a.generationKey = some k ∧ b.generationKey = some k := by
  rw [sameArtifact, Bool.and_eq_true, beq_iff_eq, Option.isSome_iff_exists]
  constructor
  · rintro ⟨⟨k, hk⟩, heq⟩
    exact ⟨k, hk, heq ▸ hk⟩
  · rintro ⟨k, hk, hk'⟩
    exact ⟨⟨k, hk⟩, hk.trans hk'.symm⟩

theorem sameArtifact_trans (a b c : HeldArtifact) (h : sameArtifact a b = true)
    (h' : sameArtifact b c = true) : sameArtifact a c = true := by
  rw [sameArtifact_iff] at h h' ⊢
  obtain ⟨k, hak, hbk⟩ := h
  obtain ⟨k', hbk', hck⟩ := h'
  rw [hbk, Option.some.injEq] at hbk'
  exact ⟨k, hak, hbk' ▸ hck⟩

theorem sameLease_trans (a b c : HeldArtifact) (h : sameLease a b = true)
    (h' : sameLease b c = true) : sameLease a c = true := by
  rw [sameLease, beq_iff_eq] at h h' ⊢
  exact h.trans h'

/-! ### Merging -/

theorem mergeLifecycle_identity (r : ArchivedFileReservation) (row : LeaseRow) :
    (mergeLifecycle r row).identity = row.identity := rfl

theorem mergeLifecycle_expiresTs (r : ArchivedFileReservation) (row : LeaseRow) :
    (mergeLifecycle r row).expiresTs = max row.expiresTs r.expiresTs := rfl

theorem released_mergeLifecycle (r : ArchivedFileReservation) (row : LeaseRow) :
    released (mergeLifecycle r row).releasedTs ↔ released row.releasedTs ∨ released r.releasedTs := by
  unfold mergeLifecycle released
  cases row.releasedTs with
  | none => simp
  | some e =>
    cases r.releasedTs with
    | none => simp
    | some i => simp

/-! ### The rows -/

/-- A stored row and the artifact that it was made for. -/
def LeaseOf (r : Int × LeaseRow) (c : Int × HeldArtifact) : Prop :=
  r.1 = c.1 ∧ r.2.identity = c.2.identity

/-- The state after some artifacts. -/
structure Replays (L : Leases) (artifacts : List HeldArtifact) : Prop where
  seen : ∀ k, k ∈ L.seenReservations ↔ ∃ b ∈ artifacts, b.generationKey = some k
  known : ∀ i, (Assoc.get? i L.seenReservationIdentities).isSome ↔
    ∃ b ∈ firstArtifacts artifacts, b.identity = i
  stored : ∀ i id, Assoc.get? i L.seenReservationIdentities = some id → id ∈ L.rows.numbers
  used : L.usedReservationIds = (Claiming.run HeldArtifact.number (imports artifacts)).claimed
  top : L.rows.top = (Claiming.run HeldArtifact.number (imports artifacts)).ledger.top
  rows : Forall₂ LeaseOf L.rows.rows
    (Claiming.run HeldArtifact.number (imports artifacts)).ledger.rows

theorem replays_empty : Replays Leases.empty [] where
  seen := by simp [Leases.empty]
  known := by simp [Leases.empty, Assoc.get?, firstArtifacts, keepNew]
  stored := by simp [Leases.empty, Assoc.get?]
  used := rfl
  top := rfl
  rows := List.Forall₂.nil

theorem firstArtifacts_concat (l : List HeldArtifact) (a : HeldArtifact) :
    firstArtifacts (l ++ [a]) =
      if l.any fun b => sameArtifact b a then firstArtifacts l else firstArtifacts l ++ [a] := by
  rw [firstArtifacts, keepNew_concat, any_keepNew sameArtifact_trans]
  rfl

theorem imports_of_skipped {l : List HeldArtifact}
    (h : firstArtifacts (l ++ [a]) = firstArtifacts l) : imports (l ++ [a]) = imports l := by
  rw [imports, h]
  rfl

theorem imports_concat {l : List HeldArtifact}
    (h : firstArtifacts (l ++ [a]) = firstArtifacts l ++ [a]) :
    imports (l ++ [a]) = if (firstArtifacts l).any fun b => sameLease b a then imports l
      else imports l ++ [a] := by
  rw [imports, h, keepNew_concat, any_keepNew sameLease_trans]
  rfl

namespace Replays

variable {L : Leases} {artifacts : List HeldArtifact}

section

variable (h : Replays L artifacts)
include h

/-- Everything that a step can do: skip a second artifact, merge into a known lease, or import. -/
theorem step_cases (a : HeldArtifact) :
    (firstArtifacts (artifacts ++ [a]) = firstArtifacts artifacts ∧
      (∃ k, a.generationKey = some k ∧ ∃ b ∈ artifacts, b.generationKey = some k) ∧
      L.insertArtifact a = L) ∨
    firstArtifacts (artifacts ++ [a]) = firstArtifacts artifacts ++ [a] ∧
      ∃ seen, (∀ k, k ∈ seen ↔ ∃ b ∈ artifacts ++ [a], b.generationKey = some k) ∧
        L.insertArtifact a = { L with seenReservations := seen }.importArtifact a := by
  unfold Leases.insertArtifact
  have hseen (k) : (∃ b ∈ artifacts ++ [a], b.generationKey = some k) ↔
      k ∈ L.seenReservations ∨ a.generationKey = some k := by
    rw [h.seen]
    simp [or_and_right, exists_or]
  cases hkey : a.generationKey with
  | none =>
    right
    constructor
    · rw [firstArtifacts_concat, if_neg]
      rw [any_eq_true]
      rintro ⟨b, _, hb⟩
      obtain ⟨k, _, hk⟩ := sameArtifact_iff.mp hb
      rw [hkey] at hk
      cases hk
    · refine ⟨L.seenReservations, ?_, rfl⟩
      intro k
      rw [hseen, hkey]
      simp
  | some k =>
    by_cases hk : k ∈ L.seenReservations
    · left
      obtain ⟨b, hb, hbk⟩ := (h.seen k).mp hk
      have hany : (artifacts.any fun b => sameArtifact b a) = true :=
        any_eq_true.mpr ⟨b, hb, sameArtifact_iff.mpr ⟨k, hbk, hkey⟩⟩
      exact ⟨by rw [firstArtifacts_concat, if_pos hany], ⟨k, rfl, b, hb, hbk⟩, if_pos hk⟩
    · right
      constructor
      · rw [firstArtifacts_concat, if_neg]
        rw [any_eq_true]
        rintro ⟨b, hb, hsame⟩
        obtain ⟨k', hbk, hak⟩ := sameArtifact_iff.mp hsame
        rw [hkey, Option.some.injEq] at hak
        exact hk ((h.seen k).mpr ⟨b, hb, hak ▸ hbk⟩)
      · refine ⟨L.seenReservations ++ [k], ?_, if_neg hk⟩
        intro k'
        rw [hseen, hkey, mem_append, mem_singleton, Option.some.injEq, eq_comm]

theorem seen_of_skipped
    (hskip : ∃ k, a.generationKey = some k ∧ ∃ b ∈ artifacts, b.generationKey = some k) (k) :
    k ∈ L.seenReservations ↔ ∃ b ∈ artifacts ++ [a], b.generationKey = some k := by
  obtain ⟨k', hak, b, hb, hbk⟩ := hskip
  rw [h.seen]
  constructor
  · rintro ⟨c, hc, hck⟩
    exact ⟨c, mem_append_left _ hc, hck⟩
  · rintro ⟨c, hc, hck⟩
    rw [mem_append, mem_singleton] at hc
    rcases hc with hc | rfl
    · exact ⟨c, hc, hck⟩
    · rw [hak, Option.some.injEq] at hck
      exact ⟨b, hb, hck ▸ hbk⟩

theorem numbers_eq :
    L.rows.numbers = (Claiming.run HeldArtifact.number (imports artifacts)).ledger.numbers := by
  rw [Ledger.numbers, Ledger.numbers, ← forall₂_eq_eq_eq, forall₂_map_left_iff,
    forall₂_map_right_iff]
  exact h.rows.imp fun _ _ hrow => hrow.1

/-- A lease that is known has a first artifact. -/
theorem any_sameLease_iff (a : HeldArtifact) :
    ((firstArtifacts artifacts).any fun b => sameLease b a) = true ↔
      (Assoc.get? a.identity L.seenReservationIdentities).isSome = true := by
  rw [h.known, any_eq_true]
  simp only [sameLease, beq_iff_eq]

/-- The rows after the import of an artifact of a new lease. -/
theorem importArtifact_new
    (hnew : Assoc.get? a.identity L.seenReservationIdentities = none) (seen) :
    (∃ n, Claiming.FirstClaim HeldArtifact.number (imports artifacts) a n ∧
      { L with seenReservations := seen }.importArtifact a =
        { L with seenReservations := seen }.insertVerbatim a n) ∨
    (∀ n, ¬ Claiming.FirstClaim HeldArtifact.number (imports artifacts) a n) ∧
      { L with seenReservations := seen }.importArtifact a =
        { L with seenReservations := seen }.insertFresh a := by
  unfold Leases.importArtifact
  rw [hnew]
  have hfirst (n : Int) (hn : a.number = some n) :
      Claiming.FirstClaim HeldArtifact.number (imports artifacts) a n ↔
        n ∉ L.usedReservationIds := by
    rw [h.used, Claiming.mem_claimed_run, Claiming.FirstClaim]
    constructor
    · rintro ⟨_, hall⟩ ⟨b, hb, hbn⟩
      exact hall b hb hbn
    · intro hno
      exact ⟨hn, fun b hb hbn => hno ⟨b, hb, hbn⟩⟩
  cases hnum : a.number with
  | none =>
    right
    refine ⟨?_, rfl⟩
    rintro n ⟨hn, _⟩
    rw [hnum] at hn
    cases hn
  | some n =>
    simp only
    by_cases hn : n ∈ L.usedReservationIds
    · right
      refine ⟨?_, if_pos hn⟩
      intro m hm
      have hmn : n = m := Option.some.inj (hnum.symm.trans hm.1)
      exact (hfirst m hm.1).mp hm (hmn ▸ hn)
    · exact Or.inl ⟨n, (hfirst n hnum).mpr hn, if_neg hn⟩

/-- A lease is known after an artifact of it. -/
theorem known_insert
    (hfirst : firstArtifacts (artifacts ++ [a]) = firstArtifacts artifacts ++ [a]) (id : Int) (i) :
    (Assoc.get? i (Assoc.insert a.identity id L.seenReservationIdentities)).isSome ↔
      ∃ b ∈ firstArtifacts (artifacts ++ [a]), b.identity = i := by
  rw [Assoc.get?_insert, hfirst]
  by_cases hi : a.identity = i
  · rw [if_pos hi]
    constructor
    · intro _
      exact ⟨a, by simp, hi⟩
    · intro _
      rfl
  · rw [if_neg hi, h.known]
    simp [or_and_right, exists_or, hi]

theorem skip
    (hfirst : firstArtifacts (artifacts ++ [a]) = firstArtifacts artifacts)
    (hskip : ∃ k, a.generationKey = some k ∧ ∃ b ∈ artifacts, b.generationKey = some k) :
    Replays L (artifacts ++ [a]) := by
  have himports := imports_of_skipped hfirst
  refine ⟨h.seen_of_skipped hskip, ?_, h.stored, ?_, ?_, ?_⟩
  · rw [hfirst]
    exact h.known
  · rw [himports]
    exact h.used
  · rw [himports]
    exact h.top
  · rw [himports]
    exact h.rows

theorem merge {existing : Int} {seen}
    (hfirst : firstArtifacts (artifacts ++ [a]) = firstArtifacts artifacts ++ [a])
    (hseen : ∀ k, k ∈ seen ↔ ∃ b ∈ artifacts ++ [a], b.generationKey = some k)
    (hget : Assoc.get? a.identity L.seenReservationIdentities = some existing) :
    imports (artifacts ++ [a]) = imports artifacts ∧ Replays { L with
        seenReservations := seen
        rows := L.rows.update existing (mergeLifecycle a.reservation) } (artifacts ++ [a]) := by
  have hsome : (Assoc.get? a.identity L.seenReservationIdentities).isSome = true := by rw [hget]; rfl
  have himports : imports (artifacts ++ [a]) = imports artifacts := by
    rw [imports_concat hfirst, if_pos ((h.any_sameLease_iff a).mpr hsome)]
  refine ⟨himports, hseen, ?_, ?_, himports ▸ h.used, himports ▸ h.top, ?_⟩
  · intro i
    rw [h.known, hfirst]
    constructor
    · rintro ⟨b, hb, hi⟩
      exact ⟨b, mem_append_left _ hb, hi⟩
    · rintro ⟨b, hb, hi⟩
      rw [mem_append, mem_singleton] at hb
      rcases hb with hb | rfl
      · exact ⟨b, hb, hi⟩
      · exact hi ▸ (h.known b.identity).mp hsome
  · intro i id hid
    rw [Ledger.numbers_update]
    exact h.stored i id hid
  · rw [himports]
    apply List.forall₂_map_left_iff.mpr
    apply h.rows.imp
    rintro r c ⟨hnum, hid⟩
    split
    · exact ⟨hnum, hid⟩
    · exact ⟨hnum, hid⟩

/-- An artifact of a new lease takes the step of the claiming. -/
theorem importNew {seen}
    (hfirst : firstArtifacts (artifacts ++ [a]) = firstArtifacts artifacts ++ [a])
    (hseen : ∀ k, k ∈ seen ↔ ∃ b ∈ artifacts ++ [a], b.generationKey = some k)
    (hget : Assoc.get? a.identity L.seenReservationIdentities = none) :
    imports (artifacts ++ [a]) = imports artifacts ++ [a] ∧
      Replays ({ L with seenReservations := seen }.importArtifact a) (artifacts ++ [a]) := by
  have hany : ¬ ((firstArtifacts artifacts).any fun b => sameLease b a) = true := by
    rw [h.any_sameLease_iff, hget]
    simp
  have himports : imports (artifacts ++ [a]) = imports artifacts ++ [a] := by
    rw [imports_concat hfirst, if_neg hany]
  refine ⟨himports, ?_⟩
  obtain ⟨n, hn, heq⟩ | ⟨hn, heq⟩ := h.importArtifact_new hget seen
  · obtain ⟨m, hm, hrun⟩ | ⟨hm, _⟩ :=
      Claiming.claim_cases HeldArtifact.number (imports artifacts) a
    · obtain rfl : n = m := Option.some.inj (hn.1.symm.trans hm.1)
      rw [heq]
      refine ⟨hseen, h.known_insert hfirst n, ?_, ?_, ?_, ?_⟩
      · intro i id hid
        rw [Leases.insertVerbatim, Assoc.get?_insert] at hid
        rw [Leases.insertVerbatim, Ledger.mem_numbers_replaceAt]
        split at hid
        · exact Or.inr (Option.some.inj hid).symm
        · exact Or.inl (h.stored i id hid)
      · rw [himports, hrun, Leases.insertVerbatim, h.used]
      · rw [himports, hrun, Leases.insertVerbatim, Ledger.top_replaceAt, Ledger.top_replaceAt, h.top]
      · rw [himports, hrun, Leases.insertVerbatim, Ledger.rows_replaceAt, Ledger.rows_replaceAt]
        apply rel_append
        · apply rel_filter _ h.rows
          rintro r c ⟨hnum, _⟩
          show (r.1 != n) = true ↔ (c.1 != n) = true
          rw [hnum]
        · exact List.Forall₂.cons ⟨rfl, rfl⟩ List.Forall₂.nil
    · exact absurd hn (hm n)
  · obtain ⟨m, hm, _⟩ | ⟨_, hrun⟩ := Claiming.claim_cases HeldArtifact.number (imports artifacts) a
    · exact absurd hm (hn m)
    · rw [heq]
      refine ⟨hseen, h.known_insert hfirst _, ?_, ?_, ?_, ?_⟩
      · intro i id hid
        rw [Leases.insertFresh, Assoc.get?_insert] at hid
        rw [Leases.insertFresh, Ledger.mem_numbers_issue]
        split at hid
        · exact Or.inr (Option.some.inj hid).symm
        · exact Or.inl (h.stored i id hid)
      · rw [himports, hrun]
        exact h.used
      · rw [himports, hrun, Leases.insertFresh, Ledger.top_issue, Ledger.top_issue, h.top]
      · rw [himports, hrun, Leases.insertFresh, Ledger.rows_issue, Ledger.rows_issue, h.top]
        exact rel_append h.rows (List.Forall₂.cons ⟨rfl, rfl⟩ List.Forall₂.nil)

/-- A step keeps the rows in step with the claiming. -/
theorem insertArtifact (a : HeldArtifact) :
    Replays (L.insertArtifact a) (artifacts ++ [a]) := by
  obtain ⟨hfirst, hskip, heq⟩ | ⟨hfirst, seen, hseen, heq⟩ := h.step_cases a
  · rw [heq]
    exact h.skip hfirst hskip
  · cases hget : Assoc.get? a.identity L.seenReservationIdentities with
    | some existing =>
      have hmerge := (h.merge hfirst hseen hget).2
      rw [heq]
      simp only [Leases.importArtifact, hget]
      exact hmerge
    | none =>
      rw [heq]
      exact (h.importNew hfirst hseen hget).2

end

end Replays

theorem replay_concat (L : Leases) (artifacts : List HeldArtifact) (a : HeldArtifact) :
    L.replay (artifacts ++ [a]) = (L.replay artifacts).insertArtifact a := by
  rw [Leases.replay, foldl_append]
  rfl

theorem replays_replay (artifacts : List HeldArtifact) :
    Replays (Leases.empty.replay artifacts) artifacts := by
  induction artifacts using reverseRecOn with
  | nil => exact replays_empty
  | append_singleton artifacts a ih =>
    rw [replay_concat]
    exact ih.insertArtifact a

/-! ### While no id is overwritten -/

/-- No artifact claims an id that was generated before. -/
def NoIdOverwritten (artifacts : List HeldArtifact) : Prop :=
  Claiming.Undisturbed HeldArtifact.number (imports artifacts)

/-- The row has the lifecycle of its artifacts. -/
structure SumsUp (artifacts : List HeldArtifact) (row : LeaseRow) : Prop where
  expires : IsGreatest {t | ∃ b ∈ firstArtifacts artifacts, b.identity = row.identity ∧
    b.reservation.expiresTs = t} row.expiresTs
  released : released row.releasedTs ↔ ∃ b ∈ firstArtifacts artifacts,
    b.identity = row.identity ∧ released b.reservation.releasedTs

/-- Each known lease has its own row, which sums up its artifacts. -/
structure Intact (L : Leases) (artifacts : List HeldArtifact) : Prop where
  owner : ∀ i id, Assoc.get? i L.seenReservationIdentities = some id →
    ∃ row, (id, row) ∈ L.rows.rows ∧ row.identity = i
  sums : ∀ id row, (id, row) ∈ L.rows.rows → SumsUp artifacts row

theorem nodup_imports (artifacts : List HeldArtifact) :
    ((imports artifacts).map HeldArtifact.identity).Nodup := by
  rw [nodup_iff_pairwise_ne, pairwise_map]
  apply (pairwise_keepNew sameLease _).imp
  intro a b hab heq
  rw [sameLease, heq, beq_self_eq_true] at hab
  cases hab

variable {artifacts : List HeldArtifact}

theorem nodup_rows {L : Leases} (h : Replays L artifacts) (hno : NoIdOverwritten artifacts) :
    (L.rows.rows.map fun r => r.2.identity).Nodup := by
  have hmap : L.rows.rows.map (fun r => r.2.identity) =
      (imports artifacts).map HeldArtifact.identity := by
    conv_rhs => rw [← Claiming.items_run HeldArtifact.number hno, Ledger.items, map_map]
    rw [← forall₂_eq_eq_eq, forall₂_map_left_iff, forall₂_map_right_iff]
    exact h.rows.imp fun _ _ hrow => hrow.2
  rw [hmap]
  exact nodup_imports artifacts

theorem Replays.known_of_row {L : Leases} (h : Replays L artifacts)
    (hno : NoIdOverwritten artifacts) {id : Int} {row : LeaseRow} (hrow : (id, row) ∈ L.rows.rows) :
    (Assoc.get? row.identity L.seenReservationIdentities).isSome = true := by
  obtain ⟨⟨m, b⟩, hb, _, hid⟩ := exists_of_forall₂_left h.rows hrow
  have hbmem : b ∈ imports artifacts := by
    rw [← Claiming.items_run HeldArtifact.number hno]
    exact Ledger.mem_items.mpr ⟨m, hb⟩
  obtain ⟨front, back, hsplit, _⟩ := (mem_keepNew sameLease_trans).mp hbmem
  exact (h.known row.identity).mpr ⟨b, hsplit ▸ by simp, hid.symm⟩

/-- A row keeps summing up its lease while artifacts of other leases come. -/
theorem SumsUp.other {row : LeaseRow} (h : SumsUp artifacts row) (hne : a.identity ≠ row.identity)
    (hfirst : firstArtifacts (artifacts ++ [a]) = firstArtifacts artifacts ++ [a]) :
    SumsUp (artifacts ++ [a]) row := by
  have hgroup (p : HeldArtifact → Prop) :
      (∃ b ∈ firstArtifacts (artifacts ++ [a]), b.identity = row.identity ∧ p b) ↔
        ∃ b ∈ firstArtifacts artifacts, b.identity = row.identity ∧ p b := by
    rw [hfirst]
    simp [or_and_right, exists_or, hne]
  constructor
  · simp only [hgroup]
    exact h.expires
  · rw [hgroup]
    exact h.released

theorem SumsUp.merge {row : LeaseRow} (h : SumsUp artifacts row) (heq : a.identity = row.identity)
    (hfirst : firstArtifacts (artifacts ++ [a]) = firstArtifacts artifacts ++ [a]) :
    SumsUp (artifacts ++ [a]) (mergeLifecycle a.reservation row) := by
  have hgroup (p : HeldArtifact → Prop) :
      (∃ b ∈ firstArtifacts (artifacts ++ [a]), b.identity = row.identity ∧ p b) ↔
        (∃ b ∈ firstArtifacts artifacts, b.identity = row.identity ∧ p b) ∨ p a := by
    rw [hfirst]
    simp [or_and_right, exists_or, heq]
  constructor
  · rw [mergeLifecycle_identity, mergeLifecycle_expiresTs]
    simp only [hgroup]
    obtain ⟨hmem, hub⟩ := h.expires
    constructor
    · rcases max_choice row.expiresTs a.reservation.expiresTs with hmax | hmax
      · rw [hmax]
        exact Or.inl hmem
      · rw [hmax]
        exact Or.inr rfl
    · rintro t (ht | rfl)
      · exact le_max_of_le_left (hub ht)
      · exact le_max_right _ _
  · rw [mergeLifecycle_identity, released_mergeLifecycle, hgroup, h.released]

theorem sumsUp_new (hnew : ∀ b ∈ firstArtifacts artifacts, b.identity ≠ a.identity)
    (hfirst : firstArtifacts (artifacts ++ [a]) = firstArtifacts artifacts ++ [a]) :
    SumsUp (artifacts ++ [a]) a.row := by
  have hgroup (p : HeldArtifact → Prop) :
      (∃ b ∈ firstArtifacts (artifacts ++ [a]), b.identity = a.row.identity ∧ p b) ↔ p a := by
    rw [hfirst]
    constructor
    · rintro ⟨b, hb, hid, hp⟩
      rw [mem_append, mem_singleton] at hb
      rcases hb with hb | rfl
      · exact absurd hid (hnew b hb)
      · exact hp
    · intro hp
      exact ⟨a, by simp, rfl, hp⟩
  constructor
  · simp only [hgroup]
    constructor
    · rfl
    · rintro t rfl
      exact le_refl _
  · rw [hgroup]
    rfl

theorem NoIdOverwritten.front (h : NoIdOverwritten (artifacts ++ [a])) :
    NoIdOverwritten artifacts := by
  have hfirst := firstArtifacts_concat artifacts a
  unfold NoIdOverwritten at h ⊢
  split at hfirst
  · rwa [imports_of_skipped hfirst] at h
  · rw [imports_concat hfirst] at h
    split at h
    · exact h
    · exact h.front HeldArtifact.number

/-- What a step does while no id is overwritten. -/
theorem insertArtifact_cases {L : Leases} (h : Replays L artifacts)
    (hno : NoIdOverwritten (artifacts ++ [a])) :
    (firstArtifacts (artifacts ++ [a]) = firstArtifacts artifacts ∧ L.insertArtifact a = L) ∨
    firstArtifacts (artifacts ++ [a]) = firstArtifacts artifacts ++ [a] ∧
      ((∃ existing, Assoc.get? a.identity L.seenReservationIdentities = some existing ∧
        (L.insertArtifact a).rows = L.rows.update existing (mergeLifecycle a.reservation) ∧
        (L.insertArtifact a).seenReservationIdentities = L.seenReservationIdentities) ∨
      Assoc.get? a.identity L.seenReservationIdentities = none ∧
        ∃ n, (L.insertArtifact a).rows.rows = L.rows.rows ++ [(n, a.row)] ∧
          (L.insertArtifact a).seenReservationIdentities =
            Assoc.insert a.identity n L.seenReservationIdentities) := by
  obtain ⟨hfirst, _, heq⟩ | ⟨hfirst, seen, hseen, heq⟩ := h.step_cases a
  · exact Or.inl ⟨hfirst, heq⟩
  · refine Or.inr ⟨hfirst, ?_⟩
    cases hget : Assoc.get? a.identity L.seenReservationIdentities with
    | some existing =>
      refine Or.inl ⟨existing, rfl, ?_, ?_⟩
      · rw [heq, Leases.importArtifact]
        simp only [hget]
      · rw [heq, Leases.importArtifact]
        simp only [hget]
    | none =>
      right
      refine ⟨rfl, ?_⟩
      have himports := (h.importNew hfirst hseen hget).1
      obtain ⟨n, hn, himport⟩ | ⟨_, himport⟩ := h.importArtifact_new hget seen
      · have hfree : n ∉ L.rows.numbers := by
          unfold NoIdOverwritten at hno
          rw [himports] at hno
          have hmem := hno.free HeldArtifact.number hn
          rwa [← h.numbers_eq] at hmem
        refine ⟨n, ?_, ?_⟩
        · rw [heq, himport, Leases.insertVerbatim, Ledger.rows_replaceAt,
            Ledger.filter_rows_of_notMem hfree]
        · rw [heq, himport]
          rfl
      · refine ⟨L.rows.top + 1, ?_, ?_⟩
        · rw [heq, himport]
          rfl
        · rw [heq, himport]
          rfl

theorem Intact.insertArtifact {L : Leases} (h : Replays L artifacts) (hi : Intact L artifacts)
    (hno : NoIdOverwritten (artifacts ++ [a])) :
    Intact (L.insertArtifact a) (artifacts ++ [a]) := by
  obtain ⟨hfirst, heq⟩ | ⟨hfirst, ⟨existing, hget, hrows, hids⟩ | ⟨hget, n, hrows, hids⟩⟩ :=
    insertArtifact_cases h hno
  · rw [heq]
    refine ⟨hi.owner, ?_⟩
    intro id row hrow
    have hsums := hi.sums id row hrow
    exact ⟨hfirst ▸ hsums.expires, hfirst ▸ hsums.released⟩
  · obtain ⟨own, hown, hownid⟩ := hi.owner _ _ hget
    constructor
    · intro i id hid
      rw [hids] at hid
      obtain ⟨row, hrow, hrowid⟩ := hi.owner i id hid
      rw [hrows]
      by_cases hex : id = existing
      · exact ⟨mergeLifecycle a.reservation row, Ledger.mem_rows_update.mpr ⟨row, hrow, by rw [if_pos hex]⟩,
          hrowid⟩
      · exact ⟨row, Ledger.mem_rows_update.mpr ⟨row, hrow, by rw [if_neg hex]⟩, hrowid⟩
    · intro id row' hrow'
      rw [hrows, Ledger.mem_rows_update] at hrow'
      obtain ⟨row, hrow, rfl⟩ := hrow'
      by_cases hex : id = existing
      · rw [if_pos hex]
        obtain rfl := Ledger.eq_of_mem hown (hex ▸ hrow)
        exact (hi.sums id own hrow).merge hownid.symm hfirst
      · rw [if_neg hex]
        apply (hi.sums id row hrow).other _ hfirst
        intro hid
        have hpair := inj_on_of_nodup_map (nodup_rows h hno.front) hrow hown
          (hid.symm.trans hownid.symm)
        exact hex (congrArg Prod.fst hpair)
  · have hnew : ∀ b ∈ firstArtifacts artifacts, b.identity ≠ a.identity := by
      intro b hb hid
      have hsome := (h.known a.identity).mpr ⟨b, hb, hid⟩
      rw [hget] at hsome
      cases hsome
    constructor
    · intro i id hid
      rw [hids, Assoc.get?_insert] at hid
      rw [hrows]
      split at hid
      · next heq =>
        obtain rfl := Option.some.inj hid
        exact ⟨a.row, by simp, heq⟩
      · obtain ⟨row, hrow, hrowid⟩ := hi.owner i id hid
        exact ⟨row, mem_append_left _ hrow, hrowid⟩
    · intro id row hrow
      rw [hrows, mem_append, mem_singleton] at hrow
      rcases hrow with hrow | hrow
      · apply (hi.sums id row hrow).other _ hfirst
        intro hid
        have hsome := h.known_of_row hno.front hrow
        rw [← hid, hget] at hsome
        cases hsome
      · obtain ⟨rfl, rfl⟩ := Prod.mk.inj hrow
        exact sumsUp_new hnew hfirst

theorem intact_replay (hno : NoIdOverwritten artifacts) :
    Intact (Leases.empty.replay artifacts) artifacts := by
  induction artifacts using reverseRecOn with
  | nil =>
    constructor
    · simp [Leases.replay, Leases.empty, Assoc.get?]
    · simp [Leases.replay, Leases.empty]
  | append_singleton artifacts a ih =>
    rw [replay_concat]
    exact Intact.insertArtifact (replays_replay artifacts) (ih hno.front) hno

/-! ### Which leases survive -/

/-- An artifact that is not a second one of its project, generation and id. -/
def Counted (artifacts : List HeldArtifact) (a : HeldArtifact) : Prop :=
  ∃ front back, artifacts = front ++ a :: back ∧ ∀ b ∈ front, sameArtifact b a = false

/-- Every lease has one row, with the lifecycle of its artifacts, and no row gives way to an
artifact of another lease. -/
structure LeasesKept (artifacts : List HeldArtifact) : Prop where
  one_row : ∀ a, Counted artifacts a → ∃ id row,
    (Leases.empty.replay artifacts).rows.rows.filter (fun r => r.2.identity = a.identity) =
      [(id, row)] ∧ (released row.releasedTs ↔ ∃ b, Counted artifacts b ∧ b.identity = a.identity ∧
      released b.reservation.releasedTs) ∧
    IsGreatest {t | ∃ b, Counted artifacts b ∧ b.identity = a.identity ∧
      b.reservation.expiresTs = t} row.expiresTs
  kept : ∀ front a back, artifacts = front ++ a :: back →
    ∀ r ∈ (Leases.empty.replay front).rows.rows, r.2.identity ≠ a.identity →
      r ∈ (Leases.empty.replay (front ++ [a])).rows.rows

theorem mem_firstArtifacts : a ∈ firstArtifacts artifacts ↔ Counted artifacts a :=
  mem_keepNew sameArtifact_trans

theorem one_row_of_noIdOverwritten (hno : NoIdOverwritten artifacts) (ha : Counted artifacts a) :
    ∃ id row, (Leases.empty.replay artifacts).rows.rows.filter
        (fun r => r.2.identity = a.identity) = [(id, row)] ∧
      row.identity = a.identity ∧ SumsUp artifacts row := by
  have h := replays_replay artifacts
  have hi := intact_replay hno
  have hsome := (h.known a.identity).mpr ⟨a, mem_firstArtifacts.mpr ha, rfl⟩
  obtain ⟨id, hid⟩ := Option.isSome_iff_exists.mp hsome
  obtain ⟨row, hrow, hrowid⟩ := hi.owner _ _ hid
  refine ⟨id, row, ?_, hrowid, hi.sums id row hrow⟩
  rw [← hrowid]
  exact filter_key_eq_singleton (nodup_rows h hno) hrow

theorem kept_of_noIdOverwritten (hno : NoIdOverwritten (artifacts ++ [a])) {r : Int × LeaseRow}
    (hr : r ∈ (Leases.empty.replay artifacts).rows.rows) (hne : r.2.identity ≠ a.identity) :
    r ∈ (Leases.empty.replay (artifacts ++ [a])).rows.rows := by
  have h := replays_replay artifacts
  rw [replay_concat]
  obtain ⟨_, heq⟩ | ⟨_, ⟨existing, hget, hrows, _⟩ | ⟨_, n, hrows, _⟩⟩ :=
    insertArtifact_cases h hno
  · rw [heq]
    exact hr
  · obtain ⟨own, hown, hownid⟩ := (intact_replay hno.front).owner _ _ hget
    rw [hrows]
    refine Ledger.mem_rows_update.mpr ⟨r.2, hr, ?_⟩
    rw [if_neg]
    intro hex
    have hsame : (r.1, r.2) ∈ (Leases.empty.replay artifacts).rows.rows := hr
    rw [hex] at hsame
    rw [Ledger.eq_of_mem hsame hown] at hne
    exact hne hownid
  · rw [hrows]
    exact mem_append_left _ hr

theorem NoIdOverwritten.of_append {front back : List HeldArtifact}
    (h : NoIdOverwritten (front ++ back)) : NoIdOverwritten front := by
  induction back using reverseRecOn with
  | nil => rwa [append_nil] at h
  | append_singleton back a ih =>
    rw [← append_assoc] at h
    exact ih h.front

/-- If every row is kept, no id was generated for one lease and claimed for another. -/
theorem noIdOverwritten_of_kept (hkept : ∀ front a back, artifacts = front ++ a :: back →
      ∀ r ∈ (Leases.empty.replay front).rows.rows, r.2.identity ≠ a.identity →
        r ∈ (Leases.empty.replay (front ++ [a])).rows.rows) : NoIdOverwritten artifacts := by
  induction artifacts using reverseRecOn with
  | nil =>
    intro front b back n hsplit
    exact absurd hsplit (by simp [imports, firstArtifacts, keepNew])
  | append_singleton artifacts a ih =>
    have hfront : NoIdOverwritten artifacts := by
      apply ih
      intro front b back hsplit
      exact hkept front b (back ++ [a]) (by rw [hsplit]; simp)
    have h := replays_replay artifacts
    obtain ⟨hfirst, _, _⟩ | ⟨hfirst, seen, hseen, heq⟩ := h.step_cases a
    · unfold NoIdOverwritten
      rw [imports_of_skipped hfirst]
      exact hfront
    · cases hget : Assoc.get? a.identity
        (Leases.empty.replay artifacts).seenReservationIdentities with
      | some existing =>
        unfold NoIdOverwritten
        rw [(h.merge hfirst hseen hget).1]
        exact hfront
      | none =>
        unfold NoIdOverwritten
        rw [(h.importNew hfirst hseen hget).1]
        intro front b back n hsplit hclaim hissued
        obtain ⟨back', rfl, hbs⟩ | ⟨rfl, rfl, rfl⟩ := concat_eq_split.mp hsplit
        · exact hfront front b back' n hbs hclaim hissued
        -- the row under the generated id gives way to the new artifact
        · obtain ⟨m, hm, himport⟩ | ⟨hm, _⟩ := h.importArtifact_new hget seen
          · obtain rfl : n = m := Option.some.inj (hclaim.1.symm.trans hm.1)
            have hnum : n ∈ (Leases.empty.replay artifacts).rows.numbers := by
              rw [h.numbers_eq]
              exact (Claiming.mem_numbers_run HeldArtifact.number).mpr (Or.inr hissued)
            obtain ⟨row, hrow⟩ := Ledger.mem_numbers.mp hnum
            have hne : row.identity ≠ b.identity := by
              intro hid
              have hsome := h.known_of_row hfront hrow
              rw [hid, hget] at hsome
              cases hsome
            have hstay := hkept artifacts b [] rfl (n, row) hrow hne
            rw [replay_concat, heq, himport, Leases.insertVerbatim, Ledger.mem_rows_replaceAt] at hstay
            rcases hstay with ⟨_, hnn⟩ | ⟨_, hrow'⟩
            · exact hnn rfl
            · exact hne (by rw [hrow']; rfl)
          · exact hm n hclaim

/-- The leases survive exactly when no archived id that an artifact claims first was generated for
another one before. -/
theorem leasesKept_iff (artifacts : List HeldArtifact) :
    LeasesKept artifacts ↔ NoIdOverwritten artifacts := by
  constructor
  · intro h
    exact noIdOverwritten_of_kept h.kept
  · intro hno
    constructor
    · intro a ha
      obtain ⟨id, row, hrows, hid, hsums⟩ := one_row_of_noIdOverwritten hno ha
      refine ⟨id, row, hrows, ?_, ?_⟩
      · rw [hsums.released, hid]
        simp only [mem_firstArtifacts]
      · have hexp := hsums.expires
        rw [hid] at hexp
        simpa only [mem_firstArtifacts] using hexp
    · intro front a back hsplit r hr hne
      have hpre : NoIdOverwritten ((front ++ [a]) ++ back) := by
        rw [append_assoc, singleton_append, ← hsplit]
        exact hno
      exact kept_of_noIdOverwritten hpre.of_append hr hne

end AgentMail.Rebuild
