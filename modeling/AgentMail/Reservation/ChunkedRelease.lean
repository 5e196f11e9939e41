import AgentMail.Lib.Splitting
import AgentMail.Reservation.Released

/-!
# Releases in chunks

`release_reservations_with_created_cutoff` with its splitting of large filters
(`crates/mcp-agent-mail-db/src/queries.rs:15809–15902`, `15937–16127`). A filter that is absent restricts
nothing, an empty one lets nothing through. The chunks are transactions of their own, so each finds
released what the ones before it have released.
-/

namespace AgentMail.Reservation

open Base Lib Pattern List

/-! ### The plan -/

def sqliteMaxBindParams : Nat := 999

/-- `project_id`, `agent_id` and the creation cutoff. -/
def releaseReservationBaseBindParams : Nat := 3

def maxReleaseReservationFilterItems : Nat := sqliteMaxBindParams - releaseReservationBaseBindParams

/-- `ReleaseReservationChunkTarget`. -/
inductive ChunkTarget where
  | reservationIds
  | paths

def releaseReservationChunkPlan (pathCount reservationIdCount : Nat) : Option (ChunkTarget × Nat) :=
  let idsLimit := min maxReleaseReservationChunkItems
    (max (maxReleaseReservationFilterItems - pathCount) 1)
  let pathsLimit := min maxReleaseReservationChunkItems
    (max (maxReleaseReservationFilterItems - reservationIdCount) 1)
  let chunkIds := decide (idsLimit < reservationIdCount)
  let chunkPaths := decide (pathsLimit < pathCount)
  match chunkIds, chunkPaths with
  | false, false => none
  | true, false => some (.reservationIds, idsLimit)
  | false, true => some (.paths, pathsLimit)
  | true, true =>
    if pathCount ≤ reservationIdCount then some (.reservationIds, idsLimit)
    else some (.paths, pathsLimit)

/-- The two filters of a release. -/
structure ReleaseFilters where
  paths : Option (List Text)
  ids : Option (List Int)

namespace ReleaseFilters

def pathCount (f : ReleaseFilters) : Nat := (f.paths.map length).getD 0

def idCount (f : ReleaseFilters) : Nat := (f.ids.map length).getD 0

/-- The filters of the recursive calls. -/
def parts (f : ReleaseFilters) (target : ChunkTarget) (chunkSize : Nat) : List ReleaseFilters :=
  match target with
  | .reservationIds =>
    match f.ids with
    | some ids => (chunks chunkSize ids).map fun chunk => { f with ids := some chunk }
    | none => []
  | .paths =>
    match f.paths with
    | some pats => (chunks chunkSize pats).map fun chunk => { f with paths := some chunk }
    | none => []

def split (f : ReleaseFilters) : Option (List ReleaseFilters) :=
  (releaseReservationChunkPlan f.pathCount f.idCount).map fun plan => f.parts plan.1 plan.2

/-- The parameters that the selection binds. -/
def binds (scope : ReleaseScope) (f : ReleaseFilters) : Nat :=
  2 + (if scope.createdAtOrBefore.isSome then 1 else 0) + f.idCount + f.pathCount

end ReleaseFilters

/-- What a plan says: the filter that is cut is larger than its chunks, and they are not empty. -/
theorem plan_cases {pathCount idCount : Nat} {target : ChunkTarget} {chunkSize : Nat}
    (h : releaseReservationChunkPlan pathCount idCount = some (target, chunkSize)) :
    0 < chunkSize ∧ match target with
      | .reservationIds => chunkSize < idCount
      | .paths => chunkSize < pathCount := by
  unfold releaseReservationChunkPlan maxReleaseReservationChunkItems at h
  dsimp only at h
  split at h
  · cases h
  · next hids _ =>
    cases h
    have := of_decide_eq_true hids
    exact ⟨by omega, this⟩
  · next _ hpaths =>
    cases h
    have := of_decide_eq_true hpaths
    exact ⟨by omega, this⟩
  · next hids hpaths =>
    split at h
    · cases h
      have := of_decide_eq_true hids
      exact ⟨by omega, this⟩
    · cases h
      have := of_decide_eq_true hpaths
      exact ⟨by omega, this⟩

/-- A query that is not split is within both limits. -/
theorem le_of_plan_none {pathCount idCount : Nat}
    (h : releaseReservationChunkPlan pathCount idCount = none) :
    idCount ≤ maxReleaseReservationChunkItems ∧ pathCount ≤ maxReleaseReservationChunkItems := by
  unfold releaseReservationChunkPlan at h
  dsimp only at h
  split at h
  · next hids hpaths =>
    have hids := of_decide_eq_false hids
    have hpaths := of_decide_eq_false hpaths
    omega
  · cases h
  · cases h
  · split at h
    · cases h
    · cases h

namespace ReleaseFilters

/-! ### The splitting -/

theorem mem_parts {f p : ReleaseFilters} {target : ChunkTarget} {chunkSize : Nat}
    (hp : p ∈ f.parts target chunkSize) : match target with
      | .reservationIds => ∃ ids chunk, f.ids = some ids ∧ chunk ∈ chunks chunkSize ids ∧
          p = { f with ids := some chunk }
      | .paths => ∃ pats chunk, f.paths = some pats ∧ chunk ∈ chunks chunkSize pats ∧
          p = { f with paths := some chunk } := by
  unfold parts at hp
  cases target with
  | reservationIds =>
    cases hids : f.ids with
    | none => simp [hids] at hp
    | some ids =>
      simp only [hids, mem_map] at hp
      obtain ⟨chunk, hchunk, rfl⟩ := hp
      exact ⟨ids, chunk, rfl, hchunk, rfl⟩
  | paths =>
    cases hpaths : f.paths with
    | none => simp [hpaths] at hp
    | some pats =>
      simp only [hpaths, mem_map] at hp
      obtain ⟨chunk, hchunk, rfl⟩ := hp
      exact ⟨pats, chunk, rfl, hchunk, rfl⟩

/-- Every part has fewer items: its filter is one chunk of a filter that is larger. -/
theorem split_smaller {f : ReleaseFilters} {parts : List ReleaseFilters} (h : f.split = some parts)
    (p : ReleaseFilters) (hp : p ∈ parts) : p.pathCount + p.idCount < f.pathCount + f.idCount := by
  obtain ⟨⟨target, chunkSize⟩, hplan, rfl⟩ := Option.map_eq_some_iff.mp h
  obtain ⟨hpos, hlarge⟩ := plan_cases hplan
  have hpart := mem_parts hp
  cases target with
  | reservationIds =>
    obtain ⟨ids, chunk, hids, hchunk, rfl⟩ := hpart
    have hlen := length_le_of_mem_chunks hpos hchunk
    simp only [pathCount, idCount, hids, Option.map_some, Option.getD_some] at hlarge ⊢
    omega
  | paths =>
    obtain ⟨pats, chunk, hpaths, hchunk, rfl⟩ := hpart
    have hlen := length_le_of_mem_chunks hpos hchunk
    simp only [pathCount, idCount, hpaths, Option.map_some, Option.getD_some] at hlarge ⊢
    omega

/-- The recursion ends. -/
def splitter : Splitter ReleaseFilters := ⟨split, fun f => f.pathCount + f.idCount, split_smaller⟩

/-- The filters of the queries that are made. -/
def leaves (f : ReleaseFilters) : List ReleaseFilters := splitter.leaves f

/-- The choices that a filter leaves: an absent one is not asked. -/
def choices {α : Type} : Option (List α) → List (Option α)
  | none => [none]
  | some items => items.map some

/-- A path and an id, one from each filter. -/
def combinations (f : ReleaseFilters) : List (Option Text × Option Int) :=
  (choices f.paths).product (choices f.ids)

theorem mem_choices_chunks {α : Type} (chunkSize : Nat) (items : List α) (c : Option α) :
    c ∈ choices (some items) ↔ ∃ chunk ∈ chunks chunkSize items, c ∈ choices (some chunk) := by
  conv_lhs => rw [← flatten_chunks chunkSize items]
  simp only [choices, mem_map, mem_flatten]
  constructor
  · rintro ⟨a, ⟨chunk, hchunk, ha⟩, rfl⟩
    exact ⟨chunk, hchunk, a, ha, rfl⟩
  · rintro ⟨chunk, hchunk, a, ha, rfl⟩
    exact ⟨a, ⟨chunk, hchunk, ha⟩, rfl⟩

theorem mem_combinations {f : ReleaseFilters} {c : Option Text × Option Int} :
    c ∈ f.combinations ↔ c.1 ∈ choices f.paths ∧ c.2 ∈ choices f.ids :=
  pair_mem_product

/-- The leaves cover the product of the two filters. -/
theorem mem_combinations_leaves (f : ReleaseFilters) (c : Option Text × Option Int) :
    (∃ l ∈ f.leaves, c ∈ l.combinations) ↔ c ∈ f.combinations := by
  apply splitter.exists_leaf_iff
  intro f parts h
  obtain ⟨⟨target, chunkSize⟩, hplan, rfl⟩ := Option.map_eq_some_iff.mp h
  obtain ⟨-, hlarge⟩ := plan_cases hplan
  rw [mem_combinations]
  cases target with
  | reservationIds =>
    cases hids : f.ids with
    | none => simp [idCount, hids] at hlarge
    | some ids =>
      rw [mem_choices_chunks chunkSize ids]
      simp only [ReleaseFilters.parts, hids]
      constructor
      · rintro ⟨hpath, chunk, hchunk, hid⟩
        exact ⟨_, mem_map_of_mem hchunk, mem_combinations.mpr ⟨hpath, hid⟩⟩
      · rintro ⟨p, hp, hc⟩
        obtain ⟨chunk, hchunk, rfl⟩ := mem_map.mp hp
        obtain ⟨hpath, hid⟩ := mem_combinations.mp hc
        exact ⟨hpath, chunk, hchunk, hid⟩
  | paths =>
    cases hpaths : f.paths with
    | none => simp [pathCount, hpaths] at hlarge
    | some pats =>
      rw [mem_choices_chunks chunkSize pats]
      simp only [ReleaseFilters.parts, hpaths]
      constructor
      · rintro ⟨⟨chunk, hchunk, hpath⟩, hid⟩
        exact ⟨_, mem_map_of_mem hchunk, mem_combinations.mpr ⟨hpath, hid⟩⟩
      · rintro ⟨p, hp, hc⟩
        obtain ⟨chunk, hchunk, rfl⟩ := mem_map.mp hp
        obtain ⟨hpath, hid⟩ := mem_combinations.mp hc
        exact ⟨⟨chunk, hchunk, hpath⟩, hid⟩

/-- A filter lets through what one of its choices does. -/
theorem contains_iff_choices {α : Type} [BEq α] [LawfulBEq α] (filter : Option (List α)) (a : α) :
    filter.all (·.contains a) = true ↔ ∃ c ∈ choices filter, c.all (· == a) = true := by
  cases filter with
  | none => simp [choices]
  | some items => simp [choices]

theorem matchesFilters_iff (f : ReleaseFilters) (r : FileReservationRow) :
    matchesFilters f.paths f.ids r = true ↔ ∃ c ∈ f.combinations,
      c.1.all (· == r.pathPattern) = true ∧ c.2.all (· == r.id) = true := by
  rw [matchesFilters, Bool.and_eq_true, contains_iff_choices, contains_iff_choices]
  constructor
  · rintro ⟨⟨i, hi, hid⟩, ⟨p, hp, hpath⟩⟩
    exact ⟨(p, i), mem_combinations.mpr ⟨hp, hi⟩, hpath, hid⟩
  · rintro ⟨⟨p, i⟩, hc, hpath, hid⟩
    obtain ⟨hp, hi⟩ := mem_combinations.mp hc
    exact ⟨⟨i, hi, hid⟩, ⟨p, hp, hpath⟩⟩

/-- A row that the full filters select is selected by a leaf, and no other row is. -/
theorem matchesFilters_leaves (f : ReleaseFilters) (r : FileReservationRow) :
    f.leaves.any (fun l => matchesFilters l.paths l.ids r) = matchesFilters f.paths f.ids r := by
  rw [Bool.eq_iff_iff, any_eq_true, matchesFilters_iff]
  constructor
  · rintro ⟨l, hl, hr⟩
    obtain ⟨c, hc, hrest⟩ := (matchesFilters_iff l r).mp hr
    exact ⟨c, (mem_combinations_leaves f c).mp ⟨l, hl, hc⟩, hrest⟩
  · rintro ⟨c, hc, hrest⟩
    obtain ⟨l, hl, hc⟩ := (mem_combinations_leaves f c).mpr hc
    exact ⟨l, hl, (matchesFilters_iff l r).mpr ⟨c, hc, hrest⟩⟩

/-- A leaf is not cut any further, and its query binds at most as much as the database allows. -/
theorem binds_le_of_mem_leaves {f l : ReleaseFilters} (h : l ∈ f.leaves) (scope : ReleaseScope) :
    l.binds scope ≤ sqliteMaxBindParams := by
  have hplan := Option.map_eq_none_iff.mp (splitter.split_eq_none_of_mem h)
  obtain ⟨hids, hpaths⟩ := le_of_plan_none hplan
  unfold binds sqliteMaxBindParams
  unfold maxReleaseReservationChunkItems at hids hpaths
  split <;> omega

end ReleaseFilters

/-! ### The release -/

/-- `apply_release_markers`. -/
def applyReleaseMarkers (reservations : List FileReservationRow) (markers : List (Int × Int)) :
    List FileReservationRow :=
  if reservations.isEmpty || markers.isEmpty then []
  else
    -- Of two markers for one id, the map keeps the later one.
    let releasedTsById (id : Int) : Option Int := markers.reverse.lookup id
    (reservations.filter fun r => (releasedTsById r.id).isSome).map fun r =>
      { r with releasedTs := releasedTsById r.id }

/-- The table, and how often the clock was read. -/
structure ChunkedState where
  table : LeaseTable
  reads : Nat

/-- One query with its release. -/
def releaseLeaf (clock : Nat → Int) (scope : ReleaseScope) (s : ChunkedState) (f : ReleaseFilters) :
    List FileReservationRow × ChunkedState :=
  let reservations := s.table.rows.filter fun r =>
    s.table.isUnreleased r && (scope.allows r && matchesFilters f.paths f.ids r)
  let targetIds := reservations.map (·.id)
  if targetIds.isEmpty then (reservations, s)
  else
    let done := releaseReservationsByIdsWithConstraints s.table (clock s.reads) targetIds .any
      (some scope) none
    (applyReleaseMarkers reservations done.released, ⟨done.table, s.reads + 1⟩)

def releaseReservationsWithCreatedCutoff (clock : Nat → Int) (scope : ReleaseScope)
    (f : ReleaseFilters) (s : ChunkedState) : List FileReservationRow × ChunkedState :=
  ReleaseFilters.splitter.run (releaseLeaf clock scope) f s

/-! ### What a query releases -/

namespace LeaseTable

def unreleasedRows (t : LeaseTable) : List FileReservationRow := t.rows.filter t.isUnreleased

theorem nodup_unreleasedRows (t : LeaseTable) : (t.unreleasedRows.map (·.id)).Nodup :=
  t.ids_nodup.sublist (filter_sublist.map _)

end LeaseTable

/-- A row up to the stamp that a release writes. -/
def unstamped (r : FileReservationRow) : FileReservationRow := { r with releasedTs := none }

theorem unreleasedRows_record (s : ReleaseState) (id : Int) :
    (s.record id).table.unreleasedRows = s.table.unreleasedRows.filter (·.id ≠ id) := by
  unfold LeaseTable.unreleasedRows
  have hreleases (x : Int) : (s.record id).table.releases.contains x =
      (s.table.releases.contains x || x == id) :=
    contains_recordRelease _ id x
  have htest (r : FileReservationRow) : ((s.record id).table.isUnreleased ∘
      fun r => if r.id == id then { r with releasedTs := some s.marker } else r) r =
        (decide (r.id ≠ id) && s.table.isUnreleased r) := by
    simp only [Function.comp_apply, LeaseTable.isUnreleased, hreleases]
    by_cases hid : r.id = id
    · simp [hid]
    · simp [hid, beq_false_of_ne hid]
  show (s.table.rows.map _).filter _ = _
  rw [filter_map, filter_filter, filter_congr (fun r _ => htest r)]
  refine (map_congr_left fun r hr => ?_).trans (map_id _)
  have hne : r.id ≠ id := of_decide_eq_true (Bool.and_eq_true_iff.mp (mem_filter.mp hr).2).1
  exact if_neg fun h => hne (beq_iff_eq.mp h)

theorem unstamped_record (s : ReleaseState) (id : Int) :
    (s.record id).table.rows.map unstamped = s.table.rows.map unstamped := by
  show (s.table.rows.map _).map _ = _
  rw [map_map]
  apply map_congr_left
  intro r _
  simp only [Function.comp_apply]
  split
  · rfl
  · rfl

/-- Ids of unreleased rows in the scope are all released, in order, and no other row is. -/
theorem foldl_releaseId {scope : ReleaseScope} {ids : List Int} (hids : ids.Nodup) {s : ReleaseState}
    (h : ∀ id ∈ ids, ∃ r ∈ s.table.unreleasedRows, r.id = id ∧ scope.allows r = true) :
    let s' := ids.foldl (releaseId .any (some scope) none) s
    s'.released.map (·.1) = s.released.map (·.1) ++ ids ∧
      s'.table.unreleasedRows = s.table.unreleasedRows.filter (fun r => !ids.contains r.id) ∧
      s'.table.rows.map unstamped = s.table.rows.map unstamped := by
  induction ids generalizing s with
  | nil => simp
  | cons id ids ih =>
    obtain ⟨hnew, hrest⟩ := nodup_cons.mp hids
    obtain ⟨⟨r, hr, hid, hallows⟩, hothers⟩ := forall_mem_cons.mp h
    have hstep : releaseId .any (some scope) none s id = s.record id := by
      obtain ⟨hrow, hunreleased⟩ := mem_filter.mp hr
      have heligible : (s.table.rows.any fun r => r.id == id && s.table.isUnreleased r &&
          ExpiryConstraint.any.allows r.expiresTs && (some scope).all (·.allows r) && true) = true :=
        any_eq_true.mpr ⟨r, hrow, by simp [hid, hunreleased, hallows, ExpiryConstraint.allows]⟩
      simp only [releaseId, heligible]
      rfl
    obtain ⟨hreleased, hrows, hstamps⟩ := ih hrest (s := s.record id) <| by
      intro x hx
      obtain ⟨r', hr', hid', hallows'⟩ := hothers x hx
      have hne : r'.id ≠ id := fun he => hnew (he ▸ hid' ▸ hx)
      rw [unreleasedRows_record]
      exact ⟨r', mem_filter.mpr ⟨hr', decide_eq_true hne⟩, hid', hallows'⟩
    intro s'
    have hs' : s' = ids.foldl (releaseId .any (some scope) none) (s.record id) := by
      rw [← hstep]
      rfl
    rw [hs', hreleased, hrows, hstamps, unreleasedRows_record, filter_filter]
    refine ⟨?_, ?_, unstamped_record s id⟩
    · simp [ReleaseState.record]
    · apply filter_congr
      intro r _
      rw [contains_cons, Bool.not_or, Bool.and_comm, Bool.eq_iff_iff]
      simp

/-- A row is given back with the stamp of its marker. -/
theorem unstamped_applyReleaseMarkers {rows : List FileReservationRow} {markers : List (Int × Int)}
    (h : markers.map (·.1) = rows.map (·.id)) :
    (applyReleaseMarkers rows markers).map unstamped = rows.map unstamped := by
  have hlookup (r : FileReservationRow) (hr : r ∈ rows) :
      (markers.reverse.lookup r.id).isSome = true := by
    have hmem : r.id ∈ markers.map (·.1) := h ▸ mem_map_of_mem hr
    obtain ⟨m, hm, hid⟩ := mem_map.mp hmem
    rw [Option.isSome_iff_ne_none, Ne, lookup_eq_none_iff]
    intro hnone
    simpa [hid] using hnone m (mem_reverse.mpr hm)
  unfold applyReleaseMarkers
  cases rows with
  | nil => simp
  | cons r rest =>
    cases markers with
    | nil => simp at h
    | cons m markers =>
      simp only [isEmpty_cons, Bool.or_self, Bool.false_eq_true, if_false, map_map]
      rw [filter_eq_self.mpr hlookup]
      rfl

/-- The rows that a query with these filters looks for. -/
def wanted (scope : ReleaseScope) (f : ReleaseFilters) (r : FileReservationRow) : Bool :=
  scope.allows r && matchesFilters f.paths f.ids r

/-- On the unreleased rows a query takes out what it looks for. -/
theorem releaseLeaf_spec (clock : Nat → Int) (scope : ReleaseScope) (s : ChunkedState)
    (f : ReleaseFilters) :
    (releaseLeaf clock scope s f).1.map unstamped =
        (s.table.unreleasedRows.filter (wanted scope f)).map unstamped ∧
      (releaseLeaf clock scope s f).2.table.unreleasedRows =
        s.table.unreleasedRows.filter (fun r => !wanted scope f r) ∧
      (releaseLeaf clock scope s f).2.table.rows.map unstamped = s.table.rows.map unstamped := by
  have hselect : (s.table.rows.filter fun r =>
      s.table.isUnreleased r && (scope.allows r && matchesFilters f.paths f.ids r)) =
        s.table.unreleasedRows.filter (wanted scope f) := by
    rw [LeaseTable.unreleasedRows, filter_filter]
    exact filter_congr fun r _ => Bool.and_comm _ _
  simp only [releaseLeaf, hselect]
  generalize hsel : s.table.unreleasedRows.filter (wanted scope f) = selected
  have hnodup : (selected.map (·.id)).Nodup :=
    hsel ▸ s.table.nodup_unreleasedRows.sublist (filter_sublist.map _)
  have hin (r : FileReservationRow) (hr : r ∈ s.table.unreleasedRows) :
      (selected.map (·.id)).contains r.id = wanted scope f r := by
    rw [Bool.eq_iff_iff, contains_iff_mem, mem_map, ← hsel]
    constructor
    · rintro ⟨r', hr', hid⟩
      obtain ⟨hr', hwanted⟩ := mem_filter.mp hr'
      rwa [← inj_on_of_nodup_map s.table.nodup_unreleasedRows hr' hr hid]
    · intro hwanted
      exact ⟨r, mem_filter.mpr ⟨hr, hwanted⟩, rfl⟩
  have hleft : s.table.unreleasedRows.filter (fun r => !(selected.map (·.id)).contains r.id) =
      s.table.unreleasedRows.filter (fun r => !wanted scope f r) :=
    filter_congr fun r hr => congrArg _ (hin r hr)
  by_cases hempty : (selected.map (·.id)).isEmpty = true
  · rw [if_pos hempty]
    refine ⟨rfl, ?_, rfl⟩
    rw [← hleft, List.isEmpty_iff.mp hempty]
    simp
  · rw [if_neg hempty]
    obtain ⟨hreleased, hrows, hstamps⟩ :=
      @foldl_releaseId scope _ hnodup ⟨clock s.reads, [], s.table⟩ <| by
        intro id hid
        obtain ⟨r, hr, rfl⟩ := mem_map.mp hid
        rw [← hsel] at hr
        obtain ⟨hr, hwanted⟩ := mem_filter.mp hr
        exact ⟨r, hr, rfl, (Bool.and_eq_true_iff.mp hwanted).1⟩
    exact ⟨unstamped_applyReleaseMarkers hreleased, hrows.trans hleft, hstamps⟩

/-! ### Chunks against one query -/

/-- The queries cover the product of the filters within the limit of the database, and together they
release and give back, once each, the rows that one query with both filters does. -/
theorem chunked_release_eq_unchunked (clock : Nat → Int) (scope : ReleaseScope) (f : ReleaseFilters)
    (s : ChunkedState) :
    let chunked := releaseReservationsWithCreatedCutoff clock scope f s
    let whole := releaseLeaf clock scope s f
    (∀ l ∈ f.leaves, l.binds scope ≤ sqliteMaxBindParams) ∧
      (∀ c, c ∈ f.combinations ↔ ∃ l ∈ f.leaves, c ∈ l.combinations) ∧
      (chunked.1.map unstamped).Perm (whole.1.map unstamped) ∧ (chunked.1.map (·.id)).Nodup ∧
      chunked.2.table.unreleasedRows = whole.2.table.unreleasedRows ∧
      chunked.2.table.rows.map unstamped = whole.2.table.rows.map unstamped := by
  intro chunked whole
  have hrun : chunked = Splitter.runAll (releaseLeaf clock scope) f.leaves s :=
    ReleaseFilters.splitter.run_eq_runAll _ f s
  obtain ⟨hout, hleft⟩ := Splitter.runAll_view (releaseLeaf clock scope) (Splitter.take (wanted scope))
    (fun s => s.table.unreleasedRows) unstamped
    (fun s l => ⟨(releaseLeaf_spec clock scope s l).1, (releaseLeaf_spec clock scope s l).2.1⟩)
    f.leaves s
  obtain ⟨htaken, hrest⟩ := Splitter.runAll_take (wanted scope) f.leaves s.table.unreleasedRows
  have hany (r : FileReservationRow) : (f.leaves.any (wanted scope · r)) = wanted scope f r := by
    unfold wanted
    rw [← f.matchesFilters_leaves r]
    cases scope.allows r <;> simp
  simp only [hany] at htaken hrest
  obtain ⟨hwhole, hwholeLeft, hwholeRows⟩ := releaseLeaf_spec clock scope s f
  have hperm : (chunked.1.map unstamped).Perm (whole.1.map unstamped) := by
    rw [hrun, hout, hwhole]
    exact htaken.map _
  refine ⟨fun l hl => ReleaseFilters.binds_le_of_mem_leaves hl scope,
    fun c => (f.mem_combinations_leaves c).symm, hperm, ?_, ?_, ?_⟩
  · have hids : chunked.1.map (·.id) = (chunked.1.map unstamped).map (·.id) := by
      rw [map_map]
      rfl
    rw [hids, (hperm.map _).nodup_iff, hwhole, map_map]
    exact s.table.nodup_unreleasedRows.sublist (filter_sublist.map _)
  · rw [hrun, hwholeLeft]
    exact hleft.trans hrest
  · rw [hwholeRows, hrun]
    exact Splitter.runAll_keeps (P := fun s' => s'.table.rows.map unstamped = s.table.rows.map unstamped)
      (fun s' l h => (releaseLeaf_spec clock scope s' l).2.2.trans h) f.leaves rfl

end AgentMail.Reservation
