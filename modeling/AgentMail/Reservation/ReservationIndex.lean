import AgentMail.Reservation.PartitionedIndex

/-!
# The tool-side reservation index

`crates/mcp-agent-mail-tools/src/reservation_index.rs:28–336`. `find_conflicts` reports one
reference per stored reservation whose pattern overlaps the request. The scan counters exist
for tests only and are left out; the buckets of the `HashMap` of globs come in an arbitrary
order, and results are compared up to order.
-/

namespace AgentMail.Reservation

open Base Lib Pattern List

/-- `routing_key`: `to_ascii_lowercase` on case-insensitive targets. -/
def routingKey (ci : Bool) (s : Text) : Text := fold ci s

/-- `ReservationRef`. -/
structure ReservationRef where
  agentId : Int
  pathPattern : Text
  exclusive : Bool
  expiresTs : Int
  deriving DecidableEq

/-- `ReservationIndex`. -/
abbrev ReservationIndex := PartitionedIndex (CompiledPattern × ReservationRef)

namespace ReservationIndex

open CompiledPattern PartitionedIndex

/-- `ReservationIndex::build`. -/
def build (P : Platform) (reservations : List (Text × ReservationRef)) : ReservationIndex :=
  PartitionedIndex.build (routingKey P.caseInsensitive) Prod.fst
    (reservations.map fun r => (CompiledPattern.new P r.1, r.2))

/-- The glob part of both scans. -/
def scanGlobs (ci : Bool) (self : ReservationIndex) (requestPat : CompiledPattern)
    (reqPrefix : Option Text) : List (CompiledPattern × ReservationRef) :=
  let entries :=
    match reqPrefix with
    | some s => self.globsAt (routingKey ci s)
    | none => self.globsAll
  entries.filter fun e => e.1.overlaps ci requestPat

/-- `scan_exact_request`: every literal entry on the request, above it or below it conflicts. -/
def scanExactRequest (ci : Bool) (self : ReservationIndex) (requestPat : CompiledPattern)
    (reqNorm : Text) (reqPrefix : Option Text) : List (CompiledPattern × ReservationRef) :=
  self.exactAt (routingKey ci reqNorm) ++
    (if reqNorm.isEmpty then [] else self.exactAt (routingKey ci [])) ++
    ((ancestors reqNorm).flatMap fun ancestor => self.exactAt (routingKey ci ancestor)) ++
    self.exactBelow (routingKey ci reqNorm) ++ scanGlobs ci self requestPat reqPrefix

/-- `scan_glob_request`. -/
def scanGlobRequest (ci : Bool) (self : ReservationIndex) (requestPat : CompiledPattern)
    (reqPrefix : Option Text) : List (CompiledPattern × ReservationRef) :=
  let hits := List.filter fun e : CompiledPattern × ReservationRef =>
    requestPat.matchesPath e.1.norm || e.1.overlaps ci requestPat
  match reqPrefix with
  | some s =>
    hits (self.exactAt (routingKey ci s)) ++ hits (self.exactAt (routingKey ci [])) ++
      ((ancestors s).flatMap fun ancestor => hits (self.exactAt (routingKey ci ancestor))) ++
      hits (self.exactBelow (routingKey ci s)) ++ scanGlobs ci self requestPat reqPrefix
  | none => hits self.exactAll ++ scanGlobs ci self requestPat reqPrefix

/-- `find_conflicts`, which clears the buffer it is given. The root request has no descendant
range and takes the unpartitioned scan. -/
def findConflicts (ci : Bool) (self : ReservationIndex) (requestPat : CompiledPattern) :
    List ReservationRef :=
  let scanned :=
    if requestPat.isGlob || requestPat.norm.isEmpty then
      scanGlobRequest ci self requestPat requestPat.firstLiteralSegment
    else
      scanExactRequest ci self requestPat requestPat.norm requestPat.firstLiteralSegment
  (scanned ++ self.rootGlobs.filter fun e => e.1.overlaps ci requestPat).map (·.2)

/-! ### Exactness -/

section

variable {P : Platform} {request : Text} {entries : List (CompiledPattern × ReservationRef)}

theorem exact_iff {raw : Text} (hr : (new P request).isGlob = false)
    (hne : (new P request).norm ≠ []) (he : (new P raw).isGlob = false) :
    (new P raw).overlaps P.caseInsensitive (new P request) = true ↔
      fold P.caseInsensitive (new P raw).norm = fold P.caseInsensitive (new P request).norm ∨
      fold P.caseInsensitive (new P raw).norm = [] ∨ fold P.caseInsensitive (new P raw).norm ∈
        ancestors (fold P.caseInsensitive (new P request).norm) ∨
      (fold P.caseInsensitive (new P request).norm ++ ['/']).isPrefixOf
        (fold P.caseInsensitive (new P raw).norm) = true := by
  rw [overlaps_iff_of_not_glob he hr, textEq_iff, isDirectoryPrefix_iff_isPrefixOf hne]
  by_cases hroot : (new P raw).norm = []
  · have hdir : isDirectoryPrefix P.caseInsensitive (new P raw).norm (new P request).norm = true := by
      rw [hroot]
      rfl
    exact iff_of_true (.inr (.inl hdir)) (.inr (.inl (by rw [hroot]; rfl)))
  · rw [isDirectoryPrefix_iff_mem_ancestors hroot, fold_eq_nil]
    simp [hroot]

theorem prefixed_overlaps (hg : P.globset.FirstLiteral)
    (hE : ∀ e ∈ entries, ∃ raw, e.1 = new P raw) {s : Text}
    (hs : (new P request).firstLiteralSegment = some s) :
    ∀ e ∈ entries, (isPrefixed e.1 && globKey (routingKey P.caseInsensitive) e.1 ==
        routingKey P.caseInsensitive s && e.1.overlaps P.caseInsensitive (new P request)) =
      (isPrefixed e.1 && e.1.overlaps P.caseInsensitive (new P request)) := by
  intro e he
  obtain ⟨raw, hraw⟩ := hE e he
  rw [hraw]
  cases hov : (new P raw).overlaps P.caseInsensitive (new P request) with
  | false => simp
  | true =>
    rw [Bool.and_true, Bool.and_true]
    cases hp : isPrefixed (new P raw) with
    | false => rfl
    | true =>
      rw [isPrefixed, Bool.and_eq_true, Option.isSome_iff_exists] at hp
      obtain ⟨_, t, ht⟩ := hp
      rw [Bool.true_and, beq_iff_eq, globKey, ht]
      exact fold_eq_of_overlaps hg ht hs hov

/-- The glob part finds the prefixed globs that overlap the request. -/
theorem scanGlobs_perm (hg : P.globset.FirstLiteral) (hE : ∀ e ∈ entries, ∃ raw, e.1 = new P raw) :
    (scanGlobs P.caseInsensitive (PartitionedIndex.build (routingKey P.caseInsensitive) Prod.fst
        entries) (new P request) (new P request).firstLiteralSegment).Perm
      (entries.filter fun e => isPrefixed e.1 && e.1.overlaps P.caseInsensitive (new P request)) := by
  unfold scanGlobs
  cases hs : (new P request).firstLiteralSegment with
  | some s =>
    refine ((globsAt_perm _ _ entries _).filter _).trans ?_
    rw [filter_filter]
    refine (List.Perm.of_eq (filter_congr fun e he => ?_))
    rw [← prefixed_overlaps hg hE hs e he, Bool.and_comm]
  | none =>
    refine ((globsAll_perm _ _ entries).filter _).trans ?_
    rw [filter_filter]
    exact List.Perm.of_eq (filter_congr fun e _ => Bool.and_comm _ _)

section

variable (hE : ∀ e ∈ entries, ∃ raw, e.1 = new P raw)
include hE

theorem literal_hits (p : Text → Bool)
    (hp : ∀ raw, (new P raw).isGlob = false →
      ((new P raw).overlaps P.caseInsensitive (new P request) = true ↔
        p (routingKey P.caseInsensitive (new P raw).norm) = true)) :
    (entries.filter fun e => !e.1.isGlob && p (routingKey P.caseInsensitive e.1.norm)) =
      entries.filter fun e => !e.1.isGlob && e.1.overlaps P.caseInsensitive (new P request) := by
  apply filter_congr
  intro e he
  obtain ⟨raw, hraw⟩ := hE e he
  rw [hraw]
  cases hglob : (new P raw).isGlob with
  | true => rfl
  | false =>
    rw [Bool.not_false, Bool.true_and, Bool.true_and]
    exact Bool.eq_iff_iff.mpr (hp raw hglob).symm

/-- A literal request meets the literal entries on the way to it and below it, each once. -/
theorem exactRoutes_perm
    (hr : (new P request).isGlob = false) (hne : (new P request).norm ≠ []) :
    let index := PartitionedIndex.build (routingKey P.caseInsensitive) Prod.fst entries
    let norm := (new P request).norm
    (index.exactAt (routingKey P.caseInsensitive norm) ++
      index.exactAt (routingKey P.caseInsensitive []) ++
      ((ancestors norm).flatMap fun ancestor =>
        index.exactAt (routingKey P.caseInsensitive ancestor)) ++
      index.exactBelow (routingKey P.caseInsensitive norm)).Perm
    (entries.filter fun e => !e.1.isGlob && e.1.overlaps P.caseInsensitive (new P request)) := by
  intro index norm
  let key (e : CompiledPattern × ReservationRef) : Text := routingKey P.caseInsensitive e.1.norm
  let target : Text := routingKey P.caseInsensitive norm
  have htarget : target ≠ [] := by
    intro h
    exact hne ((fold_eq_nil _ _).mp h)
  have hself : (index.exactAt target).Perm
      (entries.filter fun e => !e.1.isGlob && key e == target) := exactAt_perm _ _ entries _
  have hroot : (index.exactAt (routingKey P.caseInsensitive [])).Perm
      (entries.filter fun e => !e.1.isGlob && key e == []) := exactAt_perm _ _ entries _
  have hancestors : ((ancestors norm).flatMap fun ancestor =>
        index.exactAt (routingKey P.caseInsensitive ancestor)).Perm
      (entries.filter fun e => !e.1.isGlob && (ancestors target).contains (key e)) := by
    have hkeys : (ancestors norm).map (routingKey P.caseInsensitive) = ancestors target :=
      (ancestors_fold _ _).symm
    rw [← flatMap_map, hkeys]
    refine (List.Perm.flatMap_left _ fun k _ => exactAt_perm _ _ entries k).trans ?_
    exact flatMap_key_perm entries _ key (ancestors_nodup target)
  have hbelow : (index.exactBelow target).Perm
      (entries.filter fun e => !e.1.isGlob && (target ++ ['/']).isPrefixOf (key e)) :=
    exactBelow_perm _ _ entries htarget
  -- The four routes lead to different texts: the request, the root, shorter and longer ones.
  have hlonger {k : Text} (h : (target ++ ['/']).isPrefixOf k = true) : target.length < k.length := by
    have := (List.isPrefixOf_iff_prefix.mp h).length_le
    rw [length_append, length_singleton] at this
    omega
  let routes : List (Text → Bool) :=
    [(· == target), (· == []), (ancestors target).contains, (target ++ ['/']).isPrefixOf]
  have hroutes : routes.Pairwise fun p q => ∀ k, p k = true → q k = true → False := by
    simp only [routes, pairwise_cons, forall_mem_cons, beq_iff_eq,
      contains_iff_mem, not_mem_nil, List.Pairwise.nil, and_true, false_imp_iff, implies_true]
    refine ⟨⟨?_, ?_, ?_⟩, ⟨?_, ?_⟩, ?_⟩
    · rintro k rfl h
      exact htarget h
    · rintro k rfl h
      exact absurd (length_lt_of_mem_ancestors h) (lt_irrefl _)
    · rintro k rfl h
      exact absurd (hlonger h) (lt_irrefl _)
    · rintro k rfl h
      exact nil_notMem_ancestors _ h
    · rintro k rfl h
      exact absurd (hlonger h) (by simp)
    · intro k h h'
      have := length_lt_of_mem_ancestors h
      have := hlonger h'
      omega
  refine (((hself.append hroot).append hancestors).append hbelow).trans ?_
  have hperm := flatMap_filter_perm entries (fun e => !e.1.isGlob) key hroutes
  simp only [routes, flatMap_cons, flatMap_nil, append_nil] at hperm
  rw [append_assoc, append_assoc]
  refine hperm.trans (List.Perm.of_eq (literal_hits hE (fun k => routes.any (· k)) ?_))
  intro raw hraw
  rw [exact_iff hr hne hraw]
  simp [routes, target, norm, routingKey]

theorem filter_hits
    {p : CompiledPattern × ReservationRef → Bool} :
    ((entries.filter fun e => !e.1.isGlob && p e).filter fun e =>
        (new P request).matchesPath e.1.norm || e.1.overlaps P.caseInsensitive (new P request)) =
      entries.filter fun e =>
        (!e.1.isGlob && e.1.overlaps P.caseInsensitive (new P request)) && p e := by
  rw [filter_filter]
  apply filter_congr
  intro e he
  obtain ⟨raw, hraw⟩ := hE e he
  rw [hraw]
  cases hglob : (new P raw).isGlob with
  | true => simp
  | false => simp [matchesPath_or_overlaps hglob]

end

/-- A glob request finds the literal entries that overlap it, each once. -/
theorem globRoutes_perm (hg : P.globset.FirstLiteral) (hE : ∀ e ∈ entries, ∃ raw, e.1 = new P raw)
    {s : Text} (hs : (new P request).firstLiteralSegment = some s) :
    let index := PartitionedIndex.build (routingKey P.caseInsensitive) Prod.fst entries
    let hits := List.filter fun e : CompiledPattern × ReservationRef =>
      (new P request).matchesPath e.1.norm || e.1.overlaps P.caseInsensitive (new P request)
    (hits (index.exactAt (routingKey P.caseInsensitive s)) ++
      hits (index.exactAt (routingKey P.caseInsensitive [])) ++
      ((ancestors s).flatMap fun ancestor =>
        hits (index.exactAt (routingKey P.caseInsensitive ancestor))) ++
      hits (index.exactBelow (routingKey P.caseInsensitive s))).Perm
    (entries.filter fun e => !e.1.isGlob && e.1.overlaps P.caseInsensitive (new P request)) := by
  intro index hits
  obtain ⟨_, hslash, hsne, _⟩ := splitSlash_of_firstLiteralSegment hs
  let key (e : CompiledPattern × ReservationRef) : Text := routingKey P.caseInsensitive e.1.norm
  let target : Text := routingKey P.caseInsensitive s
  have htarget : target ≠ [] := by
    intro h
    exact hsne ((fold_eq_nil _ _).mp h)
  have hlookup (k : Text) : (hits (index.exactAt k)).Perm (entries.filter fun e =>
      (!e.1.isGlob && e.1.overlaps P.caseInsensitive (new P request)) && key e == k) := by
    rw [← filter_hits hE]
    exact (exactAt_perm _ _ entries k).filter _
  have hbelow : (hits (index.exactBelow target)).Perm (entries.filter fun e =>
      (!e.1.isGlob && e.1.overlaps P.caseInsensitive (new P request)) &&
        (target ++ ['/']).isPrefixOf (key e)) := by
    rw [← filter_hits hE]
    exact (exactBelow_perm _ _ entries htarget).filter _
  let routes : List (Text → Bool) := [(· == target), (· == []), (target ++ ['/']).isPrefixOf]
  have hroutes : routes.Pairwise fun p q => ∀ k, p k = true → q k = true → False := by
    have hlonger {k : Text} (h : (target ++ ['/']).isPrefixOf k = true) :
        target.length < k.length := by
      have := (List.isPrefixOf_iff_prefix.mp h).length_le
      rw [length_append, length_singleton] at this
      omega
    simp only [routes, pairwise_cons, forall_mem_cons, beq_iff_eq, not_mem_nil,
      List.Pairwise.nil, and_true, false_imp_iff, implies_true]
    refine ⟨⟨?_, ?_⟩, ?_⟩
    · rintro k rfl h
      exact htarget h
    · rintro k rfl h
      exact absurd (hlonger h) (lt_irrefl _)
    · rintro k rfl h
      exact absurd (hlonger h) (by simp)
  rw [ancestors_of_notMem hslash, flatMap_nil, append_nil]
  refine (((hlookup _).append (hlookup _)).append hbelow).trans ?_
  have hperm := flatMap_filter_perm entries
    (fun e => !e.1.isGlob && e.1.overlaps P.caseInsensitive (new P request)) key hroutes
  simp only [routes, flatMap_cons, flatMap_nil, append_nil] at hperm
  rw [append_assoc]
  refine hperm.trans (List.Perm.of_eq (filter_congr fun e he => ?_))
  obtain ⟨raw, hraw⟩ := hE e he
  simp only [key, hraw]
  cases hhit : !(new P raw).isGlob && (new P raw).overlaps P.caseInsensitive (new P request) with
  | false => rfl
  | true =>
    rw [Bool.and_eq_true, Bool.not_eq_true'] at hhit
    by_cases hroot : (new P raw).norm = []
    · simp [hroot, routingKey]
    · rcases fold_norm_of_overlaps hg hs hhit.1 hroot hhit.2 with h | h
      · simp [h, target, routingKey]
      · simp [h, target, routingKey]

end

/-- `find_conflicts` reports exactly the reservations whose pattern overlaps the request, each
as often as it was stored. -/
theorem findConflicts_perm (P : Platform) (hg : P.globset.FirstLiteral)
    (reservations : List (Text × ReservationRef)) (request : Text) :
    (findConflicts P.caseInsensitive (build P reservations) (new P request)).Perm
      ((reservations.filter fun r =>
        (new P r.1).overlaps P.caseInsensitive (new P request)).map (·.2)) := by
  let entries := reservations.map fun r => (new P r.1, r.2)
  have hE : ∀ e ∈ entries, ∃ raw, e.1 = new P raw := by
    intro e he
    obtain ⟨r, _, rfl⟩ := mem_map.mp he
    exact ⟨r.1, rfl⟩
  have hglobs := @scanGlobs_perm P request entries hg hE
  have hscanned : (if (new P request).isGlob || (new P request).norm.isEmpty then
        scanGlobRequest P.caseInsensitive (build P reservations) (new P request)
          (new P request).firstLiteralSegment
      else
        scanExactRequest P.caseInsensitive (build P reservations) (new P request)
          (new P request).norm (new P request).firstLiteralSegment).Perm
      ((entries.filter fun e => !e.1.isGlob && e.1.overlaps P.caseInsensitive (new P request)) ++
        entries.filter fun e =>
          isPrefixed e.1 && e.1.overlaps P.caseInsensitive (new P request)) := by
    split
    · next hr =>
      unfold scanGlobRequest
      cases hs : (new P request).firstLiteralSegment with
      | some s =>
        rw [hs] at hglobs
        exact (globRoutes_perm hg hE hs).append hglobs
      | none =>
        rw [hs] at hglobs
        refine List.Perm.append ?_ hglobs
        refine ((exactAll_perm _ _ entries).filter _).trans ?_
        have hall := @filter_hits P request entries hE (fun _ => true)
        simp only [Bool.and_true] at hall
        rw [hall]
    · next hr =>
      simp only [Bool.or_eq_true, not_or, Bool.not_eq_true, isEmpty_eq_false_iff] at hr
      unfold scanExactRequest
      rw [isEmpty_eq_false_iff.mpr hr.2, if_neg Bool.false_ne_true]
      exact (exactRoutes_perm hE hr.1 hr.2).append hglobs
  have hroot : (build P reservations).rootGlobs.filter
        (fun e => e.1.overlaps P.caseInsensitive (new P request)) =
      entries.filter fun e =>
        isRootGlob e.1 && e.1.overlaps P.caseInsensitive (new P request) := by
    rw [build, rootGlobs_build, filter_filter]
    exact filter_congr fun e _ => Bool.and_comm _ _
  unfold findConflicts
  dsimp only
  rw [hroot]
  refine ((hscanned.append_right _).trans (partition_perm Prod.fst entries _)).map _ |>.trans ?_
  rw [filter_map, map_map]
  exact .refl _

theorem findConflicts_below_directory :
    exactPlatform.globset.FirstLiteral ∧ (findConflicts false
      (build exactPlatform
        [("src/auth".toList, ⟨1, "src/auth".toList, true, 0⟩),
         ("docs/*".toList, ⟨2, "docs/*".toList, true, 0⟩),
         ("src/**".toList, ⟨3, "src/**".toList, true, 0⟩)])
      (new exactPlatform "src/auth/login.rs".toList)).Perm
      [⟨1, "src/auth".toList, true, 0⟩, ⟨3, "src/**".toList, true, 0⟩] := by
  refine ⟨simpleGlobset_firstLiteral, ?_⟩
  refine (findConflicts_perm exactPlatform simpleGlobset_firstLiteral _ _).trans ?_
  exact .of_eq (by decide +kernel)

end ReservationIndex

end AgentMail.Reservation
