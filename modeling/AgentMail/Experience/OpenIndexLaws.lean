import AgentMail.Experience.OpenIndexConsistent

/-!
# What the open-experience index promises

Its three indexes hold the same ids, the flags say which subjects have several open experiences, the
counters add up, and the sweep finds what is due.
-/

namespace AgentMail.Experience

open Base Lib List

/-- What the sweep at `now` says of an open experience. -/
def candidateOf (now : I64) (x : Nat × OpenExperienceEntry) : ResolutionCandidate :=
  ⟨x.2.experienceId, x.2.decisionId, x.2.createdTsMicros, x.2.effectKind,
    saturatingSub now x.2.createdTsMicros⟩

/-- An experience is due when it was created at or before `now - window`, or at the least time
there is. -/
def isDue (now window : I64) (x : Nat × OpenExperienceEntry) : Bool :=
  decide (x.2.createdTsMicros.1 ≤ now.1 - window.1 ∨ x.2.createdTsMicros.1 = i64Min)

structure IndexLaws (capacity : Nat) (window : I64) (idx : OpenExperienceIndex) : Prop where
  ids : (idx.entries.map (·.1)).Nodup
  own : ∀ x ∈ idx.entries, x.2.experienceId = x.1
  subjects : (idx.bySubject.map (·.1)).Nodup ∧ ∀ set ∈ idx.bySubject, set.2 ≠ []
  bySubject : (idx.bySubject.flatMap fun set => set.2.map (set.1, ·)).Perm
    (idx.entries.map fun x => (subjectKey x.2.subject, x.1))
  creations : ∀ list ∈ idx.byCreation.entries, list.2 ≠ []
  byCreation : idx.byCreation.items.Perm (idx.entries.map fun x => (x.2.createdTsMicros, x.1))
  bounded : idx.entries.length ≤ max capacity 1
  flagged : ∀ x ∈ idx.entries, (x.2.potentiallyConfounded = true ↔
    ∃ y ∈ idx.entries, y.1 ≠ x.1 ∧ eqIgnoreAsciiCase y.2.subject x.2.subject = true)
  balance : idx.totalAdded = BitVec.ofNat 64 idx.entries.length + idx.totalResolved +
    idx.totalExpired + idx.totalCensored + idx.totalEvicted
  due : ∀ now, (idx.expiredCandidates now).Perm
    ((idx.entries.filter (isDue now window)).map (candidateOf now))

section

variable {idx : OpenExperienceIndex}

theorem subjectOf_eq_some (h : (idx.entries.map (·.1)).Nodup) {id : Nat} {key : Text} :
    subjectOf idx.entries id = some key ↔ ∃ e, (id, e) ∈ idx.entries ∧ subjectKey e.subject = key := by
  rw [subjectOf, Option.map_eq_some_iff]
  simp only [Assoc.get?_eq_some h]

theorem createdAt_eq_some (h : (idx.entries.map (·.1)).Nodup) {id : Nat} {ts : I64} :
    createdAt idx.entries id = some ts ↔ ∃ e, (id, e) ∈ idx.entries ∧ e.createdTsMicros = ts := by
  rw [createdAt, Option.map_eq_some_iff]
  simp only [Assoc.get?_eq_some h]

theorem CreationFits.items_perm (h : CreationFits idx.entries idx.byCreation)
    (hids : (idx.entries.map (·.1)).Nodup) :
    idx.byCreation.items.Perm (idx.entries.map fun x => (x.2.createdTsMicros, x.1)) := by
  have hright : (idx.entries.map fun x => (x.2.createdTsMicros, x.1)).Nodup := by
    apply List.Nodup.of_map (·.2)
    rw [map_map]
    exact hids
  rw [perm_ext_iff_of_nodup (List.Nodup.of_map _ h.ids) hright]
  rintro ⟨ts, id⟩
  rw [h.listed, createdAt_eq_some hids, mem_map]
  simp only [Prod.exists, Prod.mk.injEq]
  constructor
  · rintro ⟨e, hmem, hts⟩
    exact ⟨id, e, hmem, hts, rfl⟩
  · rintro ⟨_, e, hmem, hts, rfl⟩
    exact ⟨e, hmem, hts⟩

theorem SubjectsFit.sets_perm (h : SubjectsFit idx.entries idx.bySubject) :
    (idx.bySubject.flatMap fun set => set.2.map (set.1, ·)).Perm
      (idx.entries.map fun x => (subjectKey x.2.subject, x.1)) := by
  have hright : (idx.entries.map fun x => (subjectKey x.2.subject, x.1)).Nodup := by
    apply List.Nodup.of_map (·.2)
    rw [map_map]
    exact h.ids
  have hleft : (idx.bySubject.flatMap fun set => set.2.map (set.1, ·)).Nodup := by
    rw [nodup_flatMap]
    constructor
    · intro set hset
      have hget := (Assoc.get?_eq_some h.subjects).mpr hset
      exact (h.sets set.1 set.2 hget).2.map (Prod.mk_right_injective _)
    · refine (pairwise_map.mp h.subjects).imp ?_
      intro set other hne x hx hother
      obtain ⟨_, _, rfl⟩ := mem_map.mp hx
      obtain ⟨_, _, heq⟩ := mem_map.mp hother
      exact hne (Prod.mk.inj heq).1.symm
  rw [perm_ext_iff_of_nodup hleft hright]
  rintro ⟨key, id⟩
  have hlisted := h.listed key id
  rw [subjectOf_eq_some h.ids] at hlisted
  rw [mem_flatMap, mem_map]
  simp only [Prod.exists, Prod.mk.injEq]
  constructor
  · rintro ⟨key', ids, hset, hmem⟩
    obtain ⟨id', hid, heq⟩ := mem_map.mp hmem
    cases heq
    have hin : id ∈ subjectIds idx.bySubject key := by
      rw [subjectIds, (Assoc.get?_eq_some h.subjects).mpr hset]
      exact hid
    obtain ⟨e, he, hkey⟩ := hlisted.mp hin
    exact ⟨id, e, he, hkey, rfl⟩
  · rintro ⟨_, e, he, hkey, rfl⟩
    have hin := hlisted.mpr ⟨e, he, hkey⟩
    rw [subjectIds] at hin
    cases hset : Assoc.get? key idx.bySubject with
    | none =>
      rw [hset] at hin
      cases hin
    | some ids =>
      rw [hset] at hin
      exact ⟨key, ids, Assoc.mem_of_get? hset, mem_map_of_mem hin⟩

theorem SubjectsFit.flagged_iff (h : SubjectsFit idx.entries idx.bySubject)
    {x : Nat × OpenExperienceEntry} (hx : x ∈ idx.entries) :
    x.2.potentiallyConfounded = true ↔
      ∃ y ∈ idx.entries, y.1 ≠ x.1 ∧ eqIgnoreAsciiCase y.2.subject x.2.subject = true := by
  rw [h.flagged x.1 x.2 ((Assoc.get?_eq_some h.ids).mpr hx)]
  constructor
  · rintro ⟨id, hid, hne⟩
    obtain ⟨e, he, hkey⟩ := (subjectOf_eq_some h.ids).mp ((h.listed _ _).mp hid)
    exact ⟨(id, e), he, hne, beq_iff_eq.mpr hkey⟩
  · rintro ⟨y, hy, hne, hkey⟩
    refine ⟨y.1, ?_, hne⟩
    rw [h.listed, subjectOf_eq_some h.ids]
    exact ⟨y.2, hy, beq_iff_eq.mp hkey⟩

/-- The saturated difference bounds the `i64` values that the difference bounds, and the least. -/
theorem le_saturatingSub_iff (ts now window : I64) :
    ts.1 ≤ saturatingSub now window ↔ ts.1 ≤ now.1 - window.1 ∨ ts.1 = i64Min := by
  have hts := ts.2
  rw [saturatingSub, clampI64]
  omega

theorem expiredCandidates_perm (h : Consistent idx) (now : I64) :
    (idx.expiredCandidates now).Perm
      ((idx.entries.filter (isDue now idx.resolutionWindowMicros)).map (candidateOf now)) := by
  let test (ts : I64) : Bool := decide (ts.1 ≤ saturatingSub now idx.resolutionWindowMicros)
  let report (id : Nat) : Option ResolutionCandidate :=
    (Assoc.get? id idx.entries).map fun entry => candidateOf now (id, entry)
  have hdown (ts ts' : I64) (hlt : ts < ts') (ht : test ts' = true) : test ts = true := by
    have hlt' : ts.1 < ts'.1 := hlt
    have ht' := of_decide_eq_true ht
    exact decide_eq_true (by omega)
  have hwalk : idx.expiredCandidates now =
      ((idx.byCreation.items.filter (test ·.1)).map (·.2)).filterMap report := by
    rw [BucketMap.filter_items, ← BucketMap.takeWhile_entries _ hdown, filterMap_flatMap]
    rfl
  rw [hwalk]
  refine (((h.creation.items_perm h.subjects.ids).filter _).map _ |>.filterMap _).trans ?_
  rw [filter_map, map_map, filterMap_map]
  have hdue (x : Nat × OpenExperienceEntry) :
      ((fun p : I64 × Nat => test p.1) ∘ fun x : Nat × OpenExperienceEntry =>
        (x.2.createdTsMicros, x.1)) x = isDue now idx.resolutionWindowMicros x := by
    exact decide_eq_decide.mpr (le_saturatingSub_iff ..)
  rw [filter_congr fun x _ => hdue x]
  refine List.Perm.of_eq ?_
  rw [← filterMap_eq_map]
  apply filterMap_congr
  intro x hx
  have hget := (Assoc.get?_eq_some h.subjects.ids).mpr (mem_of_mem_filter hx)
  show (Assoc.get? x.1 idx.entries).map _ = some (candidateOf now x)
  rw [hget]
  rfl

end

/-- From the empty index, whatever is added and marked: every call ends, and the index keeps its
promises. A capacity of zero counts as one, and the difference `now - window` saturates. -/
theorem indexLaws_run (capacity : Nat) (window : I64) (calls : List IndexCall)
    (hflags : ∀ entry, IndexCall.add entry ∈ calls → entry.potentiallyConfounded = false) :
    ∃ enough, ∀ fuel, enough ≤ fuel → ∃ idx,
      OpenExperienceIndex.run fuel capacity window calls = .ok idx ∧
      IndexLaws capacity window idx := by
  refine ⟨max capacity 1 + 1, fun fuel hfuel => ?_⟩
  have henough : max capacity 1 < fuel := hfuel
  obtain ⟨idx, hrun, h, hcap, hwindow⟩ := consistent_run henough window hflags
  refine ⟨idx, hrun, ?_⟩
  exact {
    ids := h.subjects.ids
    own := fun x hx => h.subjects.own x.1 x.2 ((Assoc.get?_eq_some h.subjects.ids).mpr hx)
    subjects := ⟨h.subjects.subjects, fun set hset =>
      (h.subjects.sets set.1 set.2 ((Assoc.get?_eq_some h.subjects.subjects).mpr hset)).1⟩
    bySubject := h.subjects.sets_perm
    creations := h.creation.full
    byCreation := h.creation.items_perm h.subjects.ids
    bounded := hcap ▸ h.bounded
    flagged := fun x hx => h.subjects.flagged_iff hx
    balance := h.balance
    due := fun now => hwindow ▸ expiredCandidates_perm h now }

/-- An experience of the least time there is. -/
def ancient : OpenExperienceEntry :=
  ⟨1, 7, "bluelake".toList, ⟨i64Min, by decide⟩, "probe".toList, "liveness".toList, false⟩

theorem indexLaws_run_ancient : ∃ enough, ∀ fuel, enough ≤ fuel → ∃ idx,
    OpenExperienceIndex.run fuel 0 ⟨i64Max, by decide⟩ [.add ancient, .markExpired 2] = .ok idx ∧
      IndexLaws 0 ⟨i64Max, by decide⟩ idx := by
  apply indexLaws_run
  intro entry hentry
  simp only [mem_cons, IndexCall.add.injEq, reduceCtorEq, not_mem_nil, or_false] at hentry
  rw [hentry]
  rfl

/-- With capacity zero there is one entry, and it is due although it was created after the time
minus the window. -/
theorem sweep_lists_ancient : ∃ idx,
    OpenExperienceIndex.run 2 0 ⟨i64Max, by decide⟩ [.add ancient] = .ok idx ∧
      ¬ idx.entries.length ≤ 0 ∧
      (idx.expiredCandidates ⟨-2, by decide⟩).map (·.experienceId) = [ancient.experienceId] ∧
      ¬ ancient.createdTsMicros.1 ≤ -2 - i64Max := by
  refine ⟨_, rfl, ?_, ?_, ?_⟩
  · decide
  · decide
  · decide

end AgentMail.Experience
