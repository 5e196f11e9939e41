import AgentMail.Experience.OpenIndex

/-!
# The open-experience index stays consistent

One removal and one insertion keep entries, subject sets and creation lists in step; evictions make
room, so every call ends.
-/

namespace AgentMail.Experience

open Base Lib List

/-- The ids of a subject. -/
def subjectIds (bySubject : List (Text × List Nat)) (key : Text) : List Nat :=
  (Assoc.get? key bySubject).getD []

/-- When an open experience was created. -/
def createdAt (entries : List (Nat × OpenExperienceEntry)) (id : Nat) : Option I64 :=
  (Assoc.get? id entries).map (·.createdTsMicros)

/-- Which subject an open experience is about. -/
def subjectOf (entries : List (Nat × OpenExperienceEntry)) (id : Nat) : Option Text :=
  (Assoc.get? id entries).map fun e => subjectKey e.subject

/-- The subject sets and the flags fit the entries. -/
structure SubjectsFit (entries : List (Nat × OpenExperienceEntry))
    (bySubject : List (Text × List Nat)) : Prop where
  ids : (entries.map (·.1)).Nodup
  own : ∀ id e, Assoc.get? id entries = some e → e.experienceId = id
  subjects : (bySubject.map (·.1)).Nodup
  sets : ∀ key ids, Assoc.get? key bySubject = some ids → ids ≠ [] ∧ ids.Nodup
  listed : ∀ key id, id ∈ subjectIds bySubject key ↔ subjectOf entries id = some key
  flagged : ∀ id e, Assoc.get? id entries = some e →
    (e.potentiallyConfounded = true ↔ ∃ id' ∈ subjectIds bySubject (subjectKey e.subject), id' ≠ id)

/-- The creation lists fit the entries. -/
structure CreationFits (entries : List (Nat × OpenExperienceEntry))
    (byCreation : BucketMap I64 Nat) : Prop where
  full : byCreation.Full
  ids : (byCreation.items.map (·.2)).Nodup
  listed : ∀ ts id, (ts, id) ∈ byCreation.items ↔ createdAt entries id = some ts

structure Consistent (idx : OpenExperienceIndex) : Prop where
  subjects : SubjectsFit idx.entries idx.bySubject
  creation : CreationFits idx.entries idx.byCreation
  room : 1 ≤ idx.capacity
  bounded : idx.entries.length ≤ idx.capacity
  balance : idx.totalAdded = BitVec.ofNat 64 idx.entries.length + idx.totalResolved +
    idx.totalExpired + idx.totalCensored + idx.totalEvicted

/-! ### Marking -/

section

variable {entries : List (Nat × OpenExperienceEntry)} {bySubject : List (Text × List Nat)}

@[simp] theorem keys_markConfounded (flag : Bool) (id : Nat) :
    (OpenExperienceIndex.markConfounded flag entries id).map (·.1) = entries.map (·.1) :=
  Assoc.keys_modify id _ entries

theorem get?_markConfounded (flag : Bool) (id id' : Nat) :
    Assoc.get? id' (OpenExperienceIndex.markConfounded flag entries id) =
      (Assoc.get? id' entries).map fun e =>
        if id' = id then { e with potentiallyConfounded := flag } else e := by
  rw [OpenExperienceIndex.markConfounded, Assoc.get?_modify]
  by_cases h : id = id'
  · rw [if_pos h]
    simp [h]
  · rw [if_neg h]
    simp [Ne.symm h]

theorem keys_foldl_markConfounded (flag : Bool) (ids : List Nat) :
    (ids.foldl (OpenExperienceIndex.markConfounded flag) entries).map (·.1) =
      entries.map (·.1) := by
  induction ids generalizing entries with
  | nil => rfl
  | cons id ids ih => rw [foldl_cons, ih, keys_markConfounded]

theorem get?_foldl_markConfounded (flag : Bool) (ids : List Nat) (id' : Nat) :
    Assoc.get? id' (ids.foldl (OpenExperienceIndex.markConfounded flag) entries) =
      (Assoc.get? id' entries).map fun e =>
        if id' ∈ ids then { e with potentiallyConfounded := flag } else e := by
  induction ids generalizing entries with
  | nil => simp
  | cons id ids ih =>
    rw [foldl_cons, ih, get?_markConfounded, Option.map_map]
    congr 1
    funext e
    by_cases h : id' = id
    · simp [h]
    · simp [h]

/-- What of an entry does not depend on its flag. -/
theorem subjectOf_foldl_markConfounded (flag : Bool) (ids : List Nat) (id : Nat) :
    subjectOf (ids.foldl (OpenExperienceIndex.markConfounded flag) entries) id =
      subjectOf entries id := by
  rw [subjectOf, get?_foldl_markConfounded, Option.map_map, subjectOf]
  congr 1
  funext e
  dsimp only [Function.comp_apply]
  split <;> rfl

theorem createdAt_foldl_markConfounded (flag : Bool) (ids : List Nat) (id : Nat) :
    createdAt (ids.foldl (OpenExperienceIndex.markConfounded flag) entries) id =
      createdAt entries id := by
  rw [createdAt, get?_foldl_markConfounded, Option.map_map, createdAt]
  congr 1
  funext e
  dsimp only [Function.comp_apply]
  split <;> rfl

theorem own_foldl_markConfounded (flag : Bool) (ids : List Nat)
    (hown : ∀ id e, Assoc.get? id entries = some e → e.experienceId = id) (id : Nat)
    (e : OpenExperienceEntry)
    (he : Assoc.get? id (ids.foldl (OpenExperienceIndex.markConfounded flag) entries) = some e) :
    e.experienceId = id := by
  rw [get?_foldl_markConfounded, Option.map_eq_some_iff] at he
  obtain ⟨e', he', rfl⟩ := he
  split
  · exact hown id e' he'
  · exact hown id e' he'

end

theorem SubjectsFit.nodup_subjectIds {entries : List (Nat × OpenExperienceEntry)}
    {bySubject : List (Text × List Nat)} (h : SubjectsFit entries bySubject) (key : Text) :
    (subjectIds bySubject key).Nodup := by
  rw [subjectIds]
  cases hset : Assoc.get? key bySubject with
  | none => exact nodup_nil
  | some ids => exact (h.sets key ids hset).2

/-! ### One entry less -/

section

variable {idx : OpenExperienceIndex} {id : Nat} {e : OpenExperienceEntry}

theorem subjectIds_erase (bySubject : List (Text × List Nat)) (key key' : Text) (id : Nat) :
    subjectIds (Assoc.modify key (·.erase id) bySubject) key' =
      if key = key' then (subjectIds bySubject key').erase id else subjectIds bySubject key' := by
  rw [subjectIds, Assoc.get?_modify]
  split
  · rw [subjectIds]
    cases Assoc.get? key' bySubject <;> rfl
  · rfl

theorem subjectOf_erase (entries : List (Nat × OpenExperienceEntry)) (id id' : Nat) :
    subjectOf (Assoc.erase id entries) id' = if id = id' then none else subjectOf entries id' := by
  rw [subjectOf, Assoc.get?_erase]
  split <;> rfl

/-- The reconciliation of the sets changes no set as such. -/
theorem subjectIds_erase_empty {bySubject : List (Text × List Nat)} {key : Text}
    (h : Assoc.get? key bySubject = some []) (key' : Text) :
    subjectIds (Assoc.erase key bySubject) key' = subjectIds bySubject key' := by
  rw [subjectIds, Assoc.get?_erase]
  split
  · next hkey =>
    rw [subjectIds, ← hkey, h]
    rfl
  · rfl

/-- The sets without one id, before the reconciliation. -/
theorem SubjectsFit.listed_erase (h : SubjectsFit idx.entries idx.bySubject)
    (he : Assoc.get? id idx.entries = some e) (key : Text) (id' : Nat) :
    id' ∈ subjectIds (Assoc.modify (subjectKey e.subject) (·.erase id) idx.bySubject) key ↔
      subjectOf (Assoc.erase id idx.entries) id' = some key := by
  have hself : subjectOf idx.entries id = some (subjectKey e.subject) := by rw [subjectOf, he]; rfl
  rw [subjectIds_erase, subjectOf_erase]
  by_cases hid : id = id'
  · subst hid
    rw [if_pos rfl]
    split
    · next hkey =>
      simp [(h.nodup_subjectIds key).not_mem_erase]
    · next hkey =>
      rw [h.listed, hself]
      simp [hkey]
  · rw [if_neg hid]
    split
    · rw [mem_erase_of_ne (Ne.symm hid), h.listed]
    · rw [h.listed]

/-- What the reconciliation does to sets and flags. -/
theorem forgetSubject_cases (idx : OpenExperienceIndex) (key : Text) (id : Nat) :
    ∃ marked bySubject, idx.forgetSubject key id = { idx with
          entries := marked.foldl (OpenExperienceIndex.markConfounded false) idx.entries
          bySubject := bySubject } ∧ (bySubject.map (·.1)).Sublist (idx.bySubject.map (·.1)) ∧
      (∀ key', subjectIds bySubject key' =
        subjectIds (Assoc.modify key (·.erase id) idx.bySubject) key') ∧
      Assoc.get? key bySubject ≠ some [] ∧
      (∀ key', key' ≠ key → Assoc.get? key' bySubject = Assoc.get? key' idx.bySubject) ∧
      ((∃ only, marked = [only] ∧ subjectIds bySubject key = [only]) ∨
        marked = [] ∧ (subjectIds bySubject key).length ≠ 1) := by
  have hother (key' : Text) (hne : key' ≠ key) :
      Assoc.get? key' (Assoc.modify key (·.erase id) idx.bySubject) =
        Assoc.get? key' idx.bySubject := by
    rw [Assoc.get?_modify, if_neg (Ne.symm hne)]
  have hkeys := Assoc.keys_modify key (fun ids : List Nat => ids.erase id) idx.bySubject
  unfold OpenExperienceIndex.forgetSubject OpenExperienceIndex.reconcileSubjectConfounding
  dsimp only
  generalize hsets : Assoc.modify key (fun ids : List Nat => ids.erase id) idx.bySubject = sets at *
  split
  · next hempty =>
    refine ⟨[], Assoc.erase key sets, rfl, ?_, subjectIds_erase_empty hempty, ?_, ?_, .inr ⟨rfl, ?_⟩⟩
    · rw [← hkeys]
      exact filter_sublist.map _
    · rw [Assoc.get?_erase, if_pos rfl]
      simp
    · intro key' hne
      rw [Assoc.get?_erase, if_neg (Ne.symm hne), hother key' hne]
    · rw [subjectIds_erase_empty hempty, subjectIds, hempty]
      exact Nat.zero_ne_one
  · next only hone =>
    refine ⟨[only], sets, rfl, ?_, fun _ => rfl, ?_, hother, .inl ⟨only, rfl, ?_⟩⟩
    · rw [hkeys]
    · rw [hone]
      simp
    · rw [subjectIds, hone]
      rfl
  · next hnil hone =>
    refine ⟨[], sets, rfl, ?_, fun _ => rfl, hnil, hother, .inr ⟨rfl, ?_⟩⟩
    · rw [hkeys]
    · intro hlen
      obtain ⟨only, honly⟩ := length_eq_one_iff.mp hlen
      rw [subjectIds, Option.getD_eq_iff] at honly
      cases honly with
      | inl hset => exact hone only hset
      | inr hset => cases hset.2

/-- Without one entry the flags of its subject are right again: its last other entry is marked, and
where there are two they stay confounded. -/
theorem SubjectsFit.flagged_forget (h : SubjectsFit idx.entries idx.bySubject)
    (he : Assoc.get? id idx.entries = some e) {marked : List Nat}
    {bySubject : List (Text × List Nat)} (hlisted : ∀ key id', id' ∈ subjectIds bySubject key ↔
      subjectOf (Assoc.erase id idx.entries) id' = some key)
    (hother : ∀ key', key' ≠ subjectKey e.subject →
      Assoc.get? key' bySubject = Assoc.get? key' idx.bySubject)
    (hids : (subjectIds bySubject (subjectKey e.subject)).Nodup)
    (hmarked : (∃ only, marked = [only] ∧ subjectIds bySubject (subjectKey e.subject) = [only]) ∨
      marked = [] ∧ (subjectIds bySubject (subjectKey e.subject)).length ≠ 1)
    {id' : Nat} {e₀ : OpenExperienceEntry}
    (he₀ : Assoc.get? id' (Assoc.erase id idx.entries) = some e₀) :
    (if id' ∈ marked then { e₀ with potentiallyConfounded := false } else e₀).potentiallyConfounded =
      true ↔ ∃ other ∈ subjectIds bySubject (subjectKey
        (if id' ∈ marked then { e₀ with potentiallyConfounded := false } else e₀).subject),
      other ≠ id' := by
  have hsubject : (if id' ∈ marked then { e₀ with potentiallyConfounded := false } else e₀).subject =
      e₀.subject := by split <;> rfl
  have hmem : id' ∈ subjectIds bySubject (subjectKey e₀.subject) := by
    rw [hlisted, subjectOf, he₀]
    rfl
  rw [Assoc.get?_erase] at he₀
  split at he₀
  · cases he₀
  next hne =>
  rw [hsubject]
  by_cases hkey : subjectKey e₀.subject = subjectKey e.subject
  · rw [hkey] at hmem ⊢
    -- The entry that goes has confounded this one.
    have hflag : e₀.potentiallyConfounded = true := by
      rw [h.flagged id' e₀ he₀, hkey]
      exact ⟨id, (h.listed _ _).mpr (by rw [subjectOf, he]; rfl), hne⟩
    rcases hmarked with ⟨only, rfl, honly⟩ | ⟨rfl, hlen⟩
    · rw [honly, mem_singleton] at hmem
      rw [if_pos (mem_singleton.mpr hmem), honly, hmem]
      simp
    · rw [if_neg not_mem_nil, hflag]
      refine iff_of_true rfl ?_
      by_contra hnone
      push Not at hnone
      rw [eq_singleton_of_nodup hids hmem hnone] at hlen
      exact hlen rfl
  · have hnot : id' ∉ marked := by
      intro hin
      rcases hmarked with ⟨only, rfl, honly⟩ | ⟨rfl, -⟩
      · have honly' : only ∈ subjectIds bySubject (subjectKey e.subject) := by simp [honly]
        rw [← mem_singleton.mp hin, hlisted, subjectOf, Assoc.get?_erase, if_neg hne, he₀]
          at honly'
        exact hkey (Option.some.inj honly')
      · cases hin
    rw [if_neg hnot, subjectIds, hother _ hkey]
    exact h.flagged id' e₀ he₀

/-- Without one entry: the other entries keep all but the flag. -/
theorem SubjectsFit.forget (idx : OpenExperienceIndex) (h : SubjectsFit idx.entries idx.bySubject)
    (he : Assoc.get? id idx.entries = some e) :
    ∃ entries bySubject,
      OpenExperienceIndex.forgetSubject { idx with entries := Assoc.erase id idx.entries }
        (subjectKey e.subject) id = { idx with entries := entries, bySubject := bySubject } ∧
      SubjectsFit entries bySubject ∧ entries.map (·.1) = (Assoc.erase id idx.entries).map (·.1) ∧
      ∀ id', createdAt entries id' = if id = id' then none else createdAt idx.entries id' := by
  obtain ⟨marked, bySubject, heq, hsub, hids, hne, hother, hmarked⟩ := forgetSubject_cases
    { idx with entries := Assoc.erase id idx.entries } (subjectKey e.subject) id
  dsimp only at heq hsub hids hother
  have hlisted (key : Text) (id' : Nat) : id' ∈ subjectIds bySubject key ↔
      subjectOf (Assoc.erase id idx.entries) id' = some key := by
    rw [hids, h.listed_erase he]
  have hnodup : (subjectIds bySubject (subjectKey e.subject)).Nodup := by
    rw [hids, subjectIds_erase, if_pos rfl]
    exact (h.nodup_subjectIds _).erase _
  refine ⟨_, bySubject, heq, ?_, keys_foldl_markConfounded false marked, ?_⟩
  · refine ⟨?_, ?_, h.subjects.sublist hsub, ?_, ?_, ?_⟩
    · rw [keys_foldl_markConfounded]
      exact Assoc.nodup_keys_erase h.ids
    · apply own_foldl_markConfounded false marked
      intro id' e' he'
      rw [Assoc.get?_erase] at he'
      split at he'
      · cases he'
      · exact h.own id' e' he'
    · intro key ids hset
      by_cases hkey : key = subjectKey e.subject
      · subst hkey
        rw [subjectIds, hset] at hnodup
        exact ⟨fun hnil => hne (hnil ▸ hset), hnodup⟩
      · rw [hother key hkey] at hset
        exact h.sets key ids hset
    · intro key id'
      rw [hlisted, subjectOf_foldl_markConfounded]
    · intro id' e' he'
      rw [get?_foldl_markConfounded, Option.map_eq_some_iff] at he'
      obtain ⟨e₀, he₀, rfl⟩ := he'
      exact h.flagged_forget he hlisted hother hnodup hmarked he₀
  · intro id'
    rw [createdAt_foldl_markConfounded, createdAt, Assoc.get?_erase]
    split <;> rfl

end

/-! ### One entry more -/

section

variable {idx : OpenExperienceIndex} {entry : OpenExperienceEntry}

/-- The index with one entry more; it confounds the others of its subject and they it. -/
def OpenExperienceIndex.placed (idx : OpenExperienceIndex) (entry : OpenExperienceEntry) :
    OpenExperienceIndex :=
  let ids := subjectIds idx.bySubject (subjectKey entry.subject)
  insertEntry { idx with entries := ids.foldl (markConfounded true) idx.entries }
    { entry with potentiallyConfounded := !ids.isEmpty } (subjectKey entry.subject)

theorem add_of_room {fuel : Nat} {idx' : OpenExperienceIndex}
    (hnew : Assoc.contains entry.experienceId idx.entries = false)
    (hroom : OpenExperienceIndex.makeRoom fuel idx = .ok idx')
    (hflag : entry.potentiallyConfounded = false) :
    idx.add fuel entry = .ok (idx'.placed entry) := by
  have hclear : { entry with potentiallyConfounded := false } = entry := by rw [← hflag]
  rw [OpenExperienceIndex.add, hnew, if_neg Bool.false_ne_true, hroom]
  unfold OpenExperienceIndex.placed
  rw [subjectIds]
  cases hset : Assoc.get? (subjectKey entry.subject) idx'.bySubject with
  | none => simp [bind, Except.bind, pure, Except.pure, hset, hclear]
  | some ids =>
    cases ids with
    | nil => simp [bind, Except.bind, pure, Except.pure, hset, hclear]
    | cons id ids => simp [bind, Except.bind, pure, Except.pure, hset]

theorem subjectOf_placed (id : Nat) :
    subjectOf (idx.placed entry).entries id = if entry.experienceId = id then
      some (subjectKey entry.subject) else subjectOf idx.entries id := by
  show subjectOf (Assoc.insert _ _ _) id = _
  rw [subjectOf, Assoc.get?_insert]
  split
  · rfl
  · exact subjectOf_foldl_markConfounded true _ id

theorem createdAt_placed (id : Nat) :
    createdAt (idx.placed entry).entries id = if entry.experienceId = id then
      some entry.createdTsMicros else createdAt idx.entries id := by
  show createdAt (Assoc.insert _ _ _) id = _
  rw [createdAt, Assoc.get?_insert]
  split
  · rfl
  · exact createdAt_foldl_markConfounded true _ id

theorem subjectIds_placed (key : Text) :
    subjectIds (idx.placed entry).bySubject key = if subjectKey entry.subject = key then
      (subjectIds idx.bySubject key).insert entry.experienceId else
      subjectIds idx.bySubject key := by
  show subjectIds (Assoc.insert _ _ _) key = _
  rw [subjectIds, Assoc.get?_insert]
  split
  · next hkey =>
    subst hkey
    rfl
  · rfl

theorem SubjectsFit.placed (h : SubjectsFit idx.entries idx.bySubject)
    (hnew : Assoc.get? entry.experienceId idx.entries = none) :
    SubjectsFit (idx.placed entry).entries (idx.placed entry).bySubject := by
  have hfresh (key : Text) : entry.experienceId ∉ subjectIds idx.bySubject key := by
    rw [h.listed, subjectOf, hnew]
    nofun
  refine ⟨?_, ?_, Assoc.nodup_keys_insert h.subjects, ?_, ?_, ?_⟩
  · apply Assoc.nodup_keys_insert
    rw [keys_foldl_markConfounded]
    exact h.ids
  · intro id e he
    rw [OpenExperienceIndex.placed, OpenExperienceIndex.insertEntry, Assoc.get?_insert] at he
    split at he
    · next hid =>
      cases he
      exact hid
    · exact own_foldl_markConfounded true _ h.own id e he
  · intro key ids hset
    rw [OpenExperienceIndex.placed, OpenExperienceIndex.insertEntry, Assoc.get?_insert] at hset
    split at hset
    · cases hset
      exact ⟨ne_nil_of_mem (mem_insert_self ..), (h.nodup_subjectIds _).insert⟩
    · exact h.sets key ids hset
  · intro key id
    rw [subjectIds_placed, subjectOf_placed]
    by_cases hkey : subjectKey entry.subject = key
    · rw [if_pos hkey, mem_insert_iff, h.listed]
      by_cases hid : entry.experienceId = id
      · simp [hid, hkey]
      · simp [hid, Ne.symm hid]
    · rw [if_neg hkey, h.listed]
      by_cases hid : entry.experienceId = id
      · subst hid
        rw [if_pos rfl, subjectOf, hnew]
        simp [hkey]
      · rw [if_neg hid]
  · intro id e he
    rw [OpenExperienceIndex.placed, OpenExperienceIndex.insertEntry, Assoc.get?_insert] at he
    rw [subjectIds_placed]
    split at he
    · next hid =>
      cases he
      rw [if_pos rfl, ← hid]
      show (!(subjectIds idx.bySubject (subjectKey entry.subject)).isEmpty) = true ↔ _
      cases hids : subjectIds idx.bySubject (subjectKey entry.subject) with
      | nil => simp
      | cons other ids =>
        have hne : other ≠ entry.experienceId := by
          rintro rfl
          exact hfresh (subjectKey entry.subject) (by simp [hids])
        refine iff_of_true rfl ⟨other, ?_, hne⟩
        rw [mem_insert_iff]
        exact .inr mem_cons_self
    · next hid =>
      rw [get?_foldl_markConfounded, Option.map_eq_some_iff] at he
      obtain ⟨e₀, he₀, rfl⟩ := he
      have hflagged := h.flagged id e₀ he₀
      have hlisted : id ∈ subjectIds idx.bySubject (subjectKey e₀.subject) := by
        rw [h.listed, subjectOf, he₀]
        rfl
      by_cases hkey : subjectKey entry.subject = subjectKey e₀.subject
      · rw [hkey, if_pos hlisted, if_pos rfl]
        refine iff_of_true rfl ⟨entry.experienceId, ?_, hid⟩
        rw [mem_insert_iff]
        exact .inl rfl
      · have hnot : id ∉ subjectIds idx.bySubject (subjectKey entry.subject) := by
          rw [h.listed, subjectOf, he₀]
          intro heq
          exact hkey (Option.some.inj heq).symm
        rw [if_neg hnot, if_neg hkey]
        exact hflagged

theorem CreationFits.placed (h : CreationFits idx.entries idx.byCreation)
    (hnew : Assoc.get? entry.experienceId idx.entries = none) :
    CreationFits (idx.placed entry).entries (idx.placed entry).byCreation := by
  have hitems : (idx.placed entry).byCreation.items.Perm
      ((entry.createdTsMicros, entry.experienceId) :: idx.byCreation.items) :=
    BucketMap.items_push ..
  have hfresh (ts : I64) : (ts, entry.experienceId) ∉ idx.byCreation.items := by
    rw [h.listed, createdAt, hnew]
    nofun
  refine ⟨h.full.push _ _, ?_, ?_⟩
  · rw [(hitems.map _).nodup_iff, map_cons, nodup_cons]
    refine ⟨?_, h.ids⟩
    intro hmem
    obtain ⟨⟨ts, id⟩, hitem, hid⟩ := mem_map.mp hmem
    exact hfresh ts ((show id = entry.experienceId from hid) ▸ hitem)
  · intro ts id
    rw [hitems.mem_iff, mem_cons, createdAt_placed, h.listed]
    by_cases hid : entry.experienceId = id
    · subst hid
      rw [if_pos rfl, createdAt, hnew]
      simp [eq_comm]
    · simp [hid, Ne.symm hid]

end

/-! ### The calls -/

section

variable {idx idx' : OpenExperienceIndex} {id : Nat} {e : OpenExperienceEntry}

/-- One entry less, and the counters as they were. -/
structure Shrunk (idx idx' : OpenExperienceIndex) : Prop where
  subjects : SubjectsFit idx'.entries idx'.bySubject
  creation : CreationFits idx'.entries idx'.byCreation
  ids : (idx'.entries.map (·.1)).Sublist (idx.entries.map (·.1))
  length : idx'.entries.length + 1 = idx.entries.length
  capacity : idx'.capacity = idx.capacity
  window : idx'.resolutionWindowMicros = idx.resolutionWindowMicros
  added : idx'.totalAdded = idx.totalAdded

theorem CreationFits.less {entries entries' : List (Nat × OpenExperienceEntry)}
    {byCreation rest : BucketMap I64 Nat} (h : CreationFits entries byCreation) {ts : I64}
    (hitems : byCreation.items.Perm ((ts, id) :: rest.items)) (hfull : rest.Full)
    (hcreated : ∀ id', createdAt entries' id' = if id = id' then none else createdAt entries id') :
    CreationFits entries' rest := by
  have hids := h.ids
  rw [(hitems.map _).nodup_iff, map_cons, nodup_cons] at hids
  refine ⟨hfull, hids.2, ?_⟩
  intro ts' id'
  have hlisted := h.listed ts' id'
  rw [hitems.mem_iff, mem_cons] at hlisted
  rw [hcreated]
  split
  · next hid =>
    subst hid
    exact iff_of_false (fun hmem => hids.1 (mem_map.mpr ⟨_, hmem, rfl⟩)) nofun
  · next hid =>
    rw [← hlisted]
    simp [Ne.symm hid]

/-- An entry under its creation time and the rest of its list. -/
theorem CreationFits.retain (h : CreationFits idx.entries idx.byCreation)
    (he : Assoc.get? id idx.entries = some e) :
    idx.byCreation.items.Perm ((e.createdTsMicros, id) ::
      (idx.byCreation.retain e.createdTsMicros (· != id)).items) := by
  have hmem : (e.createdTsMicros, id) ∈ idx.byCreation.items := by
    rw [h.listed, createdAt, he]
    rfl
  rw [BucketMap.items_retain]
  refine (filter_append_perm (fun x => x.2 = id) idx.byCreation.items).symm.trans ?_
  rw [filter_key_eq_singleton h.ids hmem, singleton_append]
  refine List.Perm.of_eq (congrArg _ (filter_congr ?_))
  intro x hx
  by_cases hid : x.2 = id
  · have heq : x = (e.createdTsMicros, id) := inj_on_of_nodup_map h.ids hx hmem hid
    simp [heq]
  · simp [hid]

theorem length_erase_add_one (hids : (idx.entries.map (·.1)).Nodup)
    (he : Assoc.get? id idx.entries = some e) :
    (Assoc.erase id idx.entries).length + 1 = idx.entries.length := by
  rw [(Assoc.perm_cons_erase hids (Assoc.mem_of_get? he)).length_eq, length_cons]

theorem length_of_keys {entries entries' : List (Nat × OpenExperienceEntry)}
    (h : entries.map (·.1) = entries'.map (·.1)) : entries.length = entries'.length := by
  rw [← length_map (·.1), h, length_map]

theorem Consistent.evictOldest (h : Consistent idx) (hne : idx.entries ≠ []) :
    ∃ shrunk, idx.evictOldest = { shrunk with totalEvicted := idx.totalEvicted + 1 } ∧
      Shrunk idx shrunk ∧ shrunk.totalResolved = idx.totalResolved ∧
      shrunk.totalExpired = idx.totalExpired ∧ shrunk.totalCensored = idx.totalCensored := by
  have hitems : idx.byCreation.items ≠ [] := by
    obtain ⟨⟨id, e⟩, hmem⟩ := exists_mem_of_ne_nil _ hne
    have hlisted := h.creation.listed e.createdTsMicros id
    rw [createdAt, (Assoc.get?_eq_some h.subjects.ids).mpr hmem] at hlisted
    exact ne_nil_of_mem (hlisted.mpr rfl)
  obtain ⟨id, hid⟩ := h.creation.full.popFirst_isSome hitems
  obtain ⟨ts, hperm, -⟩ := BucketMap.items_popFirst hid
  have hcreated := (h.creation.listed ts id).mp (hperm.mem_iff.mpr mem_cons_self)
  obtain ⟨e, he, -⟩ := Option.map_eq_some_iff.mp hcreated
  obtain ⟨entries, bySubject, heq, hsubjects, hkeys, hcreated⟩ :=
    h.subjects.forget { idx with byCreation := idx.byCreation.popFirst.2 } he
  refine ⟨{ idx with
    entries := entries
    bySubject := bySubject
    byCreation := idx.byCreation.popFirst.2 }, ?_, ?_, rfl, rfl, rfl⟩
  · rw [OpenExperienceIndex.evictOldest]
    dsimp only at heq ⊢
    rw [hid]
    dsimp only
    rw [he]
    dsimp only
    rw [heq]
  · refine ⟨hsubjects, ?_, hkeys ▸ filter_sublist.map _, ?_, rfl, rfl, rfl⟩
    · exact h.creation.less hperm h.creation.full.popFirst hcreated
    · rw [length_of_keys hkeys, length_erase_add_one h.subjects.ids he]

theorem Consistent.remove (h : Consistent idx) (he : Assoc.get? id idx.entries = some e) :
    ∃ shrunk, idx.remove id = some (e, shrunk) ∧ Shrunk idx shrunk ∧
      shrunk.totalResolved = idx.totalResolved ∧ shrunk.totalExpired = idx.totalExpired ∧
      shrunk.totalCensored = idx.totalCensored ∧ shrunk.totalEvicted = idx.totalEvicted := by
  obtain ⟨entries, bySubject, heq, hsubjects, hkeys, hcreated⟩ := h.subjects.forget idx he
  refine ⟨{ idx with
    entries := entries
    bySubject := bySubject
    byCreation := idx.byCreation.retain e.createdTsMicros (· != id) }, ?_, ?_, rfl, rfl, rfl, rfl⟩
  · rw [OpenExperienceIndex.remove, he]
    dsimp only [bind, Option.bind]
    rw [heq]
    rfl
  · refine ⟨hsubjects, ?_, hkeys ▸ filter_sublist.map _, ?_, rfl, rfl, rfl⟩
    · exact h.creation.less (h.creation.retain he) (h.creation.full.retain _ _) hcreated
    · rw [length_of_keys hkeys, length_erase_add_one h.subjects.ids he]

/-- One counter goes up with the entry that goes. -/
theorem Shrunk.consistent (h : Consistent idx) (hless : Shrunk idx idx')
    {resolved expired censored evicted : BitVec 64}
    (hcount : resolved + expired + censored + evicted =
      idx.totalResolved + idx.totalExpired + idx.totalCensored + idx.totalEvicted + 1) :
    Consistent { idx' with
      totalResolved := resolved
      totalExpired := expired
      totalCensored := censored
      totalEvicted := evicted } := by
  refine ⟨hless.subjects, hless.creation, ?_, ?_, ?_⟩
  · show 1 ≤ idx'.capacity
    rw [hless.capacity]
    exact h.room
  · show idx'.entries.length ≤ idx'.capacity
    have := hless.length
    have := h.bounded
    rw [hless.capacity]
    omega
  · show idx'.totalAdded = BitVec.ofNat 64 idx'.entries.length + resolved + expired + censored +
      evicted
    have hlength : BitVec.ofNat 64 idx.entries.length =
        BitVec.ofNat 64 idx'.entries.length + 1 := by
      rw [← hless.length, BitVec.ofNat_add]
      rfl
    have hbalance := h.balance
    rw [hlength] at hbalance
    rw [hless.added, hbalance]
    grind

/-- The evictions end with room for one entry. -/
theorem Consistent.makeRoom (h : Consistent idx) {fuel : Nat} (hfuel : idx.entries.length < fuel) :
    ∃ roomy, OpenExperienceIndex.makeRoom fuel idx = .ok roomy ∧
      roomy.entries.length < roomy.capacity ∧ Consistent roomy ∧
      (roomy.entries.map (·.1)).Sublist (idx.entries.map (·.1)) ∧ roomy.capacity = idx.capacity ∧
      roomy.resolutionWindowMicros = idx.resolutionWindowMicros := by
  let kept (t : OpenExperienceIndex) : Prop := Consistent t ∧
    (t.entries.map (·.1)).Sublist (idx.entries.map (·.1)) ∧ t.capacity = idx.capacity ∧
    t.resolutionWindowMicros = idx.resolutionWindowMicros
  have hturn (t : OpenExperienceIndex) (ht : kept t) :
      (∃ roomy, (.ok (if t.capacity ≤ t.entries.length then .inr t.evictOldest else .inl t) :
        Except Unit (OpenExperienceIndex ⊕ OpenExperienceIndex)) = .ok (.inl roomy) ∧
        roomy.entries.length < roomy.capacity ∧ kept roomy) ∨
      ∃ t', (.ok (if t.capacity ≤ t.entries.length then .inr t.evictOldest else .inl t) :
        Except Unit (OpenExperienceIndex ⊕ OpenExperienceIndex)) = .ok (.inr t') ∧
        kept t' ∧ t'.entries.length < t.entries.length := by
    obtain ⟨hcons, hids, hcap, hwindow⟩ := ht
    by_cases hfull : t.capacity ≤ t.entries.length
    · have hne : t.entries ≠ [] := by
        intro hnil
        have := hcons.room
        rw [hnil, length_nil] at hfull
        omega
      obtain ⟨shrunk, heq, hless, hresolved, hexpired, hcensored⟩ := hcons.evictOldest hne
      rw [if_pos hfull]
      refine .inr ⟨t.evictOldest, rfl, ?_, ?_⟩
      · rw [heq]
        refine ⟨hless.consistent hcons ?_, hless.ids.trans hids, hless.capacity.trans hcap,
          hless.window.trans hwindow⟩
        rw [hresolved, hexpired, hcensored]
        grind
      · rw [heq]
        have := hless.length
        show shrunk.entries.length < t.entries.length
        omega
    · rw [if_neg hfull]
      exact .inl ⟨t, rfl, by omega, hcons, hids, hcap, hwindow⟩
  exact iterate_eq_ok (I := kept) (fun t => t.entries.length) hturn hfuel
    ⟨h, List.Sublist.refl _, rfl, rfl⟩

theorem length_placed {entry : OpenExperienceEntry}
    (hnew : Assoc.get? entry.experienceId idx.entries = none) :
    (idx.placed entry).entries.length = idx.entries.length + 1 := by
  show (Assoc.insert _ _ _).length = _
  rw [Assoc.insert_of_new, length_append, length_singleton,
    length_of_keys (keys_foldl_markConfounded true _)]
  rw [keys_foldl_markConfounded]
  exact Assoc.get?_eq_none.mp hnew

theorem Consistent.placed (h : Consistent idx) (hroom : idx.entries.length < idx.capacity)
    {entry : OpenExperienceEntry} (hnew : Assoc.get? entry.experienceId idx.entries = none) :
    Consistent (idx.placed entry) := by
  refine ⟨h.subjects.placed hnew, h.creation.placed hnew, h.room, ?_, ?_⟩
  · rw [length_placed hnew]
    exact hroom
  · rw [length_placed hnew, BitVec.ofNat_add]
    show idx.totalAdded + 1 = _ + 1 + idx.totalResolved + idx.totalExpired + idx.totalCensored +
      idx.totalEvicted
    rw [h.balance]
    grind

theorem Consistent.add (h : Consistent idx) {fuel : Nat} (hfuel : idx.capacity < fuel)
    {entry : OpenExperienceEntry} (hflag : entry.potentiallyConfounded = false) :
    ∃ next, idx.add fuel entry = .ok next ∧ Consistent next ∧ next.capacity = idx.capacity ∧
      next.resolutionWindowMicros = idx.resolutionWindowMicros := by
  cases hnew : Assoc.contains entry.experienceId idx.entries with
  | true => exact ⟨idx, by rw [OpenExperienceIndex.add, if_pos hnew], h, rfl, rfl⟩
  | false =>
    have henough : idx.entries.length < fuel := Nat.lt_of_le_of_lt h.bounded hfuel
    obtain ⟨roomy, hroom, hlt, hcons, hids, hcap, hwindow⟩ := h.makeRoom henough
    have hfresh : Assoc.get? entry.experienceId roomy.entries = none := by
      rw [Assoc.get?_eq_none]
      intro hmem
      rw [Assoc.contains_iff.mpr (hids.subset hmem)] at hnew
      cases hnew
    exact ⟨roomy.placed entry, add_of_room hnew hroom hflag, hcons.placed hlt hfresh, hcap, hwindow⟩

/-- A mark takes an entry out and counts it. -/
theorem Consistent.mark (h : Consistent idx) (id : Nat)
    (count : OpenExperienceIndex → OpenExperienceIndex)
    (hcount : ∀ shrunk, Shrunk idx shrunk → shrunk.totalResolved = idx.totalResolved →
      shrunk.totalExpired = idx.totalExpired → shrunk.totalCensored = idx.totalCensored →
      shrunk.totalEvicted = idx.totalEvicted → Consistent (count shrunk) ∧
      (count shrunk).capacity = shrunk.capacity ∧
      (count shrunk).resolutionWindowMicros = shrunk.resolutionWindowMicros) :
    ∃ next, (((idx.remove id).bind fun p => some (p.1, count p.2)).map (·.2)).getD idx = next ∧
      Consistent next ∧ next.capacity = idx.capacity ∧
      next.resolutionWindowMicros = idx.resolutionWindowMicros := by
  cases he : Assoc.get? id idx.entries with
  | none =>
    have hremove : idx.remove id = none := by rw [OpenExperienceIndex.remove, he]; rfl
    rw [hremove]
    exact ⟨idx, rfl, h, rfl, rfl⟩
  | some e =>
    obtain ⟨shrunk, hremove, hless, hresolved, hexpired, hcensored, hevicted⟩ := h.remove he
    obtain ⟨hcons, hcap, hwindow⟩ :=
      hcount shrunk hless hresolved hexpired hcensored hevicted
    rw [hremove]
    exact ⟨count shrunk, rfl, hcons, hcap.trans hless.capacity, hwindow.trans hless.window⟩

theorem Consistent.call (h : Consistent idx) {fuel : Nat} (hfuel : idx.capacity < fuel)
    (c : IndexCall) (hflag : ∀ entry, c = .add entry → entry.potentiallyConfounded = false) :
    ∃ next, idx.call fuel c = .ok next ∧ Consistent next ∧ next.capacity = idx.capacity ∧
      next.resolutionWindowMicros = idx.resolutionWindowMicros := by
  cases c with
  | add entry => exact h.add hfuel (hflag entry rfl)
  | markResolved id =>
    obtain ⟨next, heq, hnext⟩ := h.mark id
      (fun i => { i with totalResolved := i.totalResolved + 1 })
      fun shrunk hless hresolved hexpired hcensored hevicted =>
        ⟨hless.consistent h (by rw [hresolved, hexpired, hcensored, hevicted]; grind), rfl, rfl⟩
    exact ⟨next, congrArg Except.ok heq, hnext⟩
  | markExpired id =>
    obtain ⟨next, heq, hnext⟩ := h.mark id
      (fun i => { i with totalExpired := i.totalExpired + 1 })
      fun shrunk hless hresolved hexpired hcensored hevicted =>
        ⟨hless.consistent h (by rw [hresolved, hexpired, hcensored, hevicted]; grind), rfl, rfl⟩
    exact ⟨next, congrArg Except.ok heq, hnext⟩
  | markCensored id =>
    obtain ⟨next, heq, hnext⟩ := h.mark id
      (fun i => { i with totalCensored := i.totalCensored + 1 })
      fun shrunk hless hresolved hexpired hcensored hevicted =>
        ⟨hless.consistent h (by rw [hresolved, hexpired, hcensored, hevicted]; grind), rfl, rfl⟩
    exact ⟨next, congrArg Except.ok heq, hnext⟩

theorem consistent_withCapacity (capacity : Nat) (window : I64) :
    Consistent (.withCapacity capacity window) := by
  have hnone (id : Nat) : Assoc.get? id (OpenExperienceIndex.withCapacity capacity window).entries =
      none := rfl
  have hnoset (key : Text) : Assoc.get? key (OpenExperienceIndex.withCapacity capacity
      window).bySubject = none := rfl
  refine ⟨⟨nodup_nil, ?_, nodup_nil, ?_, ?_, ?_⟩, ⟨BucketMap.full_empty, ?_, ?_⟩,
    Nat.le_max_right .., Nat.zero_le _, ?_⟩
  · simp [hnone]
  · simp [hnoset]
  · intro key id
    show id ∈ [] ↔ none = some key
    simp
  · simp [hnone]
  · simp [OpenExperienceIndex.withCapacity]
  · intro ts id
    show (ts, id) ∈ [] ↔ none = some ts
    simp
  · show (0 : BitVec 64) = BitVec.ofNat 64 0 + 0 + 0 + 0 + 0
    decide

end

/-- Any calls from the empty index. -/
def OpenExperienceIndex.run (fuel capacity : Nat) (window : I64) (calls : List IndexCall) :
    Except Unit OpenExperienceIndex :=
  calls.foldlM (OpenExperienceIndex.call fuel) (.withCapacity capacity window)

theorem consistent_run {fuel capacity : Nat} (hfuel : max capacity 1 < fuel) (window : I64)
    {calls : List IndexCall}
    (hflags : ∀ entry, IndexCall.add entry ∈ calls → entry.potentiallyConfounded = false) :
    ∃ idx, OpenExperienceIndex.run fuel capacity window calls = .ok idx ∧ Consistent idx ∧
      idx.capacity = max capacity 1 ∧ idx.resolutionWindowMicros = window := by
  let kept (_ : List IndexCall) (idx : OpenExperienceIndex) : Prop := Consistent idx ∧
    idx.capacity = max capacity 1 ∧ idx.resolutionWindowMicros = window
  refine foldlM_eq_ok (I := kept) ?_ ⟨consistent_withCapacity capacity window, rfl, rfl⟩
  intro front c back idx hcalls hkept
  have hmem : c ∈ calls := by simp [hcalls]
  obtain ⟨next, heq, hcons, hcap, hwindow⟩ := hkept.1.call (by rwa [hkept.2.1]) c
    fun entry hentry => hflags entry (hentry ▸ hmem)
  exact ⟨next, heq, hcons, hcap.trans hkept.2.1, hwindow.trans hkept.2.2⟩

end AgentMail.Experience
