import AgentMail.BuildSlots.Leases
import AgentMail.Lib.Loop
import AgentMail.Lib.Trace
import Mathlib.Data.List.MinMax
import Mathlib.Order.Bounds.Basic

/-!
# Whose leases a call touches

What acquire, renew and release do to the lease files of other agents and of their own, over any run
of calls.
-/

namespace AgentMail.BuildSlots

open Base Lib List

section

variable {τ : Type} [LinearOrder τ] {C : Crates τ} {now : τ}

/-- The leases in the lease files. -/
def leasesIn (entries : List (Text × Content)) : List BuildSlotLease :=
  entries.filterMap fun e => if isJson e.1 then e.2 else none

def SlotDir.leases (d : SlotDir) : List BuildSlotLease := leasesIn d.entries

/-- The lease expires after an instant. -/
def Crates.unexpired (C : Crates τ) (now : τ) (lease : BuildSlotLease) : Bool :=
  (C.parse lease.expiresTs).any fun t => decide (now < t)

/-- What reading gives of one file. -/
def activeOf (C : Crates τ) (now : τ) (e : Text × Content) : Option (ActiveSlotLease τ) :=
  if isJson e.1 then
    e.2.bind fun lease => (C.parse lease.expiresTs).bind fun t =>
      if now < t then some ⟨e.1, lease, t⟩ else none
  else none

theorem activeOf_eq_some {e : Text × Content} {entry : ActiveSlotLease τ} :
    activeOf C now e = some entry ↔ e = (entry.path, some entry.lease) ∧ isJson entry.path = true ∧
      C.parse entry.lease.expiresTs = some entry.expiresAt ∧ now < entry.expiresAt := by
  obtain ⟨name, content⟩ := e
  obtain ⟨path, lease, expiresAt⟩ := entry
  rw [activeOf]
  constructor
  · intro h
    split at h
    · next hjson =>
      rw [Option.bind_eq_some_iff] at h
      obtain ⟨lease', rfl, h⟩ := h
      rw [Option.bind_eq_some_iff] at h
      obtain ⟨t, ht, h⟩ := h
      split at h
      · next hlt =>
        cases h
        exact ⟨rfl, hjson, ht, hlt⟩
      · cases h
    · cases h
  · rintro ⟨he, hjson, ht, hlt⟩
    cases he
    rw [if_pos hjson, Option.bind_some, ht, Option.bind_some, if_pos hlt]

theorem readEntries_eq {entries : List (Text × Content)} {active : List (ActiveSlotLease τ)}
    (h : readEntries C now entries = .ok active) : active = entries.filterMap (activeOf C now) := by
  induction entries generalizing active with
  | nil =>
    cases h
    rfl
  | cons e rest ih =>
    obtain ⟨name, content⟩ := e
    unfold readEntries at h
    rw [filterMap_cons]
    cases hjson : isJson name with
    | false =>
      have hnone : activeOf C now (name, content) = none := by simp [activeOf, hjson]
      rw [hjson, Bool.not_false, if_pos rfl] at h
      rw [hnone, ih h]
    | true =>
      rw [hjson, Bool.not_true, if_neg Bool.false_ne_true] at h
      cases content with
      | none => cases h
      | some lease =>
        dsimp only at h
        cases ht : C.parse lease.expiresTs with
        | none =>
          rw [ht] at h
          cases h
        | some t =>
          rw [ht] at h
          dsimp only at h
          by_cases hle : t ≤ now
          · have hnone : activeOf C now (name, some lease) = none := by
              simp [activeOf, ht, hle]
            rw [if_pos hle] at h
            rw [hnone, ih h]
          · have hsome : activeOf C now (name, some lease) = some ⟨name, lease, t⟩ :=
              activeOf_eq_some.mpr ⟨rfl, hjson, ht, lt_of_not_ge hle⟩
            rw [if_neg hle] at h
            cases hrest : readEntries C now rest with
            | error e =>
              rw [hrest] at h
              cases h
            | ok results =>
              rw [hrest] at h
              cases h
              rw [hsome, ih hrest]

/-- What a successful reading of the directory has found. -/
structure Found (C : Crates τ) (now : τ) (d : SlotDir) (active : List (ActiveSlotLease τ)) : Prop
    where
  mem_iff : ∀ entry, entry ∈ active ↔ d.file? entry.path = some (some entry.lease) ∧
    isJson entry.path = true ∧ C.parse entry.lease.expiresTs = some entry.expiresAt ∧
    now < entry.expiresAt
  distinct : (active.map (·.path)).Nodup
  leases : (active.map (·.lease)).Perm (d.leases.filter (C.unexpired now))

theorem map_lease_activeOf (entries : List (Text × Content)) :
    (entries.filterMap (activeOf C now)).map (·.lease) =
      (leasesIn entries).filter (C.unexpired now) := by
  rw [leasesIn, filter_filterMap, map_filterMap]
  apply filterMap_congr
  intro e _
  rw [activeOf]
  split
  · cases e.2 with
    | none => rfl
    | some lease =>
      rw [Option.bind_some, Option.filter, Crates.unexpired]
      cases C.parse lease.expiresTs with
      | none => rfl
      | some t =>
        rw [Option.bind_some, Option.any_some]
        by_cases hlt : now < t
        · simp [hlt]
        · simp [hlt]
  · rfl

theorem found_of_ok {d : SlotDir} {listing : List (Text × Content)}
    {active : List (ActiveSlotLease τ)} (hlisting : listing.Perm d.entries)
    (h : readActiveLeaseEntries C now listing = .ok active) : Found C now d active := by
  rw [readActiveLeaseEntries] at h
  cases hread : readEntries C now listing with
  | error e =>
    rw [hread] at h
    cases h
  | ok results =>
    rw [hread] at h
    have hsorted : active.Perm results := by
      cases h
      exact mergeSort_perm results _
    have hperm : active.Perm (d.entries.filterMap (activeOf C now)) := by
      rw [readEntries_eq hread] at hsorted
      exact hsorted.trans (hlisting.filterMap _)
    have hmem (entry : ActiveSlotLease τ) : entry ∈ active ↔
        d.file? entry.path = some (some entry.lease) ∧ isJson entry.path = true ∧
          C.parse entry.lease.expiresTs = some entry.expiresAt ∧ now < entry.expiresAt := by
      rw [hperm.mem_iff, mem_filterMap, SlotDir.file?_eq_some]
      constructor
      · intro ⟨e, he, hsome⟩
        rw [activeOf_eq_some] at hsome
        exact ⟨hsome.1 ▸ he, hsome.2⟩
      · intro ⟨he, hrest⟩
        exact ⟨_, he, activeOf_eq_some.mpr ⟨rfl, hrest⟩⟩
    have hkeys (e : Text × Content) (entry : ActiveSlotLease τ)
        (hentry : activeOf C now e = some entry) : entry.path = e.1 := by
      rw [(activeOf_eq_some.mp hentry).1]
    refine ⟨hmem, ?_, ?_⟩
    · rw [(hperm.map _).nodup_iff]
      exact d.distinct.sublist (map_filterMap_sublist hkeys d.entries)
    · have hleases := hperm.map (·.lease)
      rwa [map_lease_activeOf] at hleases

end

/-! ### Writing -/

def SlotDir.writeEach (d : SlotDir) (writes : List (Text × BuildSlotLease)) : SlotDir :=
  writes.foldl (fun d w => d.write w.1 w.2) d

variable {name : Text}

theorem file?_writeEach_of_not_mem {writes : List (Text × BuildSlotLease)} {d : SlotDir}
    (h : name ∉ writes.map (·.1)) : (d.writeEach writes).file? name = d.file? name := by
  induction writes generalizing d with
  | nil => rfl
  | cons w rest ih =>
    rw [map_cons, mem_cons, not_or] at h
    rw [SlotDir.writeEach, foldl_cons]
    refine (ih h.2).trans ?_
    rw [SlotDir.file?_write, if_neg (Ne.symm h.1)]

theorem file?_writeEach_of_mem {writes : List (Text × BuildSlotLease)} {d : SlotDir}
    (hdistinct : (writes.map (·.1)).Nodup) {w : Text × BuildSlotLease} (h : w ∈ writes) :
    (d.writeEach writes).file? w.1 = some (some w.2) := by
  induction writes generalizing d with
  | nil => cases h
  | cons v rest ih =>
    rw [map_cons, nodup_cons] at hdistinct
    rw [SlotDir.writeEach, foldl_cons]
    rcases mem_cons.mp h with rfl | hrest
    · refine (file?_writeEach_of_not_mem hdistinct.1).trans ?_
      rw [SlotDir.file?_write, if_pos rfl]
    · exact ih hdistinct.2 hrest

/-- A file after some writes of distinct files. -/
theorem file?_writeEach {writes : List (Text × BuildSlotLease)} (d : SlotDir)
    (hdistinct : (writes.map (·.1)).Nodup) (name : Text) :
    (d.writeEach writes).file? name = d.file? name ∨
      ∃ lease, (name, lease) ∈ writes ∧ (d.writeEach writes).file? name = some (some lease) := by
  by_cases h : name ∈ writes.map (·.1)
  · obtain ⟨w, hw, rfl⟩ := mem_map.mp h
    exact Or.inr ⟨w.2, hw, file?_writeEach_of_mem hdistinct hw⟩
  · exact Or.inl (file?_writeEach_of_not_mem h)

/-- A beginning of the writes was done, and all of them if the call succeeded. -/
def Wrote (d : SlotDir) (writes : List (Text × BuildSlotLease)) (done : Bool) (d' : SlotDir) :
    Prop :=
  ∃ front, front <+: writes ∧ d' = d.writeEach front ∧ (done = true → front = writes)

theorem wrote_nil (d : SlotDir) (done : Bool) : Wrote d [] done d :=
  ⟨[], List.nil_prefix, rfl, fun _ => rfl⟩

theorem wrote_none (d : SlotDir) (writes : List (Text × BuildSlotLease)) : Wrote d writes false d :=
  ⟨[], List.nil_prefix, rfl, fun h => absurd h Bool.false_ne_true⟩

theorem Wrote.cons {d d' : SlotDir} {w : Text × BuildSlotLease}
    {rest : List (Text × BuildSlotLease)} {done : Bool} (h : Wrote (d.write w.1 w.2) rest done d') :
    Wrote d (w :: rest) done d' := by
  obtain ⟨front, hfront, hd, hdone⟩ := h
  refine ⟨w :: front, cons_prefix_cons.mpr ⟨rfl, hfront⟩, hd, ?_⟩
  intro hall
  rw [hdone hall]

theorem wrote_writeAll (room : Nat) (writes : List (Text × BuildSlotLease)) (d : SlotDir) :
    Wrote d writes (writeAll room writes d).1 (writeAll room writes d).2 := by
  induction writes generalizing room d with
  | nil =>
    unfold writeAll
    exact wrote_nil d true
  | cons w rest ih =>
    cases room with
    | zero =>
      rw [writeAll]
      exact wrote_none d _
    | succ room => exact (ih room (d.write w.1 w.2)).cons

/-- The entries that renew and release write. -/
def ownedBy {τ : Type} (agentName : Text) (active : List (ActiveSlotLease τ)) :
    List (ActiveSlotLease τ) :=
  active.filter fun entry => entry.lease.agent == agentName && entry.lease.releasedTs.isNone

/-- What release writes. -/
def marks {τ : Type} (releasedNow agentName : Text) (active : List (ActiveSlotLease τ)) :
    List (Text × BuildSlotLease) :=
  (ownedBy agentName active).map fun entry =>
    (entry.path, { entry.lease with releasedTs := some releasedNow })

/-- What renew writes. -/
def extensions {τ : Type} (newExp agentName : Text) (active : List (ActiveSlotLease τ)) :
    List (Text × BuildSlotLease) :=
  (ownedBy agentName active).map fun entry =>
    (entry.path, { entry.lease with expiresTs := newExp })

def succeeded {ε α : Type} (result : Except ε α) : Bool := result.toOption.isSome

theorem wrote_releaseLoop {τ : Type} (releasedNow agentName : Text) (room : Nat)
    (active : List (ActiveSlotLease τ)) (response : ReleaseBuildSlotResponse) (d : SlotDir) :
    Wrote d (marks releasedNow agentName active)
      (succeeded (releaseLoop releasedNow agentName room active response d).1)
      (releaseLoop releasedNow agentName room active response d).2 := by
  induction active generalizing room response d with
  | nil =>
    unfold releaseLoop
    exact wrote_nil d true
  | cons entry rest ih =>
    unfold releaseLoop
    by_cases hagent : entry.lease.agent = agentName
    · rw [hagent, bne_self_eq_false, if_neg Bool.false_ne_true]
      cases hreleased : entry.lease.releasedTs with
      | some existing =>
        have hmarks : marks releasedNow agentName (entry :: rest) =
            marks releasedNow agentName rest := by simp [marks, ownedBy, hreleased]
        rw [hmarks]
        exact ih room _ d
      | none =>
        have hmarks : marks releasedNow agentName (entry :: rest) =
            (entry.path, { entry.lease with releasedTs := some releasedNow }) ::
              marks releasedNow agentName rest := by simp [marks, ownedBy, hreleased, hagent]
        rw [hmarks]
        cases room with
        | zero => exact wrote_none d _
        | succ room =>
          apply Wrote.cons
          exact ih room _ _
    · have hmarks : marks releasedNow agentName (entry :: rest) =
          marks releasedNow agentName rest := by simp [marks, ownedBy, hagent]
      rw [hmarks, if_pos (bne_iff_ne.mpr hagent)]
      exact ih room response d

/-! ### What the operations write -/

variable {lease : BuildSlotLease}

section

variable {d d' : SlotDir} {writes : List (Text × BuildSlotLease)} {done : Bool}

theorem Wrote.file? (h : Wrote d writes done d') (hdistinct : (writes.map (·.1)).Nodup)
    (name : Text) : d'.file? name = d.file? name ∨
      ∃ lease, (name, lease) ∈ writes ∧ d'.file? name = some (some lease) := by
  obtain ⟨front, hfront, rfl, _⟩ := h
  rcases file?_writeEach d (hdistinct.sublist (hfront.sublist.map _)) name with hsame | hwritten
  · exact Or.inl hsame
  · obtain ⟨lease, hmem, hfile⟩ := hwritten
    exact Or.inr ⟨lease, hfront.subset hmem, hfile⟩

theorem Wrote.file?_of_mem (h : Wrote d writes true d') (hdistinct : (writes.map (·.1)).Nodup)
    (hmem : (name, lease) ∈ writes) : d'.file? name = some (some lease) := by
  obtain ⟨front, _, rfl, hdone⟩ := h
  rw [hdone rfl]
  exact file?_writeEach_of_mem hdistinct hmem

/-- A write over files of one agent leaves the leases of others. -/
theorem Wrote.foreign (h : Wrote d writes done d') (hdistinct : (writes.map (·.1)).Nodup)
    {agentName : Text} (hown : ∀ w ∈ writes, ∀ lease, d.file? w.1 = some (some lease) →
      lease.agent = agentName)
    (hfile : d.file? name = some (some lease)) (hother : lease.agent ≠ agentName) :
    d'.file? name = some (some lease) := by
  rcases h.file? hdistinct name with hsame | hwritten
  · rw [hsame, hfile]
  · obtain ⟨lease', hmem, _⟩ := hwritten
    exact absurd (hown _ hmem lease hfile) hother

end

section

variable {τ : Type} [LinearOrder τ] {C : Crates τ} {now : τ} {listing : List (Text × Content)}
  {room : Nat} {d : SlotDir} {agentName : Text} {branch : Option Text}

/-- The file that has a name of the holder. -/
def namedFile (C : Crates τ) (d : SlotDir) (agentName : Text) (branch : Option Text) :
    Option Text :=
  if d.hasFile (leasePathForHolder C agentName) then some (leasePathForHolder C agentName)
  else if d.hasFile (legacyLeasePathForHolder agentName branch) then
    some (legacyLeasePathForHolder agentName branch)
  else none

theorem agent_of_sameAgentLoop {entries : List (Text × Content)} {found : List Text}
    (hfound : ∀ n ∈ found, ∃ lease, (n, some lease) ∈ listing ∧ lease.agent = agentName)
    (hentries : ∀ e ∈ entries, e ∈ listing)
    (h : sameAgentLoop agentName branch entries found = some name) :
    ∃ lease, (name, some lease) ∈ listing ∧ lease.agent = agentName := by
  fun_induction sameAgentLoop agentName branch entries found with
  | case1 found hone =>
    exact hfound name (mem_of_getLast? h)
  | case2 found hmany => cases h
  | case3 name' content rest found hjson ih =>
    exact ih hfound (fun e he => hentries e (mem_cons_of_mem _ he)) h
  | case4 name' rest found hjson ih =>
    exact ih hfound (fun e he => hentries e (mem_cons_of_mem _ he)) h
  | case5 name' rest found hjson lease hagent ih =>
    exact ih hfound (fun e he => hentries e (mem_cons_of_mem _ he)) h
  | case6 name' rest found hjson lease hagent hbranch =>
    cases h
    rw [bne_iff_ne, not_not] at hagent
    exact ⟨lease, hentries _ (mem_cons_self ..), hagent⟩
  | case7 name' rest found hjson lease hagent hbranch ih =>
    rw [bne_iff_ne, not_not] at hagent
    apply ih _ (fun e he => hentries e (mem_cons_of_mem _ he)) h
    rw [forall_mem_append, forall_mem_singleton]
    exact ⟨hfound, lease, hentries _ (mem_cons_self ..), hagent⟩

omit [LinearOrder τ] in
theorem resolve_of_namedFile (h : namedFile C d agentName branch = some name) :
    resolveHolderLeasePath C d agentName branch listing = name := by
  rw [namedFile] at h
  rw [resolveHolderLeasePath]
  split at h
  · next hpreferred =>
    rw [if_pos hpreferred]
    exact Option.some.inj h
  · next hpreferred =>
    split at h
    · next hlegacy =>
      dsimp only
      rw [if_neg hpreferred, if_pos hlegacy]
      exact Option.some.inj h
    · cases h

omit [LinearOrder τ] in
/-- The file that an acquire writes over is one of the holder's, unless a name misleads it. -/
theorem agent_of_resolve (hlisting : listing.Perm d.entries)
    (hnamed : ∀ name ∈ namedFile C d agentName branch, ∀ lease,
      d.file? name = some (some lease) → lease.agent = agentName)
    (h : d.file? (resolveHolderLeasePath C d agentName branch listing) = some (some lease)) :
    lease.agent = agentName := by
  cases hname : namedFile C d agentName branch with
  | some name =>
    rw [resolve_of_namedFile hname] at h
    exact hnamed name hname lease h
  | none =>
    rw [namedFile] at hname
    split at hname
    · cases hname
    next hpreferred =>
    split at hname
    · cases hname
    next hlegacy =>
    rw [resolveHolderLeasePath] at h
    dsimp only at h
    rw [if_neg hpreferred, if_neg hlegacy] at h
    cases hexisting : existingAgentLeasePath agentName branch listing with
    | none =>
      rw [hexisting] at h
      exact absurd (SlotDir.hasFile_iff.mpr ⟨_, h⟩) hpreferred
    | some existing =>
      rw [hexisting] at h
      obtain ⟨lease', hmem, hagent⟩ := agent_of_sameAgentLoop
        (fun n hn => absurd hn not_mem_nil) (fun e he => he) hexisting
      have hstored := SlotDir.file?_eq_some.mpr (hlisting.subset hmem)
      rw [hstored] at h
      cases h
      exact hagent

theorem collectSlotConflicts_perm {active : List (ActiveSlotLease τ)} (h : Found C now d active)
    (requestExclusive : Bool) :
    (collectSlotConflicts (active.map (·.lease)) agentName requestExclusive).Perm
      (d.leases.filter fun lease => C.unexpired now lease && (lease.releasedTs.isNone &&
        lease.agent != agentName && (requestExclusive || lease.exclusive))) := by
  rw [collectSlotConflicts]
  refine (h.leases.filter _).trans ?_
  rw [filter_filter]
  apply List.Perm.of_eq
  congr 1
  funext lease
  exact Bool.and_comm _ _

/-- An acquire writes one lease of the agent. -/
theorem acquire_wrote (C : Crates τ) (now : τ) (listing : List (Text × Content)) (room : Nat)
    (d : SlotDir) (slot agentName : Text) (branch : Option Text) (ttl : Int) (isExclusive : Bool) :
    ∃ granted : BuildSlotLease, granted.agent = agentName ∧
      Wrote d [(resolveHolderLeasePath C d agentName branch listing, granted)]
        (succeeded (acquireSlotLease C now listing room d slot agentName branch ttl isExclusive).1)
        (acquireSlotLease C now listing room d slot agentName branch ttl isExclusive).2 := by
  refine ⟨{
    slot
    agent := agentName
    branch
    exclusive := isExclusive
    acquiredTs := C.format now
    expiresTs := C.format (C.addSeconds now ttl)
    releasedTs := none }, rfl, ?_⟩
  rw [acquireSlotLease]
  cases readActiveLeases C now listing with
  | error e => exact wrote_none d _
  | ok active =>
    have hwrote := wrote_writeAll room [(resolveHolderLeasePath C d agentName branch listing, ({
        slot
        agent := agentName
        branch
        exclusive := isExclusive
        acquiredTs := C.format now
        expiresTs := C.format (C.addSeconds now ttl)
        releasedTs := none } : BuildSlotLease))] d
    dsimp only
    split <;> next hresult =>
      rw [hresult] at hwrote
      exact hwrote

theorem acquire_conflicts {slot : Text} {ttl : Int} {isExclusive : Bool}
    {response : AcquireBuildSlotResponse} (hlisting : listing.Perm d.entries)
    (h : (acquireSlotLease C now listing room d slot agentName branch ttl isExclusive).1 =
      .ok response) :
    response.conflicts.Perm (d.leases.filter fun lease => C.unexpired now lease &&
      (lease.releasedTs.isNone && lease.agent != agentName && (isExclusive || lease.exclusive))) := by
  rw [acquireSlotLease, readActiveLeases] at h
  cases hread : readActiveLeaseEntries C now listing with
  | error e =>
    rw [hread] at h
    cases h
  | ok active =>
    rw [hread] at h
    dsimp only [Except.map] at h
    split at h
    · cases h
      exact collectSlotConflicts_perm (found_of_ok hlisting hread) isExclusive
    · cases h

/-- The agent's unexpired and unreleased leases. -/
def Held (C : Crates τ) (now : τ) (agentName : Text) (entry : ActiveSlotLease τ) (d : SlotDir) :
    Prop :=
  d.file? entry.path = some (some entry.lease) ∧ isJson entry.path = true ∧
    C.parse entry.lease.expiresTs = some entry.expiresAt ∧ now < entry.expiresAt ∧
    entry.lease.agent = agentName ∧ entry.lease.releasedTs = none

/-- When they expire. -/
def heldExpiries (C : Crates τ) (now : τ) (agentName : Text) (d : SlotDir) : Set τ :=
  {t | ∃ entry, Held C now agentName entry d ∧ entry.expiresAt = t}

theorem mem_ownedBy {active : List (ActiveSlotLease τ)} (h : Found C now d active)
    {entry : ActiveSlotLease τ} : entry ∈ ownedBy agentName active ↔ Held C now agentName entry d := by
  rw [ownedBy, mem_filter, h.mem_iff, Bool.and_eq_true, beq_iff_eq, Option.isNone_iff_eq_none, Held]
  tauto

theorem max?_ownedBy {active : List (ActiveSlotLease τ)} (h : Found C now d active) {latest : τ} :
    ((ownedBy agentName active).map (·.expiresAt)).max? = some latest ↔
      IsGreatest (heldExpiries C now agentName d) latest := by
  have hmem (t : τ) : t ∈ (ownedBy agentName active).map (·.expiresAt) ↔
      t ∈ heldExpiries C now agentName d := by
    rw [mem_map, heldExpiries, Set.mem_ofPred_eq]
    simp only [mem_ownedBy h]
  rw [List.max?_eq_some_iff, IsGreatest, hmem, upperBounds, Set.mem_ofPred_eq]
  simp only [hmem]

theorem nodup_paths_ownedBy {active : List (ActiveSlotLease τ)} (agentName : Text)
    (h : Found C now d active) (f : ActiveSlotLease τ → BuildSlotLease) :
    (((ownedBy agentName active).map fun entry => (entry.path, f entry)).map (·.1)).Nodup := by
  rw [map_map]
  exact h.distinct.sublist (filter_sublist.map _)

/-- A renewal does nothing where nothing is held. -/
theorem renew_cases (C : Crates τ) (now : τ) (room : Nat) (agentName : Text) (extend : Int)
    (hlisting : listing.Perm d.entries) :
    ((renewSlotLease C now listing room d agentName extend).2 = d ∧
      (succeeded (renewSlotLease C now listing room d agentName extend).1 = true →
        ∀ latest, ¬ IsGreatest (heldExpiries C now agentName d) latest)) ∨
    ∃ active latest, Found C now d active ∧ IsGreatest (heldExpiries C now agentName d) latest ∧
      Wrote d (extensions (computeRenewedExpiry C now (C.format latest) extend) agentName active)
        (succeeded (renewSlotLease C now listing room d agentName extend).1)
        (renewSlotLease C now listing room d agentName extend).2 := by
  rw [renewSlotLease]
  cases hread : readActiveLeaseEntries C now listing with
  | error e => exact Or.inl ⟨rfl, fun h => absurd h Bool.false_ne_true⟩
  | ok active =>
    have hfound := found_of_ok hlisting hread
    dsimp only
    rw [← ownedBy]
    cases hlatest : ((ownedBy agentName active).map (·.expiresAt)).max? with
    | none =>
      refine Or.inl ⟨rfl, fun _ latest h => ?_⟩
      rw [← max?_ownedBy hfound, hlatest] at h
      cases h
    | some latest =>
      refine Or.inr ⟨active, latest, hfound, (max?_ownedBy hfound).mp hlatest, ?_⟩
      have hwrote := wrote_writeAll room
        (extensions (computeRenewedExpiry C now (C.format latest) extend) agentName active) d
      rw [extensions] at hwrote ⊢
      dsimp only
      split <;> next hresult =>
        rw [hresult] at hwrote
        exact hwrote

theorem release_cases (C : Crates τ) (now : τ) (room : Nat) (agentName : Text)
    (hlisting : listing.Perm d.entries) :
    (succeeded (releaseSlotLease C now listing room d agentName).1 = false ∧
      (releaseSlotLease C now listing room d agentName).2 = d) ∨
    ∃ active, Found C now d active ∧ Wrote d (marks (C.format now) agentName active)
      (succeeded (releaseSlotLease C now listing room d agentName).1)
      (releaseSlotLease C now listing room d agentName).2 := by
  rw [releaseSlotLease]
  cases hread : readActiveLeaseEntries C now listing with
  | error e => exact Or.inl ⟨rfl, rfl⟩
  | ok active =>
    exact Or.inr ⟨active, found_of_ok hlisting hread, wrote_releaseLoop _ _ room active _ d⟩

/-- A rewritten selection of the agent's leases leaves the leases of others. -/
theorem foreign_of_rewritten {active : List (ActiveSlotLease τ)} (hfound : Found C now d active)
    {f : ActiveSlotLease τ → BuildSlotLease} {done : Bool} {d' : SlotDir}
    (h : Wrote d ((ownedBy agentName active).map fun entry => (entry.path, f entry)) done d')
    (hfile : d.file? name = some (some lease)) (hother : lease.agent ≠ agentName) :
    d'.file? name = some (some lease) := by
  refine h.foreign (nodup_paths_ownedBy agentName hfound f) ?_ hfile hother
  intro w hw lease' hlease'
  obtain ⟨entry, hentry, rfl⟩ := mem_map.mp hw
  obtain ⟨hstored, _, _, _, hagent, _⟩ := (mem_ownedBy hfound).mp hentry
  rw [hstored] at hlease'
  cases hlease'
  exact hagent

end

end AgentMail.BuildSlots
