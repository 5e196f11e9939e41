import AgentMail.Lib.Trace
import AgentMail.Session.SessionIdentity

/-!
# Authority of a session over its life

Any run of binds and unbinds: whoever lost the last binding of a project without asking for it may
act there only as an agent that it holds.
-/

namespace AgentMail.Session

open Base Lib List

inductive Event where
  | bind (projectId agentId : Int) (agentName : Text) (nowMicros : Int)
  | unbind (agentId : Int)

def SessionIdentityState.step (s : SessionIdentityState) :
    Event → Option (Unit × SessionIdentityState)
  | .bind projectId agentId agentName nowMicros =>
    some ((), s.bind projectId agentId agentName nowMicros)
  | .unbind agentId => some ((), s.unbind agentId)

abbrev Run := List (Entry SessionIdentityState Event Unit)

def Event.isBind : Event → Bool
  | .bind .. => true
  | .unbind _ => false

/-- A bind took away the last binding of the project: it was displaced or there were too many. -/
def Loses (x : Entry SessionIdentityState Event Unit) (p : Int) : Prop :=
  x.event.isBind = true ∧ x.before.holdsIn p = true ∧ x.after.holdsIn p = false

/-- The agent is the one of the binding. -/
structure SessionBinding.Matches (binding : SessionBinding) (agent : AgentRow) : Prop where
  project : agent.projectId = binding.projectId
  id : agent.id = some binding.agentId
  name : agent.name = binding.agentName

namespace SessionIdentityState

/-- The row is accepted as an actor, whatever the action. -/
def Accepts (s : SessionIdentityState) (agent : AgentRow) : Prop :=
  ∀ action, authorizeActorFromState s agent action = .ok ()

/-- What holds of every state. -/
structure Valid (s : SessionIdentityState) : Prop where
  bounded : s.held.length ≤ maxSessionBindings
  distinct : (s.held.map (·.agentId)).Nodup
  proofs : ∀ binding ∈ s.held, 0 < binding.projectId ∧ 0 < binding.agentId ∧ binding.agentName ≠ []

variable {s : SessionIdentityState}

variable {agent : AgentRow}

theorem accepts_iff : s.Accepts agent ↔
    (s.holdsIn agent.projectId = false ∧ s.evictionRestricts agent.projectId = false) ∨
      ∃ binding ∈ s.held, binding.matchesAgent agent = true := by
  have hnone : (s.held.filter (·.projectId == agent.projectId)).isEmpty =
      !s.holdsIn agent.projectId := by
    rw [holdsIn, Bool.eq_iff_iff, List.isEmpty_iff, filter_eq_nil_iff, Bool.not_eq_true',
      any_eq_false]
  have hsome : (s.held.filter (·.projectId == agent.projectId)).any (·.matchesAgent agent) = true ↔
      ∃ binding ∈ s.held, binding.matchesAgent agent = true := by
    rw [any_eq_true]
    refine exists_congr fun binding => ?_
    rw [mem_filter, and_assoc]
    refine and_congr_right fun _ => and_iff_right_of_imp fun hmatch => ?_
    simp only [SessionBinding.matchesAgent, Bool.and_eq_true, beq_iff_eq] at hmatch
    simp [hmatch.1.1.2]
  have hcondition : ((s.held.filter (·.projectId == agent.projectId)).isEmpty &&
        !s.evictionRestricts agent.projectId ||
      (s.held.filter (·.projectId == agent.projectId)).any (·.matchesAgent agent)) = true ↔
      (s.holdsIn agent.projectId = false ∧ s.evictionRestricts agent.projectId = false) ∨
        ∃ binding ∈ s.held, binding.matchesAgent agent = true := by
    rw [Bool.or_eq_true, hsome, hnone, Bool.and_eq_true, Bool.not_eq_true', Bool.not_eq_true']
  rw [← hcondition, Accepts]
  constructor
  · intro h
    have hok := h []
    rw [authorizeActorFromState] at hok
    split at hok
    · assumption
    · cases hok
  · intro h action
    rw [authorizeActorFromState]
    exact if_pos h

theorem Valid.matchesAgent_iff (h : s.Valid) {binding : SessionBinding} (hb : binding ∈ s.held) :
    binding.matchesAgent agent = true ↔ binding.Matches agent := by
  obtain ⟨hproject, hid, hname⟩ := h.proofs binding hb
  have hproof : (decide (0 < binding.projectId) && decide (0 < binding.agentId) &&
      !binding.agentName.isEmpty) = true := by
    simp [hproject, hid, hname]
  rw [SessionBinding.matchesAgent, hproof, Bool.true_and]
  simp only [Bool.and_eq_true, beq_iff_eq]
  exact ⟨fun ⟨⟨h, h'⟩, h''⟩ => ⟨h, h', h''⟩, fun h => ⟨⟨h.project, h.id⟩, h.name⟩⟩

theorem Valid.accepts_of_matches (h : s.Valid) {binding : SessionBinding} (hb : binding ∈ s.held)
    (hmatch : binding.Matches agent) : s.Accepts agent :=
  accepts_iff.mpr (.inr ⟨binding, hb, (h.matchesAgent_iff hb).mpr hmatch⟩)

/-- Who holds no identity of a project may act there unless it is restricted. -/
theorem Valid.accepts_iff_of_unmatched (h : s.Valid)
    (hnone : ∀ binding ∈ s.held, ¬ binding.Matches agent) : s.Accepts agent ↔
      s.holdsIn agent.projectId = false ∧ s.evictionRestricts agent.projectId = false := by
  rw [accepts_iff]
  refine or_iff_left ?_
  rintro ⟨binding, hb, hmatch⟩
  exact hnone binding hb ((h.matchesAgent_iff hb).mp hmatch)

theorem permits_some (p : Int) : s.permitsUnresolvedActor (some p) = true ↔
    s.holdsIn p = false ∧ s.evictionRestricts p = false := by
  have hcontains : s.evictedProjects.contains p = s.evictedProjects.any (· == p) := by
    rw [contains_eq_any_beq]
    exact any_congr rfl fun q => Bool.beq_comm
  rw [permitsUnresolvedActor, holdsIn, evictionRestricts, hcontains]
  simp only [Option.all_some, Bool.and_eq_true, Bool.not_eq_true', Bool.or_eq_false_iff]
  exact and_comm

theorem permits_of_none (h : s.permitsUnresolvedActor none = true) (p : Int) :
    s.permitsUnresolvedActor (some p) = true := by
  simp only [permitsUnresolvedActor, Option.all_none, Option.all_some, Bool.and_eq_true,
    Bool.not_eq_true', any_eq_false] at h ⊢
  exact ⟨⟨h.1.1, fun q hq => absurd trivial (h.1.2 q hq)⟩,
    fun binding hb => absurd trivial (h.2 binding hb)⟩

/-! ### Steps -/

theorem held_rebind (s : SessionIdentityState) (projectId agentId : Int) (agentName : Text) (nowMicros : Int) :
    (s.rebind projectId agentId agentName nowMicros).held =
      List.drop ((s.held.filter (·.agentId != agentId)).length + 1 - maxSessionBindings)
        (s.held.filter (·.agentId != agentId) ++ [⟨projectId, agentId, agentName, nowMicros⟩]) := by
  rw [rebind, enforceCapacity, held_enforceCapacityFrom, (foldl_restrictIfLost ..).1,
    length_append, length_singleton]

theorem restricts_rebind {p : Int} (h : s.evictionRestricts p = true) (projectId agentId : Int)
    (agentName : Text) (nowMicros : Int) :
    (s.rebind projectId agentId agentName nowMicros).evictionRestricts p = true :=
  (restricts_enforceCapacityFrom ..).1 p ((foldl_restrictIfLost ..).2.1 p h)

/-- A project that a bind leaves without a binding is restricted. -/
theorem restricts_of_lost {p projectId agentId : Int} {agentName : Text} {nowMicros : Int}
    (hbefore : s.holdsIn p = true)
    (hafter : (s.rebind projectId agentId agentName nowMicros).holdsIn p = false) :
    (s.rebind projectId agentId agentName nowMicros).evictionRestricts p = true := by
  let displaced := (s.held.filter fun binding =>
    binding.agentId == agentId && binding.projectId != projectId).map (·.projectId)
  let held := s.held.filter (·.agentId != agentId) ++ [⟨projectId, agentId, agentName, nowMicros⟩]
  have hfold := foldl_restrictIfLost displaced { s with held }
  have hcapacity := restricts_enforceCapacityFrom (displaced.foldl restrictIfLost { s with held }).held
    (displaced.foldl restrictIfLost { s with held })
  rw [hfold.1] at hcapacity
  obtain ⟨binding, hb, rfl⟩ := holdsIn_iff.mp hbefore
  rw [rebind, enforceCapacity, hfold.1] at hafter ⊢
  by_cases hstays : SessionIdentityState.holdsIn { s with held } binding.projectId = true
  · -- It is lost to the capacity.
    obtain ⟨other, hother, hsame⟩ := holdsIn_iff.mp hstays
    have hgoes := hcapacity.2 other hother
    rw [hsame] at hgoes
    exact hgoes hafter
  · -- It is displaced.
    rw [Bool.not_eq_true] at hstays
    have hgone := holdsIn_eq_false_iff.mp hstays
    have hid : binding.agentId = agentId := by
      by_contra hid
      have hmem : binding ∈ held :=
        mem_append_left _ (mem_filter.mpr ⟨hb, by simpa using hid⟩)
      exact hgone binding hmem rfl
    have hproject : projectId ≠ binding.projectId :=
      hgone _ (mem_append_right _ (mem_singleton_self _))
    have hmem : binding.projectId ∈ displaced := by
      refine mem_map_of_mem (mem_filter.mpr ⟨hb, ?_⟩)
      simp [hid, Ne.symm hproject]
    exact hcapacity.1 _ (hfold.2.2 _ hmem hstays)

theorem Valid.bind (h : s.Valid) (projectId agentId : Int) (agentName : Text) (nowMicros : Int) :
    (s.bind projectId agentId agentName nowMicros).Valid := by
  rw [SessionIdentityState.bind]
  split
  · exact h
  · next hgood =>
    simp only [Bool.or_eq_true, decide_eq_true_eq, not_or, Int.not_le, List.isEmpty_iff] at hgood
    let new : SessionBinding := ⟨projectId, agentId, agentName, nowMicros⟩
    have hheld := held_rebind s projectId agentId agentName nowMicros
    have hsub : (s.rebind projectId agentId agentName nowMicros).held.Sublist
        (s.held.filter (·.agentId != agentId) ++ [new]) := by
      rw [hheld]
      exact drop_sublist ..
    refine ⟨?_, ?_, fun binding hb => ?_⟩
    · rw [hheld, length_drop, length_append, length_singleton]
      omega
    · refine (hsub.map _).nodup ?_
      rw [map_append, nodup_append]
      refine ⟨(filter_sublist.map _).nodup h.distinct, by simp, fun i hi j hj => ?_⟩
      obtain ⟨binding, hb, rfl⟩ := mem_map.mp hi
      have hne := (mem_filter.mp hb).2
      rw [map_singleton, mem_singleton] at hj
      rw [hj]
      simpa using hne
    · rcases mem_append.mp (hsub.subset hb) with hb | hb
      · exact h.proofs binding (mem_filter.mp hb).1
      · rw [mem_singleton.mp hb]
        refine ⟨hgood.1.2, hgood.1.1, fun hnil => hgood.2 ?_⟩
        rw [show agentName = [] from hnil]
        rfl

theorem Valid.unbind (h : s.Valid) (agentId : Int) : (s.unbind agentId).Valid where
  bounded := Nat.le_trans (length_filter_le ..) h.bounded
  distinct := (filter_sublist.map _).nodup h.distinct
  proofs binding hb := h.proofs binding (mem_filter.mp hb).1

theorem step_valid (h : s.Valid) {e : Event} {u : Unit} {s' : SessionIdentityState}
    (hstep : s.step e = some (u, s')) : s'.Valid := by
  cases e with
  | bind projectId agentId agentName nowMicros =>
    cases hstep
    exact h.bind projectId agentId agentName nowMicros
  | unbind agentId =>
    cases hstep
    exact h.unbind agentId

theorem step_restricts {p : Int} (h : s.evictionRestricts p = true) {e : Event} {u : Unit}
    {s' : SessionIdentityState} (hstep : s.step e = some (u, s')) :
    s'.evictionRestricts p = true := by
  cases e with
  | bind projectId agentId agentName nowMicros =>
    cases hstep
    rw [SessionIdentityState.bind]
    split
    · exact h
    · exact restricts_rebind h projectId agentId agentName nowMicros
  | unbind agentId =>
    cases hstep
    exact h

theorem step_loses {p : Int} {e : Event} {u : Unit} {s' : SessionIdentityState}
    (hstep : s.step e = some (u, s')) (hloses : Loses ⟨s, e, u, s'⟩ p) :
    s'.evictionRestricts p = true := by
  obtain ⟨hbind, hbefore, hafter⟩ := hloses
  cases e with
  | bind projectId agentId agentName nowMicros =>
    cases hstep
    dsimp only at hbefore hafter
    rw [SessionIdentityState.bind] at hafter ⊢
    split
    · next hbad =>
      rw [if_pos hbad, hbefore] at hafter
      cases hafter
    · next hgood =>
      rw [if_neg hgood] at hafter
      exact restricts_of_lost hbefore hafter
  | unbind agentId => cases hbind

end SessionIdentityState

/-! ### Runs -/

/-- What a session may do at every point of a run. -/
structure Authority (run : Run) : Prop where
  /-- A project that was lost is open to the agents held there, from then on. -/
  restricted : ∀ (front back : Run) (x : Entry SessionIdentityState Event Unit) (p : Int),
    run = front ++ x :: back → Loses x p →
    ∀ s ∈ x.after :: back.map (·.after), ∀ agent, agent.projectId = p → s.Accepts agent →
      ∃ binding ∈ s.held, binding.Matches agent
  held : ∀ x ∈ run, ∀ binding ∈ x.after.held, ∀ agent, binding.Matches agent → x.after.Accepts agent
  unresolved : ∀ x ∈ run, ∀ agent, (∀ binding ∈ x.after.held, ¬ binding.Matches agent) →
    (x.after.permitsUnresolvedActor (some agent.projectId) = true ↔ x.after.Accepts agent)
  unknown : ∀ x ∈ run, x.after.permitsUnresolvedActor none = true →
    ∀ p, x.after.permitsUnresolvedActor (some p) = true
  bounded : ∀ x ∈ run, x.after.held.length ≤ 32 ∧ (x.after.held.map (·.agentId)).Nodup

open SessionIdentityState

theorem valid_default : SessionIdentityState.default.Valid where
  bounded := Nat.zero_le _
  distinct := .nil
  proofs _ h := absurd h not_mem_nil

variable {es : List Event}

theorem run_valid : ∀ x ∈ trace SessionIdentityState.step .default es,
    x.before.step x.event = some (x.response, x.after) ∧ x.after.Valid := by
  have hstep (s : SessionIdentityState) (e : Event) (u : Unit) (s' : SessionIdentityState)
      (h : s.Valid) (he : s.step e = some (u, s')) : s'.Valid := step_valid h he
  exact fun x hx => (forall_mem_trace hstep valid_default es x hx).2

/-- From the loss on the project is restricted. -/
theorem run_restricts {front back : Run} {x : Entry SessionIdentityState Event Unit} {p : Int}
    (h : trace SessionIdentityState.step .default es = front ++ x :: back) (hloses : Loses x p) :
    ∀ s ∈ x.after :: back.map (·.after), s.evictionRestricts p = true ∧ s.Valid := by
  have hx : x ∈ trace SessionIdentityState.step .default es :=
    h ▸ mem_append_right front mem_cons_self
  obtain ⟨hstep, hvalid⟩ := run_valid x hx
  have hafter := step_loses hstep hloses
  obtain ⟨es', hes'⟩ := trace_eq_append h
  have hkeeps (s : SessionIdentityState) (e : Event) (u : Unit) (s' : SessionIdentityState)
      (h : s.evictionRestricts p = true ∧ s.Valid) (he : s.step e = some (u, s')) :
      s'.evictionRestricts p = true ∧ s'.Valid := ⟨step_restricts h.1 he, step_valid h.2 he⟩
  have hlater := forall_mem_trace hkeeps ⟨hafter, hvalid⟩ es'
  rw [hes'] at hlater
  rw [forall_mem_cons, forall_mem_map]
  exact ⟨⟨hafter, hvalid⟩, fun y hy => (hlater y hy).2.2⟩

/-- For any sequence of binds and unbinds of a session. -/
theorem session_authority (es : List Event) :
    Authority (trace SessionIdentityState.step .default es) where
  restricted front back x p h hloses s hs agent hagent haccepts := by
    obtain ⟨hrestricts, hvalid⟩ := run_restricts h hloses s hs
    by_contra hnone
    have hunmatched : ∀ binding ∈ s.held, ¬ binding.Matches agent :=
      fun binding hb hmatch => hnone ⟨binding, hb, hmatch⟩
    have hopen := (hvalid.accepts_iff_of_unmatched hunmatched).mp haccepts
    rw [hagent, hrestricts] at hopen
    cases hopen.2
  held x hx binding hb agent hmatch := (run_valid x hx).2.accepts_of_matches hb hmatch
  unresolved x hx agent hnone :=
    (permits_some _).trans ((run_valid x hx).2.accepts_iff_of_unmatched hnone).symm
  unknown _ _ h := permits_of_none h
  bounded x hx := ⟨(run_valid x hx).2.bounded, (run_valid x hx).2.distinct⟩

end AgentMail.Session
