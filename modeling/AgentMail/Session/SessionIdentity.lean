import AgentMail.Base.Text

/-!
# Identities of a session

`crates/mcp-agent-mail-tools/src/session_identity.rs:82–255` and `301–410`: the agents that a
session holds, the projects that it lost without asking for it, and who may act.

The feature is enabled and the session has state. A write of the state that fails, and a request
that is cancelled before it is authorized, are left out.
-/

namespace AgentMail.Session

open Base List

def maxSessionBindings : Nat := 32

def maxEvictedProjects : Nat := 32

structure SessionBinding where
  projectId : Int
  agentId : Int
  agentName : Text
  boundAtUs : Int

/-- The columns of an agent row that an authorization reads. -/
structure AgentRow where
  id : Option Int
  projectId : Int
  name : Text

structure SessionIdentityState where
  held : List SessionBinding
  evictedProjects : List Int
  evictionHistorySaturated : Bool

def SessionBinding.matchesAgent (binding : SessionBinding) (agent : AgentRow) : Bool :=
  0 < binding.projectId && 0 < binding.agentId && !binding.agentName.isEmpty &&
    agent.projectId == binding.projectId && agent.id == some binding.agentId &&
    agent.name == binding.agentName

namespace SessionIdentityState

def default : SessionIdentityState := ⟨[], [], false⟩

variable (s : SessionIdentityState)

/-- Some binding is of the project. -/
def holdsIn (projectId : Int) : Bool := s.held.any (·.projectId == projectId)

def restrictEvictedProject (projectId : Int) : SessionIdentityState :=
  if s.evictionHistorySaturated || s.evictedProjects.contains projectId then s
  else if maxEvictedProjects ≤ s.evictedProjects.length then
    { s with evictionHistorySaturated := true, evictedProjects := [] }
  else { s with evictedProjects := s.evictedProjects ++ [projectId] }

/-- A project whose last binding is gone is restricted. -/
def restrictIfLost (projectId : Int) : SessionIdentityState :=
  if s.holdsIn projectId then s else s.restrictEvictedProject projectId

/-- The loop of `enforce_capacity`; the list is what is held. -/
def enforceCapacityFrom : List SessionBinding → SessionIdentityState → SessionIdentityState
  | [], s => { s with held := [] }
  | evicted :: held, s =>
    if maxSessionBindings < (evicted :: held).length then
      enforceCapacityFrom held ({ s with held }.restrictIfLost evicted.projectId)
    else { s with held := evicted :: held }

def enforceCapacity : SessionIdentityState := enforceCapacityFrom s.held s

def evictionRestricts (projectId : Int) : Bool :=
  s.evictionHistorySaturated || s.evictedProjects.contains projectId

/-- Without a project, any binding or restriction counts. -/
def permitsUnresolvedActor (projectId : Option Int) : Bool :=
  !s.evictionHistorySaturated &&
    !s.evictedProjects.any (fun project => projectId.all (project == ·)) &&
    !s.held.any (fun binding => projectId.all (binding.projectId == ·))

/-- The update of `bind`, once the binding is acceptable. -/
def rebind (projectId agentId : Int) (agentName : Text) (nowMicros : Int) :
    SessionIdentityState :=
  let displacedProjects :=
    (s.held.filter fun binding => binding.agentId == agentId && binding.projectId != projectId).map
      (·.projectId)
  let held := s.held.filter (·.agentId != agentId) ++ [⟨projectId, agentId, agentName, nowMicros⟩]
  (displacedProjects.foldl restrictIfLost { s with held }).enforceCapacity

def bind (projectId agentId : Int) (agentName : Text) (nowMicros : Int) : SessionIdentityState :=
  if agentId ≤ 0 || projectId ≤ 0 || (trim agentName).isEmpty then s
  else s.rebind projectId agentId agentName nowMicros

def unbind (agentId : Int) : SessionIdentityState :=
  { s with held := s.held.filter (·.agentId != agentId) }

end SessionIdentityState

/-! ### Authorization -/

inductive Restriction where
  | evictionHistorySaturated
  | bindingEvicted
  | boundToOtherAgent

/-- The data of `SESSION_IDENTITY_MISMATCH`. -/
structure SessionIdentityMismatch where
  message : Text
  agent : Text
  sessionAgents : List Text
  action : Text
  restriction : Restriction

def mismatchMessage (names : List Text) (action name : Text) : Text :=
  let explanation :=
    if names.isEmpty then
      "This MCP session lost identity proof through automatic binding removal; ".toList ++
        "its project restrictions remain".toList
    else
      "This MCP session holds the identity of ".toList ++ ", ".toList.intercalate names ++
        " in this project".toList
  explanation ++ ", so it cannot ".toList ++ action ++ " as '".toList ++ name ++
    "'. Act as your own agent, present '".toList ++ name ++
    "''s registration_token where the tool accepts one, or use a separate ".toList ++
    "session for that agent.".toList

def authorizeActorFromState (s : SessionIdentityState) (agent : AgentRow) (action : Text) :
    Except SessionIdentityMismatch Unit :=
  let held := s.held.filter (·.projectId == agent.projectId)
  if (held.isEmpty && !s.evictionRestricts agent.projectId) ||
      held.any (·.matchesAgent agent) then .ok ()
  else
    let names := held.map (·.agentName)
    .error
      { message := mismatchMessage names action agent.name
        agent := agent.name
        sessionAgents := names
        action
        restriction :=
          if s.evictionHistorySaturated then .evictionHistorySaturated
          else if names.isEmpty then .bindingEvicted
          else .boundToOtherAgent }

/-! ### Restrictions -/

namespace SessionIdentityState

variable {s : SessionIdentityState}

theorem holdsIn_iff {p : Int} : s.holdsIn p = true ↔ ∃ binding ∈ s.held, binding.projectId = p := by
  simp [holdsIn]

theorem holdsIn_eq_false_iff {p : Int} :
    s.holdsIn p = false ↔ ∀ binding ∈ s.held, binding.projectId ≠ p := by
  simp [holdsIn]

@[simp] theorem held_restrictEvictedProject (p : Int) :
    (s.restrictEvictedProject p).held = s.held := by
  rw [restrictEvictedProject]
  split
  · rfl
  · split <;> rfl

@[simp] theorem held_restrictIfLost (p : Int) : (s.restrictIfLost p).held = s.held := by
  rw [restrictIfLost]
  split
  · rfl
  · exact held_restrictEvictedProject p

theorem restricts_restrictEvictedProject (s : SessionIdentityState) (p : Int) :
    (s.restrictEvictedProject p).evictionRestricts p = true := by
  rw [restrictEvictedProject]
  split
  · next h => exact h
  · split <;> simp [evictionRestricts]

/-- A restriction is never lifted: the history grows, or everything is restricted. -/
theorem restricts_mono {p : Int} (h : s.evictionRestricts p = true) (q : Int) :
    (s.restrictEvictedProject q).evictionRestricts p = true := by
  rw [restrictEvictedProject]
  split
  · exact h
  · next hnew =>
    rw [Bool.not_eq_true, Bool.or_eq_false_iff] at hnew
    rw [evictionRestricts, hnew.1, Bool.false_or] at h
    split
    · rfl
    · simp only [evictionRestricts, contains_eq_mem, decide_eq_true_eq] at h ⊢
      simp [h]

theorem restricts_restrictIfLost_mono {p : Int} (h : s.evictionRestricts p = true) (q : Int) :
    (s.restrictIfLost q).evictionRestricts p = true := by
  rw [restrictIfLost]
  split
  · exact h
  · exact restricts_mono h q

theorem restricts_restrictIfLost {p : Int} (h : s.holdsIn p = false) :
    (s.restrictIfLost p).evictionRestricts p = true := by
  rw [restrictIfLost, h]
  exact restricts_restrictEvictedProject s p

theorem foldl_restrictIfLost (projects : List Int) (s : SessionIdentityState) :
    (projects.foldl restrictIfLost s).held = s.held ∧ (∀ p, s.evictionRestricts p = true →
        (projects.foldl restrictIfLost s).evictionRestricts p = true) ∧
      ∀ p ∈ projects, s.holdsIn p = false →
        (projects.foldl restrictIfLost s).evictionRestricts p = true := by
  induction projects generalizing s with
  | nil => exact ⟨rfl, fun _ h => h, fun _ h => absurd h not_mem_nil⟩
  | cons q projects ih =>
    obtain ⟨hheld, hmono, hlost⟩ := ih (s.restrictIfLost q)
    have hholds (p : Int) : (s.restrictIfLost q).holdsIn p = s.holdsIn p := by
      rw [holdsIn, holdsIn, held_restrictIfLost]
    refine ⟨hheld.trans (held_restrictIfLost q), fun p hp => ?_, fun p hp hnone => ?_⟩
    · exact hmono p (restricts_restrictIfLost_mono hp q)
    · rcases mem_cons.mp hp with rfl | hp
      · exact hmono p (restricts_restrictIfLost hnone)
      · exact hlost p hp ((hholds p).trans hnone)

/-! ### Capacity -/

theorem held_enforceCapacityFrom (held : List SessionBinding) (s : SessionIdentityState) :
    (enforceCapacityFrom held s).held = held.drop (held.length - maxSessionBindings) := by
  induction held generalizing s with
  | nil => rfl
  | cons evicted held ih =>
    rw [enforceCapacityFrom]
    split
    · next hmany =>
      have hdrop : (evicted :: held).length - maxSessionBindings =
          held.length - maxSessionBindings + 1 := by
        rw [length_cons] at hmany ⊢
        omega
      rw [ih, hdrop, drop_succ_cons]
    · next hfew =>
      have hdrop : (evicted :: held).length - maxSessionBindings = 0 := by omega
      rw [hdrop, drop_zero]

/-- What goes because there is too much leaves a restriction. -/
theorem restricts_enforceCapacityFrom (held : List SessionBinding) (s : SessionIdentityState) :
    (∀ p, s.evictionRestricts p = true → (enforceCapacityFrom held s).evictionRestricts p = true) ∧
      ∀ binding ∈ held, (enforceCapacityFrom held s).holdsIn binding.projectId = false →
        (enforceCapacityFrom held s).evictionRestricts binding.projectId = true := by
  induction held generalizing s with
  | nil => exact ⟨fun _ h => h, fun _ h => absurd h not_mem_nil⟩
  | cons evicted held ih =>
    rw [enforceCapacityFrom]
    split
    · obtain ⟨hmono, hlost⟩ := ih ({ s with held }.restrictIfLost evicted.projectId)
      have hkeeps (p : Int) (hp : s.evictionRestricts p = true) :
          SessionIdentityState.evictionRestricts { s with held } p = true := hp
      refine ⟨fun p hp => hmono p (restricts_restrictIfLost_mono (hkeeps p hp) _),
        fun binding hb hnone => ?_⟩
      rcases mem_cons.mp hb with rfl | hb
      · by_cases hstays : { s with held }.holdsIn binding.projectId = true
        · -- Another binding of the project is still there at this point of the loop.
          obtain ⟨other, hother, hsame⟩ := holdsIn_iff.mp hstays
          have hgoes := hlost other hother
          rw [hsame] at hgoes
          exact hgoes hnone
        · rw [Bool.not_eq_true] at hstays
          exact hmono _ (restricts_restrictIfLost hstays)
      · exact hlost binding hb hnone
    · refine ⟨fun _ hp => hp, fun binding hb hnone => ?_⟩
      exact absurd rfl (holdsIn_eq_false_iff.mp hnone binding hb)

end SessionIdentityState

end AgentMail.Session
