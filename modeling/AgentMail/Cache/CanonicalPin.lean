import AgentMail.Cache.ReadCacheLaws

/-!
# The canonical row of a name

Rows whose names differ in case only share a by-name key. `put_agent_scoped` keeps the row of the
lowest id there; `warm_agents_scoped` writes what it is given.
-/

namespace AgentMail.Cache

open Base Lib List

variable (scopeFingerprint : Text → ScopeFp)

namespace ReadCache

/-- The id that a by-name key shows after some calls. -/
def idAfter (capacity : Nat) (calls : List CacheCall) (key : ScopeFp × Int × Text) : Option Int :=
  (run scopeFingerprint capacity calls).bind (·.nameId key)

/-- While a name keeps showing a row with an id, the id does not go up. -/
def NeverRises (capacity : Nat) (calls : List CacheCall) : Prop :=
  ∀ front mid back, calls = front ++ mid ++ back → ∀ key, (∀ mid' rest, mid = mid' ++ rest →
      (idAfter scopeFingerprint capacity (front ++ mid') key).isSome) →
    ∀ i j, idAfter scopeFingerprint capacity front key = some i →
      idAfter scopeFingerprint capacity (front ++ mid) key = some j → j ≤ i

end ReadCache

/-- The last row of a warm call for a name has no higher id than the row that stands there. -/
def CacheCall.KeepsCanonical (c : ReadCache) : CacheCall → Prop
  | .warmAgents scope agents =>
    ∀ key a, S3FifoCache.lastEntry key (nameEntries (scopeFingerprint scope) agents) = some a →
      ∀ i j, c.nameId key = some i → a.id = some j → j ≤ i
  | _ => True

namespace ReadCache

variable {scopeFingerprint} {c : ReadCache}

theorem nameId_of_peek_eq {c' : ReadCache} {key : ScopeFp × Int × Text}
    (h : c'.agentsByKey.peek key = none ∨ c'.agentsByKey.peek key = c.agentsByKey.peek key)
    {i j : Int} (hi : c.nameId key = some i) (hj : c'.nameId key = some j) : j ≤ i := by
  rw [nameId] at hi hj
  rcases h with hnone | heq
  · rw [hnone] at hj
    cases hj
  · rw [heq, hi] at hj
    cases hj
    exact Int.le_refl i

theorem le_of_displacesCanonical {scopeFp : ScopeFp} {agent : AgentRow}
    (h : c.displacesCanonical scopeFp agent = false) {i j : Int}
    (hi : c.nameId (agent.nameKey scopeFp) = some i) (hj : agent.id = some j) : j ≤ i := by
  rw [displacesCanonical, hi, hj] at h
  have := of_decide_eq_false h
  omega

/-- One call: only a warm call can raise the id under a name. -/
theorem Sound.nameId_step (h : c.Sound) {call : CacheCall}
    (hkeeps : call.KeepsCanonical scopeFingerprint c) {c' : ReadCache}
    (hstep : c.step scopeFingerprint call = some c') {key : ScopeFp × Int × Text} {i j : Int}
    (hi : c.nameId key = some i) (hj : c'.nameId key = some j) : j ≤ i := by
  cases call with
  | putProject scope project =>
    obtain ⟨c'', hstep', _, hsame⟩ := h.putProject scopeFingerprint scope project
    cases hstep.symm.trans hstep'
    exact nameId_of_peek_eq (.inr (by rw [hsame])) hi hj
  | putAgent scope agent =>
    obtain ⟨c'', hstep', _, hshows⟩ := h.putAgent scopeFingerprint scope agent
    cases hstep.symm.trans hstep'
    rcases hshows key with hnone | heq | ⟨hdisplaces, hkey, hself⟩
    · exact nameId_of_peek_eq (.inl hnone) hi hj
    · exact nameId_of_peek_eq (.inr heq) hi hj
    · rw [nameId, hself] at hj
      rw [hkey] at hi
      exact le_of_displacesCanonical hdisplaces hi hj
  | warmAgents scope agents =>
    obtain ⟨c'', hstep', _, _, hshows⟩ := h.warmAgents scopeFingerprint scope agents
    cases hstep.symm.trans hstep'
    rcases hshows key with hnone | heq
    · exact nameId_of_peek_eq (.inl hnone) hi hj
    · cases hlast : S3FifoCache.lastEntry key (nameEntries (scopeFingerprint scope) agents) with
      | none =>
        rw [hlast] at heq
        exact nameId_of_peek_eq (.inr heq) hi hj
      | some a =>
        rw [hlast] at heq
        rw [nameId, heq] at hj
        exact hkeeps key a hlast i j hi hj
  | invalidateAgent scope projectId name id =>
    obtain ⟨c'', hstep', _, hshows, _⟩ :=
      h.invalidateAgent scopeFingerprint scope projectId name id
    cases hstep.symm.trans hstep'
    apply nameId_of_peek_eq _ hi hj
    rw [hshows key]
    split
    · exact .inl rfl
    · exact .inr rfl
  | putInboxStats scope stats =>
    obtain ⟨c'', hstep', _, hsame⟩ := h.putInboxStats scopeFingerprint scope stats
    cases hstep.symm.trans hstep'
    exact nameId_of_peek_eq (.inr (by rw [hsame])) hi hj
  | enqueueTouch scope agentId ts =>
    cases hstep
    exact nameId_of_peek_eq (.inr rfl) hi hj
  | invalidateScope scope =>
    obtain ⟨c'', hstep', _, _, _, hshows, _⟩ := h.invalidateScope scopeFingerprint scope
    cases hstep.symm.trans hstep'
    apply nameId_of_peek_eq _ hi hj
    rw [hshows key]
    split
    · exact .inl rfl
    · exact .inr rfl

theorem run_concat (scopeFingerprint : Text → ScopeFp) (capacity : Nat) (calls : List CacheCall)
    (call : CacheCall) :
    run scopeFingerprint capacity (calls ++ [call]) =
      (run scopeFingerprint capacity calls).bind fun c => c.step scopeFingerprint call := by
  rw [run, run]
  cases withCapacity capacity with
  | none => rfl
  | some c =>
    dsimp only [Option.bind_eq_bind, Option.bind_some]
    rw [foldlM_append]
    cases calls.foldlM (step scopeFingerprint) c with
    | none => rfl
    | some c' =>
      change (c'.step scopeFingerprint call).bind some = c'.step scopeFingerprint call
      exact Option.bind_fun_some _

/-- The lowest id holds a name as long as no warm call brings a higher one for it; a warm call
that ends with one takes the name. -/
theorem neverRises_of_keepsCanonical (scopeFingerprint : Text → ScopeFp) {capacity : Nat}
    (h : 1 ≤ capacity) (calls : List CacheCall) :
    ((∀ front call back, calls = front ++ call :: back → ∀ c,
        run scopeFingerprint capacity front = some c → call.KeepsCanonical scopeFingerprint c) →
      NeverRises scopeFingerprint capacity calls) ∧
    ∀ scope agents agent i j, agent.id = some j → i < j →
      idAfter scopeFingerprint capacity calls (agent.nameKey (scopeFingerprint scope)) = some i →
      idAfter scopeFingerprint capacity (calls ++ [.warmAgents scope (agents ++ [agent])])
        (agent.nameKey (scopeFingerprint scope)) = some j := by
  constructor
  · intro hkeeps front mid
    induction mid using reverseRecOn with
    | nil =>
      intro back _ key _ i j hi hj
      rw [append_nil, hi] at hj
      cases hj
      exact Int.le_refl i
    | append_singleton mid call ih =>
      intro back hcalls key hshown i j hi hj
      obtain ⟨c₁, hrun₁, hsound₁⟩ := run_sound scopeFingerprint h (front ++ mid)
      obtain ⟨k, hk⟩ := Option.isSome_iff_exists.mp (hshown mid [call] rfl)
      have hle : k ≤ i := by
        apply ih (call :: back) (by simpa using hcalls) key _ i k hi hk
        intro mid' rest hmid
        exact hshown mid' (rest ++ [call]) (by rw [hmid, append_assoc])
      obtain ⟨c₂, hstep, _⟩ := hsound₁.step scopeFingerprint call
      have hrun₂ : run scopeFingerprint capacity (front ++ (mid ++ [call])) = some c₂ := by
        rw [← append_assoc, run_concat, hrun₁]
        exact hstep
      rw [idAfter, hrun₁, Option.bind_some] at hk
      rw [idAfter, hrun₂, Option.bind_some] at hj
      have hjk := hsound₁.nameId_step
        (hkeeps (front ++ mid) call back (by simpa using hcalls) c₁ hrun₁) hstep hk hj
      exact Int.le_trans hjk hle
  · intro scope agents agent i j hid hlt hi
    obtain ⟨c, hrun, hsound⟩ := run_sound scopeFingerprint h calls
    obtain ⟨c', hstep, _, hentries, _⟩ :=
      hsound.warmAgents scopeFingerprint scope (agents ++ [agent])
    have hconcat : nameEntries (scopeFingerprint scope) (agents ++ [agent]) =
        nameEntries (scopeFingerprint scope) agents ++
          [(agent.nameKey (scopeFingerprint scope), agent)] := by
      rw [nameEntries, nameEntries, map_append]
      rfl
    obtain ⟨index, hindex, hpeek⟩ := hsound.agentsByKey.insertAll_concat
      (nameEntries (scopeFingerprint scope) agents)
      (agent.nameKey (scopeFingerprint scope), agent)
    rw [hconcat, hindex] at hentries
    cases hentries
    rw [idAfter, run_concat, hrun, Option.bind_some]
    change (c.warmAgentsScoped scopeFingerprint scope (agents ++ [agent])).bind _ = _
    rw [hstep, Option.bind_some, nameId, hpeek]
    exact hid

/-- Two rows of one name, the lower one warmed. -/
def loweringCalls : List CacheCall :=
  [.putAgent [] ⟨some 2, 7, ['A']⟩, .warmAgents [] [⟨some 1, 7, ['a']⟩]]

theorem neverRises_lowering : NeverRises (fun _ => 0) 4 loweringCalls := by
  apply (neverRises_of_keepsCanonical (fun _ => 0) (by decide) loweringCalls).1
  intro front call back hcalls c hrun
  rcases front with _ | ⟨call₁, _ | ⟨call₂, front⟩⟩
  · cases hcalls
    trivial
  · cases hcalls
    intro key a hlast i j hi hj
    obtain ⟨ha, hkey⟩ := lastEntry_nameEntries hlast
    have hid : (run (fun _ => 0) 4 [.putAgent [] ⟨some 2, 7, ['A']⟩]).bind
        (·.nameId (0, 7, ['a'])) = some 2 := by decide
    rw [mem_singleton] at ha
    rw [ha] at hkey hj
    have hname : (⟨some 1, 7, ['a']⟩ : AgentRow).nameKey 0 = (0, 7, ['a']) := by decide
    rw [hrun, Option.bind_some, ← hname, ← hkey, hi] at hid
    cases hid
    cases hj
    decide
  · cases front with
    | nil => cases hcalls
    | cons call₃ front => cases hcalls

/-- Two rows of one name, the higher one warmed. -/
def raisingCalls : List CacheCall :=
  [.putAgent [] ⟨some 1, 7, ['a']⟩, .warmAgents [] [⟨some 2, 7, ['A']⟩]]

theorem not_neverRises_raising : ¬ NeverRises (fun _ => 0) 4 raisingCalls := by
  intro h
  have hrise := h [.putAgent [] ⟨some 1, 7, ['a']⟩] [.warmAgents [] [⟨some 2, 7, ['A']⟩]] [] rfl
    (0, 7, ['a']) ?_ 1 2 (by decide) (by decide)
  · exact absurd hrise (by decide)
  · intro mid' rest hmid
    cases mid' with
    | nil => decide
    | cons call mid' =>
      rw [cons_append, List.cons.injEq] at hmid
      have hnil := (append_eq_nil_iff.mp hmid.2.symm).1
      rw [← hmid.1, hnil]
      decide

end ReadCache

end AgentMail.Cache
