import Mathlib.Data.Fintype.Pigeonhole
import AgentMail.Cache.ReadCacheLaws

/-!
# Invalidation of agents and scopes

An agent is hidden under its name and under its id, though the two entries were evicted
independently. A scope is known to the cache by its fingerprint only, so two scopes of one
fingerprint are retired together.
-/

namespace AgentMail.Cache

open Base Lib

namespace ReadCache

/-- No index shows anything under a fingerprint, and no touch waits. -/
structure Without (c : ReadCache) (scopeFp : ScopeFp) : Prop where
  projectsBySlug : ∀ key, key.1 = scopeFp → c.projectsBySlug.peek key = none
  projectsByHumanKey : ∀ key, key.1 = scopeFp → c.projectsByHumanKey.peek key = none
  agentsByKey : ∀ key, key.1 = scopeFp → c.agentsByKey.peek key = none
  agentsById : ∀ key, key.1 = scopeFp → c.agentsById.peek key = none
  inboxStats : ∀ key, key.1 = scopeFp → c.inboxStats.peek key = none
  touches : ∀ shard < numTouchShards, ∀ e ∈ c.touches.shards shard, e.1.1 ≠ scopeFp

/-- All indexes show the same under a fingerprint, and the same touches wait. -/
structure SameAt (c c' : ReadCache) (scopeFp : ScopeFp) : Prop where
  projectsBySlug : ∀ key, key.1 = scopeFp → c'.projectsBySlug.peek key = c.projectsBySlug.peek key
  projectsByHumanKey : ∀ key, key.1 = scopeFp →
    c'.projectsByHumanKey.peek key = c.projectsByHumanKey.peek key
  agentsByKey : ∀ key, key.1 = scopeFp → c'.agentsByKey.peek key = c.agentsByKey.peek key
  agentsById : ∀ key, key.1 = scopeFp → c'.agentsById.peek key = c.agentsById.peek key
  inboxStats : ∀ key, key.1 = scopeFp → c'.inboxStats.peek key = c.inboxStats.peek key
  touches : ∀ shard, (c'.touches.shards shard).filter (·.1.1 == scopeFp) =
    (c.touches.shards shard).filter (·.1.1 == scopeFp)

/-- Neither agent index shows an agent of a scope and project under a name, in any case. -/
def WithoutAgent (c : ReadCache) (scopeFp : ScopeFp) (projectId : Int) (name : Text) : Prop :=
  (∀ key a, c.agentsByKey.peek key = some a → key.1 = scopeFp → a.projectId = projectId →
      eqIgnoreAsciiCase a.name name = false) ∧
    ∀ key a, c.agentsById.peek key = some a → key.1 = scopeFp → a.projectId = projectId →
      eqIgnoreAsciiCase a.name name = false

variable {c : ReadCache} (scopeFingerprint : Text → ScopeFp)

/-- A row of the by-id index that carries the name is found by its content. -/
theorem Sound.mem_matchingIds (h : c.Sound) {key : ScopeFp × Int} {a : AgentRow}
    (ha : c.agentsById.peek key = some a) {name : Text}
    (hname : eqIgnoreAsciiCase a.name name = true) :
    key.2 ∈ c.matchingIds key.1 a.projectId name := by
  rw [matchingIds, List.mem_filterMap]
  refine ⟨key, (h.agentsById.mem_keys key).mpr (by rw [ha]; rfl), ?_⟩
  rw [if_neg (not_not_intro rfl), ha, Option.bind_some, if_pos ⟨rfl, hname⟩]

theorem Sound.invalidateAgent_complete (h : c.Sound) (scope : Text) (projectId : Int)
    (name : Text) :
    ∃ c', c.invalidateAgentScoped scopeFingerprint scope projectId name none = some c' ∧
      c'.WithoutAgent (scopeFingerprint scope) projectId name := by
  obtain ⟨c', hstep, hsound, hbyKey, hmatching, hbyId⟩ :=
    h.invalidateAgent scopeFingerprint scope projectId name none
  refine ⟨c', hstep, ?_, ?_⟩
  · intro key a ha hscope hproject
    rw [← Bool.not_eq_true]
    intro hname
    have hkey := hsound.named key a ha
    rw [eqIgnoreAsciiCase, beq_iff_eq] at hname
    rw [hbyKey key, if_pos] at ha
    · cases ha
    · rw [hkey, AgentRow.nameKey, hscope, hproject, toAsciiLowercase, toAsciiLowercase, hname]
  · intro key a ha hscope hproject
    rw [← Bool.not_eq_true]
    intro hname
    rcases hbyId key with hnone | heq
    · rw [hnone] at ha
      cases ha
    · have hmem := h.mem_matchingIds (heq ▸ ha) hname
      rw [hscope, hproject] at hmem
      have hnone := hmatching rfl key.2 hmem
      rw [← hscope, ha] at hnone
      cases hnone

theorem Sound.invalidateScope_complete (h : c.Sound) (scope : Text) :
    ∃ c', c.invalidateScope scopeFingerprint scope = some c' ∧ c'.Without (scopeFingerprint scope) ∧
      ∀ scopeFp, scopeFp ≠ scopeFingerprint scope → SameAt c c' scopeFp := by
  obtain ⟨c', hstep, _, h₁, h₂, h₃, h₄, h₅, htouches⟩ := h.invalidateScope scopeFingerprint scope
  refine ⟨c', hstep, ?_, fun scopeFp hne => ?_⟩
  · exact {
      projectsBySlug := fun key hkey => by rw [h₁ key, if_pos (beq_iff_eq.mpr hkey)]
      projectsByHumanKey := fun key hkey => by rw [h₂ key, if_pos (beq_iff_eq.mpr hkey)]
      agentsByKey := fun key hkey => by rw [h₃ key, if_pos (beq_iff_eq.mpr hkey)]
      agentsById := fun key hkey => by rw [h₄ key, if_pos (beq_iff_eq.mpr hkey)]
      inboxStats := fun key hkey => by rw [h₅ key, if_pos (beq_iff_eq.mpr hkey)]
      touches := fun shard hshard e he => by
        rw [htouches, shards_invalidate, if_pos hshard, retainOthers, List.mem_filter] at he
        simpa using he.2 }
  · have hother : ∀ s : ScopeFp, s = scopeFp → ¬ (s == scopeFingerprint scope) = true := by
      intro s hs heq
      rw [beq_iff_eq] at heq
      exact hne (hs.symm.trans heq)
    exact {
      projectsBySlug := fun key hkey => by rw [h₁ key, if_neg (hother _ hkey)]
      projectsByHumanKey := fun key hkey => by rw [h₂ key, if_neg (hother _ hkey)]
      agentsByKey := fun key hkey => by rw [h₃ key, if_neg (hother _ hkey)]
      agentsById := fun key hkey => by rw [h₄ key, if_neg (hother _ hkey)]
      inboxStats := fun key hkey => by rw [h₅ key, if_neg (hother _ hkey)]
      touches := fun shard => by
        rw [htouches, shards_invalidate]
        split
        · rw [retainOthers, List.filter_filter]
          apply List.filter_congr
          intro e _
          by_cases he : e.1.1 = scopeFp
          · simp [he, hne]
          · simp [he]
        · rfl }

/-- In every cache that calls can lead to, an invalidation without a hint hides the agent in both
indexes, and an invalidation of a scope hides all of it and nothing under another fingerprint. -/
theorem invalidation_complete {capacity : Nat} (h : 1 ≤ capacity) (calls : List CacheCall) :
    ∃ c, run scopeFingerprint capacity calls = some c ∧ (∀ scope projectId name, ∃ c',
        c.invalidateAgentScoped scopeFingerprint scope projectId name none = some c' ∧
          c'.WithoutAgent (scopeFingerprint scope) projectId name) ∧
      ∀ scope, ∃ c', c.invalidateScope scopeFingerprint scope = some c' ∧
        c'.Without (scopeFingerprint scope) ∧
        ∀ other, scopeFingerprint other ≠ scopeFingerprint scope →
          SameAt c c' (scopeFingerprint other) := by
  obtain ⟨c, hrun, hsound⟩ := run_sound scopeFingerprint h calls
  refine ⟨c, hrun, hsound.invalidateAgent_complete scopeFingerprint, fun scope => ?_⟩
  obtain ⟨c', hstep, hwithout, hsame⟩ := hsound.invalidateScope_complete scopeFingerprint scope
  exact ⟨c', hstep, hwithout, fun other => hsame (scopeFingerprint other)⟩

theorem invalidation_complete_one :
    ∃ c, run (fun scope => BitVec.ofNat 64 scope.length) 1 [.putAgent ['s'] ⟨some 1, 7, ['a']⟩] =
        some c ∧ (∀ scope projectId name, ∃ c',
        c.invalidateAgentScoped (fun scope => BitVec.ofNat 64 scope.length) scope projectId name
            none = some c' ∧ c'.WithoutAgent (BitVec.ofNat 64 scope.length) projectId name) ∧
      ∀ scope, ∃ c', c.invalidateScope (fun scope => BitVec.ofNat 64 scope.length) scope = some c' ∧
        c'.Without (BitVec.ofNat 64 scope.length) ∧
        ∀ other : Text, BitVec.ofNat 64 other.length ≠ BitVec.ofNat 64 scope.length →
          SameAt c c' (BitVec.ofNat 64 other.length) :=
  invalidation_complete (fun scope => BitVec.ofNat 64 scope.length) (Nat.le_refl 1) _

/-- No fingerprint keeps all scopes apart: under each one, some scope's invalidation hides an
agent of another scope. -/
theorem invalidateScope_hits_another :
    ¬ ∃ scopeFingerprint : Text → ScopeFp, ∀ capacity, 1 ≤ capacity → ∀ calls c,
      run scopeFingerprint capacity calls = some c → ∀ scope other, other ≠ scope →
      ∀ c', c.invalidateScope scopeFingerprint scope = some c' →
        SameAt c c' (scopeFingerprint other) := by
  rintro ⟨scopeFingerprint, hsame⟩
  have hfinite : Finite ScopeFp :=
    Finite.of_injective BitVec.toFin fun _ _ h => BitVec.eq_of_toFin_eq h
  obtain ⟨other, scope, hne, hfp⟩ := Finite.exists_ne_map_eq_of_infinite scopeFingerprint
  -- One agent of the other scope, warmed.
  obtain ⟨c₀, hnew, hsound₀⟩ := sound_withCapacity (Nat.le_refl 1)
  obtain ⟨c, hwarm, hsound, hentries, _⟩ :=
    hsound₀.warmAgents scopeFingerprint other [⟨some 1, 7, ['a']⟩]
  obtain ⟨index, hindex, hpeek⟩ := hsound₀.agentsByKey.insertAll_concat []
    ((scopeFingerprint other, 7, ['a']), ⟨some 1, 7, ['a']⟩)
  cases hindex.symm.trans hentries
  have hrun : run scopeFingerprint 1 [.warmAgents other [⟨some 1, 7, ['a']⟩]] = some c := by
    rw [run, hnew]
    change (c₀.warmAgentsScoped scopeFingerprint other _).bind some = some c
    rw [hwarm]
    rfl
  obtain ⟨c', hstep, hwithout, _⟩ := hsound.invalidateScope_complete scopeFingerprint scope
  have hkept := (hsame 1 (Nat.le_refl 1) _ c hrun scope other hne c' hstep).agentsByKey
    (scopeFingerprint other, 7, ['a']) rfl
  rw [hwithout.agentsByKey _ hfp, hpeek] at hkept
  cases hkept

end ReadCache

end AgentMail.Cache
