import AgentMail.Cache.ReadCache

/-!
# What each call does to the read cache

Every call goes through on a sound cache and leaves a sound one. Of the two agent indexes each
lemma says what they show afterwards; an eviction may hide any entry.
-/

namespace AgentMail.Cache

open Base Lib List S3FifoCache

/-! ### The by-name index -/

theorem Named.of_shows {index index' : S3FifoCache (ScopeFp × Int × Text) AgentRow}
    (h : Named index) (hshows : ∀ key, index'.peek key = none ∨ index'.peek key = index.peek key) :
    Named index' := by
  intro key a ha
  rcases hshows key with hnone | heq
  · rw [hnone] at ha
    cases ha
  · rw [heq] at ha
    exact h key a ha

/-- The entries of a batch of agents. -/
def nameEntries (scopeFp : ScopeFp) (agents : List AgentRow) :
    List ((ScopeFp × Int × Text) × AgentRow) :=
  agents.map fun a => (a.nameKey scopeFp, a)

theorem lastEntry_nameEntries {scopeFp : ScopeFp} {agents : List AgentRow}
    {key : ScopeFp × Int × Text} {a : AgentRow}
    (h : lastEntry key (nameEntries scopeFp agents) = some a) :
    a ∈ agents ∧ key = a.nameKey scopeFp := by
  rw [lastEntry, Option.map_eq_some_iff] at h
  obtain ⟨e, hfind, rfl⟩ := h
  have hmem := mem_reverse.mp (mem_of_find?_eq_some hfind)
  obtain ⟨a, ha, rfl⟩ := mem_map.mp hmem
  have hkey := List.find?_some hfind
  exact ⟨ha, (of_decide_eq_true hkey).symm⟩

theorem Named.insertAll {index index' : S3FifoCache (ScopeFp × Int × Text) AgentRow}
    (h : Named index) {scopeFp : ScopeFp} {agents : List AgentRow}
    (hshows : ∀ key, index'.peek key = none ∨ index'.peek key =
      (lastEntry key (nameEntries scopeFp agents)).or (index.peek key)) :
    Named index' := by
  intro key a ha
  rcases hshows key with hnone | heq
  · rw [hnone] at ha
    cases ha
  · rw [heq] at ha
    cases hlast : lastEntry key (nameEntries scopeFp agents) with
    | none =>
      rw [hlast] at ha
      exact h key a ha
    | some b =>
      rw [hlast] at ha
      cases ha
      rw [(lastEntry_nameEntries hlast).2]
      rfl

/-! ### Touches -/

theorem shards_invalidate (mem : TouchMemory) (scopeFp : ScopeFp) (shard : Nat) :
    (mem.invalidate scopeFp).shards shard =
      if shard < numTouchShards then retainOthers scopeFp (mem.shards shard)
      else mem.shards shard := by
  have hfold : ∀ (n : Nat) (mem : TouchMemory) (flag : Bool),
      ((range n).foldl (fun (r : TouchMemory × Bool) shard =>
        (r.1.sweep scopeFp shard, r.2 || !(retainOthers scopeFp (r.1.shards shard)).isEmpty))
        (mem, flag)).1.shards shard =
      if shard < n then retainOthers scopeFp (mem.shards shard) else mem.shards shard := by
    intro n
    induction n with
    | zero => exact fun mem flag => rfl
    | succ n ih =>
      intro mem flag
      rw [range_succ, foldl_append, foldl_cons, foldl_nil, TouchMemory.sweep]
      dsimp only
      rw [Function.update_apply]
      by_cases hlast : shard = n
      · subst hlast
        rw [if_pos rfl, if_pos (Nat.lt_succ_self _), ih, if_neg (Nat.lt_irrefl _)]
      · rw [if_neg hlast, ih]
        by_cases hlt : shard < n
        · rw [if_pos hlt, if_pos (by omega)]
        · rw [if_neg hlt, if_neg (by omega)]
  rw [TouchMemory.invalidate, TouchMemory.restore]
  split
  · exact hfold numTouchShards _ false
  · exact hfold numTouchShards _ false

namespace ReadCache

variable {c : ReadCache} (scopeFingerprint : Text → ScopeFp)

/-! ### Calls -/

theorem sound_withCapacity {capacity : Nat} (h : 1 ≤ capacity) :
    ∃ c, withCapacity capacity = some c ∧ c.Sound := by
  have hpos : capacity > 0 := h
  have hnew : ∀ {K V : Type}, (new capacity : Option (S3FifoCache K V)) =
      some ⟨shares capacity, TicketQueues.empty⟩ := if_pos hpos
  refine ⟨⟨_, _, _, _, _, ⟨fun _ => [], false, 0⟩⟩, ?_, ⟨sound_new h,
    sound_new h, sound_new h, sound_new h, sound_new h, nofun⟩⟩
  rw [withCapacity, hnew, hnew, hnew, hnew]
  rfl

section

variable (h : c.Sound)
include h

theorem Sound.putProject (scope : Text) (project : ProjectRow) :
    ∃ c', c.putProjectScoped scopeFingerprint scope project = some c' ∧ c'.Sound ∧
      c'.agentsByKey = c.agentsByKey := by
  obtain ⟨bySlug, hslug, hsound₁, _⟩ :=
    h.projectsBySlug.insert (scopeFingerprint scope, project.slug) project
  obtain ⟨byHumanKey, hhuman, hsound₂, _⟩ :=
    h.projectsByHumanKey.insert (scopeFingerprint scope, project.humanKey) project
  refine ⟨{ c with projectsBySlug := bySlug, projectsByHumanKey := byHumanKey }, ?_, { h with
    projectsBySlug := hsound₁.sound
    projectsByHumanKey := hsound₂.sound }, rfl⟩
  rw [putProjectScoped, hslug]
  dsimp only [Option.bind_eq_bind, Option.bind_some]
  rw [hhuman]
  rfl

theorem Sound.putInboxStats (scope : Text) (stats : InboxStatsRow) :
    ∃ c', c.putInboxStatsScoped scopeFingerprint scope stats = some c' ∧ c'.Sound ∧
      c'.agentsByKey = c.agentsByKey := by
  obtain ⟨inboxStats, hinsert, hsound, _⟩ :=
    h.inboxStats.insert (scopeFingerprint scope, stats.agentId) stats
  refine ⟨{ c with inboxStats }, ?_, { h with inboxStats := hsound.sound }, rfl⟩
  rw [putInboxStatsScoped, hinsert]
  rfl

/-- A put leaves the name to a row of a lower id, else it takes it. -/
theorem Sound.putAgent (scope : Text) (agent : AgentRow) :
    ∃ c', c.putAgentScoped scopeFingerprint scope agent = some c' ∧ c'.Sound ∧
      ∀ key, c'.agentsByKey.peek key = none ∨ c'.agentsByKey.peek key = c.agentsByKey.peek key ∨
        (c.displacesCanonical (scopeFingerprint scope) agent = false ∧
          key = agent.nameKey (scopeFingerprint scope) ∧ c'.agentsByKey.peek key = some agent) := by
  obtain ⟨byId, hbyId, hsoundId, _⟩ :=
    h.agentsById.insertAll (agent.idEntry (scopeFingerprint scope)).toList
  cases hdisplaces : c.displacesCanonical (scopeFingerprint scope) agent with
  | true =>
    refine ⟨{ c with agentsById := byId }, ?_, { h with agentsById := hsoundId },
      fun key => .inr (.inl rfl)⟩
    rw [putAgentScoped]
    dsimp only
    rw [hdisplaces, hbyId]
    rfl
  | false =>
    obtain ⟨byKey, hinsert, hstepped, hself⟩ :=
      h.agentsByKey.insert (agent.nameKey (scopeFingerprint scope)) agent
    have hshows : ∀ key, byKey.peek key = none ∨ byKey.peek key = c.agentsByKey.peek key ∨
        (key = agent.nameKey (scopeFingerprint scope) ∧ byKey.peek key = some agent) := by
      intro key
      rcases hstepped.shows key with hnone | heq
      · exact .inl hnone
      · rw [Op.write] at heq
        split at heq
        · next hkey => exact .inr (.inr ⟨hkey.symm, heq⟩)
        · exact .inr (.inl heq)
    refine ⟨{ c with agentsByKey := byKey, agentsById := byId }, ?_, { h with
      agentsByKey := hstepped.sound
      agentsById := hsoundId
      named := ?_ }, fun key => ?_⟩
    · rw [putAgentScoped]
      dsimp only
      rw [hdisplaces, if_neg Bool.false_ne_true, hinsert, hbyId]
      rfl
    · intro key a ha
      rcases hshows key with hnone | heq | ⟨hkey, heq⟩
      · rw [hnone] at ha
        cases ha
      · rw [heq] at ha
        exact h.named key a ha
      · rw [heq] at ha
        cases ha
        rw [hkey]
        rfl
    · rcases hshows key with hnone | heq | hnew
      · exact .inl hnone
      · exact .inr (.inl heq)
      · exact .inr (.inr ⟨rfl, hnew⟩)

/-- A warm call writes every row, in order. -/
theorem Sound.warmAgents (scope : Text) (agents : List AgentRow) :
    ∃ c', c.warmAgentsScoped scopeFingerprint scope agents = some c' ∧ c'.Sound ∧
      c.agentsByKey.insertAll (nameEntries (scopeFingerprint scope) agents) = some c'.agentsByKey ∧
      ∀ key, c'.agentsByKey.peek key = none ∨ c'.agentsByKey.peek key =
        (lastEntry key (nameEntries (scopeFingerprint scope) agents)).or
          (c.agentsByKey.peek key) := by
  obtain ⟨byKey, hbyKey, hsound, hshows⟩ :=
    h.agentsByKey.insertAll (nameEntries (scopeFingerprint scope) agents)
  obtain ⟨byId, hbyId, hsoundId, _⟩ :=
    h.agentsById.insertAll (agents.filterMap (·.idEntry (scopeFingerprint scope)))
  refine ⟨{ c with agentsByKey := byKey, agentsById := byId }, ?_, { h with
    agentsByKey := hsound
    agentsById := hsoundId
    named := h.named.insertAll hshows }, hbyKey, hshows⟩
  rw [nameEntries] at hbyKey
  rw [warmAgentsScoped, hbyKey]
  dsimp only [Option.bind_eq_bind, Option.bind_some]
  rw [hbyId]
  rfl

/-- An invalidation of an agent hides its name, and without a hint every by-id entry of the
name. -/
theorem Sound.invalidateAgent (scope : Text) (projectId : Int) (name : Text)
    (id : Option Int) :
    ∃ c', c.invalidateAgentScoped scopeFingerprint scope projectId name id = some c' ∧ c'.Sound ∧
      (∀ key, c'.agentsByKey.peek key =
        if (scopeFingerprint scope, projectId, toAsciiLowercase name) = key then none
        else c.agentsByKey.peek key) ∧
      (id = none → ∀ i ∈ c.matchingIds (scopeFingerprint scope) projectId name,
        c'.agentsById.peek (scopeFingerprint scope, i) = none) ∧
      ∀ key, c'.agentsById.peek key = none ∨ c'.agentsById.peek key = c.agentsById.peek key := by
  obtain ⟨byKey, hremove, hsound, hpeek⟩ :=
    h.agentsByKey.peek_remove (scopeFingerprint scope, projectId, toAsciiLowercase name)
  generalize hids : (if id.isNone then
      ((id.toList ++ (((c.agentsByKey.peek
        (scopeFingerprint scope, projectId, toAsciiLowercase name)).bind (·.id)).filter
          fun rid => decide (some rid ≠ id)).toList ++
        c.matchingIds (scopeFingerprint scope) projectId name).insertionSort (· ≤ ·)).dedup
    else id.toList ++ (((c.agentsByKey.peek
        (scopeFingerprint scope, projectId, toAsciiLowercase name)).bind (·.id)).filter
          fun rid => decide (some rid ≠ id)).toList) = ids
  obtain ⟨byId, hbyId, hsoundId, hpeekId⟩ :=
    h.agentsById.removeKeys (ids.map fun id => (scopeFingerprint scope, id))
  refine ⟨{ c with agentsByKey := byKey, agentsById := byId }, ?_, { h with
    agentsByKey := hsound
    agentsById := hsoundId
    named := h.named.of_shows fun key => ?_ }, hpeek, ?_, fun key => ?_⟩
  · rw [invalidateAgentScoped]
    dsimp only
    rw [hremove]
    dsimp only [Option.bind_eq_bind, Option.bind_some]
    rw [hids, hbyId]
    rfl
  · rw [hpeek key]
    split
    · exact .inl rfl
    · exact .inr rfl
  · rintro rfl i hi
    change byId.peek _ = none
    rw [hpeekId, if_pos]
    apply mem_map_of_mem
    rw [← hids]
    simp [hi]
  · change byId.peek key = none ∨ byId.peek key = _
    rw [hpeekId key]
    split
    · exact .inl rfl
    · exact .inr rfl

/-- An invalidation of a scope hides its entries and no others. -/
theorem Sound.invalidateScope (scope : Text) :
    ∃ c', c.invalidateScope scopeFingerprint scope = some c' ∧ c'.Sound ∧
      (∀ key, c'.projectsBySlug.peek key =
        if key.1 == scopeFingerprint scope then none else c.projectsBySlug.peek key) ∧
      (∀ key, c'.projectsByHumanKey.peek key =
        if key.1 == scopeFingerprint scope then none else c.projectsByHumanKey.peek key) ∧
      (∀ key, c'.agentsByKey.peek key =
        if key.1 == scopeFingerprint scope then none else c.agentsByKey.peek key) ∧
      (∀ key, c'.agentsById.peek key =
        if key.1 == scopeFingerprint scope then none else c.agentsById.peek key) ∧
      (∀ key, c'.inboxStats.peek key =
        if key.1 == scopeFingerprint scope then none else c.inboxStats.peek key) ∧
      c'.touches = c.touches.invalidate (scopeFingerprint scope) := by
  obtain ⟨bySlug, hslug, hsound₁, hpeek₁⟩ :=
    h.projectsBySlug.removeKeys_filter (·.1 == scopeFingerprint scope)
  obtain ⟨byHumanKey, hhuman, hsound₂, hpeek₂⟩ :=
    h.projectsByHumanKey.removeKeys_filter (·.1 == scopeFingerprint scope)
  obtain ⟨byKey, hbyKey, hsound₃, hpeek₃⟩ :=
    h.agentsByKey.removeKeys_filter (·.1 == scopeFingerprint scope)
  obtain ⟨byId, hbyId, hsound₄, hpeek₄⟩ :=
    h.agentsById.removeKeys_filter (·.1 == scopeFingerprint scope)
  obtain ⟨inboxStats, hinbox, hsound₅, hpeek₅⟩ :=
    h.inboxStats.removeKeys_filter (·.1 == scopeFingerprint scope)
  refine ⟨⟨bySlug, byHumanKey, byKey, byId, inboxStats, _⟩, ?_, ⟨hsound₁, hsound₂, hsound₃,
    hsound₄, hsound₅, h.named.of_shows fun key => ?_⟩, hpeek₁, hpeek₂, hpeek₃, hpeek₄, hpeek₅, rfl⟩
  · rw [ReadCache.invalidateScope]
    dsimp only
    rw [hslug, hhuman, hbyKey, hbyId, hinbox]
    rfl
  · rw [hpeek₃ key]
    split
    · exact .inl rfl
    · exact .inr rfl

theorem Sound.step (call : CacheCall) :
    ∃ c', c.step scopeFingerprint call = some c' ∧ c'.Sound := by
  cases call with
  | putProject scope project =>
    obtain ⟨c', hstep, hsound, _⟩ := h.putProject scopeFingerprint scope project
    exact ⟨c', hstep, hsound⟩
  | putAgent scope agent =>
    obtain ⟨c', hstep, hsound, _⟩ := h.putAgent scopeFingerprint scope agent
    exact ⟨c', hstep, hsound⟩
  | warmAgents scope agents =>
    obtain ⟨c', hstep, hsound, _⟩ := h.warmAgents scopeFingerprint scope agents
    exact ⟨c', hstep, hsound⟩
  | invalidateAgent scope projectId name id =>
    obtain ⟨c', hstep, hsound, _⟩ := h.invalidateAgent scopeFingerprint scope projectId name id
    exact ⟨c', hstep, hsound⟩
  | putInboxStats scope stats =>
    obtain ⟨c', hstep, hsound, _⟩ := h.putInboxStats scopeFingerprint scope stats
    exact ⟨c', hstep, hsound⟩
  | enqueueTouch scope agentId ts => exact ⟨_, rfl, { h with }⟩
  | invalidateScope scope =>
    obtain ⟨c', hstep, hsound, _⟩ := h.invalidateScope scopeFingerprint scope
    exact ⟨c', hstep, hsound⟩

theorem Sound.steps (calls : List CacheCall) :
    ∃ c', calls.foldlM (ReadCache.step scopeFingerprint) c = some c' ∧ c'.Sound := by
  induction calls generalizing c with
  | nil => exact ⟨c, rfl, h⟩
  | cons call calls ih =>
    obtain ⟨c₁, hstep, hsound⟩ := h.step scopeFingerprint call
    obtain ⟨c', hcalls, hsound'⟩ := ih hsound
    refine ⟨c', ?_, hsound'⟩
    rw [foldlM_cons, hstep]
    exact hcalls

end

theorem run_sound {capacity : Nat} (h : 1 ≤ capacity) (calls : List CacheCall) :
    ∃ c, run scopeFingerprint capacity calls = some c ∧ c.Sound := by
  obtain ⟨c₀, hnew, hsound⟩ := sound_withCapacity h
  obtain ⟨c, hcalls, hsound'⟩ := hsound.steps scopeFingerprint calls
  refine ⟨c, ?_, hsound'⟩
  rw [run, hnew]
  exact hcalls

end ReadCache

end AgentMail.Cache
