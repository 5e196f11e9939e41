import AgentMail.Base.Text
import AgentMail.Cache.DeferredTouch
import AgentMail.Cache.S3FifoRuns
import Mathlib.Data.List.Dedup
import Mathlib.Data.List.Sort

/-!
# Live keys and batches

`keys` of the S3-FIFO cache (`crates/mcp-agent-mail-db/src/s3fifo.rs:498–504`), and what its
callers do key by key: removing a list of keys and inserting a list of entries.
-/

namespace AgentMail.Cache

open Lib List

variable {K V : Type*} [DecidableEq K]

namespace S3FifoCache

/-- `keys`: all live keys, without the ghosts. -/
def keys (c : S3FifoCache K V) : List K :=
  c.store.index.filterMap fun e => if e.2.kind = .ghost then none else some e.1

def removeKeys (c : S3FifoCache K V) (keys : List K) : Option (S3FifoCache K V) :=
  keys.foldlM (fun c key => (c.remove key).map (·.2)) c

def insertAll (c : S3FifoCache K V) (entries : List (K × V)) : Option (S3FifoCache K V) :=
  entries.foldlM (fun c e => c.insert e.1 e.2) c

/-- The entry of a key that was inserted last. -/
def lastEntry (key : K) (entries : List (K × V)) : Option V :=
  (entries.reverse.find? fun e => decide (e.1 = key)).map (·.2)

theorem lastEntry_nil (key : K) : lastEntry key ([] : List (K × V)) = none := rfl

theorem lastEntry_cons (key : K) (e : K × V) (entries : List (K × V)) :
    lastEntry key (e :: entries) =
      (lastEntry key entries).or (if e.1 = key then some e.2 else none) := by
  rw [lastEntry, lastEntry, reverse_cons, List.find?_append, Option.map_or]
  by_cases he : e.1 = key
  · simp [he]
  · simp [he]

variable {c : S3FifoCache K V}

/-! ### Keys -/

theorem Sound.mem_keys (h : Sound c) (key : K) : key ∈ c.keys ↔ (c.peek key).isSome := by
  have hlookup : ∀ n, c.store.node key = some n ↔ (key, n) ∈ c.store.index := fun n =>
    h.fits.toCoherent.mem_index
  rw [keys, mem_filterMap]
  constructor
  · rintro ⟨e, he, hkey⟩
    split at hkey
    · cases hkey
    · next hkind =>
      cases hkey
      rw [peek, (hlookup e.2).mpr he]
      cases hn : e.2 with
      | small value freq seq => rfl
      | main value freq seq => rfl
      | ghost seq => exact absurd (by rw [hn]; rfl) hkind
  · intro hsome
    rw [peek] at hsome
    cases hn : c.store.node key with
    | none =>
      rw [hn] at hsome
      cases hsome
    | some n =>
      refine ⟨(key, n), (hlookup n).mp hn, if_neg fun hkind => ?_⟩
      rw [hn, Option.bind_some, Node.value_of_kind_ghost hkind] at hsome
      cases hsome

/-! ### Removing -/

/-- A removal hides its key and shows the others as before. -/
theorem Sound.peek_remove (h : Sound c) (key : K) :
    ∃ c', c.remove key = some (c.peek key, c') ∧ Sound c' ∧
      ∀ k, c'.peek k = if key = k then none else c.peek k := by
  obtain ⟨r, hremove, hstepped⟩ := h.remove key
  have hvalue : r.1 = c.peek key := by
    unfold S3FifoCache.remove at hremove
    rw [peek]
    cases hn : c.store.node key with
    | none =>
      rw [hn] at hremove
      cases hremove
      rfl
    | some n =>
      rw [hn] at hremove
      obtain ⟨Q', _, hr⟩ := Option.map_eq_some_iff.mp hremove
      rw [← hr]
      rfl
  refine ⟨r.2, by rw [hremove, ← hvalue], hstepped.sound, fun k => ?_⟩
  unfold S3FifoCache.remove at hremove
  cases hn : c.store.node key with
  | none =>
    rw [hn] at hremove
    cases hremove
    by_cases hk : key = k
    · rw [if_pos hk, peek, ← hk, hn]
      rfl
    · rw [if_neg hk]
  | some n =>
    rw [hn] at hremove
    obtain ⟨Q', hunlink, hr⟩ := Option.map_eq_some_iff.mp hremove
    rw [← hr, peek, peek]
    dsimp only
    rw [TicketQueues.node_of_unlink hunlink]
    split
    · rfl
    · rfl

theorem Sound.removeKeys (h : Sound c) (keys : List K) :
    ∃ c', c.removeKeys keys = some c' ∧ Sound c' ∧
      ∀ k, c'.peek k = if k ∈ keys then none else c.peek k := by
  induction keys generalizing c with
  | nil => exact ⟨c, rfl, h, fun k => by rw [if_neg not_mem_nil]⟩
  | cons key keys ih =>
    obtain ⟨c₁, hremove, hsound, hpeek⟩ := h.peek_remove key
    obtain ⟨c', hkeys, hsound', hpeek'⟩ := ih hsound
    refine ⟨c', ?_, hsound', fun k => ?_⟩
    · rw [S3FifoCache.removeKeys, foldlM_cons, hremove]
      exact hkeys
    · rw [hpeek' k, hpeek k]
      by_cases hmem : k ∈ keys
      · rw [if_pos hmem, if_pos (mem_cons_of_mem _ hmem)]
      · rw [if_neg hmem]
        by_cases hk : key = k
        · rw [if_pos hk, if_pos (hk ▸ mem_cons_self)]
        · rw [if_neg hk, if_neg]
          rw [mem_cons, not_or]
          exact ⟨Ne.symm hk, hmem⟩

/-- Removing the live keys of a kind empties the cache of that kind. -/
theorem Sound.removeKeys_filter (h : Sound c) (p : K → Bool) :
    ∃ c', c.removeKeys (c.keys.filter p) = some c' ∧ Sound c' ∧
      ∀ k, c'.peek k = if p k then none else c.peek k := by
  obtain ⟨c', hremove, hsound, hpeek⟩ := h.removeKeys (c.keys.filter p)
  refine ⟨c', hremove, hsound, fun k => ?_⟩
  rw [hpeek k]
  cases hk : c.peek k with
  | none => simp
  | some v => simp [mem_filter, h.mem_keys k, hk]

/-! ### Inserting -/

/-- After a batch a key shows nothing, or its last entry of the batch, or else what it showed. -/
theorem Sound.insertAll (h : Sound c) (entries : List (K × V)) :
    ∃ c', c.insertAll entries = some c' ∧ Sound c' ∧
      ∀ k, c'.peek k = none ∨ c'.peek k = (lastEntry k entries).or (c.peek k) := by
  induction entries generalizing c with
  | nil => exact ⟨c, rfl, h, fun k => .inr rfl⟩
  | cons e entries ih =>
    obtain ⟨c₁, hinsert, hstepped, _⟩ := h.insert e.1 e.2
    obtain ⟨c', hentries, hsound, hpeek⟩ := ih hstepped.sound
    refine ⟨c', ?_, hsound, fun k => ?_⟩
    · rw [S3FifoCache.insertAll, foldlM_cons, hinsert]
      exact hentries
    · rw [lastEntry_cons]
      rcases hpeek k with hnone | heq
      · exact .inl hnone
      · rcases hstepped.shows k with hnone | heq₁
        · rw [hnone, Option.or_none] at heq
          cases hlast : lastEntry k entries with
          | none => exact .inl (heq.trans hlast)
          | some v =>
            rw [hlast] at heq
            exact .inr (by rw [heq]; rfl)
        · rw [heq, heq₁, Op.write, Option.or_assoc]
          by_cases he : e.1 = k
          · simp [he]
          · simp [he]

theorem Sound.insertAll_concat (h : Sound c) (entries : List (K × V)) (e : K × V) :
    ∃ c', c.insertAll (entries ++ [e]) = some c' ∧ c'.peek e.1 = some e.2 := by
  obtain ⟨c₁, hentries, hsound, _⟩ := h.insertAll entries
  obtain ⟨c', hinsert, _, hpeek⟩ := hsound.insert e.1 e.2
  refine ⟨c', ?_, hpeek.1⟩
  rw [S3FifoCache.insertAll, foldlM_append]
  change c.insertAll entries >>= _ = _
  rw [hentries]
  change (c₁.insert e.1 e.2 >>= pure) = _
  rw [hinsert]
  rfl

end S3FifoCache

end AgentMail.Cache

/-!
## The read cache

Rows of projects, agents and inbox counters, and the deferred touches
(`crates/mcp-agent-mail-db/src/cache.rs:256–318, 480–1024`). Projects and agents stand in two
indexes each, which evict independently. Every key starts with the fingerprint of a database scope,
a 64-bit hash of its text.
-/

namespace AgentMail.Cache

open Base Lib List

/-! ### Rows -/

structure ProjectRow where
  id : Option Int
  slug : Text
  humanKey : Text

structure AgentRow where
  id : Option Int
  projectId : Int
  name : Text

structure InboxStatsRow where
  agentId : Int
  totalCount : Int
  unreadCount : Int
  ackPendingCount : Int
  lastMessageTs : Option Int

/-- `str::to_ascii_lowercase`. -/
def toAsciiLowercase (t : Text) : Text := t.map Char.toLower

/-- A scope as the keys have it. -/
abbrev ScopeFp : Type := BitVec 64

/-- `ReadCache`, without its locks. -/
structure ReadCache where
  projectsBySlug : S3FifoCache (ScopeFp × Text) ProjectRow
  projectsByHumanKey : S3FifoCache (ScopeFp × Text) ProjectRow
  agentsByKey : S3FifoCache (ScopeFp × Int × Text) AgentRow
  agentsById : S3FifoCache (ScopeFp × Int) AgentRow
  inboxStats : S3FifoCache (ScopeFp × Int) InboxStatsRow
  touches : TouchMemory

/-- The by-name key of an agent. -/
def AgentRow.nameKey (scopeFp : ScopeFp) (agent : AgentRow) : ScopeFp × Int × Text :=
  (scopeFp, agent.projectId, toAsciiLowercase agent.name)

/-- The by-id entry of an agent, if it has an id. -/
def AgentRow.idEntry (scopeFp : ScopeFp) (agent : AgentRow) :
    Option ((ScopeFp × Int) × AgentRow) :=
  agent.id.map fun id => ((scopeFp, id), agent)

/-- The sweep over the touches of a retired scope, under each shard's lock in turn. -/
def TouchMemory.invalidate (mem : TouchMemory) (scopeFp : ScopeFp) : TouchMemory :=
  let swept := (range numTouchShards).foldl
    (fun (r : TouchMemory × Bool) shard =>
      (r.1.sweep scopeFp shard, r.2 || !(retainOthers scopeFp (r.1.shards shard)).isEmpty))
    ({ mem with hasPending := false }, false)
  swept.1.restore swept.2

namespace ReadCache

/-- `with_capacity`; the caches assert that it is positive. -/
def withCapacity (capacity : Nat) : Option ReadCache := do
  return {
    projectsBySlug := ← S3FifoCache.new capacity
    projectsByHumanKey := ← S3FifoCache.new capacity
    agentsByKey := ← S3FifoCache.new capacity
    agentsById := ← S3FifoCache.new capacity
    inboxStats := ← S3FifoCache.new capacity
    touches := ⟨fun _ => [], false, 0⟩ }

section

variable (scopeFingerprint : Text → ScopeFp)

def putProjectScoped (c : ReadCache) (scope : Text) (project : ProjectRow) : Option ReadCache := do
  let scopeFp := scopeFingerprint scope
  let projectsBySlug ← c.projectsBySlug.insert (scopeFp, project.slug) project
  let projectsByHumanKey ← c.projectsByHumanKey.insert (scopeFp, project.humanKey) project
  return { c with projectsBySlug, projectsByHumanKey }

/-- The id of the row that a by-name key shows. -/
def nameId (c : ReadCache) (key : ScopeFp × Int × Text) : Option Int :=
  (c.agentsByKey.peek key).bind (·.id)

/-- A row with a lower id holds the name. -/
def displacesCanonical (c : ReadCache) (scopeFp : ScopeFp) (agent : AgentRow) : Bool :=
  match agent.id, c.nameId (agent.nameKey scopeFp) with
  | some newId, some existingId => existingId < newId
  | _, _ => false

def putAgentScoped (c : ReadCache) (scope : Text) (agent : AgentRow) : Option ReadCache := do
  let scopeFp := scopeFingerprint scope
  let agentsByKey ←
    if c.displacesCanonical scopeFp agent then some c.agentsByKey
    else c.agentsByKey.insert (agent.nameKey scopeFp) agent
  let agentsById ← c.agentsById.insertAll (agent.idEntry scopeFp).toList
  return { c with agentsByKey, agentsById }

def warmAgentsScoped (c : ReadCache) (scope : Text) (agents : List AgentRow) : Option ReadCache := do
  let scopeFp := scopeFingerprint scope
  let agentsByKey ← c.agentsByKey.insertAll (agents.map fun a => (a.nameKey scopeFp, a))
  let agentsById ← c.agentsById.insertAll (agents.filterMap (·.idEntry scopeFp))
  return { c with agentsByKey, agentsById }

/-- The ids of an agent's entries in the by-id index. -/
def matchingIds (c : ReadCache) (scopeFp : ScopeFp) (projectId : Int) (name : Text) : List Int :=
  c.agentsById.keys.filterMap fun key =>
    if key.1 ≠ scopeFp then none
    else
      (c.agentsById.peek key).bind fun value =>
        if value.projectId = projectId ∧ eqIgnoreAsciiCase value.name name then some key.2 else none

def invalidateAgentScoped (c : ReadCache) (scope : Text) (projectId : Int) (name : Text)
    (id : Option Int) : Option ReadCache := do
  let scopeFp := scopeFingerprint scope
  let (removed, agentsByKey) ← c.agentsByKey.remove (scopeFp, projectId, toAsciiLowercase name)
  let removedId := removed.bind (·.id)
  let hinted := id.toList ++ (removedId.filter fun rid => decide (some rid ≠ id)).toList
  let agentIdsToRemove :=
    if id.isNone then
      ((hinted ++ c.matchingIds scopeFp projectId name).insertionSort (· ≤ ·)).dedup
    else hinted
  let agentsById ← c.agentsById.removeKeys (agentIdsToRemove.map fun id => (scopeFp, id))
  return { c with agentsByKey, agentsById }

def putInboxStatsScoped (c : ReadCache) (scope : Text) (stats : InboxStatsRow) :
    Option ReadCache := do
  let inboxStats ← c.inboxStats.insert (scopeFingerprint scope, stats.agentId) stats
  return { c with inboxStats }

/-- `enqueue_touch_scoped`, up to the answer whether a flush is due. -/
def enqueueTouchScoped (c : ReadCache) (scope : Text) (agentId ts : Int) : ReadCache :=
  { c with
    touches :=
      { c.touches.enqueue (scopeFingerprint scope, agentId) ts with hasPending := true } }

def invalidateScope (c : ReadCache) (scope : Text) : Option ReadCache := do
  let scopeFp := scopeFingerprint scope
  let projectsBySlug ←
    c.projectsBySlug.removeKeys (c.projectsBySlug.keys.filter (·.1 == scopeFp))
  let projectsByHumanKey ←
    c.projectsByHumanKey.removeKeys (c.projectsByHumanKey.keys.filter (·.1 == scopeFp))
  let agentsByKey ← c.agentsByKey.removeKeys (c.agentsByKey.keys.filter (·.1 == scopeFp))
  let agentsById ← c.agentsById.removeKeys (c.agentsById.keys.filter (·.1 == scopeFp))
  let inboxStats ← c.inboxStats.removeKeys (c.inboxStats.keys.filter (·.1 == scopeFp))
  return {
    projectsBySlug, projectsByHumanKey, agentsByKey, agentsById, inboxStats
    touches := c.touches.invalidate scopeFp }

end

end ReadCache

/-! ### Calls -/

inductive CacheCall where
  | putProject (scope : Text) (project : ProjectRow)
  | putAgent (scope : Text) (agent : AgentRow)
  | warmAgents (scope : Text) (agents : List AgentRow)
  | invalidateAgent (scope : Text) (projectId : Int) (name : Text) (id : Option Int)
  | putInboxStats (scope : Text) (stats : InboxStatsRow)
  | enqueueTouch (scope : Text) (agentId ts : Int)
  | invalidateScope (scope : Text)

namespace ReadCache

variable (scopeFingerprint : Text → ScopeFp)

def step (c : ReadCache) : CacheCall → Option ReadCache
  | .putProject scope project => c.putProjectScoped scopeFingerprint scope project
  | .putAgent scope agent => c.putAgentScoped scopeFingerprint scope agent
  | .warmAgents scope agents => c.warmAgentsScoped scopeFingerprint scope agents
  | .invalidateAgent scope projectId name id =>
    c.invalidateAgentScoped scopeFingerprint scope projectId name id
  | .putInboxStats scope stats => c.putInboxStatsScoped scopeFingerprint scope stats
  | .enqueueTouch scope agentId ts => some (c.enqueueTouchScoped scopeFingerprint scope agentId ts)
  | .invalidateScope scope => c.invalidateScope scopeFingerprint scope

/-- The cache after some calls, from an empty one. -/
def run (capacity : Nat) (calls : List CacheCall) : Option ReadCache := do
  calls.foldlM (step scopeFingerprint) (← withCapacity capacity)

end ReadCache

/-! ### Invariant -/

/-- An agent stands under its name. -/
def Named (index : S3FifoCache (ScopeFp × Int × Text) AgentRow) : Prop :=
  ∀ key a, index.peek key = some a → key = a.nameKey key.1

/-- What holds between calls. -/
structure ReadCache.Sound (c : ReadCache) : Prop where
  projectsBySlug : c.projectsBySlug.Sound
  projectsByHumanKey : c.projectsByHumanKey.Sound
  agentsByKey : c.agentsByKey.Sound
  agentsById : c.agentsById.Sound
  inboxStats : c.inboxStats.Sound
  named : Named c.agentsByKey

end AgentMail.Cache
