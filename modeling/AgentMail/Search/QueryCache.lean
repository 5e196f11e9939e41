import Mathlib.Data.BitVec
import Mathlib.Data.List.MinMax
import AgentMail.Lib.Table
import AgentMail.Lib.Trace

/-!
# The query cache and its generations

`QueryCache` of `crates/mcp-agent-mail-db/src/search_cache.rs`: results under keys that carry the
epoch which a search read when it started. One event is one critical section of the entries lock,
or a read of the epoch outside of it. The other fields of a `QueryCacheKey` are any type, instants
are natural numbers.
-/

namespace AgentMail.Search

open Lib List

structure EpochKey (κ : Type) where
  fields : κ
  indexEpoch : BitVec 64
  deriving DecidableEq

structure CacheEntry (α : Type) where
  value : α
  createdAt : Nat
  accessCount : Nat
  lastAccessed : Nat

def CacheEntry.new {α : Type} (value : α) (now : Nat) : CacheEntry α := ⟨value, now, 1, now⟩

/-- `elapsed` is zero where the clock reads less than at the creation. -/
def CacheEntry.isExpired {α : Type} (entry : CacheEntry α) (now ttl : Nat) : Bool :=
  decide (ttl < now - entry.createdAt)

def CacheEntry.touch {α : Type} (entry : CacheEntry α) (now : Nat) : CacheEntry α :=
  { entry with accessCount := entry.accessCount + 1, lastAccessed := now }

structure CacheConfig where
  maxEntries : Nat
  ttl : Nat
  enabled : Bool

structure QueryCache (κ α : Type) where
  entries : List (EpochKey κ × CacheEntry α)
  currentEpoch : BitVec 64

namespace QueryCache

variable {κ α : Type} [DecidableEq κ]

def new : QueryCache κ α := ⟨[], 0⟩

/-- `min_by_key` takes the first of the least recently used entries; which one that is in the order
of a hash map, `pick` says. -/
def evictLru (pick : Nat) (entries : List (EpochKey κ × CacheEntry α)) :
    List (EpochKey κ × CacheEntry α) :=
  let oldest := entries.filter fun e => entries.all fun e' =>
    decide (e.2.lastAccessed ≤ e'.2.lastAccessed)
  match oldest[pick % oldest.length]? with
  | none => entries
  | some lru => Assoc.erase lru.1 entries

/-- `get`, which reads the clock for the expiry and again for the access. -/
def get (cfg : CacheConfig) (cache : QueryCache κ α) (key : EpochKey κ) (now touched : Nat) :
    Option α × QueryCache κ α :=
  if !cfg.enabled || cfg.maxEntries == 0 then (none, cache)
  else if key.indexEpoch ≠ cache.currentEpoch then (none, cache)
  else match Assoc.get? key cache.entries with
    | none => (none, cache)
    | some entry =>
      if entry.isExpired now cfg.ttl then
        (none, { cache with entries := Assoc.erase key cache.entries })
      else
        (some entry.value,
          { cache with entries := Assoc.modify key (·.touch touched) cache.entries })

def put (cfg : CacheConfig) (cache : QueryCache κ α) (key : EpochKey κ) (value : α)
    (now pick : Nat) : QueryCache κ α :=
  if !cfg.enabled || cfg.maxEntries == 0 then cache
  else if key.indexEpoch ≠ cache.currentEpoch then cache
  else
    let entries :=
      if cfg.maxEntries ≤ cache.entries.length ∧ Assoc.contains key cache.entries = false then
        evictLru pick cache.entries
      else cache.entries
    { cache with entries := Assoc.insert key (.new value now) entries }

/-- `bump_epoch` with the new epoch that it returns; `fetch_add` wraps. -/
def bumpEpoch (cache : QueryCache κ α) : BitVec 64 × QueryCache κ α :=
  (cache.currentEpoch + 1, ⟨[], cache.currentEpoch + 1⟩)

/-- `prune_expired`, which reads the clock for each entry. -/
def pruneExpired (cfg : CacheConfig) (cache : QueryCache κ α) (now : EpochKey κ → Nat) :
    QueryCache κ α :=
  { cache with entries := cache.entries.filter fun e => !e.2.isExpired (now e.1) cfg.ttl }

end QueryCache

inductive CacheEvent (κ α : Type) where
  | readEpoch
  | get (key : EpochKey κ) (now touched : Nat)
  | put (key : EpochKey κ) (value : α) (now pick : Nat)
  | bump
  | prune (now : EpochKey κ → Nat)

inductive CacheResponse (α : Type) where
  | epoch (e : BitVec 64)
  | found (value : Option α)
  | bumped (e : BitVec 64)
  | done

variable {κ α : Type} [DecidableEq κ]

def QueryCache.step (cfg : CacheConfig) (cache : QueryCache κ α) :
    CacheEvent κ α → Option (CacheResponse α × QueryCache κ α)
  | .readEpoch => some (.epoch cache.currentEpoch, cache)
  | .get key now touched =>
    let answer := cache.get cfg key now touched
    some (.found answer.1, answer.2)
  | .put key value now pick => some (.done, cache.put cfg key value now pick)
  | .bump =>
    let bumped := cache.bumpEpoch
    some (.bumped bumped.1, bumped.2)
  | .prune now => some (.done, cache.pruneExpired cfg now)

abbrev CacheRun (κ α : Type) : Type :=
  List (Entry (QueryCache κ α) (CacheEvent κ α) (CacheResponse α))

/-! ### What one event does -/

section

variable {cfg : CacheConfig} {cache : QueryCache κ α} {key : EpochKey κ}

variable {entries : List (EpochKey κ × CacheEntry α)}

theorem mem_of_mem_evictLru {pick : Nat} {e : EpochKey κ × CacheEntry α}
    (h : e ∈ QueryCache.evictLru pick entries) : e ∈ entries := by
  unfold QueryCache.evictLru at h
  dsimp only at h
  split at h
  · exact h
  · exact (Assoc.mem_erase.mp h).1

omit [DecidableEq κ] in
theorem exists_least_accessed (hne : entries ≠ []) :
    ∃ e ∈ entries, ∀ e' ∈ entries, e.2.lastAccessed ≤ e'.2.lastAccessed := by
  let accessed (e : EpochKey κ × CacheEntry α) : Nat := e.2.lastAccessed
  cases hleast : entries.argmin accessed with
  | none => exact absurd (argmin_eq_none.mp hleast) hne
  | some e =>
    refine ⟨e, argmin_mem hleast, fun e' he' => ?_⟩
    exact le_of_mem_argmin (f := accessed) he' hleast

theorem length_erase_lt {e : EpochKey κ × CacheEntry α} (he : e ∈ entries) :
    (Assoc.erase e.1 entries).length < entries.length := by
  rw [Assoc.erase, length_filter_lt_length_iff_exists]
  exact ⟨e, he, by simp⟩

theorem length_evictLru_lt (pick : Nat) (hne : entries ≠ []) :
    (QueryCache.evictLru pick entries).length < entries.length := by
  obtain ⟨least, hleast, hall⟩ := exists_least_accessed hne
  unfold QueryCache.evictLru
  dsimp only
  generalize holdest : entries.filter (fun e => entries.all fun e' =>
    decide (e.2.lastAccessed ≤ e'.2.lastAccessed)) = oldest
  have hmem : least ∈ oldest := by
    rw [← holdest, mem_filter, all_eq_true]
    exact ⟨hleast, fun e' he' => decide_eq_true (hall e' he')⟩
  have hpick : pick % oldest.length < oldest.length :=
    Nat.mod_lt _ (length_pos_of_mem hmem)
  split
  · next hnone =>
    rw [List.getElem?_eq_none_iff] at hnone
    omega
  · next lru hlru =>
    have hlru' := mem_of_getElem? hlru
    rw [← holdest] at hlru'
    exact length_erase_lt (mem_of_mem_filter hlru')

theorem length_insert_le (key : EpochKey κ) (entry : CacheEntry α)
    (entries : List (EpochKey κ × CacheEntry α)) :
    (Assoc.insert key entry entries).length ≤ entries.length + 1 := by
  rw [Assoc.insert, length_append, length_singleton]
  exact Nat.add_le_add_right (length_filter_le _ _) 1

theorem length_insert_of_contains {entry : CacheEntry α} (h : Assoc.contains key entries = true) :
    (Assoc.insert key entry entries).length ≤ entries.length := by
  obtain ⟨e, he, rfl⟩ := mem_map.mp (Assoc.contains_iff.mp h)
  have hlt := length_erase_lt he
  rw [Assoc.insert, length_append, length_singleton]
  exact hlt

/-- What every event keeps. -/
structure CacheInv (cfg : CacheConfig) (cache : QueryCache κ α) : Prop where
  current : ∀ e ∈ cache.entries, e.1.indexEpoch = cache.currentEpoch
  bounded : cache.entries.length ≤ cfg.maxEntries
  disabled : cfg.enabled = false → cache.entries = []

omit [DecidableEq κ] in
theorem cacheInv_new : CacheInv cfg (.new : QueryCache κ α) :=
  ⟨nofun, Nat.zero_le _, fun _ => rfl⟩

omit [DecidableEq κ] in
/-- Fewer of the entries, or other values in them. -/
theorem CacheInv.of_keys (h : CacheInv cfg cache)
    (hkeys : (entries.map (·.1)).Sublist (cache.entries.map (·.1))) :
    CacheInv cfg { cache with entries := entries } := by
  refine ⟨?_, ?_, ?_⟩
  · intro e he
    obtain ⟨e', he', hkey⟩ := mem_map.mp (hkeys.subset (mem_map_of_mem he))
    exact hkey ▸ h.current e' he'
  · have hlength := hkeys.length_le
    rw [length_map, length_map] at hlength
    exact hlength.trans h.bounded
  · intro hoff
    have hnil := h.disabled hoff
    rw [hnil] at hkeys
    exact map_eq_nil_iff.mp (sublist_nil.mp hkeys)

theorem get_cases (cfg : CacheConfig) (cache : QueryCache κ α) (key : EpochKey κ)
    (now touched : Nat) :
    cache.get cfg key now touched = (none, cache) ∨ cache.get cfg key now touched =
      (none, { cache with entries := Assoc.erase key cache.entries }) ∨
    ∃ entry, Assoc.get? key cache.entries = some entry ∧ cache.get cfg key now touched =
      (some entry.value,
        { cache with entries := Assoc.modify key (·.touch touched) cache.entries }) := by
  unfold QueryCache.get
  split
  · exact .inl rfl
  · split
    · exact .inl rfl
    · split
      · exact .inl rfl
      · next entry hentry =>
        split
        · exact .inr (.inl rfl)
        · exact .inr (.inr ⟨entry, hentry, rfl⟩)

theorem put_cases (cfg : CacheConfig) (cache : QueryCache κ α) (key : EpochKey κ) (value : α)
    (now pick : Nat) :
    (cache.put cfg key value now pick = cache ∧
      (cfg.enabled = false ∨ cfg.maxEntries = 0 ∨ key.indexEpoch ≠ cache.currentEpoch)) ∨
    key.indexEpoch = cache.currentEpoch ∧ cfg.enabled = true ∧ 0 < cfg.maxEntries ∧
      cache.put cfg key value now pick = { cache with
        entries := Assoc.insert key (.new value now)
          (if cfg.maxEntries ≤ cache.entries.length ∧ Assoc.contains key cache.entries = false then
            QueryCache.evictLru pick cache.entries else cache.entries) } := by
  unfold QueryCache.put
  split
  · next hoff =>
    simp only [Bool.or_eq_true, Bool.not_eq_true', beq_iff_eq] at hoff
    exact .inl ⟨rfl, hoff.imp id .inl⟩
  · next hon =>
    simp only [Bool.or_eq_true, Bool.not_eq_true', beq_iff_eq, not_or, Bool.not_eq_false] at hon
    split
    · next hepoch => exact .inl ⟨rfl, .inr (.inr hepoch)⟩
    · next hepoch =>
      exact .inr ⟨of_not_not hepoch, hon.1, Nat.pos_of_ne_zero hon.2, rfl⟩

theorem CacheInv.step (h : CacheInv cfg cache) {ev : CacheEvent κ α} {r : CacheResponse α}
    {cache' : QueryCache κ α} (hstep : cache.step cfg ev = some (r, cache')) :
    CacheInv cfg cache' := by
  cases ev with
  | readEpoch =>
    cases hstep
    exact h
  | get key now touched =>
    cases hstep
    show CacheInv cfg (cache.get cfg key now touched).2
    rcases get_cases cfg cache key now touched with heq | heq | ⟨entry, hentry, heq⟩
    · rw [heq]
      exact h
    · rw [heq]
      exact h.of_keys (filter_sublist.map _)
    · rw [heq]
      refine h.of_keys ?_
      rw [Assoc.keys_modify]
  | put key value now pick =>
    cases hstep
    rcases put_cases cfg cache key value now pick with ⟨heq, -⟩ | ⟨hepoch, hon, hpos, heq⟩
    · rw [heq]
      exact h
    · rw [heq]
      refine ⟨?_, ?_, fun hoff => by rw [hon] at hoff; cases hoff⟩
      · intro e he
        rcases Assoc.mem_insert.mp he with ⟨he, -⟩ | rfl
        · split at he
          · exact h.current e (mem_of_mem_evictLru he)
          · exact h.current e he
        · exact hepoch
      · dsimp only
        have hbounded := h.bounded
        split
        · next hfull =>
          have hne : cache.entries ≠ [] := by
            intro hnil
            rw [hnil, length_nil] at hfull
            omega
          have hevict := length_evictLru_lt pick hne
          have hinsert := length_insert_le key (.new value now)
            (QueryCache.evictLru pick cache.entries)
          omega
        · next hroom =>
          by_cases hin : Assoc.contains key cache.entries = true
          · exact (length_insert_of_contains hin).trans hbounded
          · have hinsert := length_insert_le key (.new value now) cache.entries
            rw [Bool.not_eq_true] at hin
            have hlt : ¬ cfg.maxEntries ≤ cache.entries.length := fun hle => hroom ⟨hle, hin⟩
            omega
  | bump =>
    cases hstep
    exact ⟨nofun, Nat.zero_le _, fun _ => rfl⟩
  | prune now =>
    cases hstep
    exact h.of_keys (filter_sublist.map _)

end

end AgentMail.Search
