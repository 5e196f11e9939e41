import AgentMail.Search.QueryCache

/-!
# Generations of the query cache are isolated

Over every interleaving of reads of the epoch and critical sections: what a hit returns was put in
the same generation, and a search that started before an invalidation stores nothing.
-/

namespace AgentMail.Search

open Lib List QueryCache

variable {κ α : Type} [DecidableEq κ] {cfg : CacheConfig}

def CacheEvent.isBump : CacheEvent κ α → Bool
  | .bump => true
  | _ => false

/-- How often the epoch was bumped. -/
def bumps (run : CacheRun κ α) : Nat := run.countP (·.event.isBump)

/-- The event neither clears the cache nor overwrites the value of a key. -/
def Spares (key : EpochKey κ) (ev : CacheEvent κ α) : Prop :=
  ev ≠ .bump ∧ ∀ value now pick, ev ≠ .put key value now pick

/-- A value was put under the key, and it has been spared since. -/
def PutBefore (past : CacheRun κ α) (key : EpochKey κ) (value : α) : Prop :=
  ∃ before p since, past = before ++ p :: since ∧ (∃ now pick, p.event = .put key value now pick) ∧
    ∀ y ∈ since, Spares key y.event

/-- A put whose epoch was read before as many bumps leaves the cache as it is. -/
def StoresNothing (run : CacheRun κ α) (many : Nat → Prop) : Prop :=
  ∀ front r mid p back, run = front ++ r :: (mid ++ p :: back) →
    ∀ epoch, r.response = .epoch epoch → ∀ fields value now pick,
      p.event = .put ⟨fields, epoch⟩ value now pick → many (bumps mid) → p.after = p.before

structure GenerationLaws (cfg : CacheConfig) (run : CacheRun κ α) : Prop where
  current : ∀ x ∈ run, ∀ e ∈ x.after.entries, e.1.indexEpoch = x.after.currentEpoch
  bounded : ∀ x ∈ run, x.after.entries.length ≤ cfg.maxEntries
  answered : ∀ front x back, run = front ++ x :: back → ∀ key now touched value,
    x.event = .get key now touched → x.response = .found (some value) → PutBefore front key value
  outdated : StoresNothing run fun n => 0 < n ∧ n < 2 ^ 64

/-! ### Where the entries come from -/

/-- Every entry was put and spared since. -/
def Backed (past : CacheRun κ α) (cache : QueryCache κ α) : Prop :=
  ∀ e ∈ cache.entries, PutBefore past e.1 e.2.value

omit [DecidableEq κ] in
theorem PutBefore.concat {past : CacheRun κ α} {key : EpochKey κ} {value : α}
    (h : PutBefore past key value) {x : Entry (QueryCache κ α) (CacheEvent κ α) (CacheResponse α)}
    (hspares : Spares key x.event) : PutBefore (past ++ [x]) key value := by
  obtain ⟨before, p, since, rfl, hput, hsince⟩ := h
  refine ⟨before, p, since ++ [x], by simp, hput, ?_⟩
  rw [forall_mem_append, forall_mem_singleton]
  exact ⟨hsince, hspares⟩

theorem Backed.step {past : CacheRun κ α} {cache cache' : QueryCache κ α}
    {ev : CacheEvent κ α} {r : CacheResponse α} (hinv : CacheInv cfg cache)
    (h : Backed past cache) (hstep : cache.step cfg ev = some (r, cache')) :
    Backed (past ++ [⟨cache, ev, r, cache'⟩]) cache' := by
  -- An entry that another event than a put leaves was there with the same value.
  have hkept (hspares : ∀ key, Spares key ev)
      (hold : ∀ e ∈ cache'.entries, ∃ e' ∈ cache.entries, e'.1 = e.1 ∧ e'.2.value = e.2.value) :
      Backed (past ++ [⟨cache, ev, r, cache'⟩]) cache' := by
    intro e he
    obtain ⟨e', he', hkey, hvalue⟩ := hold e he
    have hbacked := h e' he'
    rw [hkey, hvalue] at hbacked
    exact hbacked.concat (hspares e.1)
  cases ev with
  | readEpoch =>
    cases hstep
    exact hkept (fun _ => ⟨by simp, by simp⟩) fun e he => ⟨e, he, rfl, rfl⟩
  | get key now touched =>
    cases hstep
    refine hkept (fun _ => ⟨by simp, by simp⟩) ?_
    intro e he
    rcases get_cases cfg cache key now touched with heq | heq | ⟨entry, hentry, heq⟩
    · rw [heq] at he
      exact ⟨e, he, rfl, rfl⟩
    · rw [heq] at he
      exact ⟨e, (Assoc.mem_erase.mp he).1, rfl, rfl⟩
    · rw [heq] at he
      obtain ⟨e', he', rfl⟩ := mem_map.mp he
      refine ⟨e', he', ?_⟩
      split
      · exact ⟨rfl, rfl⟩
      · exact ⟨rfl, rfl⟩
  | put key value now pick =>
    cases hstep
    rcases put_cases cfg cache key value now pick with ⟨heq, hreason⟩ | ⟨hepoch, -, -, heq⟩
    · intro e he
      rw [heq] at he
      refine (h e he).concat ⟨by simp, ?_⟩
      intro value' now' pick' hsame
      injection hsame with hkey
      -- A rejected key is not in the cache.
      rcases hreason with hoff | hzero | hepoch
      · rw [hinv.disabled hoff] at he
        cases he
      · have hbounded := hinv.bounded
        rw [hzero, Nat.le_zero, length_eq_zero_iff] at hbounded
        rw [hbounded] at he
        cases he
      · exact hepoch (hkey ▸ hinv.current e he)
    · intro e he
      rw [heq] at he
      rcases Assoc.mem_insert.mp he with ⟨hold, hne⟩ | rfl
      · have hmem : e ∈ cache.entries := by
          split at hold
          · exact mem_of_mem_evictLru hold
          · exact hold
        refine (h e hmem).concat ⟨by simp, ?_⟩
        intro value' now' pick' hsame
        injection hsame with hkey
        exact hne hkey.symm
      · exact ⟨past, _, [], rfl, ⟨now, pick, rfl⟩, by simp⟩
  | bump =>
    cases hstep
    intro e he
    cases he
  | prune now =>
    cases hstep
    exact hkept (fun _ => ⟨by simp, by simp⟩) fun e he => ⟨e, mem_of_mem_filter he, rfl, rfl⟩

/-! ### Where the epoch is -/

theorem currentEpoch_step {cache cache' : QueryCache κ α} {ev : CacheEvent κ α}
    {r : CacheResponse α} (hstep : cache.step cfg ev = some (r, cache')) :
    cache'.currentEpoch = cache.currentEpoch + BitVec.ofNat 64 (if ev.isBump then 1 else 0) := by
  cases ev with
  | readEpoch =>
    cases hstep
    exact (BitVec.add_zero _).symm
  | get key now touched =>
    cases hstep
    show (cache.get cfg key now touched).2.currentEpoch = cache.currentEpoch + 0#64
    rw [BitVec.add_zero]
    rcases get_cases cfg cache key now touched with heq | heq | ⟨entry, hentry, heq⟩
    · rw [heq]
    · rw [heq]
    · rw [heq]
  | put key value now pick =>
    cases hstep
    show (cache.put cfg key value now pick).currentEpoch = cache.currentEpoch + 0#64
    rw [BitVec.add_zero]
    rcases put_cases cfg cache key value now pick with ⟨heq, -⟩ | ⟨-, -, -, heq⟩
    · rw [heq]
    · rw [heq]
  | bump =>
    cases hstep
    rfl
  | prune now =>
    cases hstep
    exact (BitVec.add_zero _).symm

theorem currentEpoch_trace {cache : QueryCache κ α} {es : List (CacheEvent κ α)}
    {front back : CacheRun κ α} {x : Entry (QueryCache κ α) (CacheEvent κ α) (CacheResponse α)}
    (h : trace (step cfg) cache es = front ++ x :: back) :
    x.before.currentEpoch = cache.currentEpoch + BitVec.ofNat 64 (bumps front) := by
  let counted (past : CacheRun κ α) (now : QueryCache κ α) : Prop :=
    now.currentEpoch = cache.currentEpoch + BitVec.ofNat 64 (bumps past)
  let anyCache (_ : QueryCache κ α) : Prop := True
  have hany (s : QueryCache κ α) (e : CacheEvent κ α) (r : CacheResponse α) (s' : QueryCache κ α)
      (_ : anyCache s) (_ : s.step cfg e = some (r, s')) : anyCache s' := trivial
  have hcounted (past : CacheRun κ α) (s : QueryCache κ α) (e : CacheEvent κ α)
      (r : CacheResponse α) (s' : QueryCache κ α) (_ : anyCache s) (hpast : counted past s)
      (he : s.step cfg e = some (r, s')) : counted (past ++ [⟨s, e, r, s'⟩]) s' := by
    show s'.currentEpoch = _
    rw [currentEpoch_step he, hpast, bumps, bumps, countP_append, BitVec.ofNat_add,
      BitVec.add_assoc, countP_singleton]
  have hstart : counted [] cache := (BitVec.add_zero _).symm
  exact history hany hcounted trivial hstart h

/-- After some bumps, but not as many as there are epochs, another epoch is current. -/
theorem add_ofNat_ne {epoch : BitVec 64} {n : Nat} (hpos : 0 < n) (hlt : n < 2 ^ 64) :
    epoch ≠ epoch + BitVec.ofNat 64 n := by
  intro heq
  have hzero : BitVec.ofNat 64 n = 0 := BitVec.self_eq_add_right.mp heq
  have htoNat := congrArg BitVec.toNat hzero
  rw [BitVec.toNat_ofNat, Nat.mod_eq_of_lt hlt] at htoNat
  exact hpos.ne' htoNat

/-- Only a read of the epoch answers with one, and it changes nothing. -/
theorem readEpoch_of_response {cache cache' : QueryCache κ α} {ev : CacheEvent κ α}
    {epoch : BitVec 64} (hstep : cache.step cfg ev = some (.epoch epoch, cache')) :
    cache' = cache ∧ epoch = cache.currentEpoch := by
  cases ev with
  | readEpoch =>
    cases hstep
    exact ⟨rfl, rfl⟩
  | get key now touched => cases hstep
  | put key value now pick => cases hstep
  | bump => cases hstep
  | prune now => cases hstep

theorem run_cacheInv (cfg : CacheConfig) (es : List (CacheEvent κ α)) :
    ∀ x ∈ trace (step cfg) .new es, CacheInv cfg x.before ∧
      x.before.step cfg x.event = some (x.response, x.after) ∧ CacheInv cfg x.after := by
  have hkeeps (s : QueryCache κ α) (e : CacheEvent κ α) (r : CacheResponse α)
      (s' : QueryCache κ α) (hs : CacheInv cfg s) (he : s.step cfg e = some (r, s')) :
      CacheInv cfg s' := hs.step he
  exact forall_mem_trace hkeeps cacheInv_new es

theorem run_backed {es : List (CacheEvent κ α)} {front back : CacheRun κ α}
    {x : Entry (QueryCache κ α) (CacheEvent κ α) (CacheResponse α)}
    (hrun : trace (step cfg) .new es = front ++ x :: back) : Backed front x.before := by
  have hkeeps (s : QueryCache κ α) (e : CacheEvent κ α) (r : CacheResponse α)
      (s' : QueryCache κ α) (hs : CacheInv cfg s) (he : s.step cfg e = some (r, s')) :
      CacheInv cfg s' := hs.step he
  have hnone : Backed [] (.new : QueryCache κ α) := nofun
  exact history hkeeps (fun past s e r s' => Backed.step) cacheInv_new hnone hrun

theorem storesNothing_trace (es : List (CacheEvent κ α)) :
    StoresNothing (trace (step cfg) .new es) fun n => 0 < n ∧ n < 2 ^ 64 := by
  intro front r mid p back hrun epoch hepoch fields value now pick hput hmany
  obtain ⟨es', hrest⟩ := trace_eq_append hrun
  have hsteps := run_cacheInv cfg es
  have hread := (hsteps r (by simp [hrun])).2.1
  have hwrite := (hsteps p (by simp [hrun])).2.1
  rw [hepoch] at hread
  obtain ⟨hsame, rfl⟩ := readEpoch_of_response hread
  have hcurrent := currentEpoch_trace hrest
  rw [hsame] at hcurrent
  rw [hput] at hwrite
  obtain ⟨-, hafter⟩ := Prod.mk.inj (Option.some.inj hwrite)
  rw [← hafter]
  rcases put_cases cfg p.before ⟨fields, r.before.currentEpoch⟩ value now pick with
    ⟨heq, -⟩ | ⟨hsame, -⟩
  · exact heq
  · rw [hcurrent] at hsame
    exact absurd hsame (add_ofNat_ne hmany.1 hmany.2)

/-- Whatever the capacity, and however reads, hits, inserts, evictions, expiries and invalidations
interleave. -/
theorem generationLaws (cfg : CacheConfig) (es : List (CacheEvent κ α)) :
    GenerationLaws cfg (trace (step cfg) .new es) := by
  have hall := run_cacheInv cfg es
  refine ⟨fun x hx => (hall x hx).2.2.current, fun x hx => (hall x hx).2.2.bounded, ?_,
    storesNothing_trace es⟩
  intro front x back hrun key now touched value hget hfound
  have hbacked := run_backed hrun
  have hstep := (hall x (by simp [hrun])).2.1
  rw [hget, hfound] at hstep
  have hanswer : (x.before.get cfg key now touched).1 = some value := by
    injection (Prod.mk.inj (Option.some.inj hstep)).1
  rcases get_cases cfg x.before key now touched with heq | heq | ⟨entry, hentry, heq⟩
  · rw [heq] at hanswer
    cases hanswer
  · rw [heq] at hanswer
    cases hanswer
  · rw [heq] at hanswer
    have hmem := hbacked _ (Assoc.mem_of_get? hentry)
    rwa [Option.some.inj hanswer] at hmem

/-! ### As many bumps as there are epochs -/

theorem trace_replicate_bump (cfg : CacheConfig) (epoch : BitVec 64) (n : Nat) (es : List (CacheEvent κ α)) :
    ∃ mid : CacheRun κ α, bumps mid = n ∧
      trace (step cfg) ⟨[], epoch⟩ (replicate n .bump ++ es) =
        mid ++ trace (step cfg) ⟨[], epoch + BitVec.ofNat 64 n⟩ es := by
  induction n generalizing epoch with
  | zero =>
    refine ⟨[], rfl, ?_⟩
    have hsame : epoch + BitVec.ofNat 64 0 = epoch := BitVec.add_zero epoch
    rw [replicate_zero, nil_append, nil_append, hsame]
  | succ n ih =>
    obtain ⟨mid, hmid, hrun⟩ := ih (epoch + 1)
    refine ⟨⟨⟨[], epoch⟩, .bump, .bumped (epoch + 1), ⟨[], epoch + 1⟩⟩ :: mid, ?_, ?_⟩
    · rw [bumps, countP_cons, ← hmid]
      rfl
    · have hstep : step cfg (⟨[], epoch⟩ : QueryCache κ α) .bump =
          some (.bumped (epoch + 1), ⟨[], epoch + 1⟩) := rfl
      have hsum : epoch + BitVec.ofNat 64 (n + 1) = epoch + 1 + BitVec.ofNat 64 n := by
        rw [Nat.add_comm, BitVec.ofNat_add, BitVec.add_assoc]
        rfl
      rw [replicate_succ, cons_append, trace_cons_some hstep, hrun, hsum]
      rfl

/-- The epoch comes round, and a search from before all the bumps stores its result. -/
theorem stale_put_stores : ¬ ∀ (cfg : CacheConfig) (es : List (CacheEvent Unit Unit)),
    StoresNothing (trace (step cfg) .new es) fun n => 0 < n := by
  intro hall
  let cfg : CacheConfig := ⟨1, 60, true⟩
  let late : CacheEvent Unit Unit := .put ⟨(), 0⟩ () 0 0
  obtain ⟨mid, hmid, hrun⟩ := trace_replicate_bump cfg 0 (2 ^ 64) [late]
  have hround : (0 : BitVec 64) + BitVec.ofNat 64 (2 ^ 64) = 0 := by decide
  rw [hround] at hrun
  have hread : step cfg (.new : QueryCache Unit Unit) .readEpoch = some (.epoch 0, .new) := rfl
  have hstores := hall cfg (.readEpoch :: (replicate (2 ^ 64) .bump ++ [late])) []
    ⟨.new, .readEpoch, .epoch 0, .new⟩ mid
    ⟨.new, late, .done, ⟨[(⟨(), 0⟩, .new () 0)], 0⟩⟩ [] (by
      rw [trace_cons_some hread]
      exact congrArg _ hrun) 0 rfl () () 0 0 rfl (by
      rw [hmid]
      exact Nat.two_pow_pos 64)
  exact absurd (congrArg (fun c : QueryCache Unit Unit => c.entries.length) hstores)
    (Nat.succ_ne_zero 0)

end AgentMail.Search
