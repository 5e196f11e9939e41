import AgentMail.Coalescer.CommitCoalescer

/-!
# Where the requests of the coalescer are

What a step of a worker keeps at its repository, and from it where every request is: in the queue or
the spill of its repository, with a worker or committed.
-/

namespace AgentMail.Coalescer

open Lib List

/-! ### Spills -/

/-- The spill counts its requests and takes in their paths. -/
structure CoalescerSpillRepo.Sound (repo : CoalescerSpillRepo) : Prop where
  counted : repo.pendingRequests = repo.requests.length
  covers : repo.dirtyAll = false → ∀ q ∈ repo.requests, q.relPaths ⊆ repo.paths
  nonempty : ∀ q ∈ repo.requests, q.relPaths ≠ []

theorem subset_insertPaths (paths ps : List String) (h : (insertPaths paths ps).1 = false) :
    paths ⊆ (insertPaths paths ps).2 ∧ ps ⊆ (insertPaths paths ps).2 := by
  induction ps generalizing paths with
  | nil => exact ⟨List.Subset.refl _, nil_subset _⟩
  | cons p ps ih =>
    rw [insertPaths] at h ⊢
    split at h
    · cases h
    · next hcap =>
      rw [if_neg hcap]
      obtain ⟨hpaths, hps⟩ := ih _ h
      refine ⟨fun x hx => hpaths (mem_insert_of_mem hx), ?_⟩
      exact cons_subset.mpr ⟨hpaths mem_insert_self, hps⟩

variable {rq : RepoQueue}

theorem RepoQueue.spillEntry_sound (h : ∀ repo ∈ rq.spill, repo.Sound)
    (gitAuthorName gitAuthorEmail : String) :
    (rq.spillEntry gitAuthorName gitAuthorEmail).Sound := by
  cases hspill : rq.spill with
  | none =>
    rw [spillEntry, hspill]
    exact ⟨rfl, fun _ _ hq => absurd hq not_mem_nil, fun _ hq => absurd hq not_mem_nil⟩
  | some repo =>
    rw [spillEntry, hspill]
    exact h repo hspill

theorem RepoQueue.spilled_eq (rq : RepoQueue) (gitAuthorName gitAuthorEmail : String) :
    (rq.spillEntry gitAuthorName gitAuthorEmail).requests = rq.spilled := by
  cases hspill : rq.spill <;> simp [spillEntry, spilled, hspill]

theorem RepoQueue.spillDepth_eq (rq : RepoQueue) (gitAuthorName gitAuthorEmail : String) :
    (rq.spillEntry gitAuthorName gitAuthorEmail).pendingRequests = rq.spillDepth := by
  cases hspill : rq.spill <;> simp [spillEntry, spillDepth, hspill]

section

variable (h : ∀ repo ∈ rq.spill, repo.Sound)
include h

theorem RepoQueue.spillDepth_eq_length :
    rq.spillDepth = rq.spilled.length := by
  cases hspill : rq.spill with
  | none => simp [spillDepth, spilled, hspill]
  | some repo =>
    rw [spillDepth, spilled, hspill]
    exact (h repo hspill).counted

theorem spillToRepo_sound {fields : CoalescerCommitFields}
    (hfields : fields.relPaths ≠ []) : ∀ repo ∈ (rq.spillToRepo fields).spill, repo.Sound := by
  intro repo hrepo
  have hentry := rq.spillEntry_sound h fields.gitAuthorName fields.gitAuthorEmail
  rw [RepoQueue.spillToRepo, Option.mem_some_iff] at hrepo
  subst hrepo
  refine ⟨?_, fun hdirty q hq => ?_, fun q hq => ?_⟩
  · rw [length_append, length_singleton, ← hentry.counted]
  · simp only at hdirty hq ⊢
    split at hdirty
    · cases hdirty
    · next hclean =>
      rw [if_neg hclean]
      obtain ⟨hold, hnew⟩ := subset_insertPaths _ _ hdirty
      rcases mem_append.mp hq with hq | hq
      · exact List.Subset.trans (hentry.covers (by simpa using hclean) q hq) hold
      · rw [mem_singleton.mp hq]
        exact hnew
  · rcases mem_append.mp hq with hq | hq
    · exact hentry.nonempty q hq
    · rw [mem_singleton.mp hq]
      exact hfields

theorem restoreSpilledWork_sound {work : CoalescerSpillRepo}
    (hwork : work.Sound) : ∀ repo ∈ (rq.restoreSpilledWork work).spill, repo.Sound := by
  intro repo hrepo
  have hentry := rq.spillEntry_sound h work.gitAuthorName work.gitAuthorEmail
  rw [RepoQueue.restoreSpilledWork] at hrepo
  split at hrepo
  · exact h repo hrepo
  · rw [Option.mem_some_iff] at hrepo
    subst hrepo
    refine ⟨?_, fun hdirty q hq => ?_, fun q hq => ?_⟩
    · rw [length_append, ← hentry.counted, ← hwork.counted]
    · simp only at hdirty hq ⊢
      split at hdirty
      · cases hdirty
      · next hclean =>
        rw [if_neg hclean]
        rw [Bool.or_eq_true, not_or, Bool.not_eq_true, Bool.not_eq_true] at hclean
        obtain ⟨hold, hnew⟩ := subset_insertPaths _ _ hdirty
        rcases mem_append.mp hq with hq | hq
        · exact List.Subset.trans (hentry.covers hclean.1 q hq) hold
        · exact List.Subset.trans (hwork.covers hclean.2 q hq) hnew
    · rcases mem_append.mp hq with hq | hq
      · exact hentry.nonempty q hq
      · exact hwork.nonempty q hq

end

theorem RepoQueue.spilled_spillToRepo (rq : RepoQueue) (fields : CoalescerCommitFields) :
    (rq.spillToRepo fields).spilled = rq.spilled ++ [fields] := by
  rw [← rq.spilled_eq fields.gitAuthorName fields.gitAuthorEmail]
  rfl

theorem RepoQueue.spilled_restoreSpilledWork (rq : RepoQueue) {work : CoalescerSpillRepo}
    (hwork : work.Sound) : (rq.restoreSpilledWork work).spilled = rq.spilled ++ work.requests := by
  rw [restoreSpilledWork]
  split
  · next hzero =>
    rw [eq_nil_of_length_eq_zero (hwork.counted.symm.trans hzero), append_nil]
  · rw [← rq.spilled_eq work.gitAuthorName work.gitAuthorEmail]
    rfl

@[simp] theorem RepoQueue.restoreSpilledWork_queue (rq : RepoQueue) (work : CoalescerSpillRepo) :
    (rq.restoreSpilledWork work).queue = rq.queue := by
  rw [restoreSpilledWork]
  split <;> rfl

@[simp] theorem RepoQueue.restoreSpilledWork_processing (rq : RepoQueue)
    (work : CoalescerSpillRepo) : (rq.restoreSpilledWork work).processing = rq.processing := by
  rw [restoreSpilledWork]
  split <;> rfl

theorem RepoQueue.depth_restoreSpilledWork (rq : RepoQueue) (work : CoalescerSpillRepo) :
    (rq.restoreSpilledWork work).depth = rq.depth + work.pendingRequests := by
  rw [restoreSpilledWork]
  split
  · next hzero => rw [hzero, Nat.add_zero]
  · rfl

theorem RepoQueue.spillDepth_restoreSpilledWork (rq : RepoQueue) (work : CoalescerSpillRepo) :
    (rq.restoreSpilledWork work).spillDepth = rq.spillDepth + work.pendingRequests := by
  rw [restoreSpilledWork]
  split
  · next hzero => rw [hzero, Nat.add_zero]
  · rw [← rq.spillDepth_eq work.gitAuthorName work.gitAuthorEmail]
    rfl

theorem RepoQueue.spillDepth_spillToRepo (rq : RepoQueue) (fields : CoalescerCommitFields) :
    (rq.spillToRepo fields).spillDepth = rq.spillDepth + 1 := by
  rw [← rq.spillDepth_eq fields.gitAuthorName fields.gitAuthorEmail]
  rfl

/-! ### Commits -/

/-- The commit takes in all paths of the request. -/
def GitCommit.Covers (c : GitCommit) (q : CoalescerCommitFields) : Prop :=
  match c with
  | .all => True
  | .paths ps => q.relPaths ⊆ ps

theorem takeBatch_append (maxBatchSize : Nat) (batch queue : List CoalescerCommitFields) :
    (RepoQueue.takeBatch maxBatchSize batch queue).1 ++
      (RepoQueue.takeBatch maxBatchSize batch queue).2 = batch ++ queue := by
  induction queue generalizing batch with
  | nil => simp [RepoQueue.takeBatch]
  | cons next queue ih =>
    simp only [RepoQueue.takeBatch]
    split
    · rw [ih, append_assoc, singleton_append]
    · rfl

theorem commitSequentially_perm (requests : List CoalescerCommitFields) (oks : List Bool) :
    ((commitSequentially requests oks).1 ++ (commitSequentially requests oks).2).Perm requests := by
  induction requests generalizing oks with
  | nil => exact .nil
  | cons req requests ih =>
    simp only [commitSequentially]
    split
    · exact .cons req (ih oks.tail)
    · exact perm_middle.trans (.cons req (ih oks.tail))

/-- What a batch comes to. -/
structure CoalescerCommitOutcome.Accounts (outcome : CoalescerCommitOutcome)
    (batch : List CoalescerCommitFields) : Prop where
  requests : (outcome.failedRequests ++ outcome.committed).Perm batch
  counted : outcome.committedRequests = outcome.committed.length
  covered : ∀ q ∈ outcome.committed, ∃ c ∈ outcome.commits, c.Covers q

theorem accounts_failed (batch : List CoalescerCommitFields) :
    CoalescerCommitOutcome.Accounts ⟨0, batch, [], []⟩ batch where
  requests := by rw [append_nil]
  counted := rfl
  covered _ hq := absurd hq not_mem_nil

theorem accounts_ok {batch : List CoalescerCommitFields} {ps : List String}
    (h : ∀ q ∈ batch, q.relPaths ⊆ ps) :
    CoalescerCommitOutcome.Accounts ⟨batch.length, [], batch, [.paths ps]⟩ batch where
  requests := .refl _
  counted := rfl
  covered q hq := ⟨_, mem_singleton_self _, h q hq⟩

theorem coalescerCommitBatch_accounts (cfg : CoalescerConfig) (batch : List CoalescerCommitFields)
    (oks : List Bool) : (coalescerCommitBatch cfg batch oks).Accounts batch := by
  unfold coalescerCommitBatch
  split
  · exact accounts_failed []
  · next req =>
    dsimp only
    have hcovers (q : CoalescerCommitFields) (hq : q ∈ [req]) : q.relPaths ⊆ req.relPaths := by
      rw [mem_singleton.mp hq]
      exact List.Subset.refl _
    split
    · exact accounts_ok hcovers
    · exact accounts_failed [req]
  · dsimp only
    split
    · split
      · exact accounts_ok fun q hq p hp => mem_flatMap.mpr ⟨q, hq, hp⟩
      · exact accounts_failed _
    · have hperm := commitSequentially_perm batch oks
      have hlength := hperm.length_eq
      rw [length_append] at hlength
      refine ⟨perm_append_comm.trans hperm, ?_, fun q hq => ?_⟩
      · simp only
        split
        · rfl
        · omega
      · exact ⟨_, mem_map_of_mem hq, List.Subset.refl _⟩

/-- What spilled work comes to. -/
structure CoalescerSpillOutcome.Accounts (outcome : CoalescerSpillOutcome)
    (work : CoalescerSpillRepo) : Prop where
  requests : outcome.failedWork = none ∧ outcome.committed = work.requests ∨
    outcome.failedWork = some work ∧ outcome.committed = []
  counted : outcome.committedRequests = outcome.committed.length
  covered : ∀ q ∈ outcome.committed, ∃ c ∈ outcome.commits, c.Covers q

theorem coalescerCommitSpilledWork_accounts {work : CoalescerSpillRepo} (hwork : work.Sound)
    (ok : Bool) : (coalescerCommitSpilledWork work ok).Accounts work := by
  have hall (commits : List GitCommit) (h : ∀ q ∈ work.requests, ∃ c ∈ commits, c.Covers q) :
      CoalescerSpillOutcome.Accounts ⟨work.pendingRequests, none, work.requests, commits⟩ work :=
    ⟨.inl ⟨rfl, rfl⟩, hwork.counted, h⟩
  have hfailed : CoalescerSpillOutcome.Accounts ⟨0, some work, [], []⟩ work :=
    ⟨.inr ⟨rfl, rfl⟩, rfl, fun q hq => absurd hq not_mem_nil⟩
  rw [coalescerCommitSpilledWork]
  split
  · next hzero =>
    have hnil := eq_nil_of_length_eq_zero (hwork.counted.symm.trans hzero)
    exact ⟨.inl ⟨rfl, hnil.symm⟩, rfl, fun q hq => absurd hq not_mem_nil⟩
  · split
    · split
      · exact hall _ fun q _ => ⟨.all, mem_singleton_self _, trivial⟩
      · exact hfailed
    · next hclean =>
      have hcovers := hwork.covers (by simpa using hclean)
      split
      · next hempty =>
        -- A request has a path, so something is dirty.
        refine hall _ fun q hq => absurd ?_ (hwork.nonempty q hq)
        rw [List.isEmpty_iff] at hempty
        exact subset_nil.mp (hempty ▸ hcovers q hq)
      · split
        · exact hall _ fun q hq => ⟨_, mem_singleton_self _, hcovers q hq⟩
        · exact hfailed

/-! ### A step on a claimed repository -/

namespace Work

/-- The requests that the worker has in its hands. -/
def held : Work → List CoalescerCommitFields
  | .drainingSpill batch => batch
  | .committing batch spilled => batch ++ spilled.elim [] (·.requests)
  | .counting _ failed spilled | .requeueing failed spilled =>
    failed ++ spilled.elim [] (·.requests)
  | .committingSpilled work | .restoring work => work.requests
  | _ => []

/-- The committed requests that still count as pending. -/
def uncounted : Work → Nat
  | .counting committedRequests _ _ | .countingSpilled committedRequests => committedRequests
  | _ => 0

/-- The spilled work that the worker has in its hands. -/
def spilledWork : Work → Option CoalescerSpillRepo
  | .committing _ spilled | .counting _ _ spilled | .requeueing _ spilled => spilled
  | .committingSpilled work | .restoring work => some work
  | _ => none

end Work

/-- What a step of a worker keeps at its repository. -/
structure Turn.Keeps (rq : RepoQueue) (work : Work) (t : Turn) : Prop where
  requests : (t.rq.queue ++ t.rq.spilled ++ t.next.elim [] Work.held ++ t.committed).Perm
    (rq.queue ++ rq.spilled ++ work.held)
  spill : ∀ repo ∈ t.rq.spill, repo.Sound
  spilledWork : ∀ repo ∈ t.next.bind Work.spilledWork, repo.Sound
  counted : t.next.elim 0 Work.uncounted + t.drained = work.uncounted + t.committed.length
  covered : ∀ q ∈ t.committed, ∃ c ∈ t.commits, c.Covers q
  processing : t.rq.processing = (t.next.isSome && rq.processing)

theorem Turn.Keeps.of_plain {rq' : RepoQueue} {work next : Work}
    (hrequests : (rq'.queue ++ rq'.spilled ++ next.held).Perm (rq.queue ++ rq.spilled ++ work.held))
    (hspill : ∀ repo ∈ rq'.spill, repo.Sound) (hnext : ∀ repo ∈ next.spilledWork, repo.Sound)
    (hcounted : next.uncounted = work.uncounted) (hprocessing : rq'.processing = rq.processing) :
    Turn.Keeps rq work (.plain rq' next) where
  requests := by
    rw [Turn.plain, append_nil]
    exact hrequests
  spill := hspill
  spilledWork := hnext
  counted := hcounted
  covered _ hq := absurd hq not_mem_nil
  processing := hprocessing

theorem Turn.Keeps.of_hands {work next : Work} {drained : Nat}
    {committed : List CoalescerCommitFields} {commits : List GitCommit}
    (hspill : ∀ repo ∈ rq.spill, repo.Sound) (hheld : (next.held ++ committed).Perm work.held)
    (hnext : ∀ repo ∈ next.spilledWork, repo.Sound)
    (hcounted : next.uncounted + drained = work.uncounted + committed.length)
    (hcovered : ∀ q ∈ committed, ∃ c ∈ commits, c.Covers q) :
    Turn.Keeps rq work ⟨rq, drained, committed, commits, some next⟩ where
  requests := by
    rw [append_assoc]
    exact hheld.append_left _
  spill := hspill
  spilledWork := hnext
  counted := hcounted
  covered := hcovered
  processing := rfl

theorem held_afterBatch (spilled : Option CoalescerSpillRepo) :
    (afterBatch spilled).held = spilled.elim [] (·.requests) := by
  cases spilled <;> rfl

theorem spilledWork_afterBatch (spilled : Option CoalescerSpillRepo) :
    (afterBatch spilled).spilledWork = spilled := by
  cases spilled <;> rfl

theorem uncounted_afterBatch (spilled : Option CoalescerSpillRepo) :
    (afterBatch spilled).uncounted = 0 := by
  cases spilled <;> rfl

theorem held_afterCount (failed : List CoalescerCommitFields)
    (spilled : Option CoalescerSpillRepo) :
    (afterCount failed spilled).held = failed ++ spilled.elim [] (·.requests) := by
  cases failed with
  | nil => exact held_afterBatch spilled
  | cons _ _ => rfl

theorem spilledWork_afterCount (failed : List CoalescerCommitFields)
    (spilled : Option CoalescerSpillRepo) : (afterCount failed spilled).spilledWork = spilled := by
  cases failed with
  | nil => exact spilledWork_afterBatch spilled
  | cons _ _ => rfl

theorem uncounted_afterCount (failed : List CoalescerCommitFields)
    (spilled : Option CoalescerSpillRepo) : (afterCount failed spilled).uncounted = 0 := by
  cases failed with
  | nil => exact uncounted_afterBatch spilled
  | cons _ _ => rfl

/-- What the drain of the spill takes and leaves. -/
theorem RepoQueue.drainRepoSpill_cases (h : ∀ repo ∈ rq.spill, repo.Sound) :
    rq.drainRepoSpill.2.queue = rq.queue ∧ rq.drainRepoSpill.2.spill = none ∧
      rq.drainRepoSpill.2.processing = rq.processing ∧
      rq.drainRepoSpill.1.elim [] (·.requests) = rq.spilled ∧
      (∀ work ∈ rq.drainRepoSpill.1, work.Sound) ∧
      rq.drainRepoSpill.2.depth = rq.depth - rq.spillDepth := by
  cases hspill : rq.spill with
  | none => simp [drainRepoSpill, spilled, spillDepth, hspill]
  | some repo =>
    have hrepo := h repo hspill
    by_cases hzero : repo.pendingRequests = 0
    · have hnil := eq_nil_of_length_eq_zero (hrepo.counted.symm.trans hzero)
      simp [drainRepoSpill, spilled, spillDepth, hspill, hzero, hnil]
    · simpa [drainRepoSpill, spilled, spillDepth, hspill, hzero] using hrepo

theorem selfProcessRepo_keeps (cfg : CoalescerConfig) (hspill : ∀ repo ∈ rq.spill, repo.Sound)
    (oks : List Bool) {work : Work} (hwork : ∀ repo ∈ work.spilledWork, repo.Sound) :
    (selfProcessRepo cfg rq oks work).Keeps rq work := by
  have hnone (repo : CoalescerSpillRepo) (h : repo ∈ (none : Option CoalescerSpillRepo)) :
      repo.Sound := absurd h (Option.not_mem_none repo)
  have hnothing {commits : List GitCommit} (q : CoalescerCommitFields) (h : q ∈ []) :
      ∃ c ∈ commits, c.Covers q := absurd h not_mem_nil
  have hsame (next : Work) (h : next.held = work.held) :
      (rq.queue ++ rq.spilled ++ next.held).Perm (rq.queue ++ rq.spilled ++ work.held) := by
    rw [h]
  cases work with
  | drainingQueue =>
    have happend := takeBatch_append cfg.maxBatchSize [] rq.queue
    have hperm (next : Work) (h : next.held = (rq.drainQueue cfg.maxBatchSize).1) :
        ((rq.drainQueue cfg.maxBatchSize).2.queue ++ rq.spilled ++ next.held).Perm
          (rq.queue ++ rq.spilled ++ []) := by
      refine perm_iff_count.mpr fun a => ?_
      have hcount := congrArg (List.count a) happend
      rw [h, RepoQueue.drainQueue]
      simp only [count_append, count_nil] at hcount ⊢
      omega
    simp only [selfProcessRepo]
    split
    · exact .of_plain (hperm _ rfl) hspill hnone rfl rfl
    · split
      · next hempty => exact .of_plain (hperm _ (List.isEmpty_iff.mp hempty).symm) hspill hnone rfl rfl
      · exact .of_plain (hperm _ (append_nil _)) hspill hnone rfl rfl
  | drainingSpill batch =>
    obtain ⟨hqueue, hleft, hsame', htaken, hsound, _⟩ := RepoQueue.drainRepoSpill_cases hspill
    have hspilled : rq.drainRepoSpill.2.spilled = [] := by rw [RepoQueue.spilled, hleft]; rfl
    have hperm (next : Work)
        (h : next.held = batch ++ rq.drainRepoSpill.1.elim [] (·.requests)) :
        (rq.drainRepoSpill.2.queue ++ rq.drainRepoSpill.2.spilled ++ next.held).Perm
          (rq.queue ++ rq.spilled ++ batch) := by
      rw [h, hqueue, hspilled, htaken, append_nil, append_assoc]
      exact perm_append_comm.append_left _
    have hnow (repo : CoalescerSpillRepo) (h : repo ∈ rq.drainRepoSpill.2.spill) : repo.Sound :=
      hnone repo (hleft ▸ h)
    simp only [selfProcessRepo]
    split
    · next hempty =>
      rw [List.isEmpty_iff] at hempty
      subst hempty
      cases hdrained : rq.drainRepoSpill.1 with
      | some repo =>
        rw [hdrained] at hperm hsound
        exact .of_plain (hperm _ rfl) hnow hsound rfl hsame'
      | none =>
        rw [hdrained] at hperm
        exact .of_plain (hperm _ rfl) hnow hnone rfl hsame'
    · exact .of_plain (hperm _ rfl) hnow hsound rfl hsame'
  | readingQueue => exact .of_plain (hsame _ rfl) hspill hnone rfl rfl
  | readingSpill queueDepth => exact .of_plain (hsame _ rfl) hspill hnone rfl rfl
  | storingDepth actual => exact .of_plain (hsame _ rfl) hspill hnone rfl rfl
  | committing batch spilled =>
    have haccounts := coalescerCommitBatch_accounts cfg batch oks
    have hcounted := haccounts.counted
    have hperm (next : Work)
        (h : next.held =
          (coalescerCommitBatch cfg batch oks).failedRequests ++ spilled.elim [] (·.requests)) :
        (next.held ++ (coalescerCommitBatch cfg batch oks).committed).Perm
          (batch ++ spilled.elim [] (·.requests)) := by
      refine perm_iff_count.mpr fun a => ?_
      have hcount := haccounts.requests.count_eq a
      rw [h]
      simp only [count_append] at hcount ⊢
      omega
    simp only [selfProcessRepo]
    split
    · exact .of_hands hspill (hperm _ rfl) hwork ((Nat.zero_add _).symm ▸ hcounted)
        haccounts.covered
    · refine .of_hands hspill (hperm _ (held_afterCount ..)) ?_ ?_ haccounts.covered
      · rw [spilledWork_afterCount]
        exact hwork
      · rw [uncounted_afterCount]
        exact (show 0 = 0 + _ by omega)
  | counting committedRequests failed spilled =>
    refine .of_hands hspill ?_ ?_ ?_ hnothing
    · rw [held_afterCount, append_nil]
      exact .refl _
    · rw [spilledWork_afterCount]
      exact hwork
    · rw [uncounted_afterCount]
      exact Nat.add_comm ..
  | requeueing failed spilled =>
    refine .of_plain ?_ hspill ?_ (uncounted_afterBatch spilled) rfl
    · have hheld : (Work.requeueing failed spilled).held = failed ++ (afterBatch spilled).held := by
        rw [held_afterBatch]
        rfl
      refine perm_iff_count.mpr fun a => ?_
      simp only [hheld, RepoQueue.requeueRequests, RepoQueue.spilled, count_append]
      omega
    · rw [spilledWork_afterBatch]
      exact hwork
  | committingSpilled work =>
    have haccounts := coalescerCommitSpilledWork_accounts (hwork work rfl) (oks.headD false)
    have hcounted := haccounts.counted
    have hcovered := haccounts.covered
    simp only [selfProcessRepo]
    rcases haccounts.requests with ⟨hfailed, hcommitted⟩ | ⟨hfailed, hcommitted⟩
    · rw [hcommitted] at hcounted hcovered
      rw [hfailed, hcommitted]
      dsimp only
      split
      · exact .of_hands hspill (.refl _) hnone ((Nat.zero_add _).symm ▸ hcounted) hcovered
      · exact .of_hands hspill (.refl _) hnone (show 0 = 0 + _ by omega) hcovered
    · rw [hfailed, hcommitted]
      refine .of_hands hspill ?_ hwork rfl hnothing
      rw [append_nil]
      exact .refl _
  | restoring failed =>
    have hsound := hwork failed rfl
    refine .of_plain ?_ (restoreSpilledWork_sound hspill hsound) hnone rfl
      (rq.restoreSpilledWork_processing failed)
    rw [rq.restoreSpilledWork_queue, RepoQueue.spilled_restoreSpilledWork rq hsound, ← append_assoc]
    exact List.Perm.of_eq (append_nil _)
  | countingSpilled committedRequests =>
    exact .of_hands hspill (.refl _) hnone (Nat.add_comm ..) hnothing
  | releasing => exact ⟨.of_eq (append_nil _), hspill, hnone, rfl, hnothing, rfl⟩

/-! ### Steps -/

/-- The worker is not inside a repository. -/
def Worker.Looks {ρ : Type} : Worker ρ → Prop
  | .processing _ _ => False
  | _ => True

variable {ρ : Type} [DecidableEq ρ]

/-- What a step can be. -/
inductive Taken (cfg : CoalescerConfig) (s : CommitCoalescer ρ) :
    Event ρ → CommitCoalescer ρ → Prop where
  | nothing {e : Event ρ} : Taken cfg s e s
  | enqueue {e : Event ρ} (c : Call ρ) (hnumber : c.fields.number = s.calls.length)
    (hphase : c.phase = .counting) : Taken cfg s e { s with calls := s.calls ++ [c] }
  | call {i : Nat} {c : Call ρ} (hc : s.calls[i]? = some c) {r : Response}
    {s' : CommitCoalescer ρ} (h : s.callStep i c = some (r, s')) : Taken cfg s (.call i) s'
  | look {e : Event ρ} {w : Nat} {a b : Worker ρ} (ha : s.workers[w]? = some a) (hlook : a.Looks)
    (hlook' : b.Looks) (repo : ρ) : Taken cfg s e (s.setWorker w b)
  | claim {e : Event ρ} {w : Nat} {best : Option ρ} (ha : s.workers[w]? = some (.looking best)) (repo : ρ)
    (hfree : (s.repos repo).processing = false) :
    Taken cfg s e ((s.setRepo repo { s.repos repo with processing := true }).setWorker w
      (.processing repo .drainingQueue))
  | process {e : Event ρ} {w : Nat} {repo : ρ} {work : Work}
    (ha : s.workers[w]? = some (.processing repo work)) (oks : List Bool) :
    Taken cfg s e (s.process w repo (selfProcessRepo cfg (s.repos repo) oks work))

theorem lookStep_taken {s s' : CommitCoalescer ρ} {cfg : CoalescerConfig} {w : Nat}
    {a : Worker ρ} (ha : s.workers[w]? = some a) {c : Circumstances}
    (h : s.lookStep cfg w c a = some s') (e : Event ρ) : Taken cfg s e s' := by
  cases a with
  | weighing best repo =>
    rw [CommitCoalescer.lookStep] at h
    split at h <;> cases h <;> exact .look ha trivial trivial repo
  | sizingQueue best repo =>
    simp only [CommitCoalescer.lookStep] at h
    split at h <;> cases h <;> exact .look ha trivial trivial repo
  | sizingSpill best repo queued =>
    cases h
    exact .look ha trivial trivial repo
  | looking best => cases h
  | processing repo work => cases h

theorem workerStep_taken {s s' : CommitCoalescer ρ} {cfg : CoalescerConfig} {w : Nat}
    {e : Event ρ} {a : Worker ρ} (ha : s.workers[w]? = some a)
    (h : s.workerStep cfg w e a = some s') : Taken cfg s e s' := by
  unfold CommitCoalescer.workerStep at h
  split at h
  · next repo best =>
    split at h
    · cases h
      exact .nothing
    · cases h
      exact .look ha trivial trivial repo
  · exact lookStep_taken ha h _
  · next repo =>
    rw [Option.some.injEq, CommitCoalescer.claim] at h
    subst h
    split
    · exact .look ha trivial trivial repo
    · next hfree => exact .claim ha repo (by simpa using hfree)
  · cases h
    exact .process ha _
  · cases h

theorem step_taken {s s' : CommitCoalescer ρ} {cfg : CoalescerConfig} {e : Event ρ}
    {r : Response} (h : s.step cfg e = some (r, s')) : Taken cfg s e s' := by
  have hworker {w : Nat} (h : (s.workers[w]?.bind (s.workerStep cfg w e)).map
      (fun s => (Response.goesOn, s)) = some (r, s')) : Taken cfg s e s' := by
    obtain ⟨_, hstep, heq⟩ := Option.map_eq_some_iff.mp h
    cases heq
    obtain ⟨a, ha, hstep⟩ := Option.bind_eq_some_iff.mp hstep
    exact workerStep_taken ha hstep
  cases e with
  | enqueue repo queueCap gitAuthorName gitAuthorEmail relPaths =>
    rw [CommitCoalescer.step, CommitCoalescer.enqueue, Option.some.injEq] at h
    split at h
    · cases h
      exact .nothing
    · cases h
      exact .enqueue _ rfl rfl
  | call i =>
    obtain ⟨c, hc, hstep⟩ := Option.bind_eq_some_iff.mp h
    exact .call hc hstep
  | consider w repo => exact hworker h
  | look w c => exact hworker h
  | claim w => exact hworker h
  | process w oks => exact hworker h

end AgentMail.Coalescer
