import AgentMail.Coalescer.Whereabouts

/-!
# Whether the workers see what waits

The depth of a repository is what its queue and its spill hold as long as nothing is put in while a
worker counts them anew, and then a request that waits is seen by every worker that looks.
-/

namespace AgentMail.Coalescer

open Lib List

/-! ### A step on a claimed repository -/

variable {rq : RepoQueue}

namespace RepoQueue

/-- What waits in the repository. -/
def size (rq : RepoQueue) : Nat := rq.queue.length + rq.spillDepth

theorem size_pushBack (rq : RepoQueue) (fields : CoalescerCommitFields) :
    (rq.pushBack fields).size = rq.size + 1 := by
  show (rq.queue ++ [fields]).length + rq.spillDepth = rq.queue.length + rq.spillDepth + 1
  rw [length_append, length_singleton]
  omega

theorem size_spillToRepo (rq : RepoQueue) (fields : CoalescerCommitFields) :
    (rq.spillToRepo fields).size = rq.size + 1 := by
  rw [size, rq.spillDepth_spillToRepo, ← Nat.add_assoc]
  rfl

theorem size_requeueRequests (rq : RepoQueue) (failed : List CoalescerCommitFields) :
    (rq.requeueRequests failed).size = rq.size + failed.length := by
  show (failed ++ rq.queue).length + rq.spillDepth = rq.queue.length + rq.spillDepth + failed.length
  rw [length_append]
  omega

theorem size_restoreSpilledWork (rq : RepoQueue) (work : CoalescerSpillRepo) :
    (rq.restoreSpilledWork work).size = rq.size + work.pendingRequests := by
  rw [size, rq.restoreSpilledWork_queue, rq.spillDepth_restoreSpilledWork, ← Nat.add_assoc]
  rfl

theorem size_drainQueue (maxBatchSize : Nat) (rq : RepoQueue) :
    (rq.drainQueue maxBatchSize).2.size = rq.size - (rq.drainQueue maxBatchSize).1.length := by
  have happend := congrArg List.length (takeBatch_append maxBatchSize [] rq.queue)
  rw [length_append, nil_append] at happend
  show (takeBatch maxBatchSize [] rq.queue).2.length + rq.spillDepth =
    rq.queue.length + rq.spillDepth - (takeBatch maxBatchSize [] rq.queue).1.length
  omega

theorem size_drainRepoSpill (h : ∀ repo ∈ rq.spill, repo.Sound) :
    rq.drainRepoSpill.2.size = rq.size - rq.spillDepth := by
  obtain ⟨hqueue, hnone, -⟩ := drainRepoSpill_cases h
  have hzero : rq.drainRepoSpill.2.spillDepth = 0 := by
    rw [spillDepth, hnone]
    rfl
  rw [size, size, hqueue, hzero, Nat.add_sub_cancel, Nat.add_zero]

end RepoQueue

namespace Work

/-- What the worker has read of the repository is still so. -/
def UpToDate (rq : RepoQueue) : Work → Prop
  | .readingSpill queueDepth => queueDepth = rq.queue.length
  | .storingDepth actual => actual = rq.size
  | _ => True

/-- The worker has read how long the queue is and not stored it yet. -/
def hasReadQueue : Work → Bool
  | .readingSpill _ | .storingDepth _ => true
  | _ => false

/-- The worker has read how much is in the spill and not stored it yet. -/
def hasReadSpill : Work → Bool
  | .storingDepth _ => true
  | _ => false

end Work

/-- What a step of a worker leaves of the depth. -/
structure Turn.Measures (t : Turn) : Prop where
  depth : t.rq.depth = t.rq.size
  next : ∀ work ∈ t.next, work.UpToDate t.rq

theorem selfProcessRepo_measures (cfg : CoalescerConfig) (hspill : ∀ repo ∈ rq.spill, repo.Sound)
    (hdepth : rq.depth = rq.size) (oks : List Bool) {work : Work} (hwork : work.UpToDate rq) :
    (selfProcessRepo cfg rq oks work).Measures := by
  have hplain (rq' : RepoQueue) (next : Work) (hdepth : rq'.depth = rq'.size)
      (hnext : next.UpToDate rq') : (Turn.plain rq' next).Measures :=
    ⟨hdepth, fun work hwork => Option.mem_some_iff.mp hwork ▸ hnext⟩
  have hsame (drained : Nat) (committed : List CoalescerCommitFields) (commits : List GitCommit)
      (next : Work) (hnext : next.UpToDate rq) :
      Turn.Measures ⟨rq, drained, committed, commits, some next⟩ :=
    ⟨hdepth, fun work hwork => Option.mem_some_iff.mp hwork ▸ hnext⟩
  have hafterBatch (spilled : Option CoalescerSpillRepo) (rq : RepoQueue) :
      (afterBatch spilled).UpToDate rq := by
    cases spilled <;> exact trivial
  have hafterCount (failed : List CoalescerCommitFields) (spilled : Option CoalescerSpillRepo) :
      (afterCount failed spilled).UpToDate rq := by
    cases failed with
    | nil => exact hafterBatch spilled rq
    | cons _ _ => exact trivial
  cases work with
  | drainingQueue =>
    have hleft : (rq.drainQueue cfg.maxBatchSize).2.depth =
        (rq.drainQueue cfg.maxBatchSize).2.size := by
      rw [rq.size_drainQueue, ← hdepth]
      rfl
    simp only [selfProcessRepo]
    split
    · exact hplain _ _ hleft trivial
    · split <;> exact hplain _ _ hleft trivial
  | drainingSpill batch =>
    obtain ⟨-, -, -, -, -, hless⟩ := RepoQueue.drainRepoSpill_cases hspill
    have hleft : rq.drainRepoSpill.2.depth = rq.drainRepoSpill.2.size := by
      rw [hless, RepoQueue.size_drainRepoSpill hspill, hdepth]
    simp only [selfProcessRepo]
    split
    · split <;> exact hplain _ _ hleft trivial
    · exact hplain _ _ hleft trivial
  | readingQueue => exact hplain _ _ hdepth rfl
  | readingSpill queueDepth => exact hplain _ _ hdepth (congrArg (· + rq.spillDepth) hwork)
  | storingDepth actual => exact hplain _ _ hwork trivial
  | committing batch spilled =>
    simp only [selfProcessRepo]
    split
    · exact hsame _ _ _ _ trivial
    · exact hsame _ _ _ _ (hafterCount _ spilled)
  | counting committedRequests failed spilled => exact hsame _ _ _ _ (hafterCount failed spilled)
  | requeueing failed spilled =>
    refine hplain _ _ ?_ (hafterBatch spilled _)
    rw [rq.size_requeueRequests, ← hdepth]
    rfl
  | committingSpilled work =>
    simp only [selfProcessRepo]
    split
    · exact hsame _ _ _ _ trivial
    · split <;> exact hsame _ _ _ _ trivial
  | restoring failed =>
    refine hplain _ _ ?_ trivial
    rw [rq.size_restoreSpilledWork, rq.depth_restoreSpilledWork, hdepth]
  | countingSpilled committedRequests => exact hsame _ _ _ _ trivial
  | releasing => exact ⟨hdepth, fun _ h => absurd h (Option.not_mem_none _)⟩

/-! ### The whole pool -/

variable {ρ : Type} [DecidableEq ρ]

/-- One step of a run. -/
abbrev Happening (ρ : Type) := Entry (CommitCoalescer ρ) (Event ρ) Response

/-- The call that takes the step. -/
def Event.call? : Event ρ → Option Nat
  | .call i => some i
  | _ => none

/-- The worker has read how long the queue of the repository is and not stored it yet. -/
def Worker.hasReadQueue (r : ρ) : Worker ρ → Bool
  | .processing repo work => repo = r && work.hasReadQueue
  | _ => false

/-- The worker has read how much is in the spill of the repository and not stored it yet. -/
def Worker.hasReadSpill (r : ρ) : Worker ρ → Bool
  | .processing repo work => repo = r && work.hasReadSpill
  | _ => false

/-- No request is put into a queue whose length, or into a spill whose size, a worker has read to
store it as the depth. -/
def Undisturbed (x : Happening ρ) : Prop :=
  ∀ i ∈ x.event.call?, ∀ c ∈ x.before.calls[i]?, ∀ worker ∈ x.before.workers,
    (c.phase = .pushing → (x.before.repos c.repo).queue.length < c.queueCap →
      worker.hasReadQueue c.repo = false) ∧
    (c.phase = .spilling → worker.hasReadSpill c.repo = false)

/-- The depths are right, and so is what workers have read to store it as a depth. -/
structure Measured (repos : ρ → RepoQueue) (workers : List (Worker ρ)) : Prop where
  depth : ∀ r, (repos r).depth = (repos r).size
  upToDate : ∀ (w : Nat) (r : ρ) (work : Work), workers[w]? = some (.processing r work) →
    work.UpToDate (repos r)

omit [DecidableEq ρ] in
theorem measured_start (workerCount : Nat) :
    Measured (fun _ : ρ => .default) (replicate workerCount (.looking none)) where
  depth _ := rfl
  upToDate w r work h := by
    cases eq_of_mem_replicate (mem_of_getElem? h)

/-- One repository changes, and what workers have read of it is still so. -/
theorem Measured.update {repos : ρ → RepoQueue} {workers workers' : List (Worker ρ)}
    (h : Measured repos workers) {repo : ρ} (hdepth : rq.depth = rq.size)
    (hworkers : ∀ (w : Nat) (r : ρ) (work : Work), workers'[w]? = some (.processing r work) →
      (r = repo → work.UpToDate rq) ∧ (r ≠ repo → workers[w]? = some (.processing r work))) :
    Measured (Function.update repos repo rq) workers' where
  depth r := by
    by_cases hr : r = repo
    · subst hr
      rwa [Function.update_self]
    · rw [Function.update_of_ne hr]
      exact h.depth r
  upToDate w r work hw := by
    by_cases hr : r = repo
    · subst hr
      rw [Function.update_self]
      exact (hworkers w r work hw).1 rfl
    · rw [Function.update_of_ne hr]
      exact h.upToDate w r work ((hworkers w r work hw).2 hr)

variable {s : CommitCoalescer ρ}

/-- Two workers are not inside the same repository. -/
theorem Inv.alone_inside (h : Inv s) {w w' : Nat} {r : ρ} {work work' : Work}
    (hw : s.workers[w]? = some (.processing r work))
    (hw' : s.workers[w']? = some (.processing r work')) : w = w' := by
  by_contra hne
  have hinside (work : Work) : (Worker.processing r work).inside r = 1 := if_pos rfl
  have hle := add_le_sum_map (Worker.inside r) hne hw hw'
  rw [hinside, hinside, h.alone r] at hle
  have hone := (s.repos r).processing.toNat_le
  omega

omit [DecidableEq ρ] in
theorem Measured.look (h : Measured s.repos s.workers) {w : Nat} {b : Worker ρ} (hb : b.Looks) :
    Measured s.repos (s.workers.set w b) where
  depth := h.depth
  upToDate w' r work hw' := by
    rcases getElem?_set_cases hw' with ⟨-, hbw⟩ | ⟨-, hw'⟩
    · subst hbw
      exact hb.elim
    · exact h.upToDate w' r work hw'

/-- A worker inside a repository goes on, or claims it. -/
theorem Measured.goOn (h : Measured s.repos s.workers) {w : Nat} {repo : ρ}
    {next : Option Work} (hdepth : rq.depth = rq.size) (hnext : ∀ work ∈ next, work.UpToDate rq)
    (hothers : ∀ (w' : Nat) (work : Work), w' ≠ w →
      s.workers[w']? = some (.processing repo work) → work.UpToDate rq) :
    Measured (Function.update s.repos repo rq)
      (s.workers.set w (next.elim (.looking none) (.processing repo))) := by
  refine h.update hdepth fun w' r work hset => ?_
  rcases getElem?_set_cases hset with ⟨-, hbw⟩ | ⟨hne, hw'⟩
  · cases next with
    | none => cases hbw
    | some next =>
      cases hbw
      exact ⟨fun _ => hnext _ rfl, fun hr => absurd rfl hr⟩
  · refine ⟨fun hr => ?_, fun _ => hw'⟩
    subst hr
    exact hothers w' work hne hw'

theorem callStep_measured (h : Measured s.repos s.workers) {i : Nat} {c : Call ρ} {r : Response} {s' : CommitCoalescer ρ}
    (hstep : s.callStep i c = some (r, s')) (hclear : ∀ worker ∈ s.workers,
      (c.phase = .pushing → (s.repos c.repo).queue.length < c.queueCap →
        worker.hasReadQueue c.repo = false) ∧
      (c.phase = .spilling → worker.hasReadSpill c.repo = false)) :
    Measured s'.repos s'.workers := by
  have hdepth := h.depth c.repo
  rw [CommitCoalescer.callStep] at hstep
  split at hstep
  · cases hstep
    exact h
  · cases hstep
    exact h
  · next hphase =>
    split at hstep
    · next hroom =>
      cases hstep
      refine h.update ?_ fun w r work hw => ⟨fun hr => ?_, fun _ => hw⟩
      · rw [RepoQueue.size_pushBack, ← hdepth]
        rfl
      · subst hr
        have hread := (hclear _ (mem_of_getElem? hw)).1 hphase hroom
        rw [Worker.hasReadQueue, decide_eq_true rfl, Bool.true_and] at hread
        cases work with
        | readingSpill queueDepth => cases hread
        | storingDepth actual => cases hread
        | _ => exact trivial
    · cases hstep
      exact h
  · next hphase =>
    cases hstep
    refine h.update ?_ fun w r work hw => ⟨fun hr => ?_, fun _ => hw⟩
    · rw [RepoQueue.size_spillToRepo, ← hdepth]
      rfl
    · subst hr
      have hread := (hclear _ (mem_of_getElem? hw)).2 hphase
      rw [Worker.hasReadSpill, decide_eq_true rfl, Bool.true_and] at hread
      have hnow := h.upToDate w c.repo work hw
      cases work with
      | readingSpill queueDepth => exact hnow
      | storingDepth actual => cases hread
      | _ => exact trivial
  · cases hstep

theorem step_measured (hinv : Inv s) (h : Measured s.repos s.workers) {cfg : CoalescerConfig}
    {e : Event ρ} {r : Response} {s' : CommitCoalescer ρ} (hstep : s.step cfg e = some (r, s'))
    (hclear : Undisturbed ⟨s, e, r, s'⟩) : Measured s'.repos s'.workers := by
  cases step_taken hstep with
  | nothing => exact h
  | enqueue c hnumber hphase => exact h
  | call hc hcall => exact callStep_measured h hcall (hclear _ rfl _ hc)
  | look ha hlook hlook' repo => exact h.look hlook'
  | claim ha repo hfree =>
    have hdepth : RepoQueue.depth { s.repos repo with processing := true } =
        RepoQueue.size { s.repos repo with processing := true } := h.depth repo
    have hnext : ∀ work ∈ some Work.drainingQueue,
        work.UpToDate { s.repos repo with processing := true } := by
      intro work hwork
      cases hwork
      exact trivial
    refine h.goOn hdepth hnext fun w' work _ hw' => ?_
    have hold := h.upToDate w' repo work hw'
    cases work <;> exact hold
  | process ha oks =>
    next w repo work =>
    have hmeasures := selfProcessRepo_measures cfg (hinv.spill repo) (h.depth repo) oks
      (h.upToDate w repo work ha)
    refine h.goOn hmeasures.depth hmeasures.next fun w' work' hne hw' => ?_
    exact absurd (hinv.alone_inside hw' ha) hne

/-! ### Runs -/

namespace CommitCoalescer

/-- Every call has returned and no worker is inside a repository. -/
def AtRest (s : CommitCoalescer ρ) : Prop :=
  (∀ c ∈ s.calls, c.phase = .returned) ∧ ∀ worker ∈ s.workers, worker.Looks

end CommitCoalescer

/-- What the coalescer promises of a state. -/
structure CoalescerLaws (s : CommitCoalescer ρ) : Prop where
  /-- One worker at a time processes a repository. -/
  alone : ∀ (w w' : Nat) (r : ρ) (work work' : Work), s.workers[w]? = some (.processing r work) →
    s.workers[w']? = some (.processing r work') → w = w'
  /-- A request that was placed is in one place: the queue, the spill, a worker's hands or
  committed. -/
  places : ∀ r, (s.placed r).Nodup ∧
    ((s.repos r).queue ++ (s.repos r).spilled ++ s.inHands r ++ s.committedOf r).Perm (s.placed r)
  spill : ∀ r, ∀ repo ∈ (s.repos r).spill, repo.pendingRequests = repo.requests.length ∧
    (repo.dirtyAll = true ∨ ∀ q ∈ repo.requests, q.relPaths ⊆ repo.paths)
  committed : ∀ x ∈ s.committed, ∃ c ∈ s.commits, c.1 = x.1 ∧ c.2.Covers x.2
  depth : ∀ r, (s.repos r).depth = (s.repos r).queue.length + (s.repos r).spilled.length
  pending : s.AtRest → s.pendingRequests + s.committed.length = s.calls.length
  /-- A request that waits where no worker is inside is visible to every worker that looks. -/
  visible : ∀ r, (∀ work, .processing r work ∉ s.workers) →
    (s.repos r).queue ++ (s.repos r).spilled ≠ [] → (s.repos r).processing = false ∧
      ∀ (cfg : CoalescerConfig) (c : Circumstances),
        coalescerRepoReadiness cfg (s.repos r) c ≠ .empty

theorem nodup_placed (h : Inv s) (r : ρ) : (s.placed r).Nodup := by
  have hsub (calls : List (Call ρ)) :
      ((ofKey r (calls.flatMap Call.placed)).map (·.number)).Sublist
        (calls.map (·.fields.number)) := by
    induction calls with
    | nil => exact .slnil
    | cons c calls ih =>
      rw [flatMap_cons, ofKey_append, map_append, map_cons, Call.placed]
      split
      · have hone := ofKey_map_mk r c.repo [c.fields]
        rw [map_singleton] at hone
        rw [hone]
        split
        · exact ih.cons_cons _
        · exact ih.cons _
      · exact ih.cons _
  have hnodup : (s.calls.map (·.fields.number)).Nodup := by
    rw [h.numbered]
    exact nodup_range
  exact ((hsub s.calls).nodup hnodup).of_map _

omit [DecidableEq ρ] in
theorem sum_eq_zero_of_looks {workers : List (Worker ρ)} (h : ∀ worker ∈ workers, worker.Looks) :
    (workers.map Worker.uncounted).sum = 0 := by
  induction workers with
  | nil => rfl
  | cons worker workers ih =>
    rw [forall_mem_cons] at h
    rw [map_cons, sum_cons, h.1.uncounted_eq, ih h.2]

omit [DecidableEq ρ] in
theorem sum_eq_length_of_returned {calls : List (Call ρ)} (h : ∀ c ∈ calls, c.phase = .returned) :
    (calls.map Call.counted).sum = calls.length := by
  induction calls with
  | nil => rfl
  | cons c calls ih =>
    rw [forall_mem_cons] at h
    have hone : c.counted = 1 := if_neg (by simp [h.1])
    rw [map_cons, sum_cons, hone, ih h.2, length_cons, Nat.add_comm]

theorem not_processing (h : Inv s) {r : ρ} (hnobody : ∀ work, .processing r work ∉ s.workers) :
    (s.repos r).processing = false := by
  have hzero : (s.workers.map (Worker.inside r)).sum = 0 := by
    refine sum_eq_zero fun n hn => ?_
    obtain ⟨worker, hworker, rfl⟩ := mem_map.mp hn
    cases worker with
    | processing repo work =>
      refine if_neg fun hr => ?_
      subst hr
      exact hnobody work hworker
    | _ => rfl
  rw [h.alone r] at hzero
  cases hprocessing : (s.repos r).processing with
  | false => rfl
  | true =>
    rw [hprocessing] at hzero
    cases hzero

/-- A repository whose depth is right never looks empty while something waits. -/
theorem readiness_ne_empty (hdepth : rq.depth = rq.size) (hspill : ∀ repo ∈ rq.spill, repo.Sound)
    (hwaits : rq.queue ++ rq.spilled ≠ []) (cfg : CoalescerConfig) (c : Circumstances) :
    coalescerRepoReadiness cfg rq c ≠ .empty := by
  have hpos : rq.depth ≠ 0 := by
    rw [hdepth, RepoQueue.size, RepoQueue.spillDepth_eq_length hspill, ← length_append]
    exact fun hzero => hwaits (eq_nil_of_length_eq_zero hzero)
  have hsomething : (!(!rq.queue.isEmpty) && rq.spill.isNone) = false := by
    cases hq : rq.queue with
    | cons _ _ => rfl
    | nil =>
      cases hs : rq.spill with
      | some _ => rfl
      | none =>
        rw [hq, RepoQueue.spilled, hs] at hwaits
        exact absurd rfl hwaits
  rw [coalescerRepoReadiness, readinessByDepth, readinessByQueue, readinessBySpill, if_neg hpos,
    hsomething]
  cases c.retryWait with
  | true => simp
  | false =>
    simp only [Bool.false_eq_true, if_false]
    split
    · simp
    · split
      · simp
      · dsimp only [Option.getD_none]
        split
        · simp
        · split <;> simp

theorem laws_of_inv (hinv : Inv s) (h : Measured s.repos s.workers) : CoalescerLaws s where
  alone _ _ _ _ _ hw hw' := hinv.alone_inside hw hw'
  places r := ⟨nodup_placed hinv r, hinv.conserved r⟩
  spill r repo hrepo := by
    have hsound := hinv.spill r repo hrepo
    refine ⟨hsound.counted, ?_⟩
    cases hdirty : repo.dirtyAll with
    | true => exact .inl rfl
    | false => exact .inr (hsound.covers hdirty)
  committed := hinv.covered
  depth r := by
    rw [h.depth r, RepoQueue.size, RepoQueue.spillDepth_eq_length (hinv.spill r)]
  pending hrest := by
    have hcounted := hinv.counted
    rw [sum_eq_length_of_returned hrest.1, sum_eq_zero_of_looks hrest.2] at hcounted
    exact hcounted
  visible r hnobody hwaits :=
    ⟨not_processing hinv hnobody, readiness_ne_empty (h.depth r) (hinv.spill r) hwaits⟩

/-- For any number of workers, whichever way the steps of callers and workers interleave and
whichever commits succeed, if nothing is put into a repository while a worker counts it anew. -/
theorem coalescerLaws (cfg : CoalescerConfig) (workerCount : Nat) (es : List (Event ρ))
    (hrun : ∀ x ∈ trace (CommitCoalescer.step cfg) (.start workerCount) es, Undisturbed x) :
    ∀ x ∈ trace (CommitCoalescer.step cfg) (.start workerCount) es, CoalescerLaws x.after := by
  have hboth (s : CommitCoalescer ρ) (e : Event ρ) (r : Response) (s' : CommitCoalescer ρ)
      (hs : Inv s ∧ Measured s.repos s.workers) (he : s.step cfg e = some (r, s'))
      (hclear : Undisturbed ⟨s, e, r, s'⟩) : Inv s' ∧ Measured s'.repos s'.workers :=
    ⟨step_inv hs.1 he, step_measured hs.1 hs.2 he hclear⟩
  have hstart : Inv (CommitCoalescer.start (ρ := ρ) workerCount) ∧ Measured
      (CommitCoalescer.start (ρ := ρ) workerCount).repos (CommitCoalescer.start workerCount).workers :=
    ⟨inv_start workerCount, measured_start workerCount⟩
  intro x hx
  obtain ⟨-, -, hafter⟩ := forall_mem_trace_of hboth hstart es hrun x hx
  exact laws_of_inv hafter.1 hafter.2

/-! ### A request that nobody sees -/

def flushes : Circumstances := ⟨false, true, true, false⟩

/-- A call of `enqueue` for the only repository. -/
def enqueues (i : Nat) (path : String) : List (Event Unit) :=
  .enqueue () 16 "agent" "agent@mail" [path] :: replicate 3 (.call i)

/-- Two workers choose the same repository; the first one empties it. -/
def bothChoose : List (Event Unit) :=
  enqueues 0 "a.md" ++
    [.consider 0 (), .look 0 flushes, .consider 1 (), .look 1 flushes, .claim 0] ++
    replicate 5 (.process 0 [true]) ++ [.claim 1]

theorem coalescerLaws_sample :
    ∃ x, (trace (CommitCoalescer.step ⟨64⟩) (.start 2)
      (bothChoose ++ replicate 6 (.process 1 []) ++ enqueues 1 "b.md")).getLast? = some x ∧
      CoalescerLaws x.after := by
  have hlast : (trace (CommitCoalescer.step ⟨64⟩) (.start 2)
      (bothChoose ++ replicate 6 (.process 1 []) ++ enqueues 1 "b.md")).getLast?.isSome := by
    decide
  obtain ⟨x, hx⟩ := Option.isSome_iff_exists.mp hlast
  exact ⟨x, hx, coalescerLaws ⟨64⟩ 2 _ (by unfold Undisturbed; decide) x (mem_of_getLast? hx)⟩

/-- A request comes after the second worker has read that the queue is empty. -/
def strands : List (Event Unit) :=
  bothChoose ++ replicate 3 (.process 1 []) ++ enqueues 1 "b.md" ++
    replicate 3 (.process 1 [])

/-- Everybody is at rest, the request is in the queue, and the depth says that nothing is there. -/
theorem stranded_unseen :
    ¬ ∀ (cfg : CoalescerConfig) (workerCount : Nat) (es : List (Event Unit)),
      ∀ x ∈ trace (CommitCoalescer.step cfg) (.start workerCount) es, CoalescerLaws x.after := by
  intro h
  let run := trace (CommitCoalescer.step ⟨64⟩) (.start 2) strands
  let last := run.get ⟨24, by decide⟩
  have hworkers : last.after.workers = [.looking none, .looking none] := by decide
  have hnobody (work : Work) : .processing () work ∉ last.after.workers := by
    rw [hworkers]
    simp
  have hwaits : (last.after.repos ()).queue ++ (last.after.repos ()).spilled ≠ [] := by decide
  have hempty : coalescerRepoReadiness ⟨64⟩ (last.after.repos ()) flushes = .empty := by decide
  have hseen := (h ⟨64⟩ 2 strands last (get_mem _ _)).visible () hnobody hwaits
  exact hseen.2 ⟨64⟩ flushes hempty

end AgentMail.Coalescer
