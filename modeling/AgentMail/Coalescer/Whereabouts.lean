import AgentMail.Coalescer.CoalescerSafety

/-!
# Whereabouts of the requests

The invariant of the coalescer: one worker at a time is inside a repository, every request that was
placed is in one place, and the count of pending requests is right up to those that were committed
and not yet counted.
-/

namespace AgentMail.Coalescer

open Lib List Function

variable {ρ : Type} [DecidableEq ρ]

namespace Worker

/-- One for a worker that processes the repository. -/
def inside (r : ρ) : Worker ρ → Nat
  | .processing repo _ => if repo = r then 1 else 0
  | _ => 0

/-- The requests of the repository that the worker has in its hands. -/
def held (r : ρ) : Worker ρ → List CoalescerCommitFields
  | .processing repo work => if repo = r then work.held else []
  | _ => []

omit [DecidableEq ρ] in
def uncounted : Worker ρ → Nat
  | .processing _ work => work.uncounted
  | _ => 0

omit [DecidableEq ρ] in
def spilledWork : Worker ρ → Option CoalescerSpillRepo
  | .processing _ work => work.spilledWork
  | _ => none

variable {a : Worker ρ}

theorem Looks.inside_eq (h : a.Looks) (r : ρ) : a.inside r = 0 := by
  cases a with
  | processing repo work => exact h.elim
  | _ => rfl

theorem Looks.held_eq (h : a.Looks) (r : ρ) : a.held r = [] := by
  cases a with
  | processing repo work => exact h.elim
  | _ => rfl

omit [DecidableEq ρ] in
theorem Looks.uncounted_eq (h : a.Looks) : a.uncounted = 0 := by
  cases a with
  | processing repo work => exact h.elim
  | _ => rfl

omit [DecidableEq ρ] in
theorem Looks.spilledWork_eq (h : a.Looks) : a.spilledWork = none := by
  cases a with
  | processing repo work => exact h.elim
  | _ => rfl

end Worker

namespace Call

/-- The request, once the call has placed it. -/
def placed (c : Call ρ) : List (ρ × CoalescerCommitFields) :=
  if c.phase = .returned then [(c.repo, c.fields)] else []

/-- One for a call that has counted its request. -/
def counted (c : Call ρ) : Nat := if c.phase = .counting then 0 else 1

end Call

namespace CommitCoalescer

variable (s : CommitCoalescer ρ)

/-- The requests that were put into the repository. -/
def placed (r : ρ) : List CoalescerCommitFields := ofKey r (s.calls.flatMap Call.placed)

/-- The requests that workers have in their hands. -/
def inHands (r : ρ) : List CoalescerCommitFields := s.workers.flatMap (Worker.held r)

def committedOf (r : ρ) : List CoalescerCommitFields := ofKey r s.committed

end CommitCoalescer

structure Inv (s : CommitCoalescer ρ) : Prop where
  alone : ∀ r, (s.workers.map (Worker.inside r)).sum = (s.repos r).processing.toNat
  numbered : s.calls.map (·.fields.number) = range s.calls.length
  conserved : ∀ r,
    ((s.repos r).queue ++ (s.repos r).spilled ++ s.inHands r ++ s.committedOf r).Perm (s.placed r)
  spill : ∀ r, ∀ repo ∈ (s.repos r).spill, repo.Sound
  spilledWork : ∀ worker ∈ s.workers, ∀ repo ∈ worker.spilledWork, repo.Sound
  covered : ∀ x ∈ s.committed, ∃ c ∈ s.commits, c.1 = x.1 ∧ c.2.Covers x.2
  counted : s.pendingRequests + s.committed.length =
    (s.calls.map Call.counted).sum + (s.workers.map Worker.uncounted).sum

theorem inv_start (workerCount : Nat) : Inv (CommitCoalescer.start (ρ := ρ) workerCount) := by
  have hlook (f : Worker ρ → Nat) (hf : f (.looking none) = 0) :
      ((replicate workerCount (.looking none)).map f).sum = 0 := by
    simp [hf]
  refine ⟨fun r => hlook _ rfl, rfl, fun r => ?_, fun r repo hrepo => ?_, fun worker hworker => ?_,
    fun x hx => absurd hx not_mem_nil, ?_⟩
  · have hhands : (replicate workerCount (.looking none)).flatMap (Worker.held r) = [] :=
      flatMap_eq_nil_iff.mpr fun worker hworker => by rw [eq_of_mem_replicate hworker]; rfl
    simp only [CommitCoalescer.start, CommitCoalescer.inHands, hhands]
    exact .refl _
  · exact absurd hrepo (Option.not_mem_none repo)
  · rw [eq_of_mem_replicate hworker]
    exact fun repo hrepo => absurd hrepo (Option.not_mem_none repo)
  · have hcount := hlook Worker.uncounted rfl
    simp only [CommitCoalescer.start, map_nil, sum_nil, length_nil]
    omega

variable {s : CommitCoalescer ρ}

/-- No more is committed than calls have counted. -/
theorem length_committed_le
    (conserved : ∀ r, ((s.repos r).queue ++ (s.repos r).spilled ++ s.inHands r ++
      s.committedOf r).Perm (s.placed r)) :
    s.committed.length ≤ (s.calls.map Call.counted).sum := by
  have hplaced : s.committed.length ≤ (s.calls.flatMap Call.placed).length := by
    refine length_le_of_ofKey fun r => Multiset.coe_le.mpr ?_
    exact (sublist_append_right _ _).subperm.trans (conserved r).subperm
  refine Nat.le_trans hplaced ?_
  rw [length_flatMap]
  refine sum_le_sum fun c _ => ?_
  rw [Call.placed, Call.counted]
  split
  · next h => rw [h]; rfl
  · exact Nat.zero_le _

theorem spill_update {repos : ρ → RepoQueue} (h : ∀ r, ∀ repo ∈ (repos r).spill, repo.Sound)
    {r : ρ} {rq : RepoQueue} (hrq : ∀ repo ∈ rq.spill, repo.Sound) :
    ∀ r', ∀ repo ∈ (update repos r rq r').spill, repo.Sound := by
  intro r'
  by_cases hr : r' = r
  · subst hr
    rwa [update_self]
  · rw [update_of_ne hr]
    exact h r'

section

variable (h : Inv s)
include h

theorem Inv.move {w : Nat} {a b : Worker ρ} (ha : s.workers[w]? = some a) (repo : ρ)
    (rq : RepoQueue) (drained : Nat) (committed : List CoalescerCommitFields)
    (commits : List GitCommit)
    (hothers : ∀ r, r ≠ repo → b.inside r = a.inside r ∧ b.held r = a.held r)
    (hinside : b.inside repo + (s.repos repo).processing.toNat =
      a.inside repo + rq.processing.toNat)
    (hrequests : (rq.queue ++ rq.spilled ++ b.held repo ++ committed).Perm
      ((s.repos repo).queue ++ (s.repos repo).spilled ++ a.held repo))
    (hspill : ∀ r ∈ rq.spill, r.Sound) (hspilledWork : ∀ r ∈ b.spilledWork, r.Sound)
    (hcounted : b.uncounted + drained = a.uncounted + committed.length)
    (hcovered : ∀ q ∈ committed, ∃ c ∈ commits, c.Covers q) :
    Inv { s with
      repos := update s.repos repo rq
      pendingRequests := s.pendingRequests - drained
      workers := s.workers.set w b
      committed := s.committed ++ committed.map (repo, ·)
      commits := s.commits ++ commits.map (repo, ·) } := by
  have hconserved (r : ρ) :
      ((update s.repos repo rq r).queue ++ (update s.repos repo rq r).spilled ++
        (s.workers.set w b).flatMap (Worker.held r) ++
        ofKey r (s.committed ++ committed.map (repo, ·))).Perm (s.placed r) := by
    refine (perm_iff_count.mpr fun q => ?_).trans (h.conserved r)
    have hhands := (flatMap_set_perm (Worker.held r) ha b).count_eq q
    by_cases hr : r = repo
    · subst hr
      have hcount := hrequests.count_eq q
      simp only [update_self, ofKey_append, ofKey_map_mk, if_pos, count_append,
        CommitCoalescer.inHands, CommitCoalescer.committedOf] at hhands hcount ⊢
      omega
    · rw [(hothers r hr).2] at hhands
      simp only [update_of_ne hr, ofKey_append, ofKey_map_mk, if_neg hr,
        count_append, count_nil, CommitCoalescer.inHands, CommitCoalescer.committedOf] at hhands ⊢
      omega
  refine ⟨fun r => ?_, h.numbered, hconserved, spill_update h.spill hspill,
    fun worker hworker => ?_, fun x hx => ?_, ?_⟩
  · have hsum := sum_map_set (Worker.inside r) ha b
    have halone := h.alone r
    by_cases hr : r = repo
    · subst hr
      simp only [update_self]
      omega
    · rw [(hothers r hr).1] at hsum
      simp only [update_of_ne hr]
      omega
  · rcases mem_or_eq_of_mem_set hworker with hworker | rfl
    · exact h.spilledWork worker hworker
    · exact hspilledWork
  · rcases mem_append.mp hx with hx | hx
    · obtain ⟨c, hc, hcovers⟩ := h.covered x hx
      exact ⟨c, mem_append_left _ hc, hcovers⟩
    · obtain ⟨q, hq, rfl⟩ := mem_map.mp hx
      obtain ⟨c, hc, hcovers⟩ := hcovered q hq
      exact ⟨(repo, c), mem_append_right _ (mem_map_of_mem hc), rfl, hcovers⟩
  · have hsum := sum_map_set Worker.uncounted ha b
    have hle := length_committed_le (s := { s with
      repos := update s.repos repo rq
      workers := s.workers.set w b
      committed := s.committed ++ committed.map (repo, ·) }) hconserved
    have hcount := h.counted
    simp only [length_append, length_map] at hle ⊢
    omega

theorem Inv.look {w : Nat} {a b : Worker ρ} (ha : s.workers[w]? = some a)
    (hlook : a.Looks) (hlook' : b.Looks) (r : ρ) : Inv (s.setWorker w b) := by
  have hinside (r : ρ) : b.inside r = a.inside r := by
    rw [hlook.inside_eq, hlook'.inside_eq]
  have hheld (r : ρ) : b.held r = a.held r := by
    rw [hlook.held_eq, hlook'.held_eq]
  have hmove := h.move ha r (s.repos r) 0 [] [] (fun r _ => ⟨hinside r, hheld r⟩)
    (by rw [hinside]) (by rw [append_nil, hheld]) (h.spill r)
    (by rw [hlook'.spilledWork_eq]; exact fun _ h => absurd h (Option.not_mem_none _))
    (by rw [hlook.uncounted_eq, hlook'.uncounted_eq]; rfl) (fun q hq => absurd hq not_mem_nil)
  simp only [update_eq_self, map_nil, append_nil, Nat.sub_zero] at hmove
  exact hmove

theorem Inv.call {i : Nat} {c : Call ρ} (hc : s.calls[i]? = some c) (phase : CallPhase)
    (rq : RepoQueue) (pendingRequests : Nat)
    (hpending : pendingRequests + c.counted = s.pendingRequests + { c with phase }.counted)
    (hrequests : (rq.queue ++ rq.spilled ++ ofKey c.repo c.placed).Perm
      ((s.repos c.repo).queue ++ (s.repos c.repo).spilled ++ ofKey c.repo { c with phase }.placed))
    (hspill : ∀ repo ∈ rq.spill, repo.Sound)
    (hprocessing : rq.processing = (s.repos c.repo).processing) :
    Inv { s with
      repos := update s.repos c.repo rq
      pendingRequests
      calls := s.calls.set i { c with phase } } := by
  have hkey (phase : CallPhase) {r : ρ} (hr : r ≠ c.repo) : ofKey r { c with phase }.placed = [] := by
    rw [Call.placed]
    split
    · exact (ofKey_map_mk r c.repo [c.fields]).trans (if_neg hr)
    · rfl
  have hplaced (r : ρ) : (ofKey r ((s.calls.set i { c with phase }).flatMap Call.placed) ++
      ofKey r c.placed).Perm (s.placed r ++ ofKey r { c with phase }.placed) := by
    have hperm := perm_ofKey (flatMap_set_perm Call.placed hc { c with phase }) r
    rwa [ofKey_append, ofKey_append] at hperm
  refine ⟨fun r => ?_, ?_, fun r => perm_iff_count.mpr fun q => ?_, spill_update h.spill hspill,
    h.spilledWork, h.covered, ?_⟩
  · refine (h.alone r).trans ?_
    by_cases hr : r = c.repo
    · subst hr
      simp only [update_self, hprocessing]
    · simp only [update_of_ne hr]
  · rw [length_set, ← h.numbered]
    exact map_set_of_eq hc rfl
  · have hold := (h.conserved r).count_eq q
    have hnew := (hplaced r).count_eq q
    by_cases hr : r = c.repo
    · subst hr
      have hcount := hrequests.count_eq q
      simp only [update_self, count_append, CommitCoalescer.inHands,
        CommitCoalescer.committedOf, CommitCoalescer.placed] at hold hnew hcount ⊢
      omega
    · have hother := hkey c.phase hr
      simp only [hkey phase hr, hother, update_of_ne hr, count_append,
        count_nil, CommitCoalescer.inHands, CommitCoalescer.committedOf,
        CommitCoalescer.placed] at hold hnew ⊢
      omega
  · have hsum := sum_map_set Call.counted hc { c with phase }
    have hcount := h.counted
    simp only
    omega

/-- A call that goes on leaves the repositories alone. -/
theorem Inv.call_waits {i : Nat} {c : Call ρ} (hc : s.calls[i]? = some c)
    {phase : CallPhase} (hnow : c.phase ≠ .returned) (hphase : phase ≠ .returned)
    (pendingRequests : Nat)
    (hpending : pendingRequests + c.counted = s.pendingRequests + { c with phase }.counted) :
    Inv { s.setCall i c phase with pendingRequests } := by
  have hplaced : c.placed = { c with phase }.placed := by
    rw [Call.placed, Call.placed, if_neg hnow, if_neg hphase]
  have hcall := h.call hc phase (s.repos c.repo) pendingRequests hpending
    (by rw [hplaced]) (h.spill c.repo) rfl
  rwa [update_eq_self] at hcall

/-- A call that returns has placed its request. -/
theorem Inv.call_places {i : Nat} {c : Call ρ} (hc : s.calls[i]? = some c)
    (hnow : c.phase ≠ .returned) (hcounted : c.phase ≠ .counting) {rq : RepoQueue}
    (hrequests : (rq.queue ++ rq.spilled).Perm
      ((s.repos c.repo).queue ++ (s.repos c.repo).spilled ++ [c.fields]))
    (hspill : ∀ repo ∈ rq.spill, repo.Sound)
    (hprocessing : rq.processing = (s.repos c.repo).processing) :
    Inv ((s.setRepo c.repo rq).setCall i c .returned) := by
  refine h.call hc .returned rq s.pendingRequests ?_ ?_ hspill hprocessing
  · rw [Call.counted, Call.counted, if_neg hcounted, if_neg (by simp)]
  · rw [Call.placed, Call.placed, if_neg hnow, if_pos rfl]
    have hkey : ofKey c.repo [(c.repo, c.fields)] = [c.fields] := by
      have hmap := ofKey_map_mk c.repo c.repo [c.fields]
      rwa [if_pos rfl] at hmap
    rw [hkey]
    exact (List.Perm.of_eq (append_nil _)).trans hrequests

theorem callStep_inv {i : Nat} {c : Call ρ} (hc : s.calls[i]? = some c)
    {r : Response} {s' : CommitCoalescer ρ} (hstep : s.callStep i c = some (r, s')) : Inv s' := by
  have hrepo := h.spill c.repo
  rw [CommitCoalescer.callStep] at hstep
  split at hstep
  · next hphase =>
    cases hstep
    refine h.call_waits hc (by simp [hphase]) (by simp) _ ?_
    rw [Call.counted, Call.counted, hphase]
    rfl
  · next hphase =>
    cases hstep
    have hgoesOn : (if (s.repos c.repo).depth < c.queueCap then CallPhase.pushing
        else CallPhase.spilling) ≠ .counting := by split <;> simp
    refine h.call_waits hc (by simp [hphase]) (by split <;> simp) s.pendingRequests ?_
    rw [Call.counted, Call.counted, if_neg hgoesOn, if_neg (by simp [hphase])]
  · next hphase =>
    split at hstep
    · cases hstep
      refine h.call_places hc (by simp [hphase]) (by simp [hphase]) ?_ hrepo rfl
      rw [append_assoc]
      exact (List.Perm.of_eq (append_assoc ..)).trans (perm_append_comm.append_left _)
    · cases hstep
      refine h.call_waits hc (by simp [hphase]) (by simp) s.pendingRequests ?_
      rw [Call.counted, Call.counted, hphase]
      rfl
  · next hphase =>
    cases hstep
    refine h.call_places hc (by simp [hphase]) (by simp [hphase]) ?_
      (spillToRepo_sound hrepo c.nonempty) rfl
    rw [RepoQueue.spilled_spillToRepo, append_assoc]
    exact .refl _
  · cases hstep

theorem claim_inv {w : Nat} {best : Option ρ}
    (ha : s.workers[w]? = some (.looking best)) (repo : ρ)
    (hfree : (s.repos repo).processing = false) :
    Inv ((s.setRepo repo { s.repos repo with processing := true }).setWorker w
      (.processing repo .drainingQueue)) := by
  have hinside (r : ρ) (hr : r ≠ repo) : (Worker.processing repo .drainingQueue).inside r = 0 :=
    if_neg (Ne.symm hr)
  have hheld (r : ρ) : (Worker.processing repo .drainingQueue).held r = [] := by
    rw [Worker.held]
    split <;> rfl
  have hnow : (Worker.processing repo .drainingQueue).inside repo = 1 := if_pos rfl
  have hmove := h.move ha repo { s.repos repo with processing := true } 0 [] []
    (fun r hr => ⟨hinside r hr, hheld r⟩) (by rw [hnow, hfree]; rfl)
    (by rw [hheld, append_nil]; exact .refl _) (h.spill repo)
    (fun _ h => absurd h (Option.not_mem_none _)) rfl (fun q hq => absurd hq not_mem_nil)
  simp only [map_nil, append_nil, Nat.sub_zero] at hmove
  exact hmove

/-- A worker inside a repository has claimed it. -/
theorem Inv.processing_eq {w : Nat} {repo : ρ} {work : Work}
    (ha : s.workers[w]? = some (.processing repo work)) : (s.repos repo).processing = true := by
  have hone : (Worker.processing repo work).inside repo = 1 := if_pos rfl
  have hle := le_sum_of_mem (mem_map_of_mem (f := Worker.inside repo)
    (mem_of_getElem? ha))
  rw [hone, h.alone repo] at hle
  cases hprocessing : (s.repos repo).processing with
  | true => rfl
  | false =>
    rw [hprocessing] at hle
    cases hle

theorem process_inv (cfg : CoalescerConfig) {w : Nat} {repo : ρ} {work : Work}
    (ha : s.workers[w]? = some (.processing repo work)) (oks : List Bool) :
    Inv (s.process w repo (selfProcessRepo cfg (s.repos repo) oks work)) := by
  have hwork := h.spilledWork _ (mem_of_getElem? ha)
  have hkeeps := selfProcessRepo_keeps cfg (h.spill repo) oks hwork
  have hclaimed := h.processing_eq ha
  generalize selfProcessRepo cfg (s.repos repo) oks work = turn at hkeeps ⊢
  obtain ⟨rq, drained, committed, commits, next⟩ := turn
  obtain ⟨hrequests, hspill, hspilledWork, hcounted, hcovered, hprocessing⟩ := hkeeps
  rw [hclaimed, Bool.and_true] at hprocessing
  have hinside (work : Work) : (Worker.processing repo work).inside repo = 1 := if_pos rfl
  have hheld (work : Work) : (Worker.processing repo work).held repo = work.held := if_pos rfl
  have hother (work : Work) (r : ρ) (hr : r ≠ repo) :
      (Worker.processing repo work).inside r = 0 ∧ (Worker.processing repo work).held r = [] :=
    ⟨if_neg (Ne.symm hr), if_neg (Ne.symm hr)⟩
  refine h.move ha repo rq drained committed commits (fun r hr => ?_) ?_ ?_ hspill ?_ ?_ hcovered
  · rw [(hother work r hr).1, (hother work r hr).2]
    cases next with
    | none => exact ⟨rfl, rfl⟩
    | some next => exact hother next r hr
  · rw [hinside work, hclaimed, hprocessing]
    cases next with
    | none => rfl
    | some next => exact congrArg (· + 1) (hinside next)
  · rw [hheld work]
    cases next with
    | none => exact hrequests
    | some next =>
      rw [Option.elim_some, hheld next]
      exact hrequests
  · cases next with
    | none => exact fun _ h => absurd h (Option.not_mem_none _)
    | some next => exact hspilledWork
  · cases next with
    | none => exact hcounted
    | some next => exact hcounted

theorem step_inv {cfg : CoalescerConfig} {e : Event ρ} {r : Response}
    {s' : CommitCoalescer ρ} (hstep : s.step cfg e = some (r, s')) : Inv s' := by
  cases step_taken hstep with
  | nothing => exact h
  | enqueue c hnumber hphase =>
    have hplaced : c.placed = [] := if_neg (by simp [hphase])
    have hcounted : c.counted = 0 := if_pos hphase
    refine ⟨h.alone, ?_, fun r => ?_, h.spill, h.spilledWork, h.covered, ?_⟩
    · rw [map_append, h.numbered, length_append, map_singleton,
        length_singleton, range_succ, hnumber]
    · refine (h.conserved r).trans (.of_eq ?_)
      rw [CommitCoalescer.placed, CommitCoalescer.placed, flatMap_append,
        flatMap_singleton, hplaced, append_nil]
    · rw [map_append, sum_append, map_singleton, sum_singleton, hcounted]
      exact h.counted
  | call hc hcall => exact callStep_inv h hc hcall
  | look ha hlook hlook' repo => exact h.look ha hlook hlook' repo
  | claim ha repo hfree => exact claim_inv h ha repo hfree
  | process ha oks => exact process_inv h cfg ha oks

end

end AgentMail.Coalescer
