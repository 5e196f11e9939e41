import AgentMail.Lib.Shares
import AgentMail.Lib.Trace

/-!
# The commit coalescer

`crates/mcp-agent-mail-storage/src/lib.rs:4913–4983`, `5457–5617`, `5825–5882` and `5950–6878`:
callers put commit requests into a queue per repository, or into its spill when the queue is full,
and a pool of workers takes them out in batches and commits them.

A step is what one thread does under one lock or at one atomic. A depth that is changed under a lock
is changed in the same step as what the lock protects: nobody else changes that part in between, and
a depth that was read just before counts as read earlier. Which repositories a scan meets, what the
clock, the backoff and a forced flush say, and which git commits succeed is up to the step.
Requests are numbered by their calls. Messages, times, wake tokens, metrics and panics are left out.
-/

namespace AgentMail.Coalescer

open Lib

/-- `COALESCER_SPILL_PATH_CAP`. -/
def coalescerSpillPathCap : Nat := 4096

/-- `number` is the call that the request comes from. -/
structure CoalescerCommitFields where
  number : Nat
  gitAuthorName : String
  gitAuthorEmail : String
  relPaths : List String
  deriving DecidableEq

/-- `CoalescerSpillRepo`; taken out of the spill it is the `CoalescerSpilledWork`. `requests` is
history: the requests that it stands for. -/
structure CoalescerSpillRepo where
  pendingRequests : Nat
  dirtyAll : Bool
  paths : List String
  gitAuthorName : String
  gitAuthorEmail : String
  requests : List CoalescerCommitFields
  deriving DecidableEq

structure RepoQueue where
  queue : List CoalescerCommitFields
  spill : Option CoalescerSpillRepo
  depth : Nat
  processing : Bool

/-- What a git commit takes in. -/
inductive GitCommit where
  | all
  | paths (paths : List String)

structure CoalescerConfig where
  maxBatchSize : Nat

/-! ### Spilling -/

/-- Paths are added until there are too many; then everything counts as dirty. -/
def insertPaths : List String → List String → Bool × List String
  | paths, [] => (false, paths)
  | paths, p :: ps =>
    if coalescerSpillPathCap < (paths.insert p).length then (true, [])
    else insertPaths (paths.insert p) ps

namespace RepoQueue

def default : RepoQueue := ⟨[], none, 0, false⟩

/-- `get_or_insert_with`. -/
def spillEntry (rq : RepoQueue) (gitAuthorName gitAuthorEmail : String) : CoalescerSpillRepo :=
  rq.spill.getD ⟨0, false, [], gitAuthorName, gitAuthorEmail, []⟩

def spillToRepo (rq : RepoQueue) (fields : CoalescerCommitFields) : RepoQueue :=
  let entry := rq.spillEntry fields.gitAuthorName fields.gitAuthorEmail
  let marked :=
    if entry.dirtyAll then (true, entry.paths) else insertPaths entry.paths fields.relPaths
  { rq with
    spill := some
      { pendingRequests := entry.pendingRequests + 1
        dirtyAll := marked.1
        paths := marked.2
        gitAuthorName := fields.gitAuthorName
        gitAuthorEmail := fields.gitAuthorEmail
        requests := entry.requests ++ [fields] }
    depth := rq.depth + 1 }

def pushBack (rq : RepoQueue) (fields : CoalescerCommitFields) : RepoQueue :=
  { rq with queue := rq.queue ++ [fields], depth := rq.depth + 1 }

/-! ### Draining and putting back -/

/-- The loop of the drain: requests of one author, up to the batch size. -/
def takeBatch (maxBatchSize : Nat) :
    List CoalescerCommitFields → List CoalescerCommitFields →
      List CoalescerCommitFields × List CoalescerCommitFields
  | batch, [] => (batch, [])
  | batch, next :: queue =>
    let differs := batch.head?.any fun first =>
      next.gitAuthorName != first.gitAuthorName || next.gitAuthorEmail != first.gitAuthorEmail
    if batch.length < maxBatchSize && !differs then takeBatch maxBatchSize (batch ++ [next]) queue
    else (batch, next :: queue)

/-- The part of `self_process_repo` under the queue lock. -/
def drainQueue (maxBatchSize : Nat) (rq : RepoQueue) : List CoalescerCommitFields × RepoQueue :=
  let (batch, queue) := takeBatch maxBatchSize [] rq.queue
  (batch, { rq with queue, depth := rq.depth - batch.length })

/-- `coalescer_drain_repo_spill`. -/
def drainRepoSpill (rq : RepoQueue) : Option CoalescerSpillRepo × RepoQueue :=
  match rq.spill with
  | none => (none, rq)
  | some repo =>
    if repo.pendingRequests = 0 then (none, { rq with spill := none })
    else (some repo, { rq with spill := none, depth := rq.depth - repo.pendingRequests })

def requeueRequests (rq : RepoQueue) (failedRequests : List CoalescerCommitFields) : RepoQueue :=
  { rq with queue := failedRequests ++ rq.queue, depth := rq.depth + failedRequests.length }

def restoreSpilledWork (rq : RepoQueue) (work : CoalescerSpillRepo) : RepoQueue :=
  if work.pendingRequests = 0 then rq
  else
    let repo := rq.spillEntry work.gitAuthorName work.gitAuthorEmail
    let marked :=
      if repo.dirtyAll || work.dirtyAll then (true, []) else insertPaths repo.paths work.paths
    { rq with
      spill := some
        { pendingRequests := repo.pendingRequests + work.pendingRequests
          dirtyAll := marked.1
          paths := marked.2
          gitAuthorName := work.gitAuthorName
          gitAuthorEmail := work.gitAuthorEmail
          requests := repo.requests ++ work.requests }
      depth := rq.depth + work.pendingRequests }

/-- What the spill says that it holds. -/
def spillDepth (rq : RepoQueue) : Nat := rq.spill.elim 0 (·.pendingRequests)

/-- The requests that the spill stands for. -/
def spilled (rq : RepoQueue) : List CoalescerCommitFields := rq.spill.elim [] (·.requests)

end RepoQueue

/-! ### Committing -/

/-- `committed` and `commits` are history. -/
structure CoalescerCommitOutcome where
  committedRequests : Nat
  failedRequests : List CoalescerCommitFields
  committed : List CoalescerCommitFields
  commits : List GitCommit

/-- `committed` and `commits` are history. -/
structure CoalescerSpillOutcome where
  committedRequests : Nat
  failedWork : Option CoalescerSpillRepo
  committed : List CoalescerCommitFields
  commits : List GitCommit

/-- The requests are committed one by one; `oks` says which commits succeed. -/
def commitSequentially : List CoalescerCommitFields → List Bool →
    List CoalescerCommitFields × List CoalescerCommitFields
  | [], _ => ([], [])
  | req :: requests, oks =>
    let (done, failed) := commitSequentially requests oks.tail
    if oks.headD false then (req :: done, failed) else (done, req :: failed)

/-- No path occurs twice. -/
def canMerge (requests : List CoalescerCommitFields) : Bool :=
  (requests.flatMap (·.relPaths)).Nodup

/-- `coalescer_commit_batch`. -/
def coalescerCommitBatch (cfg : CoalescerConfig) (requests : List CoalescerCommitFields)
    (oks : List Bool) : CoalescerCommitOutcome :=
  let ok := oks.headD false
  match requests with
  | [] => ⟨0, [], [], []⟩
  | [req] => if ok then ⟨1, [], [req], [.paths req.relPaths]⟩ else ⟨0, [req], [], []⟩
  | requests =>
    if canMerge requests && requests.length ≤ cfg.maxBatchSize then
      if ok then
        ⟨requests.length, [], requests, [.paths (requests.flatMap (·.relPaths))]⟩
      else ⟨0, requests, [], []⟩
    else
      let (done, failed) := commitSequentially requests oks
      ⟨if failed.isEmpty then done.length else requests.length - failed.length, failed, done,
        done.map fun req => .paths req.relPaths⟩

/-- `coalescer_commit_spilled_work`. -/
def coalescerCommitSpilledWork (work : CoalescerSpillRepo) (ok : Bool) : CoalescerSpillOutcome :=
  if work.pendingRequests = 0 then ⟨0, none, [], []⟩
  else if work.dirtyAll then
    if ok then ⟨work.pendingRequests, none, work.requests, [.all]⟩ else ⟨0, some work, [], []⟩
  else if work.paths.isEmpty then ⟨work.pendingRequests, none, work.requests, []⟩
  else if ok then ⟨work.pendingRequests, none, work.requests, [.paths work.paths]⟩
  else ⟨0, some work, [], []⟩

/-! ### Looking for a repository -/

inductive CoalescerRepoReadiness where
  | ready
  | waiting
  | empty
  deriving DecidableEq

/-- What a look at a repository finds out besides its queue. -/
structure Circumstances where
  retryWait : Bool
  forceFlush : Bool
  due : Bool
  servicedEarlier : Bool

/-- The part of `coalescer_repo_readiness` that reads the depth. -/
def readinessByDepth (cfg : CoalescerConfig) (depth : Nat) (c : Circumstances) :
    Option CoalescerRepoReadiness :=
  if depth = 0 then some .empty
  else if c.retryWait then some .waiting
  else if c.forceFlush || cfg.maxBatchSize ≤ depth then some .ready
  else none

/-- The part under the queue lock. -/
def readinessByQueue (cfg : CoalescerConfig) (queue : List CoalescerCommitFields) :
    Option CoalescerRepoReadiness :=
  if cfg.maxBatchSize ≤ queue.length then some .ready else none

/-- The part under the spill lock and after it. -/
def readinessBySpill (cfg : CoalescerConfig) (queued : Bool) (spill : Option CoalescerSpillRepo)
    (c : Circumstances) : CoalescerRepoReadiness :=
  if spill.any (cfg.maxBatchSize ≤ ·.pendingRequests) then .ready
  else if !queued && spill.isNone then .empty
  else if c.due then .ready
  else .waiting

def coalescerRepoReadiness (cfg : CoalescerConfig) (rq : RepoQueue) (c : Circumstances) :
    CoalescerRepoReadiness :=
  (readinessByDepth cfg rq.depth c).getD <|
    (readinessByQueue cfg rq.queue).getD <| readinessBySpill cfg (!rq.queue.isEmpty) rq.spill c

/-! ### Threads -/

inductive CallPhase where
  | counting
  | checking
  | pushing
  | spilling
  | returned
  deriving DecidableEq

/-- A call of `enqueue` that has something to commit. -/
structure Call (ρ : Type) where
  repo : ρ
  queueCap : Nat
  fields : CoalescerCommitFields
  nonempty : fields.relPaths ≠ []
  phase : CallPhase

/-- What a worker does next in `self_process_repo`. -/
inductive Work where
  | drainingQueue
  | drainingSpill (batch : List CoalescerCommitFields)
  | readingQueue
  | readingSpill (queueDepth : Nat)
  | storingDepth (actual : Nat)
  | committing (batch : List CoalescerCommitFields) (spilled : Option CoalescerSpillRepo)
  | counting (committedRequests : Nat) (failed : List CoalescerCommitFields)
    (spilled : Option CoalescerSpillRepo)
  | requeueing (failed : List CoalescerCommitFields) (spilled : Option CoalescerSpillRepo)
  | committingSpilled (spilled : CoalescerSpillRepo)
  | restoring (failed : CoalescerSpillRepo)
  | countingSpilled (committedRequests : Nat)
  | releasing
  deriving DecidableEq

/-- What a worker does next: it looks at repositories, keeps the best of those that are ready, and
processes it. -/
inductive Worker (ρ : Type) where
  | looking (best : Option ρ)
  | weighing (best : Option ρ) (repo : ρ)
  | sizingQueue (best : Option ρ) (repo : ρ)
  | sizingSpill (best : Option ρ) (repo : ρ) (queued : Bool)
  | processing (repo : ρ) (work : Work)
  deriving DecidableEq

/-- `CommitCoalescer` with its threads. `committed` and `commits` are history. -/
structure CommitCoalescer (ρ : Type) where
  repos : ρ → RepoQueue
  pendingRequests : Nat
  calls : List (Call ρ)
  workers : List (Worker ρ)
  committed : List (ρ × CoalescerCommitFields)
  commits : List (ρ × GitCommit)

/-- The steps of the call `i` and of the worker `w`. -/
inductive Event (ρ : Type) where
  | enqueue (repo : ρ) (queueCap : Nat) (gitAuthorName gitAuthorEmail : String)
    (relPaths : List String)
  | call (i : Nat)
  | consider (w : Nat) (repo : ρ)
  | look (w : Nat) (c : Circumstances)
  | claim (w : Nat)
  | process (w : Nat) (oks : List Bool)

inductive Response where
  | goesOn
  | returned

/-! ### `self_process_repo` -/

/-- What a step of a worker does to its repository and to the count of all requests, and what it
does next; without that it is done. -/
structure Turn where
  rq : RepoQueue
  drained : Nat
  committed : List CoalescerCommitFields
  commits : List GitCommit
  next : Option Work

/-- A step that commits nothing. -/
def Turn.plain (rq : RepoQueue) (next : Work) : Turn := ⟨rq, 0, [], [], some next⟩

/-- What follows the batch. -/
def afterBatch : Option CoalescerSpillRepo → Work
  | some work => .committingSpilled work
  | none => .releasing

/-- What follows the count of the committed requests. -/
def afterCount (failed : List CoalescerCommitFields) (spilled : Option CoalescerSpillRepo) : Work :=
  if failed.isEmpty then afterBatch spilled else .requeueing failed spilled

def selfProcessRepo (cfg : CoalescerConfig) (rq : RepoQueue) (oks : List Bool) : Work → Turn
  | .drainingQueue =>
    let (batch, rq) := rq.drainQueue cfg.maxBatchSize
    if rq.queue.isEmpty then .plain rq (.drainingSpill batch)
    else .plain rq (if batch.isEmpty then .readingQueue else .committing batch none)
  | .drainingSpill batch =>
    let (spilled, rq) := rq.drainRepoSpill
    .plain rq <| if batch.isEmpty then
        match spilled with
        | some work => .committingSpilled work
        | none => .readingQueue
      else .committing batch spilled
  | .readingQueue => .plain rq (.readingSpill rq.queue.length)
  | .readingSpill queueDepth => .plain rq (.storingDepth (queueDepth + rq.spillDepth))
  | .storingDepth actual => .plain { rq with depth := actual } .releasing
  | .committing batch spilled =>
    let outcome := coalescerCommitBatch cfg batch oks
    ⟨rq, 0, outcome.committed, outcome.commits, some (if 0 < outcome.committedRequests then
          .counting outcome.committedRequests outcome.failedRequests spilled
        else afterCount outcome.failedRequests spilled)⟩
  | .counting committedRequests failed spilled =>
    ⟨rq, committedRequests, [], [], some (afterCount failed spilled)⟩
  | .requeueing failed spilled => .plain (rq.requeueRequests failed) (afterBatch spilled)
  | .committingSpilled work =>
    let outcome := coalescerCommitSpilledWork work (oks.headD false)
    ⟨rq, 0, outcome.committed, outcome.commits, some (match outcome.failedWork with
        | some failed => .restoring failed
        | none =>
          if 0 < outcome.committedRequests then .countingSpilled outcome.committedRequests
          else .releasing)⟩
  | .restoring failed => .plain (rq.restoreSpilledWork failed) .releasing
  | .countingSpilled committedRequests => ⟨rq, committedRequests, [], [], some .releasing⟩
  | .releasing => ⟨{ rq with processing := false }, 0, [], [], none⟩

namespace CommitCoalescer

variable {ρ : Type} [DecidableEq ρ] (cfg : CoalescerConfig) (s : CommitCoalescer ρ)

def start (workerCount : Nat) : CommitCoalescer ρ :=
  ⟨fun _ => .default, 0, [], List.replicate workerCount (.looking none), [], []⟩

/-! ### `enqueue` -/

/-- A call without paths returns at once. -/
def enqueue (repo : ρ) (queueCap : Nat) (gitAuthorName gitAuthorEmail : String)
    (relPaths : List String) : Response × CommitCoalescer ρ :=
  if h : relPaths = [] then (.returned, s)
  else
    let fields := ⟨s.calls.length, gitAuthorName, gitAuthorEmail, relPaths⟩
    (.goesOn, { s with calls := s.calls ++ [⟨repo, queueCap, fields, h, .counting⟩] })

def setCall (i : Nat) (call : Call ρ) (phase : CallPhase) : CommitCoalescer ρ :=
  { s with calls := s.calls.set i { call with phase } }

def setRepo (repo : ρ) (rq : RepoQueue) : CommitCoalescer ρ :=
  { s with repos := Function.update s.repos repo rq }

/-- The next step of a call. -/
def callStep (i : Nat) (call : Call ρ) : Option (Response × CommitCoalescer ρ) :=
  let rq := s.repos call.repo
  match call.phase with
  | .counting =>
    some (.goesOn, { s.setCall i call .checking with pendingRequests := s.pendingRequests + 1 })
  | .checking =>
    some (.goesOn, s.setCall i call (if rq.depth < call.queueCap then .pushing else .spilling))
  | .pushing =>
    if rq.queue.length < call.queueCap then
      some (.returned, (s.setRepo call.repo (rq.pushBack call.fields)).setCall i call .returned)
    else some (.goesOn, s.setCall i call .spilling)
  | .spilling =>
    some (.returned, (s.setRepo call.repo (rq.spillToRepo call.fields)).setCall i call .returned)
  | .returned => none

/-! ### `coalescer_pool_worker` -/

def setWorker (w : Nat) (worker : Worker ρ) : CommitCoalescer ρ :=
  { s with workers := s.workers.set w worker }

/-- The end of a look: a ready repository is kept if it was serviced earlier than the best one. -/
def endLook (w : Nat) (best : Option ρ) (repo : ρ) (c : Circumstances)
    (readiness : CoalescerRepoReadiness) : CommitCoalescer ρ :=
  s.setWorker w <| .looking <|
    if readiness = .ready ∧ (best.isNone ∨ c.servicedEarlier) then some repo else best

/-- The next part of a look. -/
def lookStep (w : Nat) (c : Circumstances) : Worker ρ → Option (CommitCoalescer ρ)
  | .weighing best repo =>
    match readinessByDepth cfg (s.repos repo).depth c with
    | some readiness => some (s.endLook w best repo c readiness)
    | none => some (s.setWorker w (.sizingQueue best repo))
  | .sizingQueue best repo =>
    let queue := (s.repos repo).queue
    match readinessByQueue cfg queue with
    | some readiness => some (s.endLook w best repo c readiness)
    | none => some (s.setWorker w (.sizingSpill best repo (!queue.isEmpty)))
  | .sizingSpill best repo queued =>
    some (s.endLook w best repo c (readinessBySpill cfg queued (s.repos repo).spill c))
  | _ => none

/-- The compare-exchange on `processing`. -/
def claim (w : Nat) (repo : ρ) : CommitCoalescer ρ :=
  let rq := s.repos repo
  if rq.processing then s.setWorker w (.looking none)
  else (s.setRepo repo { rq with processing := true }).setWorker w (.processing repo .drainingQueue)

/-- A step on a claimed repository. -/
def process (w : Nat) (repo : ρ) (turn : Turn) : CommitCoalescer ρ where
  repos := Function.update s.repos repo turn.rq
  pendingRequests := s.pendingRequests - turn.drained
  calls := s.calls
  workers := s.workers.set w (turn.next.elim (.looking none) (.processing repo))
  committed := s.committed ++ turn.committed.map (repo, ·)
  commits := s.commits ++ turn.commits.map (repo, ·)

/-- The next step of a worker. -/
def workerStep (w : Nat) : Event ρ → Worker ρ → Option (CommitCoalescer ρ)
  | .consider _ repo, .looking best =>
    if (s.repos repo).processing then some s else some (s.setWorker w (.weighing best repo))
  | .look _ c, worker => s.lookStep cfg w c worker
  | .claim _, .looking (some repo) => some (s.claim w repo)
  | .process _ oks, .processing repo work =>
    some (s.process w repo (selfProcessRepo cfg (s.repos repo) oks work))
  | _, _ => none

def step (e : Event ρ) : Option (Response × CommitCoalescer ρ) :=
  match e with
  | .enqueue repo queueCap gitAuthorName gitAuthorEmail relPaths =>
    some (s.enqueue repo queueCap gitAuthorName gitAuthorEmail relPaths)
  | .call i => s.calls[i]?.bind (s.callStep i)
  | .consider w _ | .look w _ | .claim w | .process w _ =>
    (s.workers[w]?.bind (s.workerStep cfg w e)).map fun s => (.goesOn, s)

end CommitCoalescer

end AgentMail.Coalescer
