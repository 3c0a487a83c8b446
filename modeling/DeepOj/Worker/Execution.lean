import DeepOj.Conc.Record
import DeepOj.Worker.StreamConsumer
import DeepOj.Worker.TestLoop

/-!
# One execution and its contexts

`runClaimedExecution` with the context every call is given. The context of the run
is derived from the worker's, the deadlines of the compiler and of a test case from
the run's. A call on a cancelled context fails; what is executed may answer
anything, whether or not it has been killed.
-/

namespace DeepOj.Worker.Execution

open Conc Repository Cluster Go

/-- The contexts a call can be given. -/
inductive Context where
  | worker
  | run
  /-- The run's, with the deadline of the compiler. -/
  | compile
  /-- The run's, with the deadline of a test case. -/
  | case
  deriving DecidableEq, Repr

/-- `CompileResult`. -/
structure CompileResult where
  status : String
  exePath : String
  error : String
  deriving DecidableEq, Repr

/-- The operations of an execution and of its heartbeat. -/
inductive Op where
  | request (ctx : Context) (q : Request)
  | act (a : Action)
  /-- `ExecuteTask` is called. -/
  | enter
  /-- `ExecuteTask` returns. -/
  | leave
  /-- A place in the pool of `JudgeService`, or the error of the context. -/
  | acquire (ctx : Context)
  | prepare (ctx : Context)
  | save
  | compile (ctx : Context)
  /-- The number of test cases. -/
  | glob
  | execute (ctx : Context) (i : Nat)
  | compare (i : Nat)
  | cleanup
  deriving DecidableEq

@[reducible] def Op.Reply : Op → Type
  | .request _ q => Except String q.Response
  | .act a => a.Response
  | .enter => Unit
  | .leave => Unit
  | .acquire _ => Option String
  | .prepare _ => Except String Unit
  | .save => Except String Unit
  | .compile _ => Except String CompileResult
  | .glob => Nat
  | .execute .. => Except String JudgeResult
  | .compare _ => Bool
  | .cleanup => Unit

abbrev ExecProgram (α : Type) : Type := Prog Op Op.Reply α

abbrev op (o : Op) : ExecProgram o.Reply := Prog.perform o

/-- A program that is passed a context passes it on to every request. -/
def inContext {α : Type} (ctx : Context) : Program α → ExecProgram α
  | .ret a => .ret a
  | .call (.request q) k => .call (.request ctx q) fun r => inContext ctx (k r)
  | .call (.act a) k => .call (.act a) fun r => inContext ctx (k r)

/-! ## `ExecuteTask` -/

/-- The status of a test case. -/
def judgeStatus (i : Nat) (res : JudgeResult) : ExecProgram String :=
  if res.status = "Finished" then do
    let same ← op (.compare i)
    pure (caseStatus res same)
  else pure res.status

/-- The test case loop from test case `i` on, with the maxima so far. -/
def runCases (i : Nat) : Nat → Int → Int → ExecProgram JudgeOutcome
  | 0, maxTime, maxMem => pure (.judged "Accepted" maxTime.toNat maxMem.toNat)
  | n + 1, maxTime, maxMem => do
    match ← op (.execute .case i) with
    | .error err => pure (.executeFailed err)
    | .ok res => do
      let status ← judgeStatus i res
      if status ≠ "Accepted" then
        pure (.judged status (max maxTime res.timeUsed).toNat (max maxMem res.memoryUsed).toNat)
      else runCases (i + 1) n (max maxTime res.timeUsed) (max maxMem res.memoryUsed)

/-- Compile, and run the test cases. -/
def compileAndRun : ExecProgram JudgeOutcome := do
  match ← op (.compile .compile) with
  | .error err => pure (.compileFailed err)
  | .ok res =>
    if res.status ≠ "Compiled" ∨ res.exePath = "" then pure (.compileRejected res.error)
    else do
      let n ← op .glob
      runCases 0 n 0 0

/-- What `ExecuteTask` finds out, once it has a place in the pool. -/
def judge : ExecProgram JudgeOutcome := do
  match ← op (.prepare .run) with
  | .error err => pure (.prepareFailed err)
  | .ok _ =>
    match ← op .save with
    | .error err => pure (.saveFailed err)
    | .ok _ => compileAndRun

/-- The engine's clean-up, once a verdict has been reported. -/
def cleanUp : JudgeOutcome → Option String → ExecProgram Unit
  | .judged .., none => op .cleanup
  | _, _ => pure ()

/-- `ExecuteTask`, once it has a place in the pool. -/
def executeAcquired (task : TaskRequest) (attemptID : Nat) :
    ExecProgram (TaskResponse × Option String) := do
  let traceID ← inContext .run (taskTraceID task)
  if isSafeJobID task.jobID then do
    let outcome ← judge
    let res ← inContext .run (reportOutcome task attemptID traceID outcome)
    cleanUp outcome res.2
    pure res
  else pure (⟨"Invalid job_id"⟩, none)

/-- `ExecuteTask`, on the context of the run. -/
def executeTask (task : TaskRequest) (attemptID : Nat) :
    ExecProgram (TaskResponse × Option String) := do
  match ← op (.acquire .run) with
  | some err => pure (⟨"Busy"⟩, some err)
  | none => executeAcquired task attemptID

/-! ## `runClaimedExecution` -/

section Claimed

variable (cfg : WorkerConfig) (msg : StreamMessage) (task : TaskRequest) (jobID traceID : String)
  (attemptID : Nat)

/-- The end of `runClaimedExecution`, on the context of the worker. -/
def finalize (resp : TaskResponse) (execErr : Option String) : ExecProgram StreamProcessResult := do
  let (finalStatus, finalResult) ←
    inContext .worker (resolveFinalResult task jobID attemptID traceID (some resp) execErr)
  match ← inContext .worker (finalizeSubmissionWithFence msg.id jobID attemptID cfg.jobStreamConsumer
      finalStatus (finalResult.set "attempt_id" (.num attemptID))) with
  | .error _ => pure (rejected .dbError)
  | .ok res =>
    if res.applied then inContext .worker (ackThen msg (.finalized attemptID) ⟨true, .ok⟩)
    else
      let reason := mapFinalizeRejectReason res.reason
      if isBusinessFinalizeRejectReason reason then
        inContext .worker (ackThen msg (.finalizeRejected attemptID) (rejected reason))
      else pure (rejected .dbError)

/-- `runClaimedExecution`. -/
def runClaimedExecution : ExecProgram StreamProcessResult := do
  let cell ← op (.act .newRun)
  op (.act (.go (.heartbeat cell jobID attemptID cfg.jobStreamConsumer cfg.jobLeaseSec 0)))
  op .enter
  let (resp, execErr) ← executeTask task attemptID
  op .leave
  op (.act (.cancelRun cell))
  let hbRes ← op (.act (.recvHeartbeat cell))
  if hbRes.leaseLost then pure (rejected hbRes.reason)
  else finalize cfg msg task jobID traceID attemptID resp execErr

/-- The goroutine of the execution. -/
def execution : ExecProgram Unit := do
  let _ ← runClaimedExecution cfg msg task jobID traceID attemptID
  pure ()

end Claimed

/-! ## The contexts in time -/

/-- `ExecuteTask` has not been called, is running, or has returned. -/
inductive Phase where
  | before
  | executing
  | returned
  deriving DecidableEq, Repr

/-- A request that was started, on a context that was not cancelled. -/
structure Sent where
  request : Request
  /-- By then `ExecuteTask` had run on a cancelled context. -/
  late : Bool
  deriving DecidableEq

/-- The contexts of the execution, its heartbeat channel, and what it has sent. -/
structure World where
  workerDone : Bool := false
  runDone : Bool := false
  phase : Phase := .before
  /-- `ExecuteTask` has run on a cancelled context. -/
  hit : Bool := false
  heartbeat : Option HeartbeatResult := none
  sent : List Sent := []

namespace World

/-- The context is cancelled. Where one has a deadline of its own, that only adds to the ways in
which the call may fail. -/
def done (w : World) : Context → Bool
  | .worker => w.workerDone
  | _ => w.runDone

/-- `cancelRun`. -/
def cancelRun (w : World) : World :=
  { w with runDone := true, hit := w.hit || w.phase = .executing }

/-- The worker's context is cancelled, and the run's with it. -/
def shutdown (w : World) : World := { w.cancelRun with workerDone := true }

end World

/-- What an operation leaves to the environment. -/
structure Pick where
  /-- Of two cases of a `select` that are ready, the first. -/
  first : Bool := true
  err : String := "context canceled"
  reply : (q : Request) → Except String q.Response := fun _ => .error "timeout"
  prepared : Except String Unit := .ok ()
  saved : Except String Unit := .ok ()
  compiled : Except String CompileResult := .ok ⟨"Compiled", "main", ""⟩
  cases : Nat := 0
  executed : Except String JudgeResult := .ok ⟨"Finished", 0, 0⟩
  same : Bool := true
  now : Nat := 0
  uuid : String := ""
  outcome : JudgeOutcome := .busy ""

/-- An action of the own process. -/
def performAct (w : World) : (a : Action) → Pick → Option (World × a.Response)
  | .now, p => some (w, p.now)
  | .uuid, p => some (w, p.uuid)
  | .judge .., p => some (w, p.outcome)
  | .newRun, _ => some ({ w with runDone := w.workerDone }, 0)
  | .cancelRun _, _ => some (w.cancelRun, ())
  | .go _, _ => some (w, ())
  | .selectTick _, p => if p.first then some (w, true) else if w.runDone then some (w, false) else none
  | .sendHeartbeat _ r, _ => if w.heartbeat = none then some ({ w with heartbeat := some r }, ()) else none
  | .recvHeartbeat _, _ => w.heartbeat.map fun r => ({ w with heartbeat := none }, r)
  | .rateLimit, p => some (w, p.first)
  | .reply .., _ => some (w, ())

/-- One operation; `none` while it blocks. -/
def perform (w : World) : (o : Op) → Pick → Option (World × o.Reply)
  | .request ctx q, p =>
    -- a call on a cancelled context fails without effect
    if w.done ctx then some (w, .error p.err)
    else some ({ w with sent := ⟨q, w.hit⟩ :: w.sent }, p.reply q)
  | .act a, p => performAct w a p
  | .enter, _ => some ({ w with phase := .executing, hit := w.hit || w.runDone }, ())
  | .leave, _ => some ({ w with phase := .returned }, ())
  | .acquire ctx, p =>
    if p.first then some (w, none) else if w.done ctx then some (w, some p.err) else none
  | .prepare _, p => some (w, p.prepared)
  | .save, p => some (w, p.saved)
  | .compile _, p => some (w, p.compiled)
  | .glob, p => some (w, p.cases)
  | .execute .., p => some (w, p.executed)
  | .compare _, p => some (w, p.same)
  | .cleanup, _ => some (w, ())

/-- What happens from outside. -/
inductive Event where
  | shutdown
  deriving DecidableEq, Repr

/-- The threads an operation starts. -/
def forks : Op → List (ExecProgram Unit)
  | .act (.go (.heartbeat cell jobID attemptID leaseOwner leaseSec errors)) =>
    [inContext .run (runLeaseHeartbeat cell jobID attemptID leaseOwner leaseSec errors)]
  | _ => []

/-- The execution and its heartbeat as an interleaving machine. -/
def machine : Machine World Op Op.Reply Pick Event where
  sem := perform
  forks := forks
  env w _ := some (w.shutdown, [])

/-- An execution at its beginning. -/
def start (cfg : WorkerConfig) (msg : StreamMessage) (task : TaskRequest) (jobID traceID : String)
    (attemptID : Nat) : Config World Op Op.Reply :=
  ⟨{}, [execution cfg msg task jobID traceID attemptID]⟩

end DeepOj.Worker.Execution
