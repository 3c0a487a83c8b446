import DeepOj.Cluster.World

/-!
# Executing a task and reporting its result

`ExecuteTask` reports what it found under the job's result key, which is written
only if it is absent, and answers with a short message.
-/

namespace DeepOj.Worker

open Repository Cluster Go

/-- `pb.TaskResponse`. -/
structure TaskResponse where
  message : String
  deriving DecidableEq, Repr

/-- `isSafeJobID`. -/
def isSafeJobID (jobID : String) : Bool :=
  1 ≤ jobID.length && jobID.length ≤ 64 &&
    jobID.toList.all fun c =>
      (65 ≤ c.toNat && c.toNat ≤ 90) || (97 ≤ c.toNat && c.toNat ≤ 122) ||
        (48 ≤ c.toNat && c.toNat ≤ 57) || c = '_' || c = '-'

/-- `Language.String`. -/
def languageName : Int → String
  | 0 => "LANGUAGE_UNSPECIFIED"
  | 1 => "CPP"
  | 2 => "JAVA"
  | 3 => "PYTHON"
  | 4 => "GO"
  | n => toString n

/-- The map `reportError` stores. -/
def errorResult (task : TaskRequest) (attemptID : Nat) (traceID status msg : String) : ResultMap :=
  [("job_id", .str task.jobID), ("attempt_id", .num attemptID), ("status", .str status),
    ("error_message", .str msg), ("trace_id", .str traceID)]

/-- The map `ExecuteTask` reports for an outcome. -/
def reportedResult (task : TaskRequest) (attemptID : Nat) (traceID : String) :
    JudgeOutcome → Option ResultMap
  | .busy _ => none
  | .prepareFailed err =>
    some (errorResult task attemptID traceID "System Error" ("Prepare testcases failed: " ++ err))
  | .saveFailed err =>
    some (errorResult task attemptID traceID "System Error" ("Save code failed: " ++ err))
  | .compileFailed err => some (errorResult task attemptID traceID "Compile Error" err)
  | .compileRejected msg =>
    some (errorResult task attemptID traceID "Compile Error"
      (if msg = "" then "compile failed" else msg))
  | .executeFailed err => some (errorResult task attemptID traceID "System Error" err)
  | .judged status timeUsed memoryUsed =>
    some [("job_id", .str task.jobID), ("attempt_id", .num attemptID), ("status", .str status),
      ("time_used", .num timeUsed), ("memory_used", .num memoryUsed),
      ("language", .str (languageName task.language)), ("trace_id", .str traceID),
      ("cache_key", .str task.cacheKey)]

/-- The message `ExecuteTask` answers with once the result is reported. -/
def reportedMessage : JudgeOutcome → String
  | .busy _ => "Busy"
  | .prepareFailed _ => "Failed"
  | .saveFailed _ => "Failed"
  | .compileFailed _ => "Compile Error"
  | .compileRejected _ => "Compile Error"
  | .executeFailed _ => "System Error"
  | .judged _ _ _ => "OK"

/-- The result key of a job, in the namespace and in its legacy form. -/
def legacyResultKey (jobID : String) : RedisKey := ⟨false, .result jobID⟩

def resultKey (jobID : String) : RedisKey := namespacedRedisKey (legacyResultKey jobID)

/-- `reportResult`. -/
def reportResult (jobID : String) (result : ResultMap) : Program (Except String Unit) := do
  match ← request (.setNX (resultKey jobID) (.result result)) with
  | .error err => pure (.error err)
  | .ok _ => pure (.ok ())

/-- The trace id of the task, or a fresh one. -/
def taskTraceID (task : TaskRequest) : Program String :=
  if trimSpace task.traceID = "" then act .uuid else pure (trimSpace task.traceID)

/-- Report the outcome, unless the job id is not safe to use in paths. -/
def reportOutcome (task : TaskRequest) (attemptID : Nat) (traceID : String)
    (outcome : JudgeOutcome) : Program (TaskResponse × Option String) :=
  if isSafeJobID task.jobID = false then pure (⟨"Invalid job_id"⟩, none)
  else
    match reportedResult task attemptID traceID outcome with
    | none => pure (⟨reportedMessage outcome⟩, none)
    | some result => do
      match ← reportResult task.jobID result with
      | .error err => pure (⟨"Report failed"⟩, some err)
      | .ok _ => pure (⟨reportedMessage outcome⟩, none)

/-- `ExecuteTask`: the response and the error it returns. -/
def executeTask (task : TaskRequest) (attemptID : Nat) :
    Program (TaskResponse × Option String) := do
  let traceID ← taskTraceID task
  let outcome ← act (.judge task attemptID)
  match outcome with
  | .busy err => pure (⟨"Busy"⟩, some err)
  | _ => reportOutcome task attemptID traceID outcome

end DeepOj.Worker
