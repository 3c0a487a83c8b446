import DeepOj.Sandbox.Run

/-!
# What run mode prints

`main` maps the result of `Sandbox::Run` to one JSON object.
-/

namespace DeepOj.Sandbox

open Go

/-- `ToVerdictAndStatus`. -/
def toVerdictAndStatus : SandboxStatus → String × String
  | .ok => ("OK", "Finished")
  | .timeLimitExceeded => ("TLE", "Time Limit Exceeded")
  | .memoryLimitExceeded => ("MLE", "Memory Limit Exceeded")
  | .outputLimitExceeded => ("OLE", "Output Limit Exceeded")
  | .systemError => ("SE", "System Error")
  | .runtimeError => ("RE", "Runtime Error")

/-- The object `BuildRunJSON` builds. -/
structure RunJSON where
  schemaVersion : Nat := 1
  jobID : String
  attemptID : Int
  verdict : String
  timeMs : Int
  memKb : Int
  exitSignal : Nat
  sandboxError : String
  status : String
  timeUsed : Int
  memoryUsed : Int
  exitCode : Nat
  error : Option Bytes

/-- `BuildRunJSON`: the times and sizes stand under two names each. -/
def buildRunJSON (jobID : String) (attemptID : Int) (verdict : String) (timeMs memKb : Int)
    (exitSignal : Nat) (sandboxError : String) (exitCode : Nat) (status : String)
    (errorMessage : Bytes) : RunJSON :=
  { jobID, attemptID, verdict, timeMs, memKb, exitSignal, sandboxError, status,
    timeUsed := timeMs, memoryUsed := memKb, exitCode,
    error := if errorMessage ≠ [] then some errorMessage else none }

/-- The object `main` prints in run mode. -/
def runReport (jobID : String) (attemptID : Int) (r : RunResult) : RunJSON :=
  let mapped := toVerdictAndStatus r.status
  let sandboxError :=
    if mapped.1 = "SE" ∧ r.sandboxError = "" then "system_error" else r.sandboxError
  buildRunJSON jobID attemptID mapped.1 r.timeUsed r.memoryUsed r.exitSignal sandboxError
    r.exitCode mapped.2 r.errorMessage

@[simp] theorem runReport_status (jobID : String) (attemptID : Int) (r : RunResult) :
    (runReport jobID attemptID r).status = (toVerdictAndStatus r.status).2 := rfl

/-- Only an OK run is reported as finished. -/
theorem finished_iff (s : SandboxStatus) : (toVerdictAndStatus s).2 = "Finished" ↔ s = .ok := by
  cases s <;> simp [toVerdictAndStatus]

/-- The engine never reports a run as accepted: that is for the worker to say. -/
theorem status_ne_accepted (s : SandboxStatus) : (toVerdictAndStatus s).2 ≠ "Accepted" := by
  cases s <;> simp [toVerdictAndStatus]

end DeepOj.Sandbox
