import DeepOj.Conc.Sharing
import DeepOj.Sandbox.RunSpec
import DeepOj.Worker.TestLoop

/-!
# Jobs of one problem share a stderr file

`Execute` passes the directory of the test case as the work directory, and
`main` puts `stderr.txt` there. Every engine of a job on this problem
truncates that file, its program writes to it, and an exit code of 127 is
classified by what is then found in it.
-/

namespace DeepOj.Sandbox

open Conc Go Worker

/-! ## The file -/

/-- The file with these bytes written at an offset; what was skipped reads as zeros. -/
def writeAt (file : Bytes) (offset : Nat) (bytes : Bytes) : Bytes :=
  if bytes = [] then file
  else file.take offset ++ List.replicate (offset - file.length) 0 ++ bytes ++
    file.drop (offset + bytes.length)

/-- The file cut or grown to a size. -/
def resize (file : Bytes) (size : Nat) : Bytes :=
  file.take size ++ List.replicate (size - file.length) 0

/-- The lines `std::getline` reads: what follows the last newline is a line unless it is empty. -/
def getlines (file : Bytes) : List Bytes :=
  let pieces := file.splitOn 10
  if pieces.getLast? = some [] then pieces.dropLast else pieces

/-- What a program does with its stderr, a descriptor with an offset of its own. -/
inductive StderrOp where
  | write (bytes : Bytes)
  | seek (offset : Nat)
  | truncate (size : Nat)

/-- What an operation makes of the file. -/
def StderrOp.apply (offset : Nat) : StderrOp → Bytes → Bytes
  | .write bytes, file => writeAt file offset bytes
  | .seek _, file => file
  | .truncate size, file => resize file size

/-- The offset after an operation. -/
def StderrOp.advance (offset : Nat) : StderrOp → Nat
  | .write bytes => offset + bytes.length
  | .seek offset => offset
  | .truncate _ => offset

/-- What `ExitRunExecError` writes before it exits with 127. -/
def execErrorLine (errno : Nat) (strerror exe : String) : Bytes :=
  utf8 ("[sandbox][run_exec_failed] errno=" ++ toString errno ++ "(" ++ strerror ++ ") exe=" ++ exe)
    |>.take 1023 |>.append [10]

/-! ## The engines -/

/-- What the engine of one test case meets, apart from the content of `stderr.txt`. -/
structure CaseRun where
  lim : Limits
  host : Host
  /-- The turns of the polling loop before the worker gives up on the engine. -/
  fuel : Nat
  /-- `stderr.txt` opens; otherwise the program's stderr is `/dev/null`. -/
  opens : Bool
  /-- What the program does with its stderr until it is gone. -/
  ops : List StderrOp
  /-- `CompareFiles` finds the outputs equal. -/
  same : Bool

/-- The host once the engine finds these lines in `stderr.txt`. -/
def Host.withStderr (host : Host) (lines : List Bytes) : Host :=
  { host with stderrLines := lines }

/-- The object the engine prints, given what it finds in `stderr.txt`. -/
def CaseRun.report (c : CaseRun) (jobID : String) (attemptID : Int) (file : Bytes) :
    Option RunJSON :=
  (run c.lim (c.host.withStderr (getlines file)) c.fuel).map (runReport jobID attemptID)

/-- The engine of the current test case. -/
inductive Engine where
  | notStarted
  | running (offset : Nat) (ops : List StderrOp)

/-- A job in its test case loop. -/
structure JobState where
  jobID : String
  attemptID : Int
  cases : List CaseRun
  engine : Engine := .notStarted
  reports : List (Option RunJSON) := []
  finalStatus : String := "Accepted"

/-- What is shown of an engine's object. -/
structure CaseOutcome where
  verdict : String
  status : String
  error : Option Bytes
  deriving DecidableEq

/-- What the engines of a job have printed, and the status of the job. -/
structure JobOutcome where
  cases : List (Option CaseOutcome)
  status : String
  deriving DecidableEq

namespace JobState

/-- The test case whose engine reads `stderr.txt` and prints its object with the next step. -/
def reading (job : JobState) : Option CaseRun :=
  match job.cases, job.engine with
  | c :: _, .notStarted => if c.host.devNull.isSome then some c else none
  | c :: _, .running _ [] => some c
  | _, _ => none

/-- The job with the engine's object taken in. -/
def record (job : JobState) (c : CaseRun) (out : Option RunJSON) : JobState :=
  let status := match out with
    | none => "System Error"
    | some out => caseStatus (judgeResult out) c.same
  { job with
    engine := .notStarted
    reports := job.reports ++ [out]
    cases := if status = "Accepted" then job.cases.tail else []
    finalStatus := if status = "Accepted" then job.finalStatus else status }

/-- The job after a step that reads nothing. -/
def advance (job : JobState) : JobState :=
  match job.cases, job.engine with
  | c :: _, .notStarted =>
    { job with engine := .running 0 (if c.host.clone.isSome then [] else c.ops) }
  | _ :: _, .running offset (op :: ops) =>
    { job with engine := .running (op.advance offset) ops }
  | _, _ => job

/-- What the next step makes of `stderr.txt`. -/
def effect (job : JobState) (file : Bytes) : Bytes :=
  match job.cases, job.engine with
  | c :: _, .notStarted => if c.host.devNull.isNone ∧ c.opens then [] else file
  | c :: _, .running offset (op :: _) => if c.opens then op.apply offset file else file
  | _, _ => file

def outcome (job : JobState) : JobOutcome :=
  ⟨job.reports.map (Option.map fun out => ⟨out.verdict, out.status, out.error⟩), job.finalStatus⟩

end JobState

/-- The jobs judged on one problem, and the `stderr.txt` of its directory. -/
def stderrSharing : Sharing Bytes JobState (Option RunJSON) where
  observe job file := job.reading.bind fun c => c.report job.jobID job.attemptID file
  effect job file := job.effect file
  next job out :=
    match job.reading with
    | some c => job.record c out
    | none => job.advance

/-! ## What an engine finds out from the file -/

/-- The error detail that the file gives for an exit code of 127. -/
def markerDetail (file : Bytes) : Option Bytes :=
  (readRunExecFailureMarker (getlines file)).map fun detail =>
    if detail ≠ [] then detail else utf8 "execve failed"

/-- The program exits with 127, within its limits on memory and output. -/
def CaseRun.Exits127 (c : CaseRun) : Prop :=
  c.host.devNull = none ∧ c.host.clone = none ∧ ∃ usage,
    Loop.run (poll c.lim c.host) c.fuel ⟨0, 0⟩ = some (.reaped (.exited ERR_EXEC_FAILED) usage) ∧
    c.host.outputTooLarge c.lim = false ∧ c.host.memoryUsed usage ≤ c.lim.memoryLimitKb

/-- The result of such a run, given the error detail in the file. -/
def Host.exited127 (host : Host) (usage : Rusage) : Option Bytes → RunResult
  | some detail =>
    { timeUsed := ⌈host.cpuTimeMs usage⌉, memoryUsed := host.memoryUsed usage,
      exitCode := ERR_EXEC_FAILED, status := .systemError, sandboxError := "execve_failed",
      errorMessage := utf8 "程序启动失败: " ++ detail }
  | none =>
    { timeUsed := ⌈host.cpuTimeMs usage⌉, memoryUsed := host.memoryUsed usage,
      exitCode := ERR_EXEC_FAILED, status := .runtimeError }

section Report

variable {lim : Limits} {host : Host} {status : WaitStatus} {usage : Rusage} {l l' : List Bytes}

@[simp] theorem withStderr_memoryUsed :
    (host.withStderr l).memoryUsed usage = host.memoryUsed usage := rfl

@[simp] theorem withStderr_cpuTimeMs :
    (host.withStderr l).cpuTimeMs usage = host.cpuTimeMs usage := rfl

theorem settle_output (host : Host) (ho : host.outputTooLarge lim = true) : settle lim host status usage =
    { status := .outputLimitExceeded, timeUsed := ⌈host.cpuTimeMs usage⌉,
      memoryUsed := usage.maxrss } := by
  unfold settle
  rw [if_pos ho]

theorem settle_memory (host : Host) (ho : host.outputTooLarge lim = false)
    (hm : lim.memoryLimitKb < host.memoryUsed usage) : settle lim host status usage =
      { status := .memoryLimitExceeded, timeUsed := ⌈host.cpuTimeMs usage⌉,
        memoryUsed := host.memoryUsed usage } := by
  unfold settle
  simp [ho, hm]

theorem settle_exited (host : Host) (ho : host.outputTooLarge lim = false)
    (hm : host.memoryUsed usage ≤ lim.memoryLimitKb) (code : Nat) :
    settle lim host (.exited code) usage = classifyExit host
      { timeUsed := ⌈host.cpuTimeMs usage⌉, memoryUsed := host.memoryUsed usage } code := by
  unfold settle
  simp [ho, not_lt.mpr hm]

/-- A run that does not exit with 127 within its limits is not classified by the file. -/
theorem settle_withStderr (h : ¬ (status = .exited ERR_EXEC_FAILED ∧
      host.outputTooLarge lim = false ∧ host.memoryUsed usage ≤ lim.memoryLimitKb)) :
    settle lim (host.withStderr l) status usage = settle lim (host.withStderr l') status usage := by
  by_cases ho : host.outputTooLarge lim = true
  · rw [settle_output (host.withStderr l) ho, settle_output (host.withStderr l') ho]
    rfl
  · rw [Bool.not_eq_true] at ho
    by_cases hm : lim.memoryLimitKb < host.memoryUsed usage
    · rw [settle_memory (host.withStderr l) ho hm,
        settle_memory (host.withStderr l') ho hm]
      rfl
    · cases status with
      | exited code =>
        have hcode : code ≠ ERR_EXEC_FAILED := by
          rintro rfl
          exact h ⟨rfl, ho, not_lt.mp hm⟩
        rw [settle_exited (host.withStderr l) ho (not_lt.mp hm),
          settle_exited (host.withStderr l') ho (not_lt.mp hm)]
        simp only [classifyExit, if_neg hcode]
        rfl
      | signaled signal => rfl
      | other => rfl

/-- An exit code of 127 within the limits is classified by the error detail in the file. -/
theorem settle_127 {file : Bytes} (ho : host.outputTooLarge lim = false)
    (hm : host.memoryUsed usage ≤ lim.memoryLimitKb) :
    settle lim (host.withStderr (getlines file)) (.exited ERR_EXEC_FAILED) usage =
      host.exited127 usage (markerDetail file) := by
  rw [settle_exited (host.withStderr (getlines file)) ho hm]
  unfold classifyExit markerDetail
  show (match readRunExecFailureMarker (getlines file) with
    | some detail => _
    | none => _) = _
  cases readRunExecFailureMarker (getlines file) with
  | none => rfl
  | some detail =>
    by_cases hd : detail = []
    · subst hd
      rfl
    · simp [hd, Host.exited127]

variable {c : CaseRun} {jobID : String} {attemptID : Int} {file file' : Bytes}

theorem run_none (hnull : host.devNull = none) (hclone : host.clone = none) (fuel : Nat) :
    run lim (host.withStderr l) fuel =
      (Loop.run (poll lim host) fuel ⟨0, 0⟩).map (Left.toResult lim (host.withStderr l)) := by
  have hnull' : (host.withStderr l).devNull = none := hnull
  have hclone' : (host.withStderr l).clone = none := hclone
  unfold run
  rw [hnull', hclone']
  rfl

/-- The object of an engine whose program does not exit with 127. -/
theorem report_eq_of_not_exits127 (h : ¬ c.Exits127) :
    c.report jobID attemptID file = c.report jobID attemptID file' := by
  unfold CaseRun.report
  refine congrArg _ ?_
  by_cases hnull : c.host.devNull = none
  · by_cases hclone : c.host.clone = none
    · rw [run_none hnull hclone, run_none hnull hclone]
      cases hl : Loop.run (poll c.lim c.host) c.fuel ⟨0, 0⟩ with
      | none => rfl
      | some left =>
        cases left with
        | result r => rfl
        | reaped status usage =>
          refine congrArg some (settle_withStderr ?_)
          rintro ⟨rfl, ho, hm⟩
          exact h ⟨hnull, hclone, usage, hl, ho, hm⟩
    · obtain ⟨strerror, hs⟩ := Option.ne_none_iff_exists'.mp hclone
      simp [run, Host.withStderr, hnull, hs]
  · obtain ⟨strerror, hs⟩ := Option.ne_none_iff_exists'.mp hnull
    simp [run, Host.withStderr, hs]

/-- The object of an engine whose program exits with 127. -/
theorem report_of_exits127 (h : c.Exits127) : ∃ usage, ∀ jobID attemptID file,
    c.report jobID attemptID file =
      some (runReport jobID attemptID (c.host.exited127 usage (markerDetail file))) := by
  obtain ⟨hnull, hclone, usage, hl, ho, hm⟩ := h
  refine ⟨usage, fun jobID attemptID file => ?_⟩
  unfold CaseRun.report
  rw [run_none hnull hclone, hl]
  exact congrArg (fun r => some (runReport jobID attemptID r)) (settle_127 ho hm)

/-- The error message of such an object tells the detail. -/
theorem error_exited127 (detail : Option Bytes) :
    (runReport jobID attemptID (host.exited127 usage detail)).error =
      detail.map fun d => utf8 "程序启动失败: " ++ d := by
  cases detail with
  | none => rfl
  | some d =>
    have hne : utf8 "程序启动失败: " ++ d ≠ [] :=
      List.append_ne_nil_of_left_ne_nil (by decide +kernel) d
    show (if utf8 "程序启动失败: " ++ d ≠ [] then some _ else none) = _
    rw [if_pos hne]
    rfl

/-- Two reads of the file give the same object exactly when the program does not exit with 127
or the error details agree. -/
theorem report_eq_iff : c.report jobID attemptID file = c.report jobID attemptID file' ↔
    (c.Exits127 → markerDetail file = markerDetail file') := by
  by_cases h : c.Exits127
  · obtain ⟨usage, hrep⟩ := report_of_exits127 h
    rw [hrep, hrep]
    constructor
    · intro heq _
      have herr := congrArg RunJSON.error (Option.some.inj heq)
      rw [error_exited127, error_exited127] at herr
      exact Option.map_injective (List.append_right_injective _) herr
    · intro heq
      rw [heq h]
  · exact ⟨fun _ hex => absurd hex h, fun _ => report_eq_of_not_exits127 h⟩

end Report

/-! ## Jobs among each other -/

section Jobs

variable {ι : Type} [DecidableEq ι] {job : JobState}

/-- Every job shows at every moment what it would show if the other jobs were not running. -/
def NotInterfering (start : Shared ι Bytes JobState) (order : List ι) : Prop :=
  ∀ i pre, pre <+: order →
    ((stderrSharing.exec start pre).parties i).outcome =
      ((stderrSharing.alone start i pre).parties i).outcome

/-- Whenever an engine reads `stderr.txt` to classify an exit code of 127, the error detail it
finds is the one its own job's steps alone would have left there. -/
def MarkersOwn (start : Shared ι Bytes JobState) (order : List ι) : Prop :=
  ∀ i pre, pre ++ [i] <+: order → ∀ c,
    ((stderrSharing.exec start pre).parties i).reading = some c → c.Exits127 →
    markerDetail (stderrSharing.exec start pre).resource =
      markerDetail (stderrSharing.alone start i pre).resource

/-- The outcome of a job tells which object its engine has printed. -/
theorem outcome_tells (job : JobState) (file file' : Bytes)
    (h : (stderrSharing.next job (stderrSharing.observe job file)).outcome =
      (stderrSharing.next job (stderrSharing.observe job file')).outcome) :
    stderrSharing.observe job file = stderrSharing.observe job file' := by
  simp only [stderrSharing] at h ⊢
  cases hr : job.reading with
  | none => rfl
  | some c =>
    rw [hr] at h
    -- the outcome ends with what the new object shows
    have hlast := congrArg (fun o : JobOutcome => o.cases.getLast?) h
    simp only [JobState.outcome, JobState.record, List.map_append, List.map_cons, List.map_nil,
      List.getLast?_concat, Option.bind_some, Option.some.injEq] at hlast
    show c.report _ _ _ = c.report _ _ _
    rw [report_eq_iff]
    intro hex
    obtain ⟨usage, hrep⟩ := report_of_exits127 hex
    rw [hrep, hrep, Option.map_some, Option.map_some, Option.some.injEq] at hlast
    have herr := congrArg CaseOutcome.error hlast
    simp only [error_exited127] at herr
    exact Option.map_injective (List.append_right_injective _) herr

/-- A job reads its own exactly when the markers are its own. -/
theorem readsOwn_iff {start : Shared ι Bytes JobState} {i : ι} {pre : List ι} :
    stderrSharing.ReadsOwn start i pre ↔
      ∀ c, ((stderrSharing.exec start pre).parties i).reading = some c → c.Exits127 →
        markerDetail (stderrSharing.exec start pre).resource =
          markerDetail (stderrSharing.alone start i pre).resource := by
  show ((stderrSharing.exec start pre).parties i).reading.bind _ =
    ((stderrSharing.exec start pre).parties i).reading.bind _ ↔ _
  cases ((stderrSharing.exec start pre).parties i).reading with
  | none => simp
  | some c =>
    rw [Option.bind_some, Option.bind_some, report_eq_iff]
    simp

/-- A host whose program exits with 127 at the first poll. -/
def exits127 : Host where
  round := id
  strsignal := fun _ => "Unknown signal"
  devNull := none
  clone := none
  wait4 := fun _ => .reaped (.exited 127) { maxrss := 1000 }
  delay := fun _ => 0
  reap := fun _ => (0, {})
  cgroupPeak := none
  outputFile := .sized 0
  stderrLines := []

/-- A job with one test case, whose program does `ops` on its stderr and exits with 127. -/
def failingJob (jobID : String) (ops : List StderrOp) : JobState where
  jobID := jobID
  attemptID := 1
  cases := [{ lim := ⟨1000, 262144, 10485760⟩, host := exits127, fuel := 1, opens := true,
              ops := ops, same := false }]

/-- Two jobs of one problem: one whose program cannot be started, one whose program prints
nothing and exits with 127. -/
def twoJobs : Shared Bool Bytes JobState where
  resource := []
  parties i :=
    if i then failingJob "a" [.write (execErrorLine 13 "Permission denied" "/main")]
    else failingJob "b" []

end Jobs

end DeepOj.Sandbox
