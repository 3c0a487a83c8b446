import DeepOj.Conc.Sharing
import DeepOj.Conc.Prog
import DeepOj.Sandbox.SharedStderr

/-!
# The files of an attempt

`ExecuteTask` from the point where the test cases are ready, down to the single
file operations of the worker and of the engines it starts. Every attempt of a job
uses the same two directories, `code/<job_id>` and the engine's `<job_id>`, and
the `stderr.txt` of the test case directory.
-/

namespace DeepOj.Worker.Attempts

open Conc Go Sandbox

/-- The files and directories of a job. -/
inductive Place where
  /-- `code/<job_id>` of the worker. -/
  | jobDir
  /-- `main.cpp` in it. -/
  | source
  /-- `<base name>.user.out` in it. -/
  | userOut (baseName : Bytes)
  /-- `<job_id>` in the engine's directory. -/
  | requestDir
  /-- `main.cpp` in it. -/
  | requestSource
  /-- `main` in it. -/
  | exe
  /-- `compile_error.log` in it. -/
  | compileLog
  /-- `stderr.txt` of the test case directory. -/
  | stderr
  deriving DecidableEq, Repr

/-- The directory of a file, if it is one of the job's. -/
def Place.dir : Place → Option Place
  | .source => some .jobDir
  | .userOut _ => some .jobDir
  | .requestSource => some .requestDir
  | .exe => some .requestDir
  | .compileLog => some .requestDir
  | _ => none

/-- What a program does with an output stream. -/
abbrev StreamOp := StderrOp

/-- The file operations. A file that is written is opened first; what is written goes to the file
that was opened then. -/
inductive FileOp where
  | mkdir (dir : Place)
  /-- Open for writing, with `O_CREAT` and `O_TRUNC`. -/
  | create (f : Place)
  | write (f : Place) (offset : Nat) (w : StreamOp)
  /-- `chown`, `chmod` or a bind mount of a directory. -/
  | access (dir : Place)
  | read (f : Place)
  /-- What a recursive delete finds in a directory. -/
  | walk (dir : Place)
  | unlink (f : Place)
  | rmdir (dir : Place)

@[reducible] def FileOp.Reply : FileOp → Type
  | .mkdir _ => Except String Unit
  | .create _ => Except String Unit
  | .write .. => Except String Unit
  | .access _ => Except String Unit
  | .read _ => Option Bytes
  | .walk _ => List Place
  | .unlink _ => Unit
  | .rmdir _ => Unit

/-- What the worker reports of an attempt. -/
inductive Verdict where
  | failed (status : String) (message : Bytes)
  | judged (status : String) (timeUsed memoryUsed : Int)
  deriving DecidableEq

/-- Why the parent has not seen the compiler exit. -/
inductive Gone where
  /-- The engine has been killed too. -/
  | killed
  | timeLimit
  | waitFailed (strerror : String)
  deriving DecidableEq, Repr

/-- The operations of an attempt. -/
inductive Op where
  | go (o : FileOp)
  /-- An operation of an engine or of its child; `none` if that has been killed. -/
  | engine (o : FileOp)
  | gone
  /-- `clone`, with the error text if it fails. -/
  | clone
  /-- `reportResult`, and whether the result key could be set. -/
  | report (v : Verdict)

@[reducible] def Op.Reply : Op → Type
  | .go o => o.Reply
  | .engine o => Option o.Reply
  | .gone => Gone
  | .clone => Option String
  | .report _ => Bool

abbrev AttemptProgram (α : Type) : Type := Prog Op Op.Reply α

/-- An operation of the worker. -/
abbrev go (o : FileOp) : AttemptProgram o.Reply := Prog.perform (Op.go o)

/-- An operation of an engine. -/
abbrev engine (o : FileOp) : AttemptProgram (Option o.Reply) := Prog.perform (Op.engine o)

/-! ## The settings and the task -/

/-- What the compiler makes of a source. -/
structure Compilation where
  log : Bytes
  exe : Option Bytes
  status : WaitStatus

/-- A job and the settings it is judged with. -/
structure Job where
  jobID : String
  /-- The path of a file, as it stands in messages. -/
  path : Place → String
  keepWorkdir : Bool
  compileRealLimit : Nat
  /-- What the compiler does, given the source if it finds one. -/
  compiler : Option Bytes → Compilation
  /-- The line `ExitSetupError` writes when the request directory cannot be mounted. -/
  setupErrorLine : Bytes

inductive Stream where
  | stdout
  | stderr
  deriving DecidableEq, Repr

/-- A program in its sandbox. -/
structure Child where
  /-- What the kernel reports of it. -/
  host : Host
  /-- The turns of the polling loop before the worker gives up on the engine. -/
  fuel : Nat
  /-- What it does with its output until it is gone. -/
  ops : List (Stream × StreamOp)

/-- A test case, and what programs do with its input. -/
structure TestCase where
  baseName : Bytes
  lim : Limits
  /-- What the parent meets before it starts a program. -/
  host : Host
  behave : Bytes → Child
  /-- The content of the `.out` or `.ans` file. -/
  expected : Option Bytes

/-- An attempt at a job. -/
structure Task where
  attemptID : Nat
  code : Bytes
  cases : List TestCase

/-! ## The programs -/

/-- The loop of `os.RemoveAll`. -/
def unlinkAll : List Place → AttemptProgram Unit
  | [] => pure ()
  | f :: fs => do
    go (.unlink f)
    unlinkAll fs

/-- `os.RemoveAll`. -/
def removeAll (dir : Place) : AttemptProgram Unit := do
  let found ← go (.walk dir)
  unlinkAll found
  go (.rmdir dir)

/-- The loop of `fs::remove_all`. -/
def engineUnlinkAll : List Place → AttemptProgram (Option Unit)
  | [] => pure (some ())
  | f :: fs => do
    match ← engine (.unlink f) with
    | none => pure none
    | some _ => engineUnlinkAll fs

/-- `fs::remove_all`. -/
def engineRemoveAll (dir : Place) : AttemptProgram (Option Unit) := do
  match ← engine (.walk dir) with
  | none => pure none
  | some found =>
    match ← engineUnlinkAll found with
    | none => pure none
    | some _ => engine (.rmdir dir)

/-- `SaveFile`. -/
def saveFile (content : Bytes) : AttemptProgram (Except String Unit) := do
  match ← go (.mkdir .jobDir) with
  | .error err => pure (.error err)
  | .ok _ =>
    match ← go (.create .source) with
    | .error err => pure (.error err)
    | .ok _ => go (.write .source 0 (.write content))

section Compile

variable (job : Job)

/-- The compiler itself. -/
def runCompiler (c : Compilation) : AttemptProgram (Option WaitStatus) := do
  match ← engine (.write .compileLog 0 (.write c.log)) with
  | none => pure none
  | some _ =>
    match c.exe with
    | none => pure (some c.status)
    | some content =>
      match ← engine (.create .exe) with
      | none => pure none
      | some (.error _) => pure (some (.exited 1))
      | some (.ok _) =>
        match ← engine (.write .exe 0 (.write content)) with
        | none => pure none
        | some (.error _) => pure (some (.exited 1))
        | some (.ok _) => pure (some c.status)

/-- `CompileChildFn`. -/
def compileChild : AttemptProgram (Option WaitStatus) := do
  match ← engine (.create .compileLog) with
  | none => pure none
  | some (.error _) => pure (some (.exited 120))
  | some (.ok _) =>
    match ← engine (.access .requestDir) with
    | none => pure none
    | some (.error _) =>
      match ← engine (.write .compileLog 0 (.write job.setupErrorLine)) with
      | none => pure none
      | some _ => pure (some (.exited 191))
    | some (.ok _) =>
      match ← engine (.read .requestSource) with
      | none => pure none
      | some content => runCompiler (job.compiler content)

/-- The message for a compiler that exited, with what was found in the log. -/
def exitMessage (code : Nat) (compileLog : Bytes) : Bytes :=
  if 120 ≤ code then
    utf8 ("编译沙箱系统错误 (退出码: " ++ toString code ++ ", sandbox_error: " ++
      exitCodeToSandboxError code ++ "): " ++ getExitCodeDescription code) ++
      (if compileLog ≠ [] then utf8 "\n" ++ compileLog else utf8 "\n(未读取到 compile_error.log)")
  else if compileLog ≠ [] then compileLog
  else utf8 ("编译失败 (g++ 退出码: " ++ toString code ++ ")，且无法读取错误日志")

/-- The result once the compiler has been started. -/
def compileResult : Option WaitStatus → AttemptProgram (Option (Except Bytes Unit))
  | none => do
    match ← Prog.perform Op.gone with
    | .killed => pure none
    | .timeLimit =>
      pure (some (.error (utf8 ("编译超时 (> " ++ toString (job.compileRealLimit * 1000) ++
        "ms). 可能存在极度复杂的模板展开。"))))
    | .waitFailed strerror =>
      pure (some (.error (formatSystemError "系统调用 waitpid 失败" strerror)))
  | some (.exited code) =>
    if code = 0 then pure (some (.ok ()))
    else do
      match ← engine (.read .compileLog) with
      | none => pure none
      | some compileLog => pure (some (.error (exitMessage code (compileLog.getD []))))
  | some (.signaled signal) =>
    pure (some (.error (utf8 ("编译器异常终止 (Signal: " ++ toString signal ++ ")"))))
  | some .other => pure (some (.error (utf8 "编译器因未知原因结束")))

/-- `Sandbox::Compile`, from the call of `clone`. -/
def compileCloned : AttemptProgram (Option (Except Bytes Unit)) := do
  match ← Prog.perform Op.clone with
  | some strerror =>
    pure (some (.error (formatSystemError "系统调用 clone (compile) 失败" strerror)))
  | none => do
    let status ← compileChild job
    compileResult job status

/-- The destructor of the `DirectoryGuard`. -/
def guarded (result : Option (Except Bytes Unit)) : AttemptProgram (Option (Except Bytes Unit)) :=
  match result with
  | some (.error message) => do
    match ← engineRemoveAll .requestDir with
    | none => pure none
    | some _ => pure (some (.error message))
  | _ => pure result

/-- `Sandbox::Compile`, once the source is in the request directory. -/
def compileSource : AttemptProgram (Option (Except Bytes Unit)) := do
  match ← engine (.access .requestDir) with
  | none => pure none
  | some (.error strerror) =>
    pure (some (.error (formatSystemError "无法修改目录所有者" strerror)))
  | some (.ok _) =>
    match ← engine (.access .requestDir) with
    | none => pure none
    | some (.error err) => pure (some (.error (utf8 ("无法设置目录权限: " ++ err))))
    | some (.ok _) => do
      let result ← compileCloned job
      guarded result

/-- `Sandbox::Compile`: `none` if the engine was killed. -/
def sandboxCompile (content : Bytes) : AttemptProgram (Option (Except Bytes Unit)) := do
  -- a directory that cannot be made is noticed when the source cannot be opened
  match ← engine (.mkdir .requestDir) with
  | none => pure none
  | some _ =>
    match ← engine (.create .requestSource) with
    | none => pure none
    | some (.error _) =>
      pure (some (.error (utf8 ("无法打开文件进行写入: " ++ job.path .requestSource))))
    | some (.ok _) =>
      match ← engine (.write .requestSource 0 (.write content)) with
      | none => pure none
      | some (.error _) => pure (some (.error (utf8 "写入源代码时发生 I/O 错误")))
      | some (.ok _) => compileSource job

/-- `Compile` of the worker: the message of the compile error, if there is one. -/
def compile : AttemptProgram (Except Bytes Unit) := do
  match ← engine (.read .source) with
  | none => pure (.error (utf8 "compile failed: command timed out: signal: killed"))
  | some none => pure (.error (utf8 "compile failed: exit status 1"))
  | some (some content) =>
    match ← sandboxCompile job content with
    | none => pure (.error (utf8 "compile failed: command timed out: signal: killed"))
    | some (.error message) =>
      pure (.error (if message = [] then utf8 "compile failed" else message))
    | some (.ok _) => pure (.ok ())

end Compile

section Run

variable (job : Job) (task : Task) (c : TestCase)

/-- What the program does with its streams, each with an offset of its own. -/
def runOps : Nat → Nat → List (Stream × StreamOp) → AttemptProgram (Option Unit)
  | _, _, [] => pure (some ())
  | out, err, (.stdout, w) :: ops => do
    match ← engine (.write (.userOut c.baseName) out w) with
    | none => pure none
    | some _ => runOps (w.advance out) err ops
  | out, err, (.stderr, w) :: ops => do
    match ← engine (.write .stderr err w) with
    | none => pure none
    | some _ => runOps out (w.advance err) ops

/-- A child that exits before it becomes the program. -/
def TestCase.exits (code : Nat) (message : Bytes) : Child where
  host := { c.host with wait4 := fun _ => .reaped (.exited code) {} }
  fuel := 1
  ops := [(.stderr, .write message)]

/-- `RunChildFn`, up to what the program then does. -/
def startChild : AttemptProgram (Option Child) := do
  match ← engine (.access .requestDir) with
  | none => pure none
  | some (.error _) => pure (some (c.exits 191 job.setupErrorLine))
  | some (.ok _) =>
    match ← engine (.read .exe) with
    | none => pure none
    | some none =>
      pure (some (c.exits ERR_EXEC_FAILED (execErrorLine 2 "No such file or directory" "/main")))
    | some (some content) => pure (some (c.behave content))

/-- The output file as its size is asked for. -/
def outputFile : Option Bytes → OutputFile
  | none => .absent
  | some content => .sized content.length

/-- The result of a child that has been reaped. -/
def settleRun (host : Host) (status : WaitStatus) (usage : Rusage) : AttemptProgram (Option RunResult) := do
  match ← engine (.read (.userOut c.baseName)) with
  | none => pure none
  | some content =>
    let host := { host with outputFile := outputFile content }
    if host.outputTooLarge c.lim = true ∨ c.lim.memoryLimitKb < host.memoryUsed usage then
      pure (some (settle c.lim host status usage))
    else
      match ← engine (.read .stderr) with
      | none => pure none
      | some content =>
        pure (some (settle c.lim (host.withStderr (getlines (content.getD []))) status usage))

/-- `Sandbox::Run`, from the start of the child. -/
def runChild : AttemptProgram (Option RunResult) := do
  match ← startChild job c with
  | none => pure none
  | some child =>
    match ← runOps c 0 0 child.ops with
    | none => pure none
    | some _ =>
      match Loop.run (poll c.lim child.host) child.fuel ⟨0, 0⟩ with
      | none => pure none
      | some (.result r) => pure (some r)
      | some (.reaped status usage) => settleRun c child.host status usage

/-- `Sandbox::Run`, once `/dev/null` is open. -/
def runOpened : AttemptProgram (Option RunResult) := do
  match ← engine (.create (.userOut c.baseName)) with
  | none => pure none
  | some _ =>
    match ← engine (.create .stderr) with
    | none => pure none
    | some _ => if c.host.clone.isSome then pure (run c.lim c.host 0) else runChild job c

/-- `Sandbox::Run`. -/
def sandboxRun : AttemptProgram (Option RunResult) :=
  if c.host.devNull.isSome then pure (run c.lim c.host 0) else runOpened job c

/-- `strings.ReplaceAll(s, "\r\n", "\n")`. -/
def replaceCRLF : Bytes → Bytes
  | 13 :: 10 :: s => 10 :: replaceCRLF s
  | b :: s => b :: replaceCRLF s
  | [] => []

/-- `trim`. -/
def trim (s : Bytes) : Bytes := trimSpaces (replaceCRLF s)

/-- `CompareFiles`. -/
def compareFiles : AttemptProgram Bool := do
  match ← go (.read (.userOut c.baseName)) with
  | none => pure false
  | some content =>
    match c.expected with
    | none => pure false
    | some expected => pure (trim content = trim expected)

/-- One turn of the test case loop: the result with the status it gets, or the error. -/
def judgeCase : AttemptProgram (Except Bytes JudgeResult) := do
  match ← sandboxRun job c with
  | none => pure (.error (utf8 "judge protocol error: empty_stdout"))
  | some r =>
    let res := judgeResult (runReport job.jobID task.attemptID r)
    if res.status = "Finished" then do
      let same ← compareFiles c
      pure (.ok { res with status := caseStatus res same })
    else pure (.ok res)

/-- The test case loop, with the maxima so far. -/
def runCases : List TestCase → Int → Int → AttemptProgram Verdict
  | [], maxTime, maxMem => pure (.judged "Accepted" maxTime maxMem)
  | c :: cs, maxTime, maxMem => do
    match ← judgeCase job task c with
    | .error message => pure (.failed "System Error" message)
    | .ok res =>
      if res.status ≠ "Accepted" then
        pure (.judged res.status (max maxTime res.timeUsed) (max maxMem res.memoryUsed))
      else runCases cs (max maxTime res.timeUsed) (max maxMem res.memoryUsed)

/-- What `ExecuteTask` finds out. -/
def judge : AttemptProgram Verdict := do
  match ← saveFile task.code with
  | .error err => pure (.failed "System Error" (utf8 ("Save code failed: " ++ err)))
  | .ok _ =>
    match ← compile job with
    | .error message => pure (.failed "Compile Error" message)
    | .ok _ => runCases job task task.cases 0 0

/-- The engine's `Cleanup`, after a result that could be reported. -/
def cleanup (reported : Bool) : Verdict → AttemptProgram Unit
  | .judged .. =>
    if reported then do
      let _ ← engineRemoveAll .requestDir
      pure ()
    else pure ()
  | .failed .. => pure ()

/-- `ExecuteTask`, once the test cases are ready. -/
def executeTask : AttemptProgram Unit := do
  let v ← judge job task
  let reported ← Prog.perform (Op.report v)
  cleanup reported v
  if job.keepWorkdir then pure () else removeAll .jobDir

end Run

/-! ## The disk -/

/-- The files of a job. A directory is there or not; it has no content of its own. -/
structure Disk where
  file : Place → Option Bytes
  /-- The file an attempt has open for writing is the one that is there now. -/
  fd : Nat → Place → Bool

/-- What an operation leaves to the environment. -/
structure Pick where
  /-- The operation does not fail for reasons of its own; a directory is empty. -/
  ok : Bool := true
  /-- The text of the error, if there is one. -/
  err : String := ""
  /-- The engine, or its child, has been killed. -/
  dead : Bool := false
  gone : Gone := .killed
  clone : Option String := none
  /-- What a recursive delete finds. -/
  found : List Place := []
  reported : Bool := true
  deriving DecidableEq

namespace Disk

/-- The directory of a file is there. -/
def hasDir (d : Disk) (f : Place) : Bool :=
  match f.dir with
  | some dir => (d.file dir).isSome
  | none => true

/-- Open a file; without its directory there is no file. -/
def create (d : Disk) (self : Nat) (f : Place) : Disk where
  file := Function.update d.file f (if d.hasDir f then some [] else none)
  fd := Function.update d.fd self (Function.update (d.fd self) f (d.hasDir f))

/-- Nothing is open any more. -/
def close (d : Disk) (self : Nat) (f : Place) : Disk :=
  { d with fd := Function.update d.fd self (Function.update (d.fd self) f false) }

/-- Write to the file that is open, if it is still there. -/
def write (d : Disk) (self : Nat) (f : Place) (offset : Nat) (w : StreamOp) : Disk :=
  { d with
    file := Function.update d.file f
      (if d.fd self f then (d.file f).map (w.apply offset) else d.file f) }

/-- Remove these files; what is open stays open, but it is not there any more. -/
def remove (d : Disk) (p : Place → Bool) : Disk where
  file f := if p f then none else d.file f
  fd self f := if p f then false else d.fd self f

end Disk

/-- The directory itself and everything in it. -/
def within (dir f : Place) : Bool := f = dir ∨ f.dir = some dir

/-- What an operation makes of the disk. -/
def FileOp.apply (self : Nat) (p : Pick) (d : Disk) : FileOp → Disk
  | .mkdir dir => if p.ok then { d with file := Function.update d.file dir (some []) } else d
  | .create f => if p.ok then d.create self f else d.close self f
  | .write f offset w => if p.ok then d.write self f offset w else d
  | .access _ => d
  | .read _ => d
  | .walk _ => d
  | .unlink f => d.remove (· = f)
  | .rmdir dir => if p.ok then d.remove (within dir) else d

/-- What an operation finds. -/
def FileOp.reply (p : Pick) (d : Disk) : (o : FileOp) → o.Reply
  | .mkdir _ => if p.ok then .ok () else .error p.err
  | .create f => if p.ok && d.hasDir f then .ok () else .error p.err
  | .write .. => if p.ok then .ok () else .error p.err
  | .access dir => if p.ok && (d.file dir).isSome then .ok () else .error p.err
  | .read f => if p.ok then d.file f else none
  | .walk _ => p.found
  | .unlink _ => ()
  | .rmdir _ => ()

def Op.apply (self : Nat) (p : Pick) (d : Disk) : Op → Disk
  | .go o => o.apply self p d
  | .engine o => if p.dead then d else o.apply self p d
  | _ => d

def Op.reply (p : Pick) (d : Disk) : (o : Op) → o.Reply
  | .go o => o.reply p d
  | .engine o => if p.dead then none else some (o.reply p d)
  | .gone => p.gone
  | .clone => p.clone
  | .report _ => p.reported

/-! ## Attempts among each other -/

/-- A running attempt, and what its environment will do. -/
structure Attempt where
  self : Nat
  prog : AttemptProgram Unit
  picks : List Pick
  verdict : Option Verdict := none

/-- What the environment does with the next operation. -/
def Attempt.pick (a : Attempt) : Pick := a.picks.headD {}

/-- The verdict the attempt reports with its next operation. -/
def Attempt.reports (a : Attempt) : Option Verdict :=
  match a.prog with
  | .call (.report v) _ => some v
  | _ => none

/-- The attempts of a job on one disk. What an attempt observes is how it goes on. -/
def attempts : Sharing Disk Attempt (AttemptProgram Unit) where
  observe a d :=
    match a.prog with
    | .ret () => .ret ()
    | .call o k => k (o.reply a.pick d)
  effect a d :=
    match a.prog with
    | .ret () => d
    | .call o _ => o.apply a.self a.pick d
  next a prog :=
    { a with prog, picks := a.picks.tail, verdict := a.verdict <|> a.reports }

/-- Attempts at a job, before their first file operation. -/
def begin {ι : Type} (job : Job) (disk : Disk) (tasks : ι → Task) (picks : ι → List Pick) :
    Shared ι Disk Attempt where
  resource := disk
  parties i := { self := (tasks i).attemptID, prog := executeTask job (tasks i), picks := picks i }

end DeepOj.Worker.Attempts
