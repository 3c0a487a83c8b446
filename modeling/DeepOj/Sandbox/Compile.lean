import DeepOj.Sandbox.Engine
import DeepOj.Sandbox.Isolation

/-!
# Compile mode of the engine

`main` reads its configuration, `Sandbox::Compile` starts the compiler in a sandbox of its own and
waits for it, and one object is printed. Several failures end the engine before it prints anything.
-/

namespace DeepOj.Sandbox.Compile

open Conc Go

/-- The fields of `GlobalConfig` that compile mode reads. -/
structure GlobalConfig extends RunnerConfig where
  workspaceRoot : Bytes
  compilerPath : Bytes
  compileCpuLimit : Int
  compileRealLimit : Int
  compileTmpfsSizeMb : Int
  compileLogMaxBytes : Int

/-! ## `CompileChildFn` -/

def ERR_OPEN_OUTPUT : Nat := 120
def ERR_DUP2 : Nat := 121

/-- `CompileArgs`, with what `open` answers for the log and whether `LoadCompileSeccompRules` loads
its rules. -/
structure CompileArgs where
  sourcePath : Bytes
  earlyLogFd : Option Int
  seccompLoads : Bool

def limitCompiler (cfg : GlobalConfig) : Child Unit := do
  let rlim (n : Int) : Option Nat := some (n % 2 ^ 64).toNat
  orExit (.setrlimit .cpu (rlim cfg.compileCpuLimit) (rlim cfg.compileRealLimit)) ERR_RLIMIT_CPU
  orExit (.setrlimit .addressSpace (rlim cfg.compileMemLimit) (rlim cfg.compileMemLimit))
    ERR_RLIMIT_MEMORY
  let logLimit := if 0 < cfg.compileLogMaxBytes then cfg.compileLogMaxBytes else 16 * 1024 * 1024
  orExit (.setrlimit .fsize (rlim logLimit) (rlim logLimit)) ERR_RLIMIT_FSIZE

def dropCompilerPrivileges (cfg : GlobalConfig) : Child Unit := do
  orExit .clearGroups ERR_SETGID_FAILED
  orExit (.setgid cfg.runGid) ERR_SETGID_FAILED
  orExit (.setuid cfg.runUid) ERR_SETUID_FAILED
  orExit .noNewPrivs ERR_SANDBOX_EXCEPTION

/-- `CompileChildFn`, until the compiler takes over. -/
def compileChildFn (env : ChildEnv) (cfg : GlobalConfig) (args : CompileArgs) : Child Unit := do
  let path := args.sourcePath.take 255
  let workDir := match splitLastSlash path with
    | some (dir, _) => dir
    | none => path
  match args.earlyLogFd with
  | none => throw ⟨ERR_OPEN_OUTPUT, []⟩
  | some fd =>
    orExit (.dup2 fd 2) ERR_DUP2
    setupRootfs env cfg.toRunnerConfig workDir
    mountPoint "/tmp" 0o1777 ERR_MKDIR_FAILED
    let tmpfsMb := if 0 < cfg.compileTmpfsSizeMb then cfg.compileTmpfsSizeMb else 128
    orExit (.mount (some (utf8 "tmpfs")) (utf8 "/tmp") (some "tmpfs") []
      (some ("size=" ++ toString tmpfsMb ++ "m,mode=1777"))) ERR_MOUNT_TMP
    limitCompiler cfg
    dropCompilerPrivileges cfg
    if ¬ args.seccompLoads then throw ⟨ERR_SANDBOX_EXCEPTION, []⟩
    orExit (.execve cfg.compilerPath) ERR_EXEC_FAILED

/-! ## `Sandbox::Compile` -/

/-- What `waitpid(WNOHANG)` answers. -/
inductive Waited where
  | running
  | reaped (status : WaitStatus)
  | error (errno : Nat) (strerror : String)

/-- What the kernel and the file system answer while the source is compiled. -/
structure Host where
  /-- The request's directory cannot be created. -/
  createDirectories : Option String
  opens : Bool
  writes : Bool
  chown : Option String
  permissions : Option String
  clone : Option String
  waitpid : Poll → Waited
  /-- The milliseconds a turn takes beyond its sleep. -/
  delay : Poll → Nat
  /-- `compile_error.log`, if it can be opened. -/
  compileLog : Option Bytes

/-- `CompileResult`. -/
structure CompileResult where
  success : Bool := false
  exePath : Bytes := []
  errorMessage : Bytes := []
  deriving DecidableEq

/-- `IsValidRequestId`. -/
def isValidRequestId (id : Bytes) : Bool :=
  id ≠ [] && id.length ≤ 64 && id.all fun b =>
    (48 ≤ b.toNat && b.toNat ≤ 57) || (65 ≤ b.toNat && b.toNat ≤ 90) ||
      (97 ≤ b.toNat && b.toNat ≤ 122) || b = 95 || b = 45

/-- `path / name`. -/
def appendPath (path name : Bytes) : Bytes :=
  if path.getLast? = some 47 then path ++ name else path ++ 47 :: name

def requestDir (cfg : GlobalConfig) (requestID : Bytes) : Bytes :=
  appendPath cfg.workspaceRoot requestID

def exeFile (cfg : GlobalConfig) (requestID : Bytes) : Bytes :=
  appendPath (requestDir cfg requestID) (utf8 "main")

theorem exeFile_ne_nil (cfg : GlobalConfig) (requestID : Bytes) : exeFile cfg requestID ≠ [] := by
  unfold exeFile appendPath
  split <;> simp [utf8]

def compileTimeLimitMs (cfg : GlobalConfig) : Int := cfg.compileRealLimit * 1000

/-- How the loop around `waitpid` ends. -/
inductive Waiting where
  | failed (strerror : String)
  | timedOut
  | reaped (status : WaitStatus)

/-- One turn of the loop. -/
def wait (cfg : GlobalConfig) (host : Host) (p : Poll) : Turn Poll Waiting :=
  match host.waitpid p with
  | .error errno strerror =>
    if errno = EINTR then .again ⟨p.count + 1, p.elapsed + host.delay p⟩ else .leave (.failed strerror)
  | .reaped status => .leave (.reaped status)
  | .running =>
    if compileTimeLimitMs cfg < p.elapsed then .leave .timedOut
    else .again ⟨p.count + 1, p.elapsed + 50 + host.delay p⟩

/-- The message for an exit code other than zero. -/
def exitMessage (code : Nat) (compileLog : Bytes) : Bytes :=
  if 120 ≤ code then
    utf8 ("编译沙箱系统错误 (退出码: " ++ toString code ++ ", sandbox_error: " ++
      exitCodeToSandboxError code ++ "): " ++ getExitCodeDescription code) ++
      if compileLog ≠ [] then 10 :: compileLog else utf8 "\n(未读取到 compile_error.log)"
  else if compileLog ≠ [] then compileLog
  else utf8 ("编译失败 (g++ 退出码: " ++ toString code ++ ")，且无法读取错误日志")

/-- The result for the end of the loop; a result that is no success is a compile error. -/
def Waiting.toResult (cfg : GlobalConfig) (host : Host) (requestID : Bytes) :
    Waiting → CompileResult
  | .failed strerror => { errorMessage := formatSystemError "系统调用 waitpid 失败" strerror }
  | .timedOut =>
    { errorMessage := utf8 ("编译超时 (> " ++ toString (compileTimeLimitMs cfg) ++
        "ms). 可能存在极度复杂的模板展开。") }
  | .reaped (.exited code) =>
    if code = 0 then { success := true, exePath := exeFile cfg requestID }
    else { errorMessage := exitMessage code (host.compileLog.getD []) }
  | .reaped (.signaled signal) =>
    { errorMessage := utf8 ("编译器异常终止 (Signal: " ++ toString signal ++ ")") }
  | .reaped .other => { errorMessage := utf8 "编译器因未知原因结束" }

/-- The message of the first step that fails before there is a child. A directory that cannot be
created leaves only a message that is overwritten or not read. -/
def launchError (cfg : GlobalConfig) (host : Host) (requestID : Bytes) : Option Bytes :=
  if ¬ isValidRequestId requestID then some (utf8 "安全违规: 请求 ID 包含非法字符 (潜在路径遍历攻击)")
  else if ¬ host.opens then
    some (utf8 "无法打开文件进行写入: " ++ appendPath (requestDir cfg requestID) (utf8 "main.cpp"))
  else if ¬ host.writes then some (utf8 "写入源代码时发生 I/O 错误")
  else
    match host.chown, host.permissions, host.clone with
    | some strerror, _, _ => some (formatSystemError "无法修改目录所有者" strerror)
    | none, some message, _ => some (utf8 ("无法设置目录权限: " ++ message))
    | none, none, some strerror => some (formatSystemError "系统调用 clone (compile) 失败" strerror)
    | none, none, none => none

/-- `Sandbox::Compile`, when the loop ends within `fuel` turns. -/
def compile (cfg : GlobalConfig) (host : Host) (requestID : Bytes) (fuel : Nat) :
    Option CompileResult :=
  match launchError cfg host requestID with
  | some message => some { errorMessage := message }
  | none => (Loop.run (wait cfg host) fuel ⟨0, 0⟩).map (Waiting.toResult cfg host requestID)

/-! ## `main` -/

/-- What else the engine meets before it compiles. -/
structure EngineHost extends Host where
  /-- What `LoadConfig` reads, unless it exits. -/
  config : Option GlobalConfig
  /-- `fs::exists` of the workspace, unless it throws. -/
  rootExists : Option Bool
  compilerExecutable : Bool
  /-- The constructor of `Sandbox` cannot create the workspace, and throws. -/
  createRoot : Option String
  /-- The source file, if it opens. -/
  source : Option Bytes

/-- What `ValidateConfig` finds. -/
inductive Validation where
  | valid
  | invalid (err : Bytes)
  | throws

/-- `ValidateConfig`. -/
def validateConfig (cfg : GlobalConfig) (host : EngineHost) : Validation :=
  if cfg.workspaceRoot = [] then .invalid (utf8 "workspace_root not set")
  else if cfg.compilerPath = [] then .invalid (utf8 "compiler_path not set")
  else
    match host.rootExists with
    | none => .throws
    | some false => .invalid (utf8 "workspace_root not found: " ++ cfg.workspaceRoot)
    | some true =>
      if host.compilerExecutable then .valid
      else .invalid (utf8 "compiler not executable: " ++ cfg.compilerPath)

/-- What the engine has printed when it ends, and its exit code. -/
structure EngineEnd where
  printed : Bytes
  code : Nat
  deriving DecidableEq

/-- An exception that nobody catches. -/
def terminated : EngineEnd := ⟨[], 134⟩

/-- `EmitJSONLine`, and the end of `main`. -/
def emit (out : List (String × DumpValue)) (code : Nat) : EngineEnd :=
  match dump out with
  | some text => ⟨text ++ [10], code⟩
  | none => terminated

def compiledMembers (exePath : Bytes) : List (String × DumpValue) :=
  [("schema_version", .int 1), ("status", .str (utf8 "Compiled")), ("exe_path", .str exePath)]

def errorMembers (status : String) (error : Bytes) : List (String × DumpValue) :=
  [("schema_version", .int 1), ("status", .str (utf8 status)), ("error", .str error)]

/-- What is printed of a `CompileResult`. -/
def report (cres : CompileResult) : EngineEnd :=
  if cres.success then emit (compiledMembers cres.exePath) 0
  else emit (errorMembers "Compile Error" cres.errorMessage) 2

/-- `main` with the options `--compile -s sourcePath -r requestID -C config`, until it compiles: it
ends before, or has its configuration. -/
def startCompile (sourcePath requestID : Bytes) (host : EngineHost) :
    Except EngineEnd GlobalConfig :=
  match host.config with
  | none => .error ⟨[], 1⟩
  | some cfg =>
    match validateConfig cfg host with
    | .throws => .error terminated
    | .invalid err => .error (emit (errorMembers "System Error" err) 1)
    | .valid =>
      if host.createRoot.isSome then .error terminated
      else if sourcePath = [] ∨ requestID = [] then .error ⟨[], 1⟩
      else if host.source = none then .error ⟨[], 1⟩
      else .ok cfg

/-- Compile mode, when the loop ends within `fuel` turns. -/
def compileMode (sourcePath requestID : Bytes) (host : EngineHost) (fuel : Nat) :
    Option EngineEnd :=
  match startCompile sourcePath requestID host with
  | .error e => some e
  | .ok cfg => (compile cfg host.toHost requestID fuel).map report

/-! ## The child -/

section Child

variable {env : ChildEnv} {cfg : GlobalConfig} {args : CompileArgs}

/-- The child exits by itself only with a code of the sandbox. -/
def SandboxExit (e : ChildExit) : Prop := 120 ≤ e.code

theorem sandboxExit_of_le {code : Nat} {stderr : Bytes} (h : 120 ≤ code ∧ code ≠ ERR_EXEC_FAILED) :
    SandboxExit ⟨code, stderr⟩ := h.1

theorem exits_limitCompiler : Exits SandboxExit (limitCompiler cfg) := by
  refine (exits_step sandboxExit_of_le (by decide)).bind fun _ => ?_
  refine (exits_step sandboxExit_of_le (by decide)).bind fun _ => ?_
  exact exits_step sandboxExit_of_le (by decide)

theorem exits_dropCompilerPrivileges : Exits SandboxExit (dropCompilerPrivileges cfg) := by
  refine (exits_step sandboxExit_of_le (by decide)).bind fun _ => ?_
  refine (exits_step sandboxExit_of_le (by decide)).bind fun _ => ?_
  refine (exits_step sandboxExit_of_le (by decide)).bind fun _ => ?_
  exact exits_step sandboxExit_of_le (by decide)

theorem exits_compileChildFn : Exits SandboxExit (compileChildFn env cfg args) := by
  unfold compileChildFn
  cases args.earlyLogFd with
  | none => exact exits_throw (sandboxExit_of_le (by decide))
  | some fd =>
    refine (exits_step sandboxExit_of_le (by decide)).bind fun _ => ?_
    refine (exits_setupRootfs sandboxExit_of_le).bind fun _ => ?_
    refine (exits_mountPoint sandboxExit_of_le (by decide)).bind fun _ => ?_
    refine (exits_step sandboxExit_of_le (by decide)).bind fun _ => ?_
    refine exits_limitCompiler.bind fun _ => exits_dropCompilerPrivileges.bind fun _ => ?_
    have hexec : Exits SandboxExit (orExit (.execve cfg.compilerPath) ERR_EXEC_FAILED) :=
      exits_orExit (show 120 ≤ ERR_EXEC_FAILED by decide)
    split
    · exact (exits_throw (sandboxExit_of_le (by decide))).bind fun _ => hexec
    · exact hexec

end Child

/-! ## The parent -/

section Parent

variable {cfg : GlobalConfig} {host : Host} {requestID : Bytes} {fuel fuel' : Nat}
  {r r' : CompileResult} {waiting : Waiting}

/-- The loop ends in this way. -/
def Ends (cfg : GlobalConfig) (host : Host) (waiting : Waiting) : Prop :=
  ∃ p, Loop.Leaves (wait cfg host) ⟨0, 0⟩ p waiting

theorem exists_reaped {status : WaitStatus} (h : Ends cfg host (.reaped status)) :
    ∃ p, host.waitpid p = .reaped status := by
  obtain ⟨p, hleaves⟩ := h
  have hlast := hleaves.body_last
  unfold wait at hlast
  refine ⟨p, ?_⟩
  cases hw : host.waitpid p with
  | reaped status' =>
    rw [hw] at hlast
    cases hlast
    rfl
  | running =>
    simp only [hw] at hlast
    split at hlast <;> cases hlast
  | error errno strerror =>
    simp only [hw] at hlast
    split at hlast <;> cases hlast

/-- Everything works, and the compiler exits with zero. -/
structure Compiles (cfg : GlobalConfig) (host : Host) (requestID : Bytes) : Prop where
  requestID : isValidRequestId requestID = true
  opens : host.opens = true
  writes : host.writes = true
  chown : host.chown = none
  permissions : host.permissions = none
  clone : host.clone = none
  exits : Ends cfg host (.reaped (.exited 0))

theorem success_toResult : (waiting.toResult cfg host requestID).success = true ↔
    waiting = .reaped (.exited 0) := by
  cases waiting with
  | failed strerror => simp [Waiting.toResult]
  | timedOut => simp [Waiting.toResult]
  | reaped status =>
    cases status with
    | exited code => by_cases h : code = 0 <;> simp [Waiting.toResult, h]
    | signaled signal => simp [Waiting.toResult]
    | other => simp [Waiting.toResult]

theorem launchError_eq_none : launchError cfg host requestID = none ↔
    isValidRequestId requestID = true ∧ host.opens = true ∧ host.writes = true ∧
      host.chown = none ∧ host.permissions = none ∧ host.clone = none := by
  unfold launchError
  cases isValidRequestId requestID <;> cases host.opens <;> cases host.writes <;>
    cases host.chown <;> cases host.permissions <;> cases host.clone <;> simp

/-- A successful result is the one with the path of the executable. -/
theorem compiles_of_success (h : compile cfg host requestID fuel = some r) (hr : r.success = true) :
    Compiles cfg host requestID ∧ r = { success := true, exePath := exeFile cfg requestID } := by
  unfold compile at h
  cases hlaunch : launchError cfg host requestID with
  | some message =>
    rw [hlaunch] at h
    cases h
    cases hr
  | none =>
    rw [hlaunch] at h
    obtain ⟨waiting, hrun, rfl⟩ := Option.map_eq_some_iff.mp h
    obtain ⟨p, hleaves⟩ := Loop.leaves_of_run hrun
    obtain ⟨hid, hopens, hwrites, hchown, hperm, hclone⟩ := launchError_eq_none.mp hlaunch
    have hwaiting := success_toResult.mp hr
    subst hwaiting
    exact ⟨⟨hid, hopens, hwrites, hchown, hperm, hclone, p, hleaves⟩, rfl⟩

theorem exists_compile (h : Compiles cfg host requestID) : ∃ fuel, compile cfg host requestID fuel =
    some { success := true, exePath := exeFile cfg requestID } := by
  obtain ⟨p, hleaves⟩ := h.exits
  obtain ⟨fuel, hrun⟩ := hleaves.run
  refine ⟨fuel, ?_⟩
  have hlaunch : launchError cfg host requestID = none :=
    launchError_eq_none.mpr ⟨h.requestID, h.opens, h.writes, h.chown, h.permissions, h.clone⟩
  rw [compile, hlaunch]
  simp [hrun, Waiting.toResult]

/-- The result does not depend on the fuel. -/
theorem compile_unique (h : compile cfg host requestID fuel = some r)
    (h' : compile cfg host requestID fuel' = some r') : r' = r := by
  unfold compile at h h'
  cases hlaunch : launchError cfg host requestID with
  | some message =>
    rw [hlaunch] at h h'
    cases h
    cases h'
    rfl
  | none =>
    rw [hlaunch] at h h'
    obtain ⟨waiting, hrun, rfl⟩ := Option.map_eq_some_iff.mp h
    obtain ⟨waiting', hrun', rfl⟩ := Option.map_eq_some_iff.mp h'
    obtain ⟨p, hleaves⟩ := Loop.leaves_of_run hrun
    obtain ⟨p', hleaves'⟩ := Loop.leaves_of_run hrun'
    rw [(hleaves.unique hleaves').2]

end Parent

/-! ## The whole engine -/

section Main

variable {sourcePath requestID : Bytes} {host : EngineHost} {fuel fuel' : Nat} {e e' : EngineEnd}

/-- The engine gets to the compiler with this configuration. -/
structure Starts (host : EngineHost) (sourcePath requestID : Bytes) (cfg : GlobalConfig) : Prop where
  config : host.config = some cfg
  valid : validateConfig cfg host = .valid
  root : host.createRoot = none
  paths : sourcePath ≠ [] ∧ requestID ≠ []
  source : host.source ≠ none

/-- What the engine prints when it has not compiled: nothing, or an object with another status. -/
def Fails (e : EngineEnd) : Prop :=
  e.printed = [] ∨ ∃ status error text, status ≠ "Compiled" ∧
    dump (errorMembers status error) = some text ∧ e.printed = text ++ [10]

theorem fails_emit {status : String} {error : Bytes} {code : Nat} (h : status ≠ "Compiled") :
    Fails (emit (errorMembers status error) code) := by
  unfold emit
  cases hdump : dump (errorMembers status error) with
  | none => exact .inl rfl
  | some text => exact .inr ⟨status, error, text, h, hdump, rfl⟩

theorem fails_of_startCompile (h : startCompile sourcePath requestID host = .error e) : Fails e := by
  unfold startCompile at h
  split at h
  · cases h
    exact .inl rfl
  split at h
  · cases h
    exact .inl rfl
  · cases h
    exact fails_emit (by simp)
  -- from here on the engine prints nothing before it compiles
  split at h
  · cases h
    exact .inl rfl
  split at h
  · cases h
    exact .inl rfl
  split at h <;> cases h
  exact .inl rfl

theorem startCompile_eq_ok {cfg : GlobalConfig} : startCompile sourcePath requestID host = .ok cfg ↔
    Starts host sourcePath requestID cfg := by
  unfold startCompile
  constructor
  · intro h
    split at h
    · cases h
    rename_i cfg' hconfig
    split at h
    · cases h
    · cases h
    rename_i hvalid
    split at h
    · cases h
    rename_i hroot
    split at h
    · cases h
    rename_i hpaths
    split at h <;> cases h
    rename_i hsource
    exact ⟨hconfig, hvalid, by simpa using hroot, not_or.mp hpaths, hsource⟩
  · intro h
    simp [h.config, h.valid, h.root, h.paths.1, h.paths.2, h.source]

/-- How the engine ends. -/
theorem compileMode_cases (h : compileMode sourcePath requestID host fuel = some e) :
    Fails e ∨ ∃ cfg, Starts host sourcePath requestID cfg ∧ Compiles cfg host.toHost requestID ∧
      e = emit (compiledMembers (exeFile cfg requestID)) 0 := by
  unfold compileMode at h
  cases hstart : startCompile sourcePath requestID host with
  | error e' =>
    rw [hstart] at h
    cases h
    exact .inl (fails_of_startCompile hstart)
  | ok cfg =>
    rw [hstart] at h
    obtain ⟨r, hr, rfl⟩ := Option.map_eq_some_iff.mp h
    unfold report
    by_cases hsuccess : r.success = true
    · obtain ⟨hcompiles, rfl⟩ := compiles_of_success hr hsuccess
      exact .inr ⟨cfg, startCompile_eq_ok.mp hstart, hcompiles, rfl⟩
    · rw [if_neg hsuccess]
      exact .inl (fails_emit (by simp))

theorem exists_compileMode {cfg : GlobalConfig} (hstart : Starts host sourcePath requestID cfg)
    (hcompiles : Compiles cfg host.toHost requestID) :
    ∃ fuel, compileMode sourcePath requestID host fuel =
      some (emit (compiledMembers (exeFile cfg requestID)) 0) := by
  obtain ⟨fuel, hcompile⟩ := exists_compile hcompiles
  refine ⟨fuel, ?_⟩
  rw [compileMode, startCompile_eq_ok.mpr hstart]
  simp [hcompile, report]

/-- The end of the engine does not depend on the fuel. -/
theorem compileMode_unique (h : compileMode sourcePath requestID host fuel = some e)
    (h' : compileMode sourcePath requestID host fuel' = some e') : e' = e := by
  unfold compileMode at h h'
  cases hstart : startCompile sourcePath requestID host with
  | error e₀ =>
    rw [hstart] at h h'
    cases h
    cases h'
    rfl
  | ok cfg =>
    rw [hstart] at h h'
    obtain ⟨r, hr, rfl⟩ := Option.map_eq_some_iff.mp h
    obtain ⟨r', hr', rfl⟩ := Option.map_eq_some_iff.mp h'
    rw [compile_unique hr hr']

end Main

end DeepOj.Sandbox.Compile
