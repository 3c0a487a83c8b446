import DeepOj.Conc.Loop
import DeepOj.Go.Bytes
import Mathlib.Data.Rat.Floor

/-!
# `Sandbox::Run`

The parent side of one run of a judged program: the polling loop around
`wait4`, and the classification of a program that was reaped. What the kernel
and the file system answer is a `Host`.
-/

namespace DeepOj.Sandbox

open Conc Go

/-- `SandboxStatus`. -/
inductive SandboxStatus where
  | ok
  | timeLimitExceeded
  | memoryLimitExceeded
  | outputLimitExceeded
  | runtimeError
  | systemError
  deriving DecidableEq, Repr

/-- `RunResult`. -/
structure RunResult where
  status : SandboxStatus := .ok
  timeUsed : Int := 0
  memoryUsed : Int := 0
  exitCode : Nat := 0
  exitSignal : Nat := 0
  sandboxError : String := ""
  errorMessage : Bytes := []
  deriving DecidableEq

/-- The limits of a run; `maxOutputSize` is the configured size as the `uint64_t`
the file size is compared with. -/
structure Limits where
  timeLimitMs : Int
  memoryLimitKb : Int
  maxOutputSize : Nat

/-- `struct timeval`. -/
structure Timeval where
  sec : Int
  usec : Int

/-- The fields of `struct rusage` that are read. -/
structure Rusage where
  utime : Timeval := ⟨0, 0⟩
  stime : Timeval := ⟨0, 0⟩
  maxrss : Int := 0

/-- The wait status of a reaped child. -/
inductive WaitStatus where
  | exited (code : Nat)
  | signaled (signal : Nat)
  | other

/-- What `wait4(WNOHANG)` answers; a running child leaves in `usage` whatever the
kernel reports of it. -/
inductive WaitReply where
  | running (usage : Rusage)
  | reaped (status : WaitStatus) (usage : Rusage)
  | error (errno : Nat) (strerror : String)

/-- The output file once the child is gone. -/
inductive OutputFile where
  | absent
  | unreadable
  | sized (bytes : Nat)

/-- A turn of the polling loop: its number, and the milliseconds since the loop
started when it looks at the clock. -/
structure Poll where
  count : Nat
  elapsed : Nat

/-- What the kernel and the file system answer during one run. -/
structure Host where
  /-- The rounding of `double` arithmetic. -/
  round : ℚ → ℚ
  strsignal : Nat → String
  /-- The error text when `/dev/null` does not open. -/
  devNull : Option String
  /-- The error text when `clone` fails. -/
  clone : Option String
  wait4 : Poll → WaitReply
  /-- The milliseconds a turn takes beyond its sleep. -/
  delay : Poll → Nat
  /-- The blocking wait after a kill: the milliseconds it takes and the usage it reports. -/
  reap : Poll → Nat × Rusage
  /-- `memory.peak` in bytes, when a cgroup was set up. -/
  cgroupPeak : Option Nat
  outputFile : OutputFile
  /-- The lines of the program's stderr file. -/
  stderrLines : List Bytes

def EINTR : Nat := 4
def SIGABRT : Nat := 6
def SIGKILL : Nat := 9
def SIGSEGV : Nat := 11
def SIGXCPU : Nat := 24
def SIGXFSZ : Nat := 25

def ERR_EXEC_FAILED : Nat := 127

/-- `GetExitCodeDescription`. -/
def getExitCodeDescription : Nat → String
  | 120 => "无法打开输出文件 (IO Redirect)"
  | 121 => "dup2 调用失败 (IO Redirect)"
  | 127 => "execle 调用失败 (程序启动失败)"
  | 128 => "chdir 切换工作目录失败"
  | 129 => "setgid 失败 (降权失败)"
  | 130 => "setuid 失败 (降权失败)"
  | 141 => "setrlimit(CPU) 失败"
  | 142 => "setrlimit(AS) 失败"
  | 143 => "setrlimit(STACK) 失败"
  | 144 => "setrlimit(NPROC) 失败"
  | 145 => "setrlimit(FSIZE) 失败"
  | 190 => "mount --make-rprivate 失败"
  | 191 => "bind mount 工作目录失败"
  | 192 => "bind mount 系统库失败"
  | 193 => "remount 系统库 (RO) 失败"
  | 195 => "切换到新根目录失败"
  | 194 => "pivot_root 系统调用失败"
  | 196 => "umount /old_root 失败"
  | 197 => "mount /proc 失败"
  | 200 => "mount /tmp (tmpfs) 失败"
  | 198 => "mkdir (构建 Rootfs) 失败"
  | 199 => "沙箱内部异常 (C++ Throw)"
  | _ => "与系统相关的未知错误"

/-- `ExitCodeToSandboxError`. -/
def exitCodeToSandboxError : Nat → String
  | 120 => "io_open_output_failed"
  | 121 => "io_dup2_failed"
  | 127 => "execve_failed"
  | 128 => "chdir_failed"
  | 129 => "setgid_failed"
  | 130 => "setuid_failed"
  | 141 => "rlimit_cpu_failed"
  | 142 => "rlimit_memory_failed"
  | 143 => "rlimit_stack_failed"
  | 144 => "rlimit_nproc_failed"
  | 145 => "rlimit_fsize_failed"
  | 190 => "mount_private_failed"
  | 191 => "mount_bind_self_failed"
  | 192 => "mount_bind_lib_failed"
  | 193 => "remount_ro_failed"
  | 194 => "pivot_root_failed"
  | 195 => "chdir_new_root_failed"
  | 196 => "umount_old_root_failed"
  | 197 => "mount_proc_failed"
  | 200 => "mount_tmpfs_failed"
  | 198 => "mkdir_failed"
  | 199 => "sandbox_exception"
  | code => "sandbox_child_exit_" ++ toString code

/-- `FormatSystemError`. -/
def formatSystemError (pre strerror : String) : Bytes :=
  utf8 (pre ++ ": " ++ strerror)

/-- `ReadRunExecFailureMarker`: the detail of the first marker line of the stderr file. -/
def readRunExecFailureMarker : List Bytes → Option Bytes
  | [] => none
  | line :: rest =>
    let pre := utf8 "[sandbox][run_exec_failed]"
    if hasPrefix line pre then
      match line.drop pre.length with
      | 32 :: detail => some detail
      | detail => some detail
    else readRunExecFailureMarker rest

/-- `cpu_time_ms`, computed in `double`s. -/
def Host.cpuTimeMs (host : Host) (usage : Rusage) : ℚ :=
  let ms (t : Timeval) : ℚ := host.round (host.round (t.sec * 1000) + host.round (t.usec / 1000))
  host.round (ms usage.utime + ms usage.stime)

/-- The memory a reaped program is charged: the peak of its cgroup if it is known. -/
def Host.memoryUsed (host : Host) (usage : Rusage) : Int :=
  match host.cgroupPeak with
  | some peak => if 0 < peak then peak / 1024 else usage.maxrss
  | none => usage.maxrss

/-- The output file is there and larger than allowed. -/
def Host.outputTooLarge (host : Host) (lim : Limits) : Bool :=
  match host.outputFile with
  | .sized bytes => lim.maxOutputSize < bytes
  | _ => false

def realTimeLimitMs (lim : Limits) : Int :=
  lim.timeLimitMs + 1000

/-- More than 0.8 of the memory limit is in use. -/
def Host.highAlert (host : Host) (lim : Limits) (usage : Rusage) : Bool :=
  let memRatio : ℚ :=
    if 0 < lim.memoryLimitKb then host.round (usage.maxrss / lim.memoryLimitKb) else 0
  host.round (8 / 10) < memRatio

/-- The sleep between two polls. -/
def Host.pollSleepMs (host : Host) (lim : Limits) (usage : Rusage) : Nat :=
  if host.highAlert lim usage then 10 else 50

/-- How the polling loop ends: with a result, or with a reaped child. -/
inductive Left where
  | result (r : RunResult)
  | reaped (status : WaitStatus) (usage : Rusage)

/-- One turn of the polling loop. -/
def poll (lim : Limits) (host : Host) (p : Poll) : Turn Poll Left :=
  match host.wait4 p with
  | .error errno strerror =>
    if errno = EINTR then .again ⟨p.count + 1, p.elapsed + host.delay p⟩
    else .leave (.result { status := .systemError, sandboxError := "waitpid_failed",
                           errorMessage := formatSystemError "wait4 failed" strerror })
  | .reaped status usage => .leave (.reaped status usage)
  | .running usage =>
    if lim.memoryLimitKb < usage.maxrss then
      -- the clock is read again once the killed child has been waited for
      .leave (.result { status := .memoryLimitExceeded, timeUsed := p.elapsed + (host.reap p).1,
                        memoryUsed := (host.reap p).2.maxrss, exitSignal := SIGKILL })
    else if realTimeLimitMs lim < p.elapsed then
      .leave (.result { status := .timeLimitExceeded, timeUsed := p.elapsed,
                        memoryUsed := (host.reap p).2.maxrss, exitSignal := SIGKILL })
    else .again ⟨p.count + 1, p.elapsed + host.pollSleepMs lim usage + host.delay p⟩

/-- The text for a program ended by a signal. -/
def Host.signalMessage (host : Host) (signal : Nat) : Bytes :=
  utf8 ("Runtime Error (Signal " ++ toString signal ++ ": " ++ host.strsignal signal ++ ")")

/-- The result of a program that exited. -/
def classifyExit (host : Host) (result : RunResult) (code : Nat) : RunResult :=
  let result := { result with exitSignal := 0, exitCode := code }
  if code = 0 then { result with status := .ok }
  else if code = ERR_EXEC_FAILED then
    match readRunExecFailureMarker host.stderrLines with
    | some detail =>
      { result with status := .systemError, sandboxError := "execve_failed",
                    errorMessage := if detail ≠ [] then utf8 "程序启动失败: " ++ detail
                      else utf8 "程序启动失败: execve failed" }
    | none => { result with status := .runtimeError }
  else if 120 ≤ code then
    { result with status := .systemError, sandboxError := exitCodeToSandboxError code,
                  errorMessage := utf8 ("沙箱恐慌 (退出码 " ++ toString code ++ "): " ++
                    getExitCodeDescription code) }
  else { result with status := .runtimeError }

/-- The result of a program ended by a signal. -/
def classifySignal (lim : Limits) (host : Host) (result : RunResult) (signal : Nat) : RunResult :=
  let result := { result with exitSignal := signal }
  let runtimeError :=
    { result with status := .runtimeError, errorMessage := host.signalMessage signal }
  if signal = SIGXCPU then { result with status := .timeLimitExceeded }
  else if signal = SIGKILL then
    if lim.timeLimitMs < result.timeUsed then { result with status := .timeLimitExceeded }
    else if lim.memoryLimitKb < result.memoryUsed then
      { result with status := .memoryLimitExceeded }
    else runtimeError
  else if signal = SIGXFSZ then { result with status := .outputLimitExceeded }
  else if signal = SIGABRT ∨ signal = SIGSEGV then
    if ⌈host.round (lim.memoryLimitKb * host.round (95 / 100))⌉ ≤ result.memoryUsed then
      { result with status := .memoryLimitExceeded }
    else runtimeError
  else runtimeError

/-- The result of a reaped program: output first, then memory, then how it ended. -/
def settle (lim : Limits) (host : Host) (status : WaitStatus) (usage : Rusage) : RunResult :=
  let result : RunResult :=
    { timeUsed := ⌈host.cpuTimeMs usage⌉, memoryUsed := host.memoryUsed usage }
  if host.outputTooLarge lim then
    { result with status := .outputLimitExceeded, memoryUsed := usage.maxrss }
  else if lim.memoryLimitKb < result.memoryUsed then
    { result with status := .memoryLimitExceeded }
  else
    match status with
    | .exited code => classifyExit host result code
    | .signaled signal => classifySignal lim host result signal
    | .other =>
      { result with status := .systemError, sandboxError := "wait_status_unknown",
                    errorMessage := utf8 "unknown wait status" }

/-- The result the polling loop's end leads to. -/
def Left.toResult (lim : Limits) (host : Host) : Left → RunResult
  | .result r => r
  | .reaped status usage => settle lim host status usage

/-- `Sandbox::Run`, when its polling loop ends within `fuel` turns. -/
def run (lim : Limits) (host : Host) (fuel : Nat) : Option RunResult :=
  match host.devNull with
  | some strerror =>
    some { status := .systemError, sandboxError := "open_dev_null_failed",
           errorMessage := formatSystemError "open /dev/null" strerror }
  | none =>
    match host.clone with
    | some strerror =>
      some { status := .systemError, sandboxError := "clone_failed",
             errorMessage := formatSystemError "clone failed" strerror }
    | none => (Loop.run (poll lim host) fuel ⟨0, 0⟩).map (Left.toResult lim host)

/-- The soft `RLIMIT_CPU` of the child, in seconds. -/
def cpuSoft (lim : Limits) : Nat :=
  max 1 ((lim.timeLimitMs + 999).tdiv 1000 % 2 ^ 64).toNat

end DeepOj.Sandbox
