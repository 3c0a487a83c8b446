import DeepOj.Sandbox.SharedStderr

/-!
# `RunChildFn`

The child side of a run, up to the `execve` of the judged program: a program over the system calls
it makes, each of which the kernel may fail. The child either becomes the judged program or exits;
closing the descriptors it does not need cannot fail it.
-/

namespace DeepOj.Sandbox

open Conc Go

/-! ## The exits -/

def ERR_CHDIR_FAILED : Nat := 128
def ERR_SETGID_FAILED : Nat := 129
def ERR_SETUID_FAILED : Nat := 130
def ERR_RLIMIT_CPU : Nat := 141
def ERR_RLIMIT_MEMORY : Nat := 142
def ERR_RLIMIT_STACK : Nat := 143
def ERR_RLIMIT_NPROC : Nat := 144
def ERR_RLIMIT_FSIZE : Nat := 145
def ERR_MOUNT_PRIVATE : Nat := 190
def ERR_MOUNT_BIND_SELF : Nat := 191
def ERR_MOUNT_BIND_LIB : Nat := 192
def ERR_REMOUNT_RO : Nat := 193
def ERR_PIVOT_ROOT : Nat := 194
def ERR_CHDIR_NEW_ROOT : Nat := 195
def ERR_UMOUNT_OLD : Nat := 196
def ERR_MOUNT_PROC : Nat := 197
def ERR_MKDIR_FAILED : Nat := 198
def ERR_SANDBOX_EXCEPTION : Nat := 199
def ERR_MOUNT_TMP : Nat := 200

def EEXIST : Nat := 17
def ENAMETOOLONG : Nat := 36

/-- The child exits by itself, with what it has put in its stderr. -/
structure ChildExit where
  code : Nat
  stderr : Bytes
  deriving DecidableEq, Repr

/-! ## The system calls -/

inductive MountFlag where
  | makePrivate
  | recursive
  | bind
  | remount
  | readonly
  | nosuid
  | noexec
  | nodev
  deriving DecidableEq, Repr

inductive Resource where
  | cpu
  | addressSpace
  | stack
  | nproc
  | fsize
  deriving DecidableEq, Repr

inductive Syscall where
  | dup2 (fd target : Int)
  | access (path : Bytes)
  | mkdir (path : Bytes) (mode : Nat)
  /-- `open(path, O_CREAT | O_RDWR, 0666)`. -/
  | touch (path : Bytes)
  | chmod (path : Bytes) (mode : Nat)
  | mount (source : Option Bytes) (target : Bytes) (fstype : Option String) (flags : List MountFlag)
      (data : Option String)
  | pivotRoot (newRoot putOld : Bytes)
  | chdir (path : Bytes)
  | umount (target : Bytes)
  | rmdir (path : Bytes)
  /-- The soft and the hard limit, where there is one. -/
  | setrlimit (resource : Resource) (cur max : Option Nat)
  | clearGroups
  | setgid (gid : Nat)
  | setuid (uid : Nat)
  | noNewPrivs
  | seccompInit
  /-- Allow a system call; where an argument holds the flags of an `open`, only for reading. -/
  | seccompAllow (name : String) (flagsArg : Option Nat)
  | seccompLoad
  | execve (path : Bytes)
  deriving DecidableEq, Repr

inductive ChildEffect where
  | sys (c : Syscall)
  | write (msg : Bytes)

/-- A system call fails with an `errno`; a write tells how much was written. -/
@[reducible] def ChildEffect.Reply : ChildEffect → Type
  | .sys _ => Option Nat
  | .write _ => Nat

abbrev Child (α : Type) : Type := ExceptT ChildExit (Prog ChildEffect ChildEffect.Reply) α

def sys (c : Syscall) : Child (Option Nat) := ExceptT.lift (Prog.perform (ChildEffect.sys c))

/-- `_exit(code)` when the call fails. -/
def orExit (c : Syscall) (code : Nat) : Child Unit := do
  if (← sys c).isSome then throw ⟨code, []⟩

/-- Put a message in the stderr and exit. -/
def exitWith {α : Type} (code : Nat) (msg : Bytes) : Child α := do
  let n ← ExceptT.lift (Prog.perform (ChildEffect.write msg))
  throw ⟨code, msg.take n⟩

/-! ## What the child is given -/

/-- What the messages tell of the process. -/
structure ChildEnv where
  strerror : Nat → String
  uid : Int
  gid : Int
  euid : Int
  egid : Int
  /-- `JUDGE_RUN_SECCOMP_MODE`. -/
  seccompMode : Option String

/-- The fields of `GlobalConfig` that `RunChildFn` reads. -/
structure RunnerConfig where
  mountDirs : List Bytes
  mountFiles : List Bytes
  compileMemLimit : Int
  runTmpfsSizeMb : Int
  cgroupPidsLimit : Int
  runUid : Nat
  runGid : Nat

/-- `RunChildArgs`; the time and the memory limit are those of `lim`. -/
structure RunChildArgs where
  exePath : Bytes
  lim : Limits
  outputLimitBytes : Nat
  inputFd : Int
  outputFd : Int
  errorFd : Int

/-- What stands before and after the last slash. -/
def splitLastSlash (path : Bytes) : Option (Bytes × Bytes) :=
  if 47 ∈ path then
    some ((path.reverse.dropWhile (· ≠ 47)).tail.reverse, (path.reverse.takeWhile (· ≠ 47)).reverse)
  else none

/-! ## The file system -/

/-- A path of an error message, if there is one. -/
def labelled (label : String) : Option Bytes → Bytes
  | some path => if path ≠ [] then utf8 label ++ path else []
  | none => []

/-- The message of `ExitSetupError`, in a buffer of 1536 bytes. -/
def setupErrorText (env : ChildEnv) (errno code : Nat) (step : String) (workDir : Bytes)
    (src target : Option Bytes) : Bytes :=
  (utf8 ("[sandbox][setup_rootfs] step=" ++ step ++ " code=" ++ toString code ++ " errno=" ++ toString errno ++
    "(" ++ env.strerror errno ++ ") uid=" ++ toString env.uid ++ " gid=" ++ toString env.gid ++
    " euid=" ++ toString env.euid ++ " egid=" ++ toString env.egid ++ " work_dir=") ++ workDir ++
    labelled " src=" src ++ labelled " target=" target).take 1535 ++ [10]

def exitSetupError {α : Type} (env : ChildEnv) (errno code : Nat) (step : String) (workDir : Bytes)
    (src target : Option Bytes) : Child α :=
  exitWith code (setupErrorText env errno code step workDir src target)

/-- `ExitSetupError` when the call fails, unless with the tolerated `errno`. -/
def setupCall (env : ChildEnv) (c : Syscall) (tolerated : Option Nat) (code : Nat) (step : String)
    (workDir : Bytes) (src target : Option Bytes) : Child Unit := do
  match ← sys c with
  | none => pure ()
  | some errno =>
    if tolerated = some errno then pure () else exitSetupError env errno code step workDir src target

/-- `EnsureParentDir`. -/
def ensureParentDir (env : ChildEnv) (path base : Bytes) : Child Unit :=
  match splitLastSlash (path.take 511) with
  | none => pure ()
  | some (parent, _) =>
    if base = [] ∨ hasPrefix parent base = false then pure ()
    else
      let ends := (List.range' (base.length + 1) (parent.length - base.length)).filter fun i =>
        i = parent.length ∨ parent[i]? = some 47
      ends.forM fun i =>
        setupCall env (.mkdir (parent.take i) 0o755) (some EEXIST) ERR_MKDIR_FAILED "mkdir_parent" base none
          (some (parent.take i))

/-- A directory is bound read-only at its target. -/
def placeDir (env : ChildEnv) (workDir src target : Bytes) : Child Unit := do
  ensureParentDir env target workDir
  setupCall env (.mkdir target 0o755) (some EEXIST) ERR_MKDIR_FAILED "mkdir_mount_dir" workDir (some src)
    (some target)
  setupCall env (.mount (some src) target none [.bind, .recursive] none) none ERR_MOUNT_BIND_LIB
    "mount_bind_dir" workDir (some src) (some target)
  setupCall env (.mount (some src) target none [.bind, .recursive, .readonly, .remount] none) none
    ERR_REMOUNT_RO "mount_remount_dir_ro" workDir (some src) (some target)

/-- One of the configured directories is placed below the work directory. -/
def mountDir (env : ChildEnv) (workDir src : Bytes) : Child Unit := do
  setupCall env (.access src) none ERR_MOUNT_BIND_LIB "mount_dir_not_found" workDir (some src) none
  let target := workDir ++ src
  if 512 ≤ target.length then
    exitSetupError env ENAMETOOLONG ERR_MKDIR_FAILED "mount_dir_target_too_long" workDir (some src)
      (some (target.take 511))
  else placeDir env workDir src target

/-- One of the configured files; here a path that is too long is cut. -/
def mountFile (env : ChildEnv) (workDir src : Bytes) : Child Unit := do
  setupCall env (.access src) none ERR_MOUNT_BIND_LIB "mount_file_not_found" workDir (some src) none
  let target := (workDir ++ src).take 511
  ensureParentDir env target workDir
  setupCall env (.touch target) (some EEXIST) ERR_MKDIR_FAILED "touch_mount_file_target" workDir (some src)
    (some target)
  setupCall env (.mount (some src) target none [.bind] none) none ERR_MOUNT_BIND_LIB "mount_bind_file" workDir
    (some src) (some target)
  setupCall env (.mount (some src) target none [.bind, .remount, .readonly] none) none ERR_REMOUNT_RO
    "mount_remount_file_ro" workDir (some src) (some target)

def root : Bytes := utf8 "/"

/-- `SetupRootfs`. -/
def setupRootfs (env : ChildEnv) (cfg : RunnerConfig) (workDir : Bytes) : Child Unit := do
  setupCall env (.mount none root none [.makePrivate, .recursive] none) none ERR_MOUNT_PRIVATE
    "mount_private_root" workDir (some root) (some root)
  setupCall env (.mount (some workDir) workDir none [.bind, .recursive] none) none ERR_MOUNT_BIND_SELF
    "mount_bind_self" workDir (some workDir) (some workDir)
  cfg.mountDirs.forM (mountDir env workDir)
  cfg.mountFiles.forM (mountFile env workDir)
  let oldRoot := (workDir ++ utf8 "/old_root").take 511
  setupCall env (.mkdir oldRoot 0o755) (some EEXIST) ERR_MKDIR_FAILED "mkdir_old_root" workDir none (some oldRoot)
  setupCall env (.pivotRoot workDir oldRoot) none ERR_PIVOT_ROOT "pivot_root" workDir (some workDir) (some oldRoot)
  setupCall env (.chdir root) none ERR_CHDIR_NEW_ROOT "chdir_new_root" workDir (some root) (some root)
  setupCall env (.umount (utf8 "/old_root")) none ERR_UMOUNT_OLD "umount_old_root" workDir
    (some (utf8 "/old_root")) none
  let _ ← sys (.rmdir (utf8 "old_root"))

/-- A directory to mount on, unless it is there. -/
def mountPoint (path : String) (mode code : Nat) : Child Unit := do
  match ← sys (.mkdir (utf8 path) mode) with
  | none => pure ()
  | some errno => if errno = EEXIST then pure () else throw ⟨code, []⟩

/-- The root becomes read-only; `/tmp` and `/proc` are mounted over it. -/
def mountRuntime (cfg : RunnerConfig) : Child Unit := do
  mountPoint "/tmp" 0o1777 ERR_MOUNT_TMP
  mountPoint "/proc" 0o755 ERR_MOUNT_PROC
  orExit (.chmod root 0o555) ERR_CHDIR_FAILED
  orExit (.mount none root none [.remount, .bind, .readonly] none) ERR_REMOUNT_RO
  let runTmpfsMb := if 0 < cfg.runTmpfsSizeMb then cfg.runTmpfsSizeMb else 64
  orExit (.mount (some (utf8 "tmpfs")) (utf8 "/tmp") (some "tmpfs") []
    (some ("size=" ++ toString runTmpfsMb ++ "m,mode=1777"))) ERR_MOUNT_TMP
  orExit (.mount (some (utf8 "proc")) (utf8 "/proc") (some "proc") [] none) ERR_MOUNT_PROC
  orExit (.mount (some (utf8 "proc")) (utf8 "/proc") (some "proc")
    [.remount, .readonly, .nosuid, .noexec, .nodev] none) ERR_MOUNT_PROC

/-! ## Limits and privileges -/

def limitResources (cfg : RunnerConfig) (args : RunChildArgs) : Child Unit := do
  orExit (.setrlimit .cpu (some (cpuSoft args.lim)) (some (cpuSoft args.lim + 1))) ERR_RLIMIT_CPU
  let memBytes := if 0 < args.lim.memoryLimitKb then args.lim.memoryLimitKb.toNat * 1024
    else (cfg.compileMemLimit % 2 ^ 64).toNat
  orExit (.setrlimit .addressSpace (some memBytes) (some memBytes)) ERR_RLIMIT_MEMORY
  orExit (.setrlimit .stack none none) ERR_RLIMIT_STACK
  let nprocCap := max 10 (if 0 < cfg.cgroupPidsLimit then cfg.cgroupPidsLimit.toNat else 20)
  orExit (.setrlimit .nproc (some nprocCap) (some nprocCap)) ERR_RLIMIT_NPROC
  orExit (.setrlimit .fsize (some args.outputLimitBytes) (some args.outputLimitBytes)) ERR_RLIMIT_FSIZE

def dropPrivileges (cfg : RunnerConfig) : Child Unit := do
  orExit .clearGroups ERR_SETGID_FAILED
  orExit (.chdir root) ERR_CHDIR_FAILED
  orExit (.setgid cfg.runGid) ERR_SETGID_FAILED
  orExit (.setuid cfg.runUid) ERR_SETUID_FAILED

/-- The system calls that are allowed without a condition. -/
def allowedSyscalls : List String :=
  ["execve", "execveat", "read", "write", "close", "fstat", "lseek", "brk", "mmap", "munmap", "mprotect", "exit",
    "exit_group", "uname", "access", "readlink", "gettimeofday", "clock_gettime", "rt_sigaction",
    "rt_sigprocmask", "rt_sigreturn", "sigaltstack", "getpid", "getppid", "gettid", "getuid", "geteuid", "getgid",
    "getegid", "fcntl", "statx", "statfs", "fstatfs", "ioctl", "madvise", "sched_getaffinity", "prlimit64", "rseq",
    "getrandom", "futex", "newfstatat", "faccessat", "pread64", "arch_prctl", "set_tid_address", "set_robust_list"]

/-- `ShouldEnableRunSeccomp`. -/
def shouldEnableRunSeccomp (env : ChildEnv) : Bool :=
  match env.seccompMode with
  | none => true
  | some mode => mode ≠ "off"

/-- `LoadSeccompRules`. -/
def loadSeccompRules : Child Unit := do
  orExit .seccompInit ERR_SANDBOX_EXCEPTION
  orExit (.seccompAllow "open" (some 1)) ERR_SANDBOX_EXCEPTION
  orExit (.seccompAllow "openat" (some 2)) ERR_SANDBOX_EXCEPTION
  allowedSyscalls.forM fun name => orExit (.seccompAllow name none) ERR_SANDBOX_EXCEPTION
  orExit .seccompLoad ERR_SANDBOX_EXCEPTION

/-! ## The program is started -/

def launchMarker : Bytes := utf8 "[sandbox][run_exec_failed]"

/-- The message of `ExitRunExecError`, in a buffer of 1024 bytes. -/
def execErrorText (env : ChildEnv) (errno : Nat) (exe : Bytes) : Bytes :=
  (launchMarker ++ utf8 (" errno=" ++ toString errno ++ "(" ++ env.strerror errno ++ ") exe=") ++ exe).take 1023 ++
    [10]

/-- `RunChildFn`, until the judged program takes over. -/
def runChildFn (env : ChildEnv) (cfg : RunnerConfig) (args : RunChildArgs) : Child Unit := do
  orExit (.dup2 args.inputFd 0) 101
  orExit (.dup2 args.outputFd 1) 102
  orExit (.dup2 args.errorFd 2) 103
  match splitLastSlash args.exePath with
  | none => throw ⟨ERR_CHDIR_FAILED, []⟩
  | some (workDir, filename) =>
    setupRootfs env cfg workDir
    mountRuntime cfg
    limitResources cfg args
    dropPrivileges cfg
    let newExe := root ++ filename
    orExit .noNewPrivs ERR_SANDBOX_EXCEPTION
    if shouldEnableRunSeccomp env then loadSeccompRules
    match ← sys (.execve newExe) with
    | none => pure ()
    | some errno => exitWith ERR_EXEC_FAILED (execErrorText env errno newExe)

/-! ## How the child can exit -/

/-- However the kernel answers, the child exits only in such a way. -/
structure Exits {α : Type} (P : ChildExit → Prop) (p : Child α) : Prop where
  always : Prog.Always (fun x : Except ChildExit α => ∀ e, x = .error e → P e) p.run

section Exits

variable {α β : Type} {P : ChildExit → Prop}

theorem Exits.bind {p : Child α} {f : α → Child β} (hp : Exits P p) (hf : ∀ a, Exits P (f a)) :
    Exits P (p >>= f) := by
  refine ⟨hp.always.bind fun x hx => ?_⟩
  cases x with
  | ok a => exact (hf a).always
  | error e =>
    intro e' he'
    cases he'
    exact hx e rfl

theorem exits_pure (a : α) : Exits P (pure a : Child α) := ⟨fun _ he => nomatch he⟩

theorem exits_throw {e : ChildExit} (h : P e) : Exits P (throw e : Child α) := by
  constructor
  intro e' he'
  cases he'
  exact h

theorem exits_sys (c : Syscall) : Exits P (sys c) := ⟨fun _ _ he => nomatch he⟩

theorem exits_orExit {c : Syscall} {code : Nat} (h : P ⟨code, []⟩) : Exits P (orExit c code) := by
  refine (exits_sys c).bind fun errno => ?_
  split
  · exact exits_throw h
  · exact exits_pure _

theorem exits_exitWith {code : Nat} {msg : Bytes} (h : ∀ n, P ⟨code, msg.take n⟩) :
    Exits P (exitWith code msg : Child α) := by
  refine Exits.bind (p := ExceptT.lift (Prog.perform (ChildEffect.write msg))) ?_ fun n => exits_throw (h n)
  exact ⟨fun _ _ he => nomatch he⟩

theorem exits_forM {l : List β} {f : β → Child Unit} (h : ∀ b ∈ l, Exits P (f b)) : Exits P (l.forM f) := by
  induction l with
  | nil => exact exits_pure ()
  | cons b l ih =>
    have hb := h b List.mem_cons_self
    exact hb.bind fun _ => ih fun b' hb' => h b' (List.mem_cons_of_mem b hb')

end Exits

/-- The ways in which the child can exit: where its descriptors are set up, in a later step, or because
the program cannot be executed. -/
def SetupExit (e : ChildExit) : Prop :=
  e.code ∈ [101, 102, 103] ∨ (120 ≤ e.code ∧ e.code ≠ ERR_EXEC_FAILED) ∨
    (e.code = ERR_EXEC_FAILED ∧ ∃ env errno exe n, e.stderr = (execErrorText env errno exe).take n)

/-- An exit of a later step. -/
theorem setupExit_of_le {code : Nat} {stderr : Bytes} (h : 120 ≤ code ∧ code ≠ ERR_EXEC_FAILED) :
    SetupExit ⟨code, stderr⟩ := .inr (.inl h)

section Steps

variable {env : ChildEnv} {cfg : RunnerConfig} {args : RunChildArgs} {workDir src : Bytes}

section

variable {P : ChildExit → Prop}
  (hP : ∀ {code stderr}, 120 ≤ code ∧ code ≠ ERR_EXEC_FAILED → P ⟨code, stderr⟩)

include hP

theorem exits_setupCall {c : Syscall} {tolerated : Option Nat} {code : Nat} {step : String} {src target : Option Bytes}
    (h : 120 ≤ code ∧ code ≠ ERR_EXEC_FAILED) :
    Exits P (setupCall env c tolerated code step workDir src target) := by
  refine (exits_sys c).bind fun reply => ?_
  cases reply with
  | none => exact exits_pure _
  | some errno =>
    dsimp only
    split
    · exact exits_pure _
    · exact exits_exitWith fun _ => hP h

theorem exits_ensureParentDir {path base : Bytes} : Exits P (ensureParentDir env path base) := by
  unfold ensureParentDir
  split
  · exact exits_pure _
  · split
    · exact exits_pure _
    · exact exits_forM fun _ _ => exits_setupCall hP (by decide)

theorem exits_mountDir : Exits P (mountDir env workDir src) := by
  refine (exits_setupCall hP (by decide)).bind fun _ => ?_
  dsimp only
  split
  · exact exits_exitWith fun _ => hP (by decide)
  · refine (exits_ensureParentDir hP).bind fun _ => ?_
    refine (exits_setupCall hP (by decide)).bind fun _ => ?_
    exact (exits_setupCall hP (by decide)).bind fun _ => exits_setupCall hP (by decide)

theorem exits_mountFile : Exits P (mountFile env workDir src) := by
  refine (exits_setupCall hP (by decide)).bind fun _ => ?_
  refine (exits_ensureParentDir hP).bind fun _ => ?_
  refine (exits_setupCall hP (by decide)).bind fun _ => ?_
  exact (exits_setupCall hP (by decide)).bind fun _ => exits_setupCall hP (by decide)

theorem exits_setupRootfs : Exits P (setupRootfs env cfg workDir) := by
  refine (exits_setupCall hP (by decide)).bind fun _ => ?_
  refine (exits_setupCall hP (by decide)).bind fun _ => ?_
  refine (exits_forM fun _ _ => exits_mountDir hP).bind fun _ => ?_
  refine (exits_forM fun _ _ => exits_mountFile hP).bind fun _ => ?_
  refine (exits_setupCall hP (by decide)).bind fun _ => ?_
  refine (exits_setupCall hP (by decide)).bind fun _ => ?_
  refine (exits_setupCall hP (by decide)).bind fun _ => ?_
  refine (exits_setupCall hP (by decide)).bind fun _ => ?_
  exact (exits_sys _).bind fun _ => exits_pure _

/-- A step that only exits with its code. -/
theorem exits_step {c : Syscall} {code : Nat} (h : 120 ≤ code ∧ code ≠ ERR_EXEC_FAILED) :
    Exits P (orExit c code) :=
  exits_orExit (hP h)

theorem exits_mountPoint {path : String} {mode code : Nat} (h : 120 ≤ code ∧ code ≠ ERR_EXEC_FAILED) :
    Exits P (mountPoint path mode code) := by
  refine (exits_sys _).bind fun reply => ?_
  cases reply with
  | none => exact exits_pure _
  | some errno =>
    dsimp only
    split
    · exact exits_pure _
    · exact exits_throw (hP h)

theorem exits_mountRuntime : Exits P (mountRuntime cfg) := by
  refine (exits_mountPoint hP (by decide)).bind fun _ => ?_
  refine (exits_mountPoint hP (by decide)).bind fun _ => ?_
  refine (exits_step hP (by decide)).bind fun _ => ?_
  refine (exits_step hP (by decide)).bind fun _ => ?_
  refine (exits_step hP (by decide)).bind fun _ => ?_
  exact (exits_step hP (by decide)).bind fun _ => exits_step hP (by decide)

theorem exits_limitResources : Exits P (limitResources cfg args) := by
  refine (exits_step hP (by decide)).bind fun _ => ?_
  refine (exits_step hP (by decide)).bind fun _ => ?_
  refine (exits_step hP (by decide)).bind fun _ => ?_
  exact (exits_step hP (by decide)).bind fun _ => exits_step hP (by decide)

theorem exits_dropPrivileges : Exits P (dropPrivileges cfg) := by
  refine (exits_step hP (by decide)).bind fun _ => ?_
  refine (exits_step hP (by decide)).bind fun _ => ?_
  exact (exits_step hP (by decide)).bind fun _ => exits_step hP (by decide)

theorem exits_loadSeccompRules : Exits P loadSeccompRules := by
  refine (exits_step hP (by decide)).bind fun _ => ?_
  refine (exits_step hP (by decide)).bind fun _ => ?_
  refine (exits_step hP (by decide)).bind fun _ => ?_
  exact (exits_forM fun _ _ => exits_step hP (by decide)).bind fun _ => exits_step hP (by decide)

end

/-- The descriptors are the only step whose exits are below 120. -/
theorem exits_runChildFn : Exits SetupExit (runChildFn env cfg args) := by
  refine (exits_orExit (.inl (by decide))).bind fun _ => ?_
  refine (exits_orExit (.inl (by decide))).bind fun _ => ?_
  refine (exits_orExit (.inl (by decide))).bind fun _ => ?_
  cases splitLastSlash args.exePath with
  | none => exact exits_throw (setupExit_of_le (by decide))
  | some parts =>
    refine (exits_setupRootfs setupExit_of_le).bind fun _ => ?_
    refine (exits_mountRuntime setupExit_of_le).bind fun _ => ?_
    refine (exits_limitResources setupExit_of_le).bind fun _ => ?_
    refine (exits_dropPrivileges setupExit_of_le).bind fun _ => ?_
    refine (exits_step setupExit_of_le (by decide)).bind fun _ => ?_
    have hlaunch : Exits SetupExit (do
        match ← sys (.execve (root ++ parts.2)) with
        | none => pure ()
        | some errno => exitWith ERR_EXEC_FAILED (execErrorText env errno (root ++ parts.2))) := by
      refine (exits_sys _).bind fun reply => ?_
      cases reply with
      | none => exact exits_pure _
      | some errno => exact exits_exitWith fun n => .inr (.inr ⟨rfl, env, errno, _, n, rfl⟩)
    split
    · exact (exits_loadSeccompRules setupExit_of_le).bind fun _ => hlaunch
    · exact hlaunch

end Steps

end DeepOj.Sandbox
