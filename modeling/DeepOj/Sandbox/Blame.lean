import DeepOj.Sandbox.Isolation

/-!
# Whom a run blames

A run ends in a system error when the sandbox is to blame, not the program. The parent can tell the
two apart only by the exit code and, for one code, by a line in the stderr of the program. A program
can exit with every code and write every line, and some exits of the child carry neither.
-/

namespace DeepOj.Sandbox

open Conc Go

/-! ## The marker -/

/-- The parent finds a marker in the stderr file. -/
def Marked (lines : List Bytes) : Prop := readRunExecFailureMarker lines ≠ none

instance (lines : List Bytes) : Decidable (Marked lines) := inferInstanceAs (Decidable (_ ≠ _))

section Marker

theorem marked_cons {line : Bytes} {rest : List Bytes} :
    Marked (line :: rest) ↔ launchMarker <+: line ∨ Marked rest := by
  unfold Marked
  rw [readRunExecFailureMarker, show utf8 "[sandbox][run_exec_failed]" = launchMarker from rfl]
  by_cases hpre : launchMarker <+: line
  · have hyes : hasPrefix line launchMarker = true := List.isPrefixOf_iff_prefix.mpr hpre
    simp only [hyes, if_true, hpre, true_or, iff_true]
    split <;> simp
  · have hno : hasPrefix line launchMarker = false := by
      rw [← Bool.not_eq_true]
      exact fun hyes => hpre (List.isPrefixOf_iff_prefix.mp hyes)
    simp [hno, hpre]

/-- A file begins with its first line. -/
theorem getlines_append {pre : Bytes} (hne : pre ≠ []) (hline : 10 ∉ pre) (more : Bytes) :
    ∃ rest lines, getlines (pre ++ more) = (pre ++ rest) :: lines := by
  unfold getlines
  by_cases hmore : 10 ∈ more
  · obtain ⟨first, others, rfl, hfirst⟩ := List.eq_append_cons_of_mem hmore
    have hsplit : (pre ++ (first ++ 10 :: others)).splitOn 10 = (pre ++ first) :: others.splitOn 10 := by
      rw [← List.append_assoc, List.splitOn_append_cons_self, List.splitOn_eq_singleton (by simp [hline, hfirst])]
      rfl
    rw [hsplit]
    dsimp only
    split
    · refine ⟨first, _, List.dropLast_cons_of_ne_nil (List.splitOn_ne_nil _ _)⟩
    · exact ⟨first, _, rfl⟩
  · rw [List.splitOn_eq_singleton (by simp [hline, hmore])]
    dsimp only
    rw [if_neg (by simp [hne])]
    exact ⟨more, [], rfl⟩

theorem launchMarker_line : launchMarker ≠ [] ∧ 10 ∉ launchMarker ∧ launchMarker.length = 26 := by
  decide +kernel

/-- The message of a failed `execve` is found just when the marker has been written whole. -/
theorem marked_execErrorText {env : ChildEnv} {errno : Nat} {exe : Bytes} {n : Nat} :
    Marked (getlines ((execErrorText env errno exe).take n)) ↔
      launchMarker <+: (execErrorText env errno exe).take n := by
  obtain ⟨hne, hline, hlength⟩ := launchMarker_line
  obtain ⟨more, htext⟩ : ∃ more, execErrorText env errno exe = launchMarker ++ more := by
    unfold execErrorText
    rw [List.append_assoc, List.take_append, List.take_of_length_le (by omega), List.append_assoc]
    exact ⟨_, rfl⟩
  rw [htext, List.take_append]
  by_cases hn : 26 ≤ n
  · rw [List.take_of_length_le (by omega)]
    obtain ⟨rest, lines, hlines⟩ := getlines_append hne hline (more.take (n - launchMarker.length))
    rw [hlines, marked_cons]
    exact ⟨fun _ => List.prefix_append _ _, fun _ => .inl (List.prefix_append _ _)⟩
  · -- what has been written is too short to be a marker
    rw [show n - launchMarker.length = 0 by omega, List.take_zero, List.append_nil]
    have hshort : ¬launchMarker <+: launchMarker.take n := by
      intro hpre
      have hle := hpre.length_le
      rw [List.length_take] at hle
      omega
    have hpart : 10 ∉ launchMarker.take n := fun hmem => hline (List.mem_of_mem_take hmem)
    refine ⟨fun hmark => ?_, fun hpre => absurd hpre hshort⟩
    unfold getlines at hmark
    rw [List.splitOn_eq_singleton hpart] at hmark
    dsimp only at hmark
    split at hmark
    · exact absurd rfl hmark
    · rcases marked_cons.mp hmark with hpre | hnone
      · exact hpre
      · exact absurd rfl hnone

end Marker

/-! ## The classification -/

/-- The program has kept to its limits on output and memory. -/
def Fits (lim : Limits) (host : Host) (usage : Rusage) : Prop :=
  host.outputTooLarge lim = false ∧ host.memoryUsed usage ≤ lim.memoryLimitKb

section Classification

variable {lim : Limits} {host : Host} {r : RunResult} {status : WaitStatus} {usage : Rusage} {p : Poll}

theorem classifyExit_systemError_iff {code : Nat} : (classifyExit host r code).status = .systemError ↔
    120 ≤ code ∧ (code = ERR_EXEC_FAILED → Marked host.stderrLines) := by
  unfold classifyExit Marked
  dsimp only
  split
  · rename_i hzero
    simp [hzero]
  · split
    · rename_i hcode
      cases readRunExecFailureMarker host.stderrLines with
      | none => simp [hcode]
      | some detail => simp [hcode, ERR_EXEC_FAILED]
    · rename_i hcode
      split
      · rename_i hle
        simp [hle, hcode]
      · rename_i hle
        simp [hle]

/-- When the result of a reaped child is a system error. -/
theorem settle_systemError_iff : (settle lim host status usage).status = .systemError ↔
    Fits lim host usage ∧
      match status with
      | .exited code => 120 ≤ code ∧ (code = ERR_EXEC_FAILED → Marked host.stderrLines)
      | .signaled _ => False
      | .other => True := by
  unfold settle Fits
  dsimp only
  split
  · rename_i hout
    simp [hout]
  · rename_i hout
    rw [Bool.not_eq_true] at hout
    split
    · rename_i hmem
      simp [not_le.mpr hmem]
    · rename_i hmem
      simp only [hout, not_lt.mp hmem, true_and]
      cases status with
      | exited code => exact classifyExit_systemError_iff
      | signaled signal => simpa using classifySignal_ne_systemError
      | other => simp

/-- The loop itself ends in a system error only when `wait4` fails. -/
theorem poll_result_ne_systemError (hwaits : ∀ p errno strerror, host.wait4 p = .error errno strerror → errno = EINTR)
    (h : poll lim host p = .leave (.result r)) : r.status ≠ .systemError := by
  unfold poll at h
  cases hw : host.wait4 p with
  | error errno strerror =>
    rw [hw] at h
    dsimp only at h
    rw [if_pos (hwaits p errno strerror hw)] at h
    cases h
  | reaped status usage =>
    rw [hw] at h
    cases h
  | running usage =>
    rw [hw] at h
    dsimp only at h
    split at h
    · cases h
      simp
    · split at h
      · cases h
        simp
      · cases h

end Classification

/-! ## A run and its child -/

/-- How a process can end: the judged program in every way, a child that fails only with its exit. -/
def EndsAs (child : Except ChildExit Unit) (status : WaitStatus) : Prop :=
  match child with
  | .ok () => (∃ code ≤ 255, status = .exited code) ∨ ∃ signal, status = .signaled signal
  | .error e => status = .exited e.code

/-- A run whose child was started: what became of the child, and what the parent meets. -/
structure Launch where
  env : ChildEnv
  cfg : RunnerConfig
  args : RunChildArgs
  host : Host
  /-- `stderr.txt` opens; otherwise the stderr is `/dev/null`. -/
  opens : Bool
  /-- What is read as the stderr file when it did not open. -/
  stale : List Bytes
  /-- How the child has exited, unless it has become the judged program. -/
  child : Except ChildExit Unit
  produced : (runChildFn env cfg args).run.Returns (fun _ _ => True) child
  started : host.devNull = none ∧ host.clone = none
  /-- To wait for a child of one's own fails only when it is interrupted. -/
  waits : ∀ p errno strerror, host.wait4 p = .error errno strerror → errno = EINTR
  reaps : ∀ p status usage, host.wait4 p = .reaped status usage → EndsAs child status
  /-- The judged program may leave everything in the stderr file. -/
  stderr : ∀ e, child = .error e → host.stderrLines = if opens then getlines e.stderr else stale

namespace Launch

variable (c : Launch)

/-- The sandbox is blamed just for its own failures. -/
def RightlyBlamed : Prop :=
  match c.child with
  | .ok () => ∀ fuel r, run c.args.lim c.host fuel = some r → r.status ≠ .systemError
  | .error _ => ∀ fuel r, run c.args.lim c.host fuel = some r → r.status = .systemError

/-- The marker of a failed `execve` is where the parent looks for it. -/
def MarkerSeen (e : ChildExit) : Prop :=
  if c.opens then launchMarker <+: e.stderr else Marked c.stale

/-- What the parent can see tells the two apart. A program that keeps to its limits does not exit with a
code of the sandbox; a child that fails is reaped before a limit on time or memory is found exceeded, fits
the limits on memory and output, and has exited with a code of the sandbox. -/
def Separable : Prop :=
  match c.child with
  | .ok () => ∀ n code usage, (∀ j < n, Quiet c.args.lim c.host (pollAt c.args.lim c.host j)) →
      c.host.wait4 (pollAt c.args.lim c.host n) = .reaped (.exited code) usage →
      Fits c.args.lim c.host usage → code < 120 ∨ (code = ERR_EXEC_FAILED ∧ ¬Marked c.host.stderrLines)
  | .error e => ∀ n, (∀ j < n, Quiet c.args.lim c.host (pollAt c.args.lim c.host j)) →
      ¬Quiet c.args.lim c.host (pollAt c.args.lim c.host n) →
      (∃ usage, c.host.wait4 (pollAt c.args.lim c.host n) = .reaped (.exited e.code) usage ∧
        Fits c.args.lim c.host usage) ∧
      e.code ∉ [101, 102, 103] ∧ (e.code = ERR_EXEC_FAILED → c.MarkerSeen e)

variable {c}

/-- The poll at which the loop ends. -/
theorem leaves_of_quiet {n : Nat} (hquiet : ∀ j < n, Quiet c.args.lim c.host (pollAt c.args.lim c.host j))
    {l : Left} (hleave : poll c.args.lim c.host (pollAt c.args.lim c.host n) = .leave l) :
    ∃ fuel, run c.args.lim c.host fuel = some (l.toResult c.args.lim c.host) :=
  (run_iff c.started.1 c.started.2).mpr ⟨_, l, leaves_iff.mpr ⟨n, rfl, hquiet, hleave⟩, rfl⟩

/-- What a run returns is what the loop ends with, at the first poll that is not quiet. -/
theorem exists_leave {fuel : Nat} {r : RunResult} (h : run c.args.lim c.host fuel = some r) :
    ∃ n l, (∀ j < n, Quiet c.args.lim c.host (pollAt c.args.lim c.host j)) ∧
      poll c.args.lim c.host (pollAt c.args.lim c.host n) = .leave l ∧ r = l.toResult c.args.lim c.host := by
  obtain ⟨p, l, hleaves, rfl⟩ := (run_iff c.started.1 c.started.2).mp ⟨fuel, h⟩
  obtain ⟨n, rfl, hquiet, hleave⟩ := leaves_iff.mp hleaves
  exact ⟨n, l, hquiet, hleave, rfl⟩

theorem setupExit {e : ChildExit} (h : c.child = .error e) : SetupExit e :=
  exits_runChildFn.always.of_returns c.produced e h

/-- What the parent finds in the stderr file of a child that could not execute the program. -/
theorem marked_iff {e : ChildExit} (h : c.child = .error e) (hcode : e.code = ERR_EXEC_FAILED) :
    Marked c.host.stderrLines ↔ c.MarkerSeen e := by
  unfold MarkerSeen
  rw [c.stderr e h]
  split
  · rcases c.setupExit h with hdup | ⟨_, hne⟩ | ⟨_, env, errno, exe, n, htext⟩
    · have hnot : ERR_EXEC_FAILED ∉ [101, 102, 103] := by decide
      rw [hcode] at hdup
      exact absurd hdup hnot
    · exact absurd hcode hne
    · rw [htext]
      exact marked_execErrorText
  · exact Iff.rfl

/-- The judged program is not blamed on the sandbox just when it does not exit like the sandbox. -/
theorem program_iff (h : c.child = .ok ()) : c.RightlyBlamed ↔ c.Separable := by
  unfold RightlyBlamed Separable
  rw [h]
  constructor
  · intro hblame n code usage hquiet hreaped hfits
    obtain ⟨fuel, hrun⟩ := leaves_of_quiet hquiet (poll_reaped_iff.mpr hreaped)
    have hne := hblame fuel _ hrun
    rw [Left.toResult, Ne, settle_systemError_iff] at hne
    by_cases hlow : code < 120
    · exact .inl hlow
    · by_cases hcode : code = ERR_EXEC_FAILED
      · refine .inr ⟨hcode, fun hmark => hne ⟨hfits, ?_⟩⟩
        exact ⟨by omega, fun _ => hmark⟩
      · exact absurd ⟨hfits, by omega, fun heq => absurd heq hcode⟩ hne
  · intro hsep fuel r hrun
    obtain ⟨n, l, hquiet, hleave, rfl⟩ := exists_leave hrun
    cases l with
    | result r => exact poll_result_ne_systemError c.waits hleave
    | reaped status usage =>
      have hreaped := poll_reaped_iff.mp hleave
      have hstatus := c.reaps _ _ _ hreaped
      rw [h] at hstatus
      rw [Left.toResult, Ne, settle_systemError_iff]
      rintro ⟨hfits, hrest⟩
      rcases hstatus with ⟨code, _, rfl⟩ | ⟨signal, rfl⟩
      · obtain ⟨hle, hmark⟩ := hrest
        rcases hsep n code usage hquiet hreaped hfits with hlow | ⟨hcode, hnot⟩
        · omega
        · exact hnot (hmark hcode)
      · exact hrest

/-- A failure of the child is blamed on the sandbox just when it shows. -/
theorem failure_iff {e : ChildExit} (h : c.child = .error e) : c.RightlyBlamed ↔ c.Separable := by
  unfold RightlyBlamed Separable
  rw [h]
  dsimp only
  constructor
  · intro hblame n hquiet hloud
    obtain ⟨l, hleave⟩ : ∃ l, poll c.args.lim c.host (pollAt c.args.lim c.host n) = .leave l := by
      cases hpoll : poll c.args.lim c.host (pollAt c.args.lim c.host n) with
      | again p => exact absurd (poll_again_iff.mp hpoll).1 hloud
      | leave l => exact ⟨l, rfl⟩
    obtain ⟨fuel, hrun⟩ := leaves_of_quiet hquiet hleave
    have herror := hblame fuel _ hrun
    cases l with
    | result r => exact absurd herror (poll_result_ne_systemError c.waits hleave)
    | reaped status usage =>
      have hreaped := poll_reaped_iff.mp hleave
      have hstatus := c.reaps _ _ _ hreaped
      rw [h] at hstatus
      obtain rfl : status = .exited e.code := hstatus
      rw [Left.toResult, settle_systemError_iff] at herror
      obtain ⟨hfits, hle, hmark⟩ := herror
      refine ⟨⟨usage, hreaped, hfits⟩, ?_, fun hcode => (c.marked_iff h hcode).mp (hmark hcode)⟩
      intro hmem
      simp only [List.mem_cons, List.not_mem_nil, or_false] at hmem
      omega
  · intro hsep fuel r hrun
    obtain ⟨n, l, hquiet, hleave, rfl⟩ := exists_leave hrun
    have hloud : ¬Quiet c.args.lim c.host (pollAt c.args.lim c.host n) := by
      intro hq
      rw [poll_again_iff.mpr ⟨hq, rfl⟩] at hleave
      cases hleave
    obtain ⟨⟨usage, hreaped, hfits⟩, hcodes, hmark⟩ := hsep n hquiet hloud
    rw [poll_reaped_iff.mpr hreaped] at hleave
    cases hleave
    rw [Left.toResult, settle_systemError_iff]
    refine ⟨hfits, ?_, fun hcode => (c.marked_iff h hcode).mpr (hmark hcode)⟩
    rcases c.setupExit h with hdup | ⟨hle, _⟩ | ⟨hcode, _⟩
    · exact absurd hdup hcodes
    · exact hle
    · rw [hcode]
      decide

end Launch

/-- The sandbox is blamed just for its own failures if and only if what the parent can see tells them
from what a program can do. -/
theorem blame_iff (c : Launch) : c.RightlyBlamed ↔ c.Separable := by
  cases h : c.child with
  | ok u => exact c.program_iff h
  | error e => exact c.failure_iff h

/-- Every system call succeeds. -/
def willing : (e : ChildEffect) → e.Reply
  | .sys _ => none
  | .write msg => msg.length

/-- There is no descriptor left for the input. -/
def noInput : (e : ChildEffect) → e.Reply
  | .sys (.dup2 _ 0) => some 9
  | .sys _ => none
  | .write msg => msg.length

def sampleEnv : ChildEnv := ⟨fun _ => "Bad file descriptor", 0, 0, 0, 0, none⟩

def sampleConfig : RunnerConfig := ⟨[utf8 "/lib"], [utf8 "/etc/passwd"], 536870912, 64, 20, 65534, 65534⟩

def sampleArgs : RunChildArgs := ⟨utf8 "/work/main", ⟨1000, 262144, 10485760⟩, 12582912, 5, 6, 7⟩

/-- A run of a judged program that exits with `code` at once and writes `lines` to its stderr. -/
def programExit (code : Nat) (hcode : code ≤ 255) (lines : List Bytes) : Launch where
  env := sampleEnv
  cfg := sampleConfig
  args := sampleArgs
  host := { exits127 with wait4 := fun _ => .reaped (.exited code) { maxrss := 1000 }, stderrLines := lines }
  opens := true
  stale := []
  child := .ok ()
  produced := by
    have hok : (runChildFn sampleEnv sampleConfig sampleArgs).run.answer willing = .ok () := by decide +kernel
    rw [← hok]
    exact Prog.returns_answer (fun _ => trivial) _
  started := ⟨rfl, rfl⟩
  waits := by
    intro p errno strerror h
    cases h
  reaps := by
    intro p status usage h
    cases h
    exact .inl ⟨code, hcode, rfl⟩
  stderr := by
    intro e h
    cases h

/-- A child that fails in its first step. -/
def inputFails : Launch where
  env := sampleEnv
  cfg := sampleConfig
  args := sampleArgs
  host := { exits127 with wait4 := fun _ => .reaped (.exited 101) { maxrss := 1000 } }
  opens := true
  stale := []
  child := .error ⟨101, []⟩
  produced := by
    have herror : (runChildFn sampleEnv sampleConfig sampleArgs).run.answer noInput = .error ⟨101, []⟩ := by
      decide +kernel
    rw [← herror]
    exact Prog.returns_answer (fun _ => trivial) _
  started := ⟨rfl, rfl⟩
  waits := by
    intro p errno strerror h
    cases h
  reaps := by
    intro p status usage h
    cases h
    rfl
  stderr := by
    intro e h
    cases h
    rfl

/-- A program that exits with 1 is blamed itself. -/
theorem program_blamed : (programExit 1 (by decide) []).RightlyBlamed := by
  refine (blame_iff _).mpr ?_
  intro n code usage _ hreaped _
  cases hreaped
  exact .inl (by decide)

/-- A program that exits with 200 is not: its job ends in a system error. A failure to set up the input is
a runtime error of the program. -/
theorem blame_misplaced : ¬(∀ c : Launch, c.child = .ok () → c.RightlyBlamed) ∧
    ¬∀ c : Launch, c.child ≠ .ok () → c.RightlyBlamed := by
  constructor
  · intro hall
    have hsep := (programExit 200 (by decide) []).program_iff rfl |>.mp (hall _ rfl)
    have hlow := hsep 0 200 { maxrss := 1000 } (by simp) rfl ⟨rfl, by decide⟩
    rcases hlow with hlow | ⟨hcode, _⟩
    · revert hlow
      decide
    · revert hcode
      decide
  · intro hall
    have hsep := (inputFails.failure_iff rfl).mp (hall inputFails nofun)
    have hcodes := (hsep 0 (by simp) id).2.1
    revert hcodes
    decide

end DeepOj.Sandbox
