import DeepOj.Sandbox.Run

/-!
# What a run comes to

`run` leaves its loop at the first poll that is not quiet; its result is OK
only for a program that exited with code 0.
-/

namespace DeepOj.Sandbox

open Conc Go

variable {lim : Limits} {host : Host} {p p' : Poll} {l : Left} {r : RunResult}

/-! ## The polling loop -/

/-- The poll after a quiet one. -/
def advance (lim : Limits) (host : Host) (p : Poll) : Poll :=
  match host.wait4 p with
  | .running usage => ⟨p.count + 1, p.elapsed + host.pollSleepMs lim usage + host.delay p⟩
  | _ => ⟨p.count + 1, p.elapsed + host.delay p⟩

/-- The `n`-th poll of a loop that has been quiet so far. -/
def pollAt (lim : Limits) (host : Host) (n : Nat) : Poll :=
  (advance lim host)^[n] ⟨0, 0⟩

/-- A poll that finds the child running, within memory and within the wall limit. -/
def Quiet (lim : Limits) (host : Host) (p : Poll) : Prop :=
  match host.wait4 p with
  | .error errno _ => errno = EINTR
  | .reaped _ _ => False
  | .running usage => usage.maxrss ≤ lim.memoryLimitKb ∧ p.elapsed ≤ realTimeLimitMs lim

/-- The loop goes round again exactly at a quiet poll, to the one after it. -/
theorem poll_again_iff : poll lim host p = .again p' ↔ Quiet lim host p ∧ p' = advance lim host p := by
  unfold poll Quiet advance
  cases host.wait4 p with
  | error errno strerror =>
    show (if errno = EINTR then _ else _) = _ ↔ errno = EINTR ∧ _
    by_cases he : errno = EINTR
    · rw [if_pos he, Turn.again.injEq, eq_comm]
      exact ⟨fun h => ⟨he, h⟩, fun h => h.2⟩
    · simp [he]
  | reaped status usage => simp
  | running usage =>
    by_cases hm : lim.memoryLimitKb < usage.maxrss
    · simp [hm, not_le.mpr hm]
    · by_cases ht : realTimeLimitMs lim < p.elapsed
      · simp [hm, ht, not_le.mpr ht]
      · simp only [if_neg hm, if_neg ht, Turn.again.injEq, not_lt.mp hm, not_lt.mp ht, true_and]
        exact eq_comm

/-- The loop leaves at the first poll that is not quiet. -/
theorem leaves_iff :
    Loop.Leaves (poll lim host) ⟨0, 0⟩ p l ↔
      ∃ n, p = pollAt lim host n ∧ (∀ j < n, Quiet lim host (pollAt lim host j)) ∧
        poll lim host p = .leave l := by
  have hstep : ∀ s s', poll lim host s = .again s' → s' = advance lim host s :=
    fun s s' h => (poll_again_iff.mp h).2
  rw [Loop.leaves_iff_iterate hstep]
  have hquiet : ∀ q, (∃ q', poll lim host q = .again q') ↔ Quiet lim host q := by
    intro q
    constructor
    · rintro ⟨q', h⟩
      exact (poll_again_iff.mp h).1
    · intro h
      exact ⟨_, poll_again_iff.mpr ⟨h, rfl⟩⟩
  simp only [hquiet, pollAt]

/-- What `run` returns once the child has been started. -/
theorem run_iff (hnull : host.devNull = none) (hclone : host.clone = none) :
    (∃ fuel, run lim host fuel = some r) ↔
      ∃ p l, Loop.Leaves (poll lim host) ⟨0, 0⟩ p l ∧ r = l.toResult lim host := by
  simp only [run, hnull, hclone, Option.map_eq_some_iff]
  constructor
  · rintro ⟨fuel, l, hl, rfl⟩
    obtain ⟨p, hp⟩ := Loop.leaves_of_run hl
    exact ⟨p, l, hp, rfl⟩
  · rintro ⟨p, l, hl, rfl⟩
    obtain ⟨fuel, hf⟩ := hl.run
    exact ⟨fuel, l, hf, rfl⟩

/-- Wherever the loop leaves with a result of its own, that result is not OK. -/
theorem poll_result_ne_ok (h : poll lim host p = .leave (.result r)) : r.status ≠ .ok := by
  unfold poll at h
  cases hw : host.wait4 p with
  | error errno strerror =>
    rw [hw] at h
    by_cases he : errno = EINTR
    · simp [he] at h
    · simp only [if_neg he, Turn.leave.injEq, Left.result.injEq] at h
      simp [← h]
  | reaped status usage => simp [hw] at h
  | running usage =>
    rw [hw] at h
    by_cases hm : lim.memoryLimitKb < usage.maxrss
    · simp only [if_pos hm, Turn.leave.injEq, Left.result.injEq] at h
      simp [← h]
    · by_cases ht : realTimeLimitMs lim < p.elapsed
      · simp only [if_neg hm, if_pos ht, Turn.leave.injEq, Left.result.injEq] at h
        simp [← h]
      · simp [if_neg hm, if_neg ht] at h

/-- A child is reaped exactly where `wait4` says so. -/
theorem poll_reaped_iff {status : WaitStatus} {usage : Rusage} :
    poll lim host p = .leave (.reaped status usage) ↔ host.wait4 p = .reaped status usage := by
  unfold poll
  cases host.wait4 p with
  | error errno strerror => by_cases he : errno = EINTR <;> simp [he]
  | reaped s u => simp
  | running u =>
    by_cases hm : lim.memoryLimitKb < u.maxrss
    · simp [hm]
    · by_cases ht : realTimeLimitMs lim < p.elapsed <;> simp [hm, ht]

/-! ## The classification -/

variable {status : WaitStatus} {usage : Rusage}

/-- An exit is OK exactly with code 0. -/
theorem classifyExit_ok_iff {code : Nat} : (classifyExit host r code).status = .ok ↔ code = 0 := by
  unfold classifyExit
  by_cases h0 : code = 0
  · simp [h0]
  · by_cases h127 : code = ERR_EXEC_FAILED
    · cases readRunExecFailureMarker host.stderrLines <;> simp [h127, ERR_EXEC_FAILED]
    · by_cases h120 : 120 ≤ code <;> simp [h0, h127, h120]

/-- All that a signal can change in a result: the status blames the program, and the text is
the result's own or that of the signal. -/
theorem classifySignal_cases (lim : Limits) (host : Host) (r : RunResult) (signal : Nat) :
    ∃ st text, classifySignal lim host r signal =
        { r with exitSignal := signal, status := st, errorMessage := text } ∧
      (st ≠ .ok ∧ st ≠ .systemError) ∧ (text = r.errorMessage ∨ text = host.signalMessage signal) := by
  unfold classifySignal
  -- a variable, so that nothing computes the text
  generalize host.signalMessage signal = message
  by_cases hx : signal = SIGXCPU
  · rw [if_pos hx]
    exact ⟨.timeLimitExceeded, r.errorMessage, rfl, by simp, .inl rfl⟩
  rw [if_neg hx]
  by_cases hk : signal = SIGKILL
  · rw [if_pos hk]
    by_cases ht : lim.timeLimitMs < r.timeUsed
    · rw [if_pos ht]
      exact ⟨.timeLimitExceeded, r.errorMessage, rfl, by simp, .inl rfl⟩
    rw [if_neg ht]
    by_cases hm : lim.memoryLimitKb < r.memoryUsed
    · rw [if_pos hm]
      exact ⟨.memoryLimitExceeded, r.errorMessage, rfl, by simp, .inl rfl⟩
    · rw [if_neg hm]
      exact ⟨.runtimeError, message, rfl, by simp, .inr rfl⟩
  rw [if_neg hk]
  by_cases hf : signal = SIGXFSZ
  · rw [if_pos hf]
    exact ⟨.outputLimitExceeded, r.errorMessage, rfl, by simp, .inl rfl⟩
  rw [if_neg hf]
  by_cases ha : signal = SIGABRT ∨ signal = SIGSEGV
  · rw [if_pos ha]
    by_cases hm : ⌈host.round (lim.memoryLimitKb * host.round (95 / 100))⌉ ≤ r.memoryUsed
    · rw [if_pos hm]
      exact ⟨.memoryLimitExceeded, r.errorMessage, rfl, by simp, .inl rfl⟩
    · rw [if_neg hm]
      exact ⟨.runtimeError, message, rfl, by simp, .inr rfl⟩
  · rw [if_neg ha]
    exact ⟨.runtimeError, message, rfl, by simp, .inr rfl⟩

/-- A program ended by a signal is never OK. -/
theorem classifySignal_ne_ok {signal : Nat} : (classifySignal lim host r signal).status ≠ .ok := by
  obtain ⟨st, text, heq, ⟨hok, _⟩, _⟩ := classifySignal_cases lim host r signal
  rw [heq]
  exact hok

theorem classifySignal_ne_systemError {signal : Nat} :
    (classifySignal lim host r signal).status ≠ .systemError := by
  obtain ⟨st, text, heq, ⟨_, hsystem⟩, _⟩ := classifySignal_cases lim host r signal
  rw [heq]
  exact hsystem

/-- A reaped program is OK exactly when it exited with code 0 within memory and output;
how long it took makes no difference. -/
theorem settle_ok_iff : (settle lim host status usage).status = .ok ↔
    status = .exited 0 ∧ host.outputTooLarge lim = false ∧
      host.memoryUsed usage ≤ lim.memoryLimitKb := by
  unfold settle
  by_cases ho : host.outputTooLarge lim = true
  · simp [ho]
  rw [if_neg ho]
  by_cases hm : lim.memoryLimitKb < host.memoryUsed usage
  · simp [hm, not_le.mpr hm]
  simp only [if_neg hm, Bool.not_eq_true] at ho ⊢
  simp only [ho, not_lt.mp hm, and_true]
  cases status with
  | exited code => simpa using classifyExit_ok_iff
  | signaled signal => simpa using classifySignal_ne_ok
  | other => simp

/-- The result of a run that is OK. -/
theorem settle_exited_zero (ho : host.outputTooLarge lim = false)
    (hm : host.memoryUsed usage ≤ lim.memoryLimitKb) :
    settle lim host (.exited 0) usage =
      { timeUsed := ⌈host.cpuTimeMs usage⌉, memoryUsed := host.memoryUsed usage } := by
  unfold settle
  simp [ho, not_lt.mpr hm, classifyExit]

/-- A program stopped by the CPU limit exceeded its time. -/
theorem settle_cpu_limit (ho : host.outputTooLarge lim = false)
    (hm : host.memoryUsed usage ≤ lim.memoryLimitKb) :
    (settle lim host (.signaled SIGXCPU) usage).status = .timeLimitExceeded := by
  unfold settle
  simp [ho, not_lt.mpr hm, classifySignal]

/-- A run is OK exactly when the first poll that is not quiet reaps a program that exited
with code 0 within memory and output. -/
theorem run_ok_iff :
    (∃ fuel, run lim host fuel = some r) ∧ r.status = .ok ↔
      host.devNull = none ∧ host.clone = none ∧
      ∃ n usage, (∀ j < n, Quiet lim host (pollAt lim host j)) ∧
        host.wait4 (pollAt lim host n) = .reaped (.exited 0) usage ∧
        host.outputTooLarge lim = false ∧ host.memoryUsed usage ≤ lim.memoryLimitKb ∧
        r = { timeUsed := ⌈host.cpuTimeMs usage⌉, memoryUsed := host.memoryUsed usage } := by
  constructor
  · rintro ⟨⟨fuel, hrun⟩, hok⟩
    -- a run that fails before the child starts is a system error
    have hnull : host.devNull = none := by
      cases hd : host.devNull with
      | none => rfl
      | some strerror =>
        simp only [run, hd, Option.some.injEq] at hrun
        rw [← hrun] at hok
        cases hok
    have hclone : host.clone = none := by
      cases hc : host.clone with
      | none => rfl
      | some strerror =>
        simp only [run, hnull, hc, Option.some.injEq] at hrun
        rw [← hrun] at hok
        cases hok
    obtain ⟨p, l, hl, rfl⟩ := (run_iff hnull hclone).mp ⟨fuel, hrun⟩
    obtain ⟨n, rfl, hquiet, hleave⟩ := leaves_iff.mp hl
    cases l with
    | result r => exact absurd hok (poll_result_ne_ok hleave)
    | reaped status usage =>
      obtain ⟨rfl, ho, hm⟩ := settle_ok_iff.mp hok
      exact ⟨hnull, hclone, n, usage, hquiet, poll_reaped_iff.mp hleave, ho, hm,
        settle_exited_zero ho hm⟩
  · rintro ⟨hnull, hclone, n, usage, hquiet, hw, ho, hm, rfl⟩
    have hl : Loop.Leaves (poll lim host) ⟨0, 0⟩ (pollAt lim host n) (.reaped (.exited 0) usage) :=
      leaves_iff.mpr ⟨n, rfl, hquiet, poll_reaped_iff.mpr hw⟩
    exact ⟨(run_iff hnull hclone).mpr ⟨_, _, hl, (settle_exited_zero ho hm).symm⟩, rfl⟩

/-! ## The error texts -/

/-- The launcher of the child failed, and left `detail` in the stderr file. -/
def LaunchFailed (lim : Limits) (host : Host) (detail : Bytes) : Prop :=
  host.devNull = none ∧ host.clone = none ∧
    ∃ n usage, (∀ j < n, Quiet lim host (pollAt lim host j)) ∧
      host.wait4 (pollAt lim host n) = .reaped (.exited ERR_EXEC_FAILED) usage ∧
      host.outputTooLarge lim = false ∧ host.memoryUsed usage ≤ lim.memoryLimitKb ∧
      readRunExecFailureMarker host.stderrLines = some detail

/-- The text `settle` puts before the detail. -/
def launchPrefix : String := "程序启动失败: "

/-- A result that is a system error says which. -/
def Blames (r : RunResult) : Prop := r.status = .systemError → r.sandboxError ≠ ""

theorem exitCodeToSandboxError_ne (code : Nat) : exitCodeToSandboxError code ≠ "" := by
  unfold exitCodeToSandboxError
  split
  all_goals simp

theorem blames_of_ne (h : decide (r.status = .systemError) = false) : Blames r :=
  fun hr => absurd hr (of_decide_eq_false h)

/-- A result of the loop itself blames, in a text of its own. -/
theorem blames_poll (h : poll lim host p = .leave (.result r)) :
    Blames r ∧ ∃ s, r.errorMessage = utf8 s := by
  unfold poll at h
  split at h
  · split at h
    · cases h
    · cases h
      refine ⟨fun _ => ?_, _, rfl⟩
      show "waitpid_failed" ≠ ""
      decide
  · cases h
  · split at h
    · cases h
      exact ⟨blames_of_ne rfl, "", rfl⟩
    · split at h
      · cases h
        exact ⟨blames_of_ne rfl, "", rfl⟩
      · cases h

theorem blames_classifySignal (lim : Limits) (host : Host) (r : RunResult) (signal : Nat)
    (hr : ∃ s, r.errorMessage = utf8 s) :
    Blames (classifySignal lim host r signal) ∧
      ∃ s, (classifySignal lim host r signal).errorMessage = utf8 s := by
  refine ⟨fun hsystem => absurd hsystem classifySignal_ne_systemError, ?_⟩
  obtain ⟨st, text, heq, _, htext⟩ := classifySignal_cases lim host r signal
  rw [heq]
  show ∃ s, text = utf8 s
  rcases htext with hsame | hsignal
  · rw [hsame]
    exact hr
  · unfold Host.signalMessage at hsignal
    exact ⟨_, hsignal⟩

/-- Only the detail of a failed launch is not a text of the sandbox. -/
theorem blames_classifyExit (host : Host) (r : RunResult) (code : Nat)
    (hr : ∃ s, r.errorMessage = utf8 s) :
    Blames (classifyExit host r code) ∧
      ((∃ s, (classifyExit host r code).errorMessage = utf8 s) ∨
        ∃ detail, code = ERR_EXEC_FAILED ∧ readRunExecFailureMarker host.stderrLines = some detail ∧
          (classifyExit host r code).errorMessage = utf8 launchPrefix ++ detail) := by
  unfold classifyExit
  dsimp only
  split
  · exact ⟨blames_of_ne rfl, .inl hr⟩
  · split
    · rename_i hcode
      split
      · rename_i detail hmark
        refine ⟨fun _ => ?_, ?_⟩
        · show "execve_failed" ≠ ""
          decide
        · by_cases hd : detail = []
          · exact .inl ⟨_, if_neg (not_not.mpr hd)⟩
          · exact .inr ⟨detail, hcode, hmark, if_pos hd⟩
      · exact ⟨blames_of_ne rfl, .inl hr⟩
    · split
      · exact ⟨fun _ => exitCodeToSandboxError_ne code, .inl ⟨_, rfl⟩⟩
      · exact ⟨blames_of_ne rfl, .inl hr⟩

/-- What a run says of itself: whom it blames, and in which words. -/
theorem run_blames {fuel : Nat} (h : run lim host fuel = some r) :
    Blames r ∧ ((∃ s, r.errorMessage = utf8 s) ∨
      ∃ detail, LaunchFailed lim host detail ∧ r.errorMessage = utf8 launchPrefix ++ detail) := by
  cases hnull : host.devNull with
  | some strerror =>
    simp only [run, hnull, Option.some.injEq] at h
    subst h
    refine ⟨fun _ => ?_, .inl ⟨_, rfl⟩⟩
    show "open_dev_null_failed" ≠ ""
    decide
  | none =>
    cases hclone : host.clone with
    | some strerror =>
      simp only [run, hnull, hclone, Option.some.injEq] at h
      subst h
      refine ⟨fun _ => ?_, .inl ⟨_, rfl⟩⟩
      show "clone_failed" ≠ ""
      decide
    | none =>
      obtain ⟨p, l, hl, rfl⟩ := (run_iff hnull hclone).mp ⟨fuel, h⟩
      obtain ⟨n, rfl, hquiet, hleave⟩ := leaves_iff.mp hl
      cases l with
      | result r =>
        obtain ⟨hblames, hmessage⟩ := blames_poll hleave
        exact ⟨hblames, .inl hmessage⟩
      | reaped status usage =>
        have hw := poll_reaped_iff.mp hleave
        have hempty : ∃ s, ([] : Bytes) = utf8 s := ⟨"", rfl⟩
        show Blames (settle lim host status usage) ∧ _
        rw [Left.toResult]
        unfold settle
        simp only
        split
        · exact ⟨blames_of_ne rfl, .inl hempty⟩
        · rename_i hout
          split
          · exact ⟨blames_of_ne rfl, .inl hempty⟩
          · rename_i hmem
            cases status with
            | exited code =>
              obtain ⟨hblames, hmessage⟩ := blames_classifyExit host
                { timeUsed := ⌈host.cpuTimeMs usage⌉, memoryUsed := host.memoryUsed usage } code hempty
              refine ⟨hblames, hmessage.imp_right ?_⟩
              rintro ⟨detail, rfl, hmark, htext⟩
              exact ⟨detail, ⟨hnull, hclone, n, usage, hquiet, hw, Bool.eq_false_iff.mpr hout,
                not_lt.mp hmem, hmark⟩, htext⟩
            | signaled signal =>
              obtain ⟨hblames, hmessage⟩ := blames_classifySignal lim host
                { timeUsed := ⌈host.cpuTimeMs usage⌉, memoryUsed := host.memoryUsed usage } signal hempty
              exact ⟨hblames, .inl hmessage⟩
            | other =>
              refine ⟨fun _ => ?_, .inl ⟨_, rfl⟩⟩
              show "wait_status_unknown" ≠ ""
              decide

/-- A failed launch is reported with its detail. -/
theorem run_launchFailed {fuel : Nat} {detail : Bytes} (hfail : LaunchFailed lim host detail)
    (hd : detail ≠ []) (h : run lim host fuel = some r) :
    r.errorMessage = utf8 launchPrefix ++ detail := by
  obtain ⟨hnull, hclone, n, usage, hquiet, hw, hout, hmem, hmark⟩ := hfail
  have hleaves : Loop.Leaves (poll lim host) ⟨0, 0⟩ (pollAt lim host n)
      (.reaped (.exited ERR_EXEC_FAILED) usage) :=
    leaves_iff.mpr ⟨n, rfl, hquiet, poll_reaped_iff.mpr hw⟩
  obtain ⟨p, l, hl, rfl⟩ := (run_iff hnull hclone).mp ⟨fuel, h⟩
  obtain ⟨-, rfl⟩ := hleaves.unique hl
  rw [Left.toResult, settle]
  simp only [hout, Bool.false_eq_true, if_false, if_neg (not_lt.mpr hmem)]
  rw [classifyExit]
  simp only [hmark]
  rw [if_neg (by decide), if_pos trivial]
  exact if_pos hd

end DeepOj.Sandbox
