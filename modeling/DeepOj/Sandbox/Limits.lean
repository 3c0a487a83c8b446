import DeepOj.Sandbox.RunSpec
import DeepOj.Worker.TestLoop

/-!
# OK means within limits, up to the time limit

Only the branch for `SIGKILL` compares the CPU time with the limit in
milliseconds; the kernel's own limit is in whole seconds. A program that exits
by itself in between is OK.
-/

namespace DeepOj.Sandbox

open Conc Worker

variable {lim : Limits} {host : Host} {r : RunResult}

/-- What is said of a run by calling it OK. -/
structure WithinLimits (lim : Limits) (host : Host) (r : RunResult) : Prop where
  exited : ∃ p usage, Loop.Leaves (poll lim host) ⟨0, 0⟩ p (.reaped (.exited 0) usage)
  code : r.exitCode = 0
  time : r.timeUsed ≤ lim.timeLimitMs
  memory : r.memoryUsed ≤ lim.memoryLimitKb
  output : ∀ bytes, host.outputFile = .sized bytes → bytes ≤ lim.maxOutputSize

/-- The worker counts a test case with this result as passed, if the outputs compare as `same`. -/
def CountsAsPassed (r : RunResult) (same : Bool) : Prop :=
  ∃ jobID attemptID, caseStatus (judgeResult (runReport jobID attemptID r)) same = "Accepted"

/-- Whatever the run returns, it is within limits if it is OK, and if its test case is
counted as passed. -/
def OkWithinLimits (lim : Limits) (host : Host) : Prop :=
  ∀ fuel r, run lim host fuel = some r →
    (r.status = .ok → WithinLimits lim host r) ∧
      ∀ same, CountsAsPassed r same → WithinLimits lim host r

/-- The program exits by itself with code 0, within memory and output and before the wall
limit, having used more CPU time than the time limit. -/
def ExitsLate (lim : Limits) (host : Host) : Prop :=
  host.devNull = none ∧ host.clone = none ∧
    ∃ n usage, (∀ j < n, Quiet lim host (pollAt lim host j)) ∧
      host.wait4 (pollAt lim host n) = .reaped (.exited 0) usage ∧
      host.outputTooLarge lim = false ∧ host.memoryUsed usage ≤ lim.memoryLimitKb ∧
      lim.timeLimitMs < host.cpuTimeMs usage

/-- A test case is passed only by a run that is OK. -/
theorem countsAsPassed_ok {same : Bool} (h : CountsAsPassed r same) : r.status = .ok := by
  obtain ⟨jobID, attemptID, hacc⟩ := h
  unfold caseStatus at hacc
  by_cases hfin : (judgeResult (runReport jobID attemptID r)).status = "Finished"
  · exact (finished_iff r.status).mp hfin
  · rw [if_neg hfin] at hacc
    exact absurd hacc (status_ne_accepted r.status)

/-- An output file that is not too large fits the limit. -/
theorem output_le (h : host.outputTooLarge lim = false) {bytes : Nat}
    (hb : host.outputFile = .sized bytes) : bytes ≤ lim.maxOutputSize := by
  unfold Host.outputTooLarge at h
  rw [hb] at h
  exact not_lt.mp (of_decide_eq_false h)

/-- OK means within limits, unless the program exits late. -/
theorem ok_within_limits (lim : Limits) (host : Host) :
    OkWithinLimits lim host ↔ ¬ ExitsLate lim host := by
  constructor
  · rintro hall ⟨hnull, hclone, n, usage, hquiet, hw, ho, hm, hlate⟩
    -- the run that reaps the late program is OK
    obtain ⟨⟨fuel, hrun⟩, hok⟩ :=
      run_ok_iff.mpr ⟨hnull, hclone, n, usage, hquiet, hw, ho, hm, rfl⟩
    have htime := ((hall fuel _ hrun).1 hok).time
    have hle : host.cpuTimeMs usage ≤ lim.timeLimitMs := Int.ceil_le.mp htime
    exact absurd hlate (not_lt.mpr hle)
  · intro hnot fuel r hrun
    have hwithin : r.status = .ok → WithinLimits lim host r := by
      intro hok
      obtain ⟨hnull, hclone, n, usage, hquiet, hw, ho, hm, rfl⟩ :=
        run_ok_iff.mp ⟨⟨fuel, hrun⟩, hok⟩
      have htime : host.cpuTimeMs usage ≤ lim.timeLimitMs := by
        by_contra hlate
        exact hnot ⟨hnull, hclone, n, usage, hquiet, hw, ho, hm, not_le.mp hlate⟩
      have hl : Loop.Leaves (poll lim host) ⟨0, 0⟩ (pollAt lim host n) (.reaped (.exited 0) usage) :=
        leaves_iff.mpr ⟨n, rfl, hquiet, poll_reaped_iff.mpr hw⟩
      exact ⟨⟨_, usage, hl⟩, rfl, Int.ceil_le.mpr htime, hm, fun bytes hb => output_le ho hb⟩
    exact ⟨hwithin, fun same hpass => hwithin (countsAsPassed_ok hpass)⟩

/-- A program that exits after 900 ms of CPU time. -/
def slowProgram : Host where
  round := id
  strsignal := fun _ => "Unknown signal"
  devNull := none
  clone := none
  wait4 := fun p =>
    if 900 ≤ p.elapsed then .reaped (.exited 0) { utime := ⟨0, 900000⟩, maxrss := 3000 }
    else .running {}
  delay := fun _ => 0
  reap := fun _ => (0, {})
  cgroupPeak := none
  outputFile := .sized 2
  stderrLines := []

/-- With a limit of 100 ms it is OK, and its test case can pass. -/
theorem slow_program_ok : ¬ OkWithinLimits ⟨100, 262144, 10485760⟩ slowProgram := by
  intro h
  have hrun : run ⟨100, 262144, 10485760⟩ slowProgram 20 =
      some { timeUsed := 900, memoryUsed := 3000 } := by decide +kernel
  have htime := ((h 20 _ hrun).1 rfl).time
  exact absurd htime (by decide)

end DeepOj.Sandbox
