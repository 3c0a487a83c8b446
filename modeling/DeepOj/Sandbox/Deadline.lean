import DeepOj.Sandbox.RunSpec
import DeepOj.Worker.TestLoop
import Mathlib.Data.Int.ConditionallyCompleteOrder

/-!
# The sandbox's time limits and the worker's deadline

The kernel stops a spinning child after whole seconds of CPU time; the polling
loop kills a sleeping one 1000 ms after its time limit. The worker gives up on
the engine `ExecTimeoutBufferMs` after the time limit. Everything starts at
once and takes no time of its own.
-/

namespace DeepOj.Sandbox

open Conc Go Worker

/-- A child that never exits by itself, and that breaks no limit but time: it spins on a
full core, or sleeps. The largest resident set only grows. -/
structure Idler (lim : Limits) where
  spinning : Bool
  round : ℚ → ℚ
  round_mono : Monotone round
  strsignal : Nat → String
  /-- The resident set in KB that the loop sees after so many milliseconds. -/
  maxrss : Nat → Int
  maxrss_mono : Monotone maxrss
  maxrss_le : ∀ t, maxrss t ≤ lim.memoryLimitKb
  cgroupPeak : Option Nat
  peak_le : ∀ peak, cgroupPeak = some peak → (peak : Int) / 1024 ≤ lim.memoryLimitKb
  outputFile : OutputFile
  output_le : ∀ bytes, outputFile = .sized bytes → bytes ≤ lim.maxOutputSize
  stderrLines : List Bytes

namespace Idler

variable {lim : Limits} (child : Idler lim)

/-- The usage the kernel reports of the child. -/
def usage (t : Nat) : Rusage :=
  { utime := ⟨if child.spinning then (t / 1000 : Nat) else 0, 0⟩, maxrss := child.maxrss t }

/-- The CPU limit has stopped the child. -/
def Stopped (t : Nat) : Prop :=
  child.spinning = true ∧ 1000 * cpuSoft lim ≤ t

instance (t : Nat) : Decidable (child.Stopped t) :=
  inferInstanceAs (Decidable (_ ∧ _))

/-- The host of a run of this child, with no overhead. -/
def host : Host where
  round := child.round
  strsignal := child.strsignal
  devNull := none
  clone := none
  wait4 := fun p =>
    if child.Stopped p.elapsed then
      .reaped (.signaled SIGXCPU) (child.usage (1000 * cpuSoft lim))
    else .running (child.usage p.elapsed)
  delay := fun _ => 0
  reap := fun p => (0, child.usage p.elapsed)
  cgroupPeak := child.cgroupPeak
  outputFile := child.outputFile
  stderrLines := child.stderrLines

/-- More than 0.8 of the memory limit is in use after `t` milliseconds. -/
def Alert (t : Nat) : Prop :=
  child.host.highAlert lim (child.usage t) = true

instance (t : Nat) : Decidable (child.Alert t) :=
  inferInstanceAs (Decidable (_ = true))

end Idler

/-- The deadline `ExecuteTask` gives one test case. -/
def caseTimeoutMs (lim : Limits) (bufferMs : Int) : Int :=
  lim.timeLimitMs + bufferMs

/-- What `Execute` returns for an engine whose loop ends at `last`: an engine that has
printed nothing when its deadline comes is killed. -/
def executeUntil (jobID : String) (attemptID : Int) (deadline : Int) (last : Poll)
    (r : RunResult) : Except String JudgeResult :=
  if last.elapsed < deadline then .ok (judgeResult (runReport jobID attemptID r))
  else .error "judge protocol error: empty_stdout"

/-- The sandbox detects the child before the worker's deadline. -/
def DetectedInTime (lim : Limits) (host : Host) (bufferMs : Int) : Prop :=
  ∃ last l, Loop.Leaves (poll lim host) ⟨0, 0⟩ last l ∧ last.elapsed < caseTimeoutMs lim bufferMs

/-- A job whose test cases pass up to this run is reported with this status. -/
def JobReported (lim : Limits) (host : Host) (bufferMs : Int) (status : String) : Prop :=
  ∃ last l, Loop.Leaves (poll lim host) ⟨0, 0⟩ last l ∧
    ∀ (jobID : String) (attemptID : Int) (execute : Nat → Except String JudgeResult)
      (same : Nat → Bool) (pre post : List Nat) (c : Nat),
      (∀ d ∈ pre, Passed execute same d) →
      execute c = executeUntil jobID attemptID (caseTimeoutMs lim bufferMs) last
        (l.toResult lim host) →
      verdictOf (judgeCases execute same (pre ++ c :: post)) = some status

/-- The buffer that lets the child be detected in time. A spinning child needs what rounding
the limit up to seconds adds. A sleeping one needs the 1000 ms of the wall limit and the
rest of the poll it ends in: polls are 50 ms apart, or 10 ms once memory is short. -/
def BufferSuffices {lim : Limits} (child : Idler lim) (bufferMs : Int) : Prop :=
  if child.spinning then (lim.timeLimitMs + 999) / 1000 * 1000 - lim.timeLimitMs < bufferMs
  else if child.Alert ((lim.timeLimitMs + 1000) / 50 * 50).toNat then
    1010 - lim.timeLimitMs % 10 < bufferMs
  else 1050 - lim.timeLimitMs % 50 < bufferMs

namespace Idler

variable {lim : Limits} {child : Idler lim} {t T : Nat} {l : Left}

/-! ## What a poll finds -/

/-- Once memory is short it stays short. -/
theorem alert_mono {t t' : Nat} (h : child.Alert t) (hle : t ≤ t') : child.Alert t' := by
  unfold Alert Host.highAlert at h ⊢
  simp only [decide_eq_true_eq] at h ⊢
  by_cases hpos : 0 < lim.memoryLimitKb
  · rw [if_pos hpos] at h ⊢
    refine lt_of_lt_of_le h (child.round_mono ?_)
    have hrss : ((child.usage t).maxrss : ℚ) ≤ (child.usage t').maxrss :=
      Int.cast_le.mpr (child.maxrss_mono hle)
    have hlim : (0 : ℚ) ≤ lim.memoryLimitKb := Int.cast_nonneg (le_of_lt hpos)
    exact div_le_div_of_nonneg_right hrss hlim
  · rw [if_neg hpos] at h ⊢
    exact h

/-- The milliseconds to the next poll. -/
def sleepMs (child : Idler lim) (t : Nat) : Nat :=
  if child.Alert t then 10 else 50

/-- A poll of a child that is neither stopped nor over the wall limit. -/
theorem poll_quiet (hs : ¬ child.Stopped t) (hw : (t : Int) ≤ realTimeLimitMs lim) (n : Nat) :
    poll lim child.host ⟨n, t⟩ = .again ⟨n + 1, t + child.sleepMs t⟩ := by
  have hwait : child.host.wait4 ⟨n, t⟩ = .running (child.usage t) := if_neg hs
  have hmem : ¬ lim.memoryLimitKb < (child.usage t).maxrss := not_lt.mpr (child.maxrss_le t)
  unfold poll
  rw [hwait]
  simp only [if_neg hmem, if_neg (not_lt.mpr hw)]
  rfl

/-- A poll of a stopped child. -/
theorem poll_stopped (hs : child.Stopped t) (n : Nat) :
    poll lim child.host ⟨n, t⟩ =
      .leave (.reaped (.signaled SIGXCPU) (child.usage (1000 * cpuSoft lim))) := by
  have hwait : child.host.wait4 ⟨n, t⟩ =
      .reaped (.signaled SIGXCPU) (child.usage (1000 * cpuSoft lim)) := if_pos hs
  exact poll_reaped_iff.mpr hwait

/-- A poll of a child over the wall limit. -/
theorem poll_over (hs : ¬ child.Stopped t) (hw : realTimeLimitMs lim < t) (n : Nat) :
    ∃ r, poll lim child.host ⟨n, t⟩ = .leave (.result r) ∧ r.status = .timeLimitExceeded := by
  have hwait : child.host.wait4 ⟨n, t⟩ = .running (child.usage t) := if_neg hs
  have hmem : ¬ lim.memoryLimitKb < (child.usage t).maxrss := not_lt.mpr (child.maxrss_le t)
  refine ⟨{ status := .timeLimitExceeded, timeUsed := t, memoryUsed := (child.usage t).maxrss,
            exitSignal := SIGKILL }, ?_, rfl⟩
  unfold poll
  rw [hwait]
  simp only [if_neg hmem, if_pos hw]
  rfl

/-! ## Walking from poll to poll -/

/-- Wherever the count stands, the loop that polls at `t` ends at time `T`, as a run over
its time limit. -/
def Ends (child : Idler lim) (t T : Nat) : Prop :=
  ∀ n, ∃ last l, Loop.Leaves (poll lim child.host) ⟨n, t⟩ last l ∧ last.elapsed = T ∧
    (l.toResult lim child.host).status = .timeLimitExceeded

/-- The child is left alone at every time before `T`. -/
def LeftAlone (child : Idler lim) (T : Nat) : Prop :=
  ∀ t < T, ¬ child.Stopped t ∧ (t : Int) ≤ realTimeLimitMs lim

/-- A quiet poll passes the loop on to the next one. -/
theorem Ends.back (hs : ¬ child.Stopped t) (hw : (t : Int) ≤ realTimeLimitMs lim)
    (h : child.Ends (t + child.sleepMs t) T) : child.Ends t T := by
  intro n
  obtain ⟨last, l, hl, hT, hr⟩ := h (n + 1)
  exact ⟨last, l, .again (poll_quiet hs hw n) hl, hT, hr⟩

/-- With memory short, the polls are at every tenth millisecond. -/
theorem Ends.tens {k U : Nat} (halone : child.LeftAlone U) (hal : child.Alert t)
    (hU : t + 10 * k ≤ U + 9) (h : child.Ends (t + 10 * k) T) : child.Ends t T := by
  induction k generalizing t with
  | zero => exact h
  | succ k ih =>
    obtain ⟨hs, hw⟩ := halone t (by omega)
    apply Ends.back hs hw
    rw [show child.sleepMs t = 10 from if_pos hal]
    apply ih (alert_mono hal (by omega))
    · omega
    · rw [show t + 10 + 10 * k = t + 10 * (k + 1) by omega]
      exact h

/-- Every fiftieth millisecond has a poll. -/
theorem Ends.fifties {m U : Nat} (halone : child.LeftAlone U) (hU : 50 * m ≤ U)
    (h : child.Ends (50 * m) T) : child.Ends 0 T := by
  induction m with
  | zero => exact h
  | succ m ih =>
    apply ih (by omega)
    by_cases hal : child.Alert (50 * m)
    · -- five short sleeps cover the fifty milliseconds
      apply Ends.tens (k := 5) halone hal (by omega)
      rw [show 50 * m + 10 * 5 = 50 * (m + 1) by omega]
      exact h
    · obtain ⟨hs, hw⟩ := halone (50 * m) (by omega)
      apply Ends.back hs hw
      rw [show child.sleepMs (50 * m) = 50 from if_neg hal]
      exact h

/-! ## When the loop ends -/

/-- The CPU limit of a positive time limit is the limit rounded up to seconds. -/
theorem cpuSoft_eq (hpos : 0 < lim.timeLimitMs) (hint : lim.timeLimitMs < 2 ^ 31) :
    (cpuSoft lim : Int) = (lim.timeLimitMs + 999) / 1000 := by
  have hdiv : (lim.timeLimitMs + 999).tdiv 1000 = (lim.timeLimitMs + 999) / 1000 :=
    Int.tdiv_eq_ediv_of_nonneg (by omega)
  have hmod : (lim.timeLimitMs + 999) / 1000 % 2 ^ 64 = (lim.timeLimitMs + 999) / 1000 :=
    Int.emod_eq_of_lt (by omega) (by omega)
  unfold cpuSoft
  rw [hdiv, hmod]
  omega

/-- A spinning child is detected at its CPU limit. -/
theorem ends_spinning (hspin : child.spinning = true) (hpos : 0 < lim.timeLimitMs)
    (hint : lim.timeLimitMs < 2 ^ 31) : child.Ends 0 (1000 * cpuSoft lim) := by
  have hcpu := cpuSoft_eq hpos hint
  -- the wall limit is never reached before the CPU limit
  have halone : child.LeftAlone (1000 * cpuSoft lim) := by
    intro t ht
    refine ⟨fun hs => ?_, ?_⟩
    · exact absurd hs.2 (not_le.mpr ht)
    · unfold realTimeLimitMs
      omega
  apply Ends.fifties (m := 20 * cpuSoft lim) halone (by omega)
  rw [show 50 * (20 * cpuSoft lim) = 1000 * cpuSoft lim by omega]
  intro n
  refine ⟨_, _, .leave (poll_stopped ⟨hspin, le_refl _⟩ n), rfl, ?_⟩
  apply settle_cpu_limit
  · show child.host.outputTooLarge lim = false
    unfold Host.outputTooLarge
    cases ho : child.host.outputFile with
    | absent => rfl
    | unreadable => rfl
    | sized bytes => exact decide_eq_false (not_lt.mpr (child.output_le bytes ho))
  · show child.host.memoryUsed _ ≤ lim.memoryLimitKb
    unfold Host.memoryUsed
    cases hc : child.host.cgroupPeak with
    | none => exact child.maxrss_le _
    | some peak =>
      by_cases hp : 0 < peak
      · simp only [if_pos hp]
        exact child.peak_le peak hc
      · simp only [if_neg hp]
        exact child.maxrss_le _

/-- The time at which a sleeping child is detected. -/
def wallDetection (child : Idler lim) : Int :=
  if child.Alert ((lim.timeLimitMs + 1000) / 50 * 50).toNat then
    (lim.timeLimitMs + 1000) / 10 * 10 + 10
  else (lim.timeLimitMs + 1000) / 50 * 50 + 50

/-- A sleeping child is detected at the first poll after the wall limit. -/
theorem ends_sleeping (hsleep : child.spinning = false) (hpos : 0 < lim.timeLimitMs) :
    child.Ends 0 child.wallDetection.toNat := by
  have hstop : ∀ t, ¬ child.Stopped t := by
    intro t hs
    rw [hs.1] at hsleep
    cases hsleep
  have hover : ∀ T : Nat, realTimeLimitMs lim < T → child.Ends T T := by
    intro T hT n
    obtain ⟨r, hr, hst⟩ := poll_over (hstop T) hT n
    exact ⟨_, _, .leave hr, rfl, hst⟩
  have hwall : realTimeLimitMs lim = lim.timeLimitMs + 1000 := rfl
  -- `W` is the wall limit, and the last poll time before it that is surely met
  obtain ⟨W, hW⟩ : ∃ W : Nat, lim.timeLimitMs + 1000 = W :=
    ⟨(lim.timeLimitMs + 1000).toNat, by omega⟩
  have halone : child.LeftAlone (W + 1) := fun t ht => ⟨hstop t, by omega⟩
  have hlast : ((lim.timeLimitMs + 1000) / 50 * 50).toNat = 50 * (W / 50) := by omega
  unfold wallDetection
  rw [hlast]
  apply Ends.fifties (m := W / 50) halone (by omega)
  by_cases hal : child.Alert (50 * (W / 50))
  · rw [if_pos hal]
    apply Ends.tens (k := W / 10 + 1 - 5 * (W / 50)) halone hal (by omega)
    rw [show ((lim.timeLimitMs + 1000) / 10 * 10 + 10).toNat =
      50 * (W / 50) + 10 * (W / 10 + 1 - 5 * (W / 50)) by omega]
    exact hover _ (by omega)
  · rw [if_neg hal]
    obtain ⟨hs, hw⟩ := halone (50 * (W / 50)) (by omega)
    apply Ends.back hs hw
    rw [show child.sleepMs (50 * (W / 50)) = 50 from if_neg hal,
      show ((lim.timeLimitMs + 1000) / 50 * 50 + 50).toNat = 50 * (W / 50) + 50 by omega]
    exact hover _ (by omega)

/-- The time at which the child is detected. -/
def detectionMs (child : Idler lim) : Nat :=
  if child.spinning then 1000 * cpuSoft lim else child.wallDetection.toNat

/-- Every run of the child ends with its detection. -/
theorem ends_at (child : Idler lim) (hpos : 0 < lim.timeLimitMs) (hint : lim.timeLimitMs < 2 ^ 31) :
    child.Ends 0 child.detectionMs := by
  unfold detectionMs
  cases hspin : child.spinning with
  | true => exact ends_spinning hspin hpos hint
  | false => exact ends_sleeping hspin hpos

/-- The buffer suffices exactly if the detection comes before the deadline. -/
theorem bufferSuffices_iff (child : Idler lim) (hpos : 0 < lim.timeLimitMs)
    (hint : lim.timeLimitMs < 2 ^ 31) (bufferMs : Int) :
    BufferSuffices child bufferMs ↔ child.detectionMs < caseTimeoutMs lim bufferMs := by
  have hcpu := cpuSoft_eq hpos hint
  unfold BufferSuffices detectionMs wallDetection caseTimeoutMs
  cases child.spinning with
  | true =>
    simp only [if_true]
    omega
  | false =>
    simp only [Bool.false_eq_true, if_false]
    by_cases hal : child.Alert ((lim.timeLimitMs + 1000) / 50 * 50).toNat
    · rw [if_pos hal, if_pos hal]
      omega
    · rw [if_neg hal, if_neg hal]
      omega

end Idler

/-! ## What the worker reports -/

variable {lim : Limits} {host : Host} {bufferMs : Int}

/-- A job is reported with one status. -/
theorem JobReported.unique {s s' : String} (h : JobReported lim host bufferMs s)
    (h' : JobReported lim host bufferMs s') : s = s' := by
  obtain ⟨last, l, hl, hs⟩ := h
  obtain ⟨last', l', hl', hs'⟩ := h'
  obtain ⟨rfl, rfl⟩ := hl.unique hl'
  have hnone : ∀ d ∈ ([] : List Nat), Passed (fun _ => executeUntil "" 0
      (caseTimeoutMs lim bufferMs) last' (l'.toResult lim host)) (fun _ => true) d :=
    fun d hd => absurd hd List.not_mem_nil
  have h₁ := hs "" 0 _ _ [] [] 0 hnone rfl
  have h₂ := hs' "" 0 _ _ [] [] 0 hnone rfl
  exact Option.some.inj (h₁.symm.trans h₂)

/-- An engine that is still silent at its deadline makes the job a system error. -/
theorem reported_of_late {last : Poll} {l : Left}
    (hl : Loop.Leaves (poll lim host) ⟨0, 0⟩ last l)
    (hlate : ¬ last.elapsed < caseTimeoutMs lim bufferMs) :
    JobReported lim host bufferMs "System Error" := by
  refine ⟨last, l, hl, fun jobID attemptID execute same pre post c hpre hexec => ?_⟩
  unfold executeUntil at hexec
  rw [if_neg hlate] at hexec
  exact verdict_of_error hpre hexec post

/-- A run over its time limit that ends before the deadline is reported as such. -/
theorem reported_of_early {last : Poll} {l : Left}
    (hl : Loop.Leaves (poll lim host) ⟨0, 0⟩ last l)
    (hr : (l.toResult lim host).status = .timeLimitExceeded)
    (hearly : last.elapsed < caseTimeoutMs lim bufferMs) :
    JobReported lim host bufferMs "Time Limit Exceeded" := by
  refine ⟨last, l, hl, fun jobID attemptID execute same pre post c hpre hexec => ?_⟩
  unfold executeUntil at hexec
  rw [if_pos hearly] at hexec
  have hst : (runReport jobID attemptID (l.toResult lim host)).status = "Time Limit Exceeded" := by
    rw [runReport_status, hr]
    rfl
  have hcase : caseStatus (judgeResult (runReport jobID attemptID (l.toResult lim host))) (same c) =
      "Time Limit Exceeded" := by
    unfold caseStatus judgeResult
    rw [hst]
    rfl
  have h := verdict_of_status hpre hexec (by rw [hcase]; decide) post
  rw [hcase] at h
  exact h

/-- Where every run ends at one time, that time decides whether it is detected and how the
job is reported. -/
theorem reported_at {child : Idler lim} {T : Nat} (h : child.Ends 0 T) (bufferMs : Int) :
    (DetectedInTime lim child.host bufferMs ↔ T < caseTimeoutMs lim bufferMs) ∧
    (JobReported lim child.host bufferMs "Time Limit Exceeded" ↔ T < caseTimeoutMs lim bufferMs) ∧
    (JobReported lim child.host bufferMs "System Error" ↔ ¬ T < caseTimeoutMs lim bufferMs) := by
  obtain ⟨last, l, hl, rfl, hr⟩ := h 0
  refine ⟨⟨?_, fun hT => ⟨last, l, hl, hT⟩⟩, ⟨?_, reported_of_early hl hr⟩,
    ⟨?_, reported_of_late hl⟩⟩
  · rintro ⟨last', l', hl', hT⟩
    obtain ⟨rfl, -⟩ := hl.unique hl'
    exact hT
  · intro htle
    by_contra hlate
    exact absurd (htle.unique (reported_of_late hl hlate)) (by decide)
  · intro hse hearly
    exact absurd (hse.unique (reported_of_early hl hr hearly)) (by decide)

/-- A child that uses 3000 KB throughout. -/
def smallIdler (lim : Limits) (spinning : Bool) (h : 3000 ≤ lim.memoryLimitKb) : Idler lim where
  spinning := spinning
  round := id
  round_mono := monotone_id
  strsignal := fun _ => "Unknown signal"
  maxrss := fun _ => 3000
  maxrss_mono := monotone_const
  maxrss_le := fun _ => h
  cgroupPeak := none
  peak_le := fun _ h => nomatch h
  outputFile := .sized 0
  output_le := fun _ h => OutputFile.sized.inj h ▸ Nat.zero_le _
  stderrLines := []

/-- A limit of one second, and the memory and output limits of an ordinary problem. -/
def oneSecond : Limits := ⟨1000, 262144, 10485760⟩

end DeepOj.Sandbox
