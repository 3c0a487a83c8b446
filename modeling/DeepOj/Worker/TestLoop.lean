import DeepOj.Cluster.World
import DeepOj.Sandbox.Report

/-!
# The test case loop of `ExecuteTask`

Test cases run in order until one is not accepted; the reported times and sizes
are the largest seen.
-/

namespace DeepOj.Worker

open Cluster

/-- The fields of `JudgeResult` that the loop reads. -/
structure JudgeResult where
  status : String
  timeUsed : Int
  memoryUsed : Int

/-- The judge result decoded from the object the engine printed. -/
def judgeResult (out : Sandbox.RunJSON) : JudgeResult :=
  ⟨out.status, out.timeUsed, out.memoryUsed⟩

/-- The status of a test case, given whether `CompareFiles` finds the outputs equal. -/
def caseStatus (res : JudgeResult) (same : Bool) : String :=
  if res.status = "Finished" then
    if same then "Accepted" else "Wrong Answer"
  else res.status

variable {C : Type} (execute : C → Except String JudgeResult) (same : C → Bool)

/-- The loop from a test case on, with the maxima so far. -/
def runCases : List C → Int → Int → Except String (String × Int × Int)
  | [], maxTime, maxMem => .ok ("Accepted", maxTime, maxMem)
  | c :: cs, maxTime, maxMem =>
    match execute c with
    | .error err => .error err
    | .ok res =>
      let maxTime := max maxTime res.timeUsed
      let maxMem := max maxMem res.memoryUsed
      if caseStatus res (same c) ≠ "Accepted" then .ok (caseStatus res (same c), maxTime, maxMem)
      else runCases cs maxTime maxMem

/-- What `ExecuteTask` finds out by running the test cases. -/
def judgeCases (cases : List C) : JudgeOutcome :=
  match runCases execute same cases 0 0 with
  | .error err => .executeFailed err
  | .ok (status, maxTime, maxMem) => .judged status maxTime.toNat maxMem.toNat

/-- A test case counts as passed. -/
def Passed (c : C) : Prop :=
  ∃ res, execute c = .ok res ∧ caseStatus res (same c) = "Accepted"

/-- The status reported for an outcome of the loop. -/
def verdictOf : JudgeOutcome → Option String
  | .executeFailed _ => some "System Error"
  | .judged status _ _ => some status
  | _ => none

variable {execute same}

/-- A passed test case leaves the rest of the loop to run. -/
theorem runCases_cons_passed {c : C} (h : Passed execute same c) (cs : List C) (t m : Int) :
    ∃ t' m', runCases execute same (c :: cs) t m = runCases execute same cs t' m' := by
  obtain ⟨res, hres, hacc⟩ := h
  refine ⟨max t res.timeUsed, max m res.memoryUsed, ?_⟩
  rw [runCases, hres]
  show (if caseStatus res (same c) ≠ "Accepted" then _ else _) = _
  rw [if_neg (by simpa using hacc)]

/-- A test case that is not passed ends the loop, and not with "Accepted". -/
theorem runCases_cons_not_passed {c : C} (h : ¬ Passed execute same c) (cs : List C) (t m : Int) :
    ∀ t' m', runCases execute same (c :: cs) t m ≠ .ok ("Accepted", t', m') := by
  intro t' m' heq
  rw [runCases] at heq
  cases hres : execute c with
  | error err =>
    rw [hres] at heq
    cases heq
  | ok res =>
    have hne : caseStatus res (same c) ≠ "Accepted" := fun hacc => h ⟨res, hres, hacc⟩
    rw [hres] at heq
    simp only [if_pos hne] at heq
    exact hne (Prod.mk.inj (Except.ok.inj heq)).1

/-- The loop ends with "Accepted" exactly when every test case passes. -/
theorem runCases_accepted_iff (cases : List C) (t m : Int) :
    (∃ t' m', runCases execute same cases t m = .ok ("Accepted", t', m')) ↔
      ∀ c ∈ cases, Passed execute same c := by
  induction cases generalizing t m with
  | nil => simp [runCases]
  | cons c cs ih =>
    by_cases hc : Passed execute same c
    · obtain ⟨t', m', heq⟩ := runCases_cons_passed hc cs t m
      rw [heq, ih t' m']
      simp [hc]
    · constructor
      · rintro ⟨t', m', heq⟩
        exact absurd heq (runCases_cons_not_passed hc cs t m t' m')
      · intro hall
        exact absurd (hall c List.mem_cons_self) hc

/-- The verdict is "Accepted" exactly when every test case passes. -/
theorem judgeCases_accepted_iff (cases : List C) :
    verdictOf (judgeCases execute same cases) = some "Accepted" ↔
      ∀ c ∈ cases, Passed execute same c := by
  rw [← runCases_accepted_iff cases 0 0, judgeCases]
  cases runCases execute same cases 0 0 with
  | error err => simp [verdictOf]
  | ok out =>
    obtain ⟨status, t, m⟩ := out
    simp [verdictOf]

/-- The test cases before the first one that is not passed do not matter. -/
theorem runCases_append_passed {pre : List C} (h : ∀ c ∈ pre, Passed execute same c) (c : C)
    (post : List C) (t m : Int) :
    ∃ t' m', runCases execute same (pre ++ c :: post) t m =
      runCases execute same (c :: post) t' m' := by
  induction pre generalizing t m with
  | nil => exact ⟨t, m, rfl⟩
  | cons d pre ih =>
    obtain ⟨t₁, m₁, hd⟩ := runCases_cons_passed (h d List.mem_cons_self) (pre ++ c :: post) t m
    obtain ⟨t', m', hpre⟩ := ih (fun e he => h e (List.mem_cons_of_mem d he)) t₁ m₁
    exact ⟨t', m', hd.trans hpre⟩

/-- The first test case whose engine gives no result makes the job a system error. -/
theorem verdict_of_error {pre : List C} (h : ∀ c ∈ pre, Passed execute same c) {c : C}
    {err : String} (hc : execute c = .error err) (post : List C) :
    verdictOf (judgeCases execute same (pre ++ c :: post)) = some "System Error" := by
  obtain ⟨t, m, heq⟩ := runCases_append_passed h c post 0 0
  rw [judgeCases, heq, runCases, hc]
  rfl

/-- The first test case that is not accepted gives the job its status. -/
theorem verdict_of_status {pre : List C} (h : ∀ c ∈ pre, Passed execute same c) {c : C}
    {res : JudgeResult} (hc : execute c = .ok res)
    (hne : caseStatus res (same c) ≠ "Accepted") (post : List C) :
    verdictOf (judgeCases execute same (pre ++ c :: post)) = some (caseStatus res (same c)) := by
  obtain ⟨t, m, heq⟩ := runCases_append_passed h c post 0 0
  rw [judgeCases, heq, runCases, hc]
  simp only [if_pos hne]
  rfl

end DeepOj.Worker
