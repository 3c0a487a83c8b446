import DeepOj.Go.Strings
import Mathlib.Tactic.Common
import Mathlib.Tactic.SplitIfs

/-!
# The `submissions` row and the statements that update it

Each `UPDATE` of the repository layer is a partial function on one row: `none`
when the `WHERE` clause does not select the row, and otherwise the new row with
the value the statement returns. Times are microseconds of the database clock.
-/

namespace DeepOj.Repository

open Go

/-! ## JSON result maps -/

/-- The JSON values a result map holds. -/
inductive JsonValue where
  | null
  | bool (b : Bool)
  | num (n : Int)
  | str (s : String)
  deriving DecidableEq, Repr

/-- `fmt.Sprint` of a decoded value. -/
def JsonValue.sprint : JsonValue → String
  | .null => "<nil>"
  | .bool b => if b then "true" else "false"
  | .num n => toString n
  | .str s => s

/-- A `map[string]interface{}` with the values above. -/
abbrev ResultMap := List (String × JsonValue)

namespace ResultMap

/-- `m[k]`, `none` when the key is absent. -/
def get (m : ResultMap) (k : String) : Option JsonValue := List.lookup k m

/-- `m[k] = v`. -/
def set (m : ResultMap) (k : String) (v : JsonValue) : ResultMap :=
  (k, v) :: m.filter (fun p => p.1 ≠ k)

/-- `if _, ok := m[k]; !ok { m[k] = v }`. -/
def setDefault (m : ResultMap) (k : String) (v : JsonValue) : ResultMap :=
  match m.get k with
  | some _ => m
  | none => m.set k v

end ResultMap

/-! ## The row -/

/-- A row of `submissions`. -/
structure Submission where
  jobID : String
  problemID : Option Nat
  userID : Option Nat
  code : String
  language : Int
  timeLimit : Int
  memoryLimit : Int
  attemptID : Nat
  leaseOwner : Option String
  leaseUntil : Option Nat
  status : String
  state : String
  errorCode : Option String
  errorMessage : Option String
  result : Option ResultMap
  createdAt : Nat
  updatedAt : Nat
  deriving DecidableEq, Repr

namespace Submission

/-- The lifecycle has ended. -/
abbrev IsDone (s : Submission) : Prop := s.state = "done"

/-- No attempt has been started. -/
abbrev IsPending (s : Submission) : Prop := s.state = "pending"

/-- Some attempt is running. -/
abbrev IsProcessing (s : Submission) : Prop := s.state = "processing"

/-- Some worker holds the current attempt with a lease that has not expired. -/
def Leased (s : Submission) (now : Nat) : Prop :=
  s.IsProcessing ∧ ∃ t, s.leaseUntil = some t ∧ now < t

instance (s : Submission) (now : Nat) : Decidable (s.Leased now) :=
  match h : s.leaseUntil with
  | none => isFalse (by rintro ⟨_, t, ht, _⟩; rw [h] at ht; cases ht)
  | some t =>
    decidable_of_iff (s.IsProcessing ∧ now < t)
      ⟨fun ⟨hp, hlt⟩ => ⟨hp, t, h, hlt⟩,
       fun ⟨hp, t', ht', hlt⟩ => ⟨hp, by rw [h] at ht'; cases ht'; exact hlt⟩⟩

end Submission

/-- `make_interval(secs => leaseSec)` after the defaulting every caller applies. -/
def leaseInterval (leaseSec : Int) : Nat :=
  (if leaseSec ≤ 0 then 60 else leaseSec).toNat * 1000000

theorem leaseInterval_pos (leaseSec : Int) : 0 < leaseInterval leaseSec := by
  unfold leaseInterval
  split <;> omega

/-! ## The updates -/

/-- `ClaimSubmissionForRun`: the pending row is taken and gets a new attempt. -/
def claimSubmissionForRun (now : Nat) (leaseOwner : String) (leaseSec : Int) (s : Submission) :
    Option (Submission × Nat) :=
  if s.state = "pending" then
    some ({ s with
      attemptID := s.attemptID + 1
      status := "running"
      state := "processing"
      leaseOwner := some leaseOwner
      leaseUntil := some (now + leaseInterval leaseSec)
      errorCode := none
      errorMessage := none
      updatedAt := now }, s.attemptID + 1)
  else none

/-- `RefreshSubmissionLease`: the running attempt extends its lease. The lease
need not be unexpired. -/
def refreshSubmissionLease (now attemptID : Nat) (leaseOwner : String) (leaseSec : Int)
    (s : Submission) : Option (Submission × Nat) :=
  if s.attemptID = attemptID ∧ s.leaseOwner = some leaseOwner ∧ s.status = "running" ∧
      s.state = "processing" then
    some ({ s with
      leaseUntil := some (now + leaseInterval leaseSec)
      updatedAt := now }, 1)
  else none

/-- `lease_until IS NOT NULL AND lease_until > NOW()`. -/
def leaseAfter (s : Submission) (now : Nat) : Bool :=
  match s.leaseUntil with
  | some t => now < t
  | none => false

/-- `lease_until IS NOT NULL AND lease_until < NOW()`. -/
def leaseBefore (s : Submission) (now : Nat) : Bool :=
  match s.leaseUntil with
  | some t => t < now
  | none => false

/-- The fenced `UPDATE` of `FinalizeSubmissionWithFence`. -/
def finalizeSubmission (now attemptID : Nat) (leaseOwner status : String) (result : ResultMap)
    (s : Submission) : Option (Submission × Nat) :=
  if s.attemptID = attemptID ∧ s.leaseOwner = some leaseOwner ∧ leaseAfter s now = true ∧
      s.status = "running" ∧ s.state = "processing" then
    some ({ s with
      status := status
      state := "done"
      result := some result
      leaseOwner := none
      leaseUntil := none
      updatedAt := now }, 1)
  else none

/-- `MarkSubmissionPoison`: any row that is not done is failed. -/
def markSubmissionPoison (now : Nat) (errorCode errorMessage : String) (s : Submission) :
    Option (Submission × Nat) :=
  if s.state ≠ "done" then
    some ({ s with
      status := "System Error"
      state := "done"
      errorCode := some errorCode
      errorMessage := some errorMessage
      leaseOwner := none
      leaseUntil := none
      updatedAt := now }, 1)
  else none

/-- The `UPDATE` of `ReclaimSubmissionForRun`: an expired attempt is taken over. -/
def reclaimSubmissionForRun (now : Nat) (leaseOwner : String) (leaseSec : Int) (s : Submission) :
    Option (Submission × Nat) :=
  if s.status = "running" ∧ s.state = "processing" ∧ leaseBefore s now = true then
    some ({ s with
      attemptID := s.attemptID + 1
      leaseOwner := some leaseOwner
      leaseUntil := some (now + leaseInterval leaseSec)
      updatedAt := now }, s.attemptID + 1)
  else none

/-- `UpdateSubmissionResultIfNotDone`; the returned value is the age of the row. -/
def updateSubmissionResultIfNotDone (now : Nat) (status : String) (result : ResultMap)
    (s : Submission) : Option (Submission × Nat) :=
  if s.state ≠ "done" then
    some ({ s with
      status := status
      result := some result
      state := "done"
      updatedAt := now }, now - s.createdAt)
  else none

/-! ## What an update that takes effect did -/

section Inversion

variable {now a v : Nat} {o status : String} {l : Int} {m : ResultMap} {code msg : String}
  {s s' : Submission}

/-- An update takes effect exactly when its `WHERE` clause selects the row. -/
theorem updateWhere_eq_some {P : Prop} [Decidable P] {r : Submission} {n : Nat} :
    (if P then some (r, n) else none) = some (s', v) ↔ P ∧ v = n ∧ s' = r := by
  split_ifs with h
  · simp only [Option.some.injEq, Prod.mk.injEq, h, true_and]
    exact ⟨fun ⟨h₁, h₂⟩ => ⟨h₂.symm, h₁.symm⟩, fun ⟨h₁, h₂⟩ => ⟨h₂.symm, h₁.symm⟩⟩
  · simp [h]

theorem claimSubmissionForRun_eq_some :
    claimSubmissionForRun now o l s = some (s', v) ↔
      s.state = "pending" ∧ v = s.attemptID + 1 ∧
      s' = { s with
        attemptID := s.attemptID + 1, status := "running", state := "processing"
        leaseOwner := some o, leaseUntil := some (now + leaseInterval l)
        errorCode := none, errorMessage := none, updatedAt := now } :=
  updateWhere_eq_some

theorem refreshSubmissionLease_eq_some :
    refreshSubmissionLease now a o l s = some (s', v) ↔
      (s.attemptID = a ∧ s.leaseOwner = some o ∧ s.status = "running" ∧
        s.state = "processing") ∧ v = 1 ∧
      s' = { s with leaseUntil := some (now + leaseInterval l), updatedAt := now } :=
  updateWhere_eq_some

theorem finalizeSubmission_eq_some :
    finalizeSubmission now a o status m s = some (s', v) ↔
      (s.attemptID = a ∧ s.leaseOwner = some o ∧ leaseAfter s now = true ∧
        s.status = "running" ∧ s.state = "processing") ∧ v = 1 ∧
      s' = { s with
        status := status, state := "done", result := some m
        leaseOwner := none, leaseUntil := none, updatedAt := now } :=
  updateWhere_eq_some

theorem markSubmissionPoison_eq_some :
    markSubmissionPoison now code msg s = some (s', v) ↔
      s.state ≠ "done" ∧ v = 1 ∧
      s' = { s with
        status := "System Error", state := "done", errorCode := some code
        errorMessage := some msg, leaseOwner := none, leaseUntil := none, updatedAt := now } :=
  updateWhere_eq_some

theorem reclaimSubmissionForRun_eq_some :
    reclaimSubmissionForRun now o l s = some (s', v) ↔
      (s.status = "running" ∧ s.state = "processing" ∧ leaseBefore s now = true) ∧
      v = s.attemptID + 1 ∧
      s' = { s with
        attemptID := s.attemptID + 1, leaseOwner := some o
        leaseUntil := some (now + leaseInterval l), updatedAt := now } :=
  updateWhere_eq_some

theorem updateSubmissionResultIfNotDone_eq_some :
    updateSubmissionResultIfNotDone now status m s = some (s', v) ↔
      s.state ≠ "done" ∧ v = now - s.createdAt ∧
      s' = { s with status := status, result := some m, state := "done", updatedAt := now } :=
  updateWhere_eq_some

theorem leaseAfter_eq_true {n : Nat} :
    leaseAfter s n = true ↔ ∃ t, s.leaseUntil = some t ∧ n < t := by
  unfold leaseAfter
  cases s.leaseUntil with
  | none => simp
  | some t => simp

theorem leaseBefore_eq_true {n : Nat} :
    leaseBefore s n = true ↔ ∃ t, s.leaseUntil = some t ∧ t < n := by
  unfold leaseBefore
  cases s.leaseUntil with
  | none => simp
  | some t => simp

end Inversion

/-! ## Classification of rejected updates -/

/-- Why `FinalizeSubmissionWithFence` had no effect. -/
inductive FinalizeReason where
  | ok
  | staleAttempt
  | alreadyFinished
  | notInExpectedState
  | leaseLostOwnerMismatch
  | dbError
  deriving DecidableEq, Repr

/-- `terminalStatuses`. -/
def terminalStatuses : List String :=
  ["finished", "accepted", "wrong answer", "compile error", "system error", "time limit",
    "time limit exceeded", "memory limit", "memory limit exceeded", "output limit",
    "output limit exceeded", "runtime error"]

/-- `isTerminalStatus`. -/
def isTerminalStatus (statusLower : String) : Bool := statusLower ∈ terminalStatuses

/-- `FinalizeFenceResult`. -/
structure FinalizeFenceResult where
  applied : Bool
  reason : FinalizeReason
  dbAttemptID : Nat := 0
  dbStatus : String := ""
  dbState : String := ""
  dbLeaseOwner : String := ""
  dbLeaseUntil : Option Nat := none
  deriving DecidableEq, Repr

/-- The lease the inspected row shows is held by another owner, or is over on
the clock of the process that inspects it. -/
def leaseLost (s : Submission) (leaseOwner : String) (appNow : Nat) : Bool :=
  (trimSpace leaseOwner != "" && trimSpace (s.leaseOwner.getD "") != trimSpace leaseOwner) ||
    !leaseAfter s appNow

/-- The reason `getFinalizeFenceRejectReason` reads off the row it inspects. -/
def finalizeRejectReason (s : Submission) (attemptID : Nat) (leaseOwner : String) (appNow : Nat) :
    FinalizeReason :=
  let statusLower := toLower (trimSpace s.status)
  let stateLower := toLower (trimSpace s.state)
  if s.attemptID > attemptID then .staleAttempt
  else if stateLower = "done" ∨ isTerminalStatus statusLower = true then .alreadyFinished
  else if statusLower ≠ "running" ∨ stateLower ≠ "processing" then .notInExpectedState
  else if leaseLost s leaseOwner appNow then .leaseLostOwnerMismatch
  else .notInExpectedState

/-- `getFinalizeFenceRejectReason`, on the row its query returned. -/
def getFinalizeFenceRejectReason (row : Option Submission) (attemptID : Nat) (leaseOwner : String)
    (appNow : Nat) : FinalizeFenceResult :=
  match row with
  | none => { applied := false, reason := .notInExpectedState }
  | some s =>
    { applied := false
      reason := finalizeRejectReason s attemptID leaseOwner appNow
      dbAttemptID := s.attemptID
      dbStatus := s.status
      dbState := s.state
      dbLeaseOwner := s.leaseOwner.getD ""
      dbLeaseUntil := s.leaseUntil }

/-- The decisions of `ReclaimSubmissionForRun`. -/
inductive ReclaimDecision where
  | claimed
  | doneOrStale
  | leaseStillValid
  | notFound
  deriving DecidableEq, Repr

/-- The decision `ReclaimSubmissionForRun` takes on the row it inspects after its
`UPDATE` matched nothing. -/
def reclaimDecision (row : Option Submission) (appNow : Nat) : ReclaimDecision :=
  match row with
  | none => .notFound
  | some s =>
    let status := toLower (trimSpace s.status)
    let state := toLower (trimSpace s.state)
    if state = "done" ∨ status = "finished" then .doneOrStale
    else if status = "running" ∧ state = "processing" then
      if leaseAfter s appNow then .leaseStillValid else .doneOrStale
    else .doneOrStale

end DeepOj.Repository
