import DeepOj.Cluster.Delivery

/-!
# Whose verdict a finalize records

The result travels from the execution to the finalize through a Redis key of the
job, written by the first attempt that reports. A finalize therefore records the
result of that attempt, or what it can tell from its own answer.
-/

namespace DeepOj.Cluster

open Repository Worker Api

/-- The stored status and result are those attempt `a` itself computed, or the
status is `System Error`. -/
def OwnVerdict (w : World) : Prop :=
  ∀ j a st m, .finalized j a st m ∈ w.log → st = "System Error" ∨
    ∃ read, Computed w j a read ∧ st = deriveFinalStatusFromResult read

/-- The status and the result an attempt may store: those of a result that attempt
`b` of the job reported, or those its own answer gives when no result is read. -/
def VerdictFrom (w : World) (j : String) (a : Nat) (st : String) (m : ResultMap) : Prop :=
  ∃ task outcome resp err traceID, LogEvent.executed task a outcome ∈ w.log ∧ task.jobID = j ∧
    Answers task outcome resp err ∧
    ((∃ b read, b ≤ a ∧ Computed w j b read ∧
        st = (resultFromReport j a traceID (some resp) err read).1 ∧
        m = (resultFromReport j a traceID (some resp) err read).2.set "attempt_id" (.num a)) ∨
      (st = (fallbackResult task j a traceID (some resp) err).1 ∧
        m = (fallbackResult task j a traceID (some resp) err).2.set "attempt_id" (.num a)))

/-- No attempt of a finalized job is newer than the one that finalized it. -/
theorem attempt_le_of_recorded {w : World} (hs : Sane w) {j : String} {a b : Nat} {st : String}
    {m read : ResultMap} (hr : Recorded w j a st m) (hc : Computed w j b read) : b ≤ a := by
  obtain ⟨task, outcome, _, hex, rfl, _⟩ := hc
  obtain ⟨o, i, hst⟩ := hs.executed task b outcome hex
  obtain ⟨_, r, hrow, hb, _⟩ := hs.started task.jobID b o _ hst
  obtain ⟨r', hrow', _, ha, _⟩ := hr
  rw [hrow] at hrow'
  cases hrow'
  omega

/-- Attempt 1 reports `Wrong Answer` and loses its lease; attempt 2, of another
worker, computes `Accepted` and finalizes. -/
def olderReport : List Step :=
  submitted ++ judged "Wrong Answer" ++ calls 2 1 ++
    [.env (.dbTick 61000000), .env (.redisTick 65000000), .env (.autoclaim (worker "w2") 0),
      .call 4 (.ok { uuid := "t2" })] ++ calls 4 4 ++
    [.call 4 (.ok { outcome := .judged "Accepted" 10 1000 })] ++ calls 4 2 ++ calls 5 2 ++
    calls 4 3

/-- The result attempt 2 stores in that run. -/
def olderResult : ResultMap :=
  [("attempt_id", .num 2), ("job_id", .str "job-1"), ("status", .str "Wrong Answer"),
    ("time_used", .num 10), ("memory_used", .num 1000), ("language", .str "CPP"),
    ("trace_id", .str "r1"), ("cache_key", .str "deepoj:cache:int main(){}|1|1000|65536|0|")]

end DeepOj.Cluster
