import DeepOj.Api.Handler
import DeepOj.Cluster.Semantics

/-!
# The whole system

Any number of API requests, outbox dispatchers and worker handlers, interleaved
effect by effect; each can stop for good at any point.
-/

namespace DeepOj.Cluster

open Repository Worker Api

/-- The program of a goroutine. -/
def Goroutine.program : Goroutine → Program Unit
  | .heartbeat cell jobID attemptID leaseOwner leaseSec consecutiveErrors =>
    runLeaseHeartbeat cell jobID attemptID leaseOwner leaseSec consecutiveErrors

/-- A move of the environment. -/
inductive Env where
  | dbTick (d : Nat)
  | redisTick (d : Nat)
  /-- A worker reads a new entry with `XREADGROUP`. -/
  | deliver (cfg : WorkerConfig) (i : Nat)
  /-- A worker takes over an idle pending entry with `XAUTOCLAIM`. -/
  | autoclaim (cfg : WorkerConfig) (i : Nat)
  | dispatch (cfg : DispatcherConfig)
  | submit (cfg : ApiConfig) (requestID : String) (userID : Option Nat) (body : SubmitRequest)
  | status (userID : Option Nat) (admin : Bool) (jobID : String)
  /-- The time to live of a key ends. -/
  | expire (k : RedisKey)
  /-- Another component fills the result cache. -/
  | fillCache (fingerprint : String) (v : RedisValue)
  deriving DecidableEq

/-- The idle time after which `reclaimOnce` takes an entry over. -/
def minIdle (cfg : WorkerConfig) : Nat :=
  ((if cfg.jobLeaseSec ≤ 0 then 60 else cfg.jobLeaseSec) +
    (if cfg.jobReclaimGraceSec < 0 then 0 else cfg.jobReclaimGraceSec)).toNat * 1000000

/-- Run a handler for its effects only. -/
def handler (p : Program StreamProcessResult) : Program Unit := do
  let _ ← p
  pure ()

/-- Give the entry to a consumer now. -/
def World.give (w : World) (i : Nat) (consumer : String) : World :=
  w.setDelivery i (.pending consumer w.redisNow)

theorem World.give_getElem? (w : World) (i : Nat) (consumer : String) {k : Nat} (h : k ≠ i) :
    (w.give i consumer).stream[k]? = w.stream[k]? := by
  simp [give, setDelivery, Ne.symm h]

theorem World.give_self {w : World} {i : Nat} {e : StreamEntry} (consumer : String) (h : w.stream[i]? = some e) :
    (w.give i consumer).stream[i]? = some ⟨e.values, .pending consumer w.redisNow⟩ := by
  simp [give, setDelivery, h]

/-- An environment move. -/
def envStep (w : World) : Env → Option (World × List (Program Unit))
  | .dbTick d => some ({ w with dbNow := w.dbNow + d }, [])
  | .redisTick d => some ({ w with redisNow := w.redisNow + d }, [])
  | .deliver cfg i =>
    match w.stream[i]? with
    | some ⟨values, .fresh⟩ =>
      some (w.give i cfg.jobStreamConsumer, [handler (handleMessage cfg ⟨i, values⟩)])
    | _ => none
  | .autoclaim cfg i =>
    match w.stream[i]? with
    | some ⟨values, .pending _ deliveredAt⟩ =>
      if deliveredAt + minIdle cfg ≤ w.redisNow then
        some (w.give i cfg.jobStreamConsumer, [handler (handleReclaimedMessage cfg ⟨i, values⟩)])
      else none
    | _ => none
  | .dispatch cfg => some (w, [dispatchOnce cfg])
  | .submit cfg requestID userID body =>
    some ({ w with requests := w.requests + 1 },
      [handleSubmit cfg ⟨w.requests, requestID, userID, false⟩ body])
  | .status userID admin jobID =>
    some ({ w.record (.asked w.requests jobID (w.submissions jobID)) with
        requests := w.requests + 1 },
      [handleStatus ⟨w.requests, "", userID, admin⟩ jobID])
  | .expire k => some (w.setKey k none, [])
  | .fillCache fingerprint v =>
    some (w.setKey (namespacedRedisKey ⟨false, .cache fingerprint⟩) (some v), [])

/-- The goroutines an effect starts. -/
def forks : Effect → List (Program Unit)
  | .act (.go g) => [g.program]
  | _ => []

/-- The system as an interleaving machine. -/
def system : Conc.Machine World Effect Effect.Reply Fate Env where
  sem := perform
  forks := forks
  env := envStep

/-- A configuration of the system. -/
abbrev State := Conc.Config World Effect Effect.Reply

/-- A move of the system. -/
abbrev Step := Conc.Move Fate Env

/-- The system before anything has happened. -/
def start : State := ⟨World.empty, []⟩

end DeepOj.Cluster
