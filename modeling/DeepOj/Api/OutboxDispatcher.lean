import DeepOj.Cluster.World

/-!
# Dispatching and enqueueing

The outbox dispatcher and the direct enqueue path: store the payload, append the
stream entry, and remove the payload again when the append reports an error.
-/

namespace DeepOj.Api

open Repository Cluster

/-- The part of the dispatcher configuration `DispatchOnce` reads. -/
structure DispatcherConfig where
  batch : Int
  retryBaseMs : Int
  retryMaxMs : Int
  deriving DecidableEq, Repr

/-- `buildPayloadEnvelope`. -/
def buildPayloadEnvelope (task : TaskRequest) : RedisValue :=
  .envelope
    { schemaVersion := 1, taskData := some task, encoding := "base64"
      contentType := "application/json" }

/-- The payload key of a job. -/
def payloadKey (jobID : String) : RedisKey := namespacedRedisKey ⟨false, .payload jobID⟩

/-- The fields of the stream entry of an outbox event. -/
def dispatchValues (eventID : Nat) (evt : OutboxEvent) : StreamValues :=
  { jobID := some evt.jobID, enqueueTS := some evt.enqueueTS
    payloadRef := some (payloadKey evt.jobID), priority := some evt.priority
    eventID := some eventID }

/-- `markDispatchError`. -/
def markDispatchError (eventID : Nat) (err : String) : Program Unit := do
  let _ ← request (.markDispatchError eventID err)
  pure ()

/-- `dispatchOne`. -/
def dispatchOne (eventID : Nat) (evt : OutboxEvent) : Program Unit := do
  match ← request (.set (payloadKey evt.jobID) (buildPayloadEnvelope evt.payload)) with
  | .error err => markDispatchError eventID err
  | .ok _ =>
    match ← request (.xadd (dispatchValues eventID evt)) with
    | .error err =>
      let _ ← request (.del (payloadKey evt.jobID))
      markDispatchError eventID err
    | .ok entryID =>
      let _ ← request (.markDispatched eventID entryID)
      pure ()

/-- The loop of `DispatchOnce` over the claimed events. -/
def dispatchAll : List (Nat × OutboxEvent) → Program Unit
  | [] => pure ()
  | (eventID, evt) :: rest => do
    dispatchOne eventID evt
    dispatchAll rest

/-- `DispatchOnce`. -/
def dispatchOnce (cfg : DispatcherConfig) : Program Unit := do
  match ← request (.claimOutbox cfg.batch cfg.retryBaseMs cfg.retryMaxMs) with
  | .error _ => pure ()
  | .ok events => dispatchAll events

/-- `enqueueJobToStream`. -/
def enqueueJobToStream (jobID : String) (task : TaskRequest) : Program (Except String Nat) := do
  let enqueueTS ← act .now
  match ← request (.set (payloadKey jobID) (buildPayloadEnvelope task)) with
  | .error err => pure (.error ("set payload: " ++ err))
  | .ok _ =>
    match ← request (.xadd
        { jobID := some jobID, enqueueTS := some enqueueTS, payloadRef := some (payloadKey jobID)
          priority := some 0, eventID := none }) with
    | .error err =>
      let _ ← request (.del (payloadKey jobID))
      pure (.error ("stream xadd: " ++ err))
    | .ok entryID => pure (.ok entryID)

end DeepOj.Api
