import DeepOj.Worker.Judge

/-!
# The stream consumer

The handlers of a fresh and of a reclaimed stream message, the execution they
share, and its heartbeat.
-/

namespace DeepOj.Worker

open Repository Cluster Go

/-- The part of the worker configuration the handlers read. -/
structure WorkerConfig where
  jobStreamConsumer : String
  jobLeaseSec : Int
  jobReclaimGraceSec : Int
  deriving DecidableEq, Repr

/-- A message as the consumer group delivers it. -/
structure StreamMessage where
  id : Nat
  values : StreamValues
  deriving DecidableEq, Repr

/-- `streamProcessResult`. -/
structure StreamProcessResult where
  ok : Bool
  reason : StreamReason
  deriving DecidableEq, Repr

/-- The result of a message that was not processed. -/
def rejected (reason : StreamReason) : StreamProcessResult := ⟨false, reason⟩

/-! ## Reading the message -/

/-- `requiredStreamField`, on a text field. -/
def requiredStreamField (raw : Option String) : Option String :=
  match raw with
  | none => none
  | some v => if trimSpace v = "" then none else some (trimSpace v)

/-- The required fields a message lacks. -/
def missingFields (v : StreamValues) : List String :=
  (if (requiredStreamField v.jobID).isNone then ["job_id"] else []) ++
  (if v.enqueueTS.isNone then ["enqueue_ts"] else []) ++
  (if v.payloadRef.isNone then ["payload_ref"] else []) ++
  (if v.priority.isNone then ["priority"] else [])

/-- `decodeStreamTaskPayload`. -/
def decodeStreamTaskPayload : RedisValue → Except String TaskRequest
  | .text _ => .error "decode payload envelope"
  | .result _ => .error "unsupported payload schema_version: 0"
  | .envelope p =>
    let encoding := if trimSpace p.encoding = "" then "base64" else p.encoding
    let contentType := if trimSpace p.contentType = "" then "application/json" else p.contentType
    if p.schemaVersion ≠ 1 then
      .error ("unsupported payload schema_version: " ++ toString p.schemaVersion)
    else if toLower (trimSpace encoding) ≠ "base64" then
      .error ("unsupported payload encoding: " ++ encoding)
    else
      match p.taskData with
      | none => .error "decode payload task_data_b64"
      | some task =>
        if toLower (trimSpace contentType) ∈
            ["application/json", "application/x-protobuf", "application/protobuf"] then .ok task
        else .error ("unsupported payload content_type: " ++ contentType)

/-- The value a `GET` returned without an error. -/
def okValue : Except String (Option RedisValue) → Option RedisValue
  | .ok v => v
  | .error _ => none

/-- A value that is absent or blank. -/
def unusable : Option RedisValue → Bool
  | some v => v.isBlank
  | none => true

/-- Read a key, and its legacy form if that gave nothing usable. -/
def getWithLegacy (reader : Reader) (key legacy : RedisKey) : Program (Option RedisValue) := do
  let first := okValue (← request (.get reader key))
  if unusable first = true ∧ key ≠ legacy then
    let second := okValue (← request (.get reader legacy))
    pure (if unusable second then first else second)
  else pure first

/-! ## Rejecting a message -/

/-- `markPoisonBeforeAck`. -/
def markPoisonBeforeAck (entryID : Nat) (jobID errorCode errorMessage : String) :
    Program (Except String Unit) := do
  if trimSpace jobID = "" then pure (.ok ())
  else
    match ← request (.update jobID (.poison errorCode errorMessage) (some entryID)) with
    | .error err => pure (.error err)
    | .ok _ => pure (.ok ())

/-- `xackWithRetry`: two tries. -/
def xackWithRetry (entryID : Nat) (site : AckSite) : Program (Except String Unit) := do
  match ← request (.xack entryID site) with
  | .ok _ => pure (.ok ())
  | .error _ =>
    match ← request (.xack entryID site) with
    | .ok _ => pure (.ok ())
    | .error err => pure (.error err)

/-- Acknowledge the message and end with `res`. -/
def ackThen (msg : StreamMessage) (site : AckSite) (res : StreamProcessResult) :
    Program StreamProcessResult := do
  match ← xackWithRetry msg.id site with
  | .error _ => pure (rejected .xackError)
  | .ok _ => pure res

/-- Mark the submission as poison, then acknowledge the message. -/
def rejectPoison (msg : StreamMessage) (jobID errorCode errorMessage : String)
    (reason : StreamReason) : Program StreamProcessResult := do
  match ← markPoisonBeforeAck msg.id jobID errorCode errorMessage with
  | .error _ => pure (rejected .dbError)
  | .ok _ => ackThen msg .poison (rejected reason)

/-- A task, with its job id and trace id, or the result of a rejected message. -/
abbrev Loaded : Type := Except StreamProcessResult (String × TaskRequest × String)

/-- Reject the message as poison. -/
def poisoned (msg : StreamMessage) (jobID errorCode errorMessage : String)
    (reason : StreamReason) : Program Loaded := do
  let res ← rejectPoison msg jobID errorCode errorMessage reason
  pure (.error res)

/-- A decoded task, for the message's job if it names none. -/
def fillJobID (jobID : String) (decoded : TaskRequest) : TaskRequest :=
  if trimSpace decoded.jobID = "" then { decoded with jobID := jobID } else decoded

/-- The task must be for the job the message names. -/
def checkTask (msg : StreamMessage) (jobID freshTrace : String) (task : TaskRequest) :
    Program Loaded :=
  if task.jobID ≠ jobID then
    poisoned msg jobID StreamReason.payloadInvalid.text "payload job_id mismatch" .payloadInvalid
  else if trimSpace task.traceID = "" then
    pure (.ok (jobID, { task with traceID := freshTrace }, freshTrace))
  else pure (.ok (jobID, task, trimSpace task.traceID))

/-- The payload of a message that has all its fields. -/
def loadPayload (msg : StreamMessage) (jobID freshTrace : String) (payloadRef : RedisKey) :
    Program Loaded := do
  let payloadKey := namespacedRedisKey payloadRef
  let payloadRaw ← getWithLegacy .worker payloadKey payloadRef
  match payloadRaw with
  | none =>
    poisoned msg jobID StreamReason.payloadInvalid.text ("payload missing: " ++ payloadKey.text)
      .payloadInvalid
  | some raw =>
    if raw.isBlank then
      poisoned msg jobID StreamReason.payloadInvalid.text ("payload missing: " ++ payloadKey.text)
        .payloadInvalid
    else
      match decodeStreamTaskPayload raw with
      | .error err =>
        poisoned msg jobID StreamReason.payloadDecodeError.text err .payloadInvalid
      | .ok decoded => checkTask msg jobID freshTrace (fillJobID jobID decoded)

/-- What both handlers do before they turn to the database: the fields, the
payload and the task of the message. -/
def loadTask (msg : StreamMessage) : Program Loaded := do
  let jobID := (requiredStreamField msg.values.jobID).getD ""
  let freshTrace ← act .uuid
  match missingFields msg.values, msg.values.payloadRef with
  | [], some payloadRef => loadPayload msg jobID freshTrace payloadRef
  | missing, _ =>
    poisoned msg jobID StreamReason.missingField.text
      ("missing stream fields: " ++ ",".intercalate missing) .missingField

/-! ## The heartbeat -/

/-- `maxHeartbeatErrorRetries`. -/
def maxHeartbeatErrorRetries : Nat := 3

/-- One turn of the loop of `runLeaseHeartbeat`. -/
def runLeaseHeartbeat (cell : Nat) (jobID : String) (attemptID : Nat) (leaseOwner : String)
    (leaseSec : Int) (consecutiveErrors : Nat) : Program Unit := do
  if ← act (.selectTick cell) then
    match ← request (.update jobID (.refresh attemptID leaseOwner leaseSec) none) with
    | .error _ =>
      if consecutiveErrors + 1 ≥ maxHeartbeatErrorRetries then
        act (.cancelRun cell)
        act (.sendHeartbeat cell { leaseLost := true, reason := .dbErrorHeartbeat })
      else
        act (.go (.heartbeat cell jobID attemptID leaseOwner leaseSec (consecutiveErrors + 1)))
    | .ok none =>
      act (.cancelRun cell)
      act (.sendHeartbeat cell { leaseLost := true, reason := .leaseLost })
    | .ok (some _) => act (.go (.heartbeat cell jobID attemptID leaseOwner leaseSec 0))
  else act (.sendHeartbeat cell {})

/-! ## The final result -/

/-- `deriveFinalStatusFromResult`. -/
def deriveFinalStatusFromResult (result : ResultMap) : String :=
  match result.get "status" with
  | none => ""
  | some .null => ""
  | some v => if trimSpace v.sprint = "<nil>" then "" else trimSpace v.sprint

/-- `deriveFallbackStatus`. -/
def deriveFallbackStatus (resp : Option TaskResponse) (execErr : Option String) : String :=
  match execErr, resp with
  | some _, _ => "System Error"
  | none, none => "System Error"
  | none, some r =>
    let msg := toLower (trimSpace r.message)
    if msg = "ok" then "Finished"
    else if msg = "compile error" then "Compile Error"
    else if msg = "system error" ∨ msg = "failed" ∨ msg = "report failed" then "System Error"
    else if msg = "" then "System Error"
    else r.message

/-- The final status and result when a result was read. -/
def resultFromReport (jobID : String) (attemptID : Nat) (traceID : String)
    (resp : Option TaskResponse) (execErr : Option String) (read : ResultMap) :
    String × ResultMap :=
  let result := ((read.setDefault "job_id" (.str jobID)).setDefault "attempt_id"
    (.num attemptID)).setDefault "trace_id" (.str traceID)
  if deriveFinalStatusFromResult result = "" then
    (deriveFallbackStatus resp execErr,
      result.set "status" (.str (deriveFallbackStatus resp execErr)))
  else (deriveFinalStatusFromResult result, result)

/-- The final status and result when no result could be read. -/
def fallbackResult (task : TaskRequest) (jobID : String) (attemptID : Nat) (traceID : String)
    (resp : Option TaskResponse) (execErr : Option String) : String × ResultMap :=
  let status := deriveFallbackStatus resp execErr
  let base : ResultMap :=
    [("job_id", .str jobID), ("attempt_id", .num attemptID), ("trace_id", .str traceID),
      ("status", .str status), ("cache_key", .str task.cacheKey)]
  let withErr := match execErr with
    | some err => base.set "error_message" (.str err)
    | none => base
  let message := (resp.map TaskResponse.message).getD ""
  (status, if trimSpace message = "" then withErr else withErr.set "message" (.str message))

/-- `resolveFinalResult`. -/
def resolveFinalResult (task : TaskRequest) (jobID : String) (attemptID : Nat) (traceID : String)
    (resp : Option TaskResponse) (execErr : Option String) : Program (String × ResultMap) := do
  let raw ← getWithLegacy .worker (resultKey jobID) (legacyResultKey jobID)
  match raw.bind RedisValue.asMap with
  | some read => pure (resultFromReport jobID attemptID traceID resp execErr read)
  | none => pure (fallbackResult task jobID attemptID traceID resp execErr)

/-! ## The claimed execution -/

/-- `FinalizeSubmissionWithFence`. -/
def finalizeSubmissionWithFence (entryID : Nat) (jobID : String) (attemptID : Nat)
    (leaseOwner status : String) (result : ResultMap) :
    Program (Except String FinalizeFenceResult) := do
  match ← request (.update jobID (.finalize attemptID leaseOwner status result) (some entryID)) with
  | .error err => pure (.error err)
  | .ok (some _) => pure (.ok { applied := true, reason := .ok })
  | .ok none =>
    match ← request (.select jobID .finalizeReject) with
    | .error err => pure (.error err)
    | .ok row =>
      let appNow ← act .now
      pure (.ok (getFinalizeFenceRejectReason row attemptID leaseOwner appNow))

/-- `mapFinalizeRejectReason`. -/
def mapFinalizeRejectReason : FinalizeReason → StreamReason
  | .staleAttempt => .staleAttempt
  | .alreadyFinished => .alreadyFinished
  | .notInExpectedState => .notExpectedState
  | .leaseLostOwnerMismatch => .leaseOwnerMismatch
  | .ok => .dbError
  | .dbError => .dbError

/-- `isBusinessFinalizeRejectReason`. -/
def isBusinessFinalizeRejectReason (reason : StreamReason) : Bool :=
  reason ∈ [.staleAttempt, .alreadyFinished, .notExpectedState, .leaseOwnerMismatch]

/-- `runClaimedExecution`. -/
def runClaimedExecution (cfg : WorkerConfig) (msg : StreamMessage) (task : TaskRequest)
    (jobID traceID : String) (attemptID : Nat) : Program StreamProcessResult := do
  let cell ← act .newRun
  act (.go (.heartbeat cell jobID attemptID cfg.jobStreamConsumer cfg.jobLeaseSec 0))
  let (resp, execErr) ← executeTask task attemptID
  act (.cancelRun cell)
  let hbRes ← act (.recvHeartbeat cell)
  if hbRes.leaseLost then pure (rejected hbRes.reason)
  else
    let (finalStatus, finalResult) ←
      resolveFinalResult task jobID attemptID traceID (some resp) execErr
    match ← finalizeSubmissionWithFence msg.id jobID attemptID cfg.jobStreamConsumer finalStatus
        (finalResult.set "attempt_id" (.num attemptID)) with
    | .error _ => pure (rejected .dbError)
    | .ok res =>
      if res.applied then ackThen msg (.finalized attemptID) ⟨true, .ok⟩
      else
        let reason := mapFinalizeRejectReason res.reason
        if isBusinessFinalizeRejectReason reason then
          ackThen msg (.finalizeRejected attemptID) (rejected reason)
        else pure (rejected .dbError)

/-! ## The handlers -/

/-- `handleMessage`. -/
def handleMessage (cfg : WorkerConfig) (msg : StreamMessage) : Program StreamProcessResult := do
  match ← loadTask msg with
  | .error res => pure res
  | .ok (jobID, task, traceID) =>
    match ← request (.update jobID (.claim cfg.jobStreamConsumer cfg.jobLeaseSec) (some msg.id)) with
    | .error _ => pure (rejected .dbError)
    | .ok none => ackThen msg .claimRejected (rejected .dbClaimReject)
    | .ok (some attemptID) => runClaimedExecution cfg msg task jobID traceID attemptID

/-- `ReclaimSubmissionForRun`. -/
def reclaimForRun (cfg : WorkerConfig) (entryID : Nat) (jobID : String) :
    Program (Except String (Nat × ReclaimDecision)) := do
  match ← request (.update jobID (.reclaim cfg.jobStreamConsumer cfg.jobLeaseSec)
      (some entryID)) with
  | .error err => pure (.error err)
  | .ok (some attemptID) => pure (.ok (attemptID, .claimed))
  | .ok none =>
    match ← request (.select jobID .reclaimInspect) with
    | .error err => pure (.error err)
    | .ok row =>
      let appNow ← act .now
      pure (.ok (0, reclaimDecision row appNow))

/-- `handleReclaimedMessage`. -/
def handleReclaimedMessage (cfg : WorkerConfig) (msg : StreamMessage) :
    Program StreamProcessResult := do
  match ← loadTask msg with
  | .error res => pure res
  | .ok (jobID, task, traceID) =>
    match ← reclaimForRun cfg msg.id jobID with
    | .error _ => pure (rejected .dbError)
    | .ok (attemptID, .claimed) => runClaimedExecution cfg msg task jobID traceID attemptID
    | .ok (_, .leaseStillValid) => pure (rejected .leaseStillValid)
    | .ok (_, .doneOrStale) => ackThen msg .doneOrStale (rejected .doneOrStale)
    | .ok (_, .notFound) => ackThen msg .notFound (rejected .notFound)

end DeepOj.Worker
