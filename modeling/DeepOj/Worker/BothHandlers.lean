import DeepOj.Conc.Prog
import DeepOj.Worker.TaskPayload

/-!
# A fresh and a reclaimed message

`handleMessage` and `handleReclaimedMessage` read the message, load its payload and
reject what is malformed each in its own words, before one claims the submission and
the other reclaims it.
-/

namespace DeepOj.Worker.Handlers

open Go Conc Repository Cluster

/-- A value in the field map of a stream entry. -/
inductive FieldValue where
  | nil
  | string (s : Bytes)
  | bytes (b : Bytes)
  /-- Any other value, as `fmt.Sprint` prints it. -/
  | other (sprint : Bytes)
  deriving DecidableEq

/-- A `redis.XMessage`. -/
structure XMessage where
  id : Bytes
  values : List (Bytes × FieldValue)
  deriving DecidableEq

/-- A decoded task. Its job id and its trace id may be set to any bytes the message has. -/
structure Task where
  request : Pb.TaskRequest
  jobID : Bytes
  traceID : Bytes
  deriving DecidableEq

/-- The settings that the handlers read. -/
structure Config where
  redisKeyPrefix : Bytes
  redisKeyEnv : Bytes
  jobStreamKey : Bytes
  jobStreamGroup : Bytes
  jobStreamConsumer : Bytes
  jobLeaseSec : Int
  /-- What the parsers of the standard library say about a payload they do not take. -/
  detail : Bytes → Bytes

/-- What a handler does to Redis and to the database. -/
inductive Effect where
  | newString
  | get (key : Bytes)
  | markSubmissionPoison (jobID errorCode errorMessage : Bytes)
  | ack (stream group entryID : Bytes)
  | claimSubmissionForRun (jobID consumer : Bytes) (leaseSec : Int)
  | reclaimSubmissionForRun (jobID consumer : Bytes) (leaseSec : Int)
  /-- `runClaimedExecution`, which both share. -/
  | runClaimedExecution (msg : XMessage) (task : Task) (jobID traceID : Bytes) (attemptID : Int)

/-- The replies, or the text of an error. -/
def Reply : Effect → Type
  | .newString => Bytes
  | .get _ => Except Bytes Bytes
  | .markSubmissionPoison .. => Except Bytes Bool
  | .ack .. => Except Bytes Int
  | .claimSubmissionForRun .. => Except Bytes (Int × Bool)
  | .reclaimSubmissionForRun .. => Except Bytes (Int × Bytes)
  | .runClaimedExecution .. => StreamProcessResult

abbrev Program (α : Type) := Prog Effect Reply α

def perform (e : Effect) : Program (Reply e) := Prog.perform e

def runClaimedExecution (msg : XMessage) (task : Task) (jobID traceID : Bytes) (attemptID : Int) :
    Program StreamProcessResult :=
  perform (.runClaimedExecution msg task jobID traceID attemptID)

/-! ## What both call -/

/-- `strings.TrimPrefix`. -/
def trimPrefix (s pre : Bytes) : Bytes := if hasPrefix s pre then s.drop pre.length else s

def colon : Bytes := utf8 ":"

def redisKeyNamespace (cfg : Config) : Bytes :=
  let pre := if trimSpaces cfg.redisKeyPrefix = [] then utf8 "deepoj" else trimSpaces cfg.redisKeyPrefix
  if trimSpaces cfg.redisKeyEnv = [] then pre else pre ++ colon ++ trimSpaces cfg.redisKeyEnv

def namespacedRedisKey (cfg : Config) (key : Bytes) : Bytes :=
  let raw := trimSpaces key
  let ns := redisKeyNamespace cfg
  let pre := if trimSpaces cfg.redisKeyPrefix = [] then utf8 "deepoj" else trimSpaces cfg.redisKeyPrefix
  let env := trimSpaces cfg.redisKeyEnv
  if raw = [] then ns
  else if raw = ns ∨ hasPrefix raw (ns ++ colon) then raw
  else if raw = pre ∨ hasPrefix raw (pre ++ colon) then
    let remainder := trimPrefix (trimPrefix raw pre) colon
    if env ≠ [] ∧ remainder = env then ns
    else
      let remainder := if env ≠ [] then trimPrefix remainder (env ++ colon) else remainder
      let remainder := trimPrefix remainder colon
      if remainder = [] then ns else ns ++ colon ++ remainder
  else if hasPrefix raw (utf8 "oj:") then
    let remainder := trimPrefix raw (utf8 "oj:")
    if remainder = [] then ns else ns ++ colon ++ trimPrefix remainder colon
  else ns ++ colon ++ trimPrefix raw colon

/-- `requiredStreamField`: the text, and whether it is missing. -/
def requiredStreamField (values : List (Bytes × FieldValue)) (key : String) : Bytes × Bool :=
  match values.lookup (utf8 key) with
  | none => ([], true)
  | some .nil => ([], true)
  | some (.string v) => if trimSpaces v = [] then ([], true) else (trimSpaces v, false)
  | some (.bytes v) => if trimSpaces v = [] then ([], true) else (trimSpaces v, false)
  | some (.other v) =>
    if trimSpaces v = [] ∨ trimSpaces v = utf8 "<nil>" then ([], true) else (trimSpaces v, false)

/-- `decodeStreamTaskPayload`, with the text of its error. -/
def decodeStreamTaskPayload (cfg : Config) (payloadRaw : Bytes) : Except Bytes Task :=
  match Payload.decodeStreamTaskPayload payloadRaw with
  | .error err => .error (utf8 err ++ cfg.detail payloadRaw)
  | .ok task => .ok ⟨task, utf8 task.jobID, utf8 task.traceID⟩

def markPoisonBeforeAck (jobID errorCode errorMessage : Bytes) : Program (Except Bytes Unit) := do
  if trimSpaces jobID = [] then pure (.ok ())
  else
    match ← perform (.markSubmissionPoison jobID errorCode errorMessage) with
    | .error err => pure (.error err)
    | .ok _ => pure (.ok ())

def xackWithRetry (cfg : Config) (entryID : Bytes) : Program (Except Bytes Unit) := do
  match ← perform (.ack cfg.jobStreamKey cfg.jobStreamGroup entryID) with
  | .ok _ => pure (.ok ())
  | .error _ =>
    match ← perform (.ack cfg.jobStreamKey cfg.jobStreamGroup entryID) with
    | .ok _ => pure (.ok ())
    | .error err => pure (.error err)

/-- `strings.Join` with commas. -/
def joinComma (names : List String) : Bytes := utf8 (",".intercalate names)

/-! ## The two handlers -/

variable (cfg : Config)

def handleMessage (msg : XMessage) : Program StreamProcessResult := do
  let (jobID, missingJobID) := requiredStreamField msg.values "job_id"
  let (_, missingEnqueueTS) := requiredStreamField msg.values "enqueue_ts"
  let (payloadRef, missingPayloadRef) := requiredStreamField msg.values "payload_ref"
  let (_, missingPriority) := requiredStreamField msg.values "priority"
  let missing := (if missingJobID then ["job_id"] else []) ++
    (if missingEnqueueTS then ["enqueue_ts"] else []) ++
    (if missingPayloadRef then ["payload_ref"] else []) ++ (if missingPriority then ["priority"] else [])
  let traceID ← perform .newString
  if 0 < missing.length then
    match ← markPoisonBeforeAck jobID (utf8 StreamReason.missingField.text)
        (utf8 "missing stream fields: " ++ joinComma missing) with
    | .error _ => pure (rejected .dbError)
    | .ok _ =>
      match ← xackWithRetry cfg msg.id with
      | .error _ => pure (rejected .xackError)
      | .ok _ => pure (rejected .missingField)
  else
  let payloadKey := namespacedRedisKey cfg payloadRef
  let first ← perform (.get payloadKey)
  let payload ← (if (first.toOption.all fun raw => trimSpaces raw = []) ∧ payloadKey ≠ payloadRef then do
    match ← perform (.get payloadRef) with
    | .ok legacyRaw => pure (if trimSpaces legacyRaw ≠ [] then .ok legacyRaw else first)
    | .error _ => pure first
  else pure first : Program (Except Bytes Bytes))
  match payload.toOption.filter (fun raw => trimSpaces raw ≠ []) with
  | none =>
    match ← markPoisonBeforeAck jobID (utf8 StreamReason.payloadInvalid.text)
        (utf8 "payload missing: " ++ payloadKey) with
    | .error _ => pure (rejected .dbError)
    | .ok _ =>
      match ← xackWithRetry cfg msg.id with
      | .error _ => pure (rejected .xackError)
      | .ok _ => pure (rejected .payloadInvalid)
  | some payloadRaw =>
    match decodeStreamTaskPayload cfg payloadRaw with
    | .error derr =>
      match ← markPoisonBeforeAck jobID (utf8 StreamReason.payloadDecodeError.text) derr with
      | .error _ => pure (rejected .dbError)
      | .ok _ =>
        match ← xackWithRetry cfg msg.id with
        | .error _ => pure (rejected .xackError)
        | .ok _ => pure (rejected .payloadInvalid)
    | .ok taskReq =>
      let taskReq := if trimSpaces taskReq.jobID = [] then { taskReq with jobID } else taskReq
      if taskReq.jobID ≠ jobID then
        match ← markPoisonBeforeAck jobID (utf8 StreamReason.payloadInvalid.text)
            (utf8 "payload job_id mismatch") with
        | .error _ => pure (rejected .dbError)
        | .ok _ =>
          match ← xackWithRetry cfg msg.id with
          | .error _ => pure (rejected .xackError)
          | .ok _ => pure (rejected .payloadInvalid)
      else
        let (taskReq, traceID) :=
          if trimSpaces taskReq.traceID ≠ [] then (taskReq, trimSpaces taskReq.traceID)
          else ({ taskReq with traceID }, traceID)
        match ← perform (.claimSubmissionForRun jobID cfg.jobStreamConsumer cfg.jobLeaseSec) with
        | .error _ => pure (rejected .dbError)
        | .ok (attemptID, claimed) =>
          if ¬ claimed then
            match ← xackWithRetry cfg msg.id with
            | .error _ => pure (rejected .xackError)
            | .ok _ => pure (rejected .dbClaimReject)
          else runClaimedExecution msg taskReq jobID traceID attemptID

def handleReclaimedMessage (msg : XMessage) : Program StreamProcessResult := do
  let (jobID, missingJobID) := requiredStreamField msg.values "job_id"
  let (_, missingEnqueueTS) := requiredStreamField msg.values "enqueue_ts"
  let (payloadRef, missingPayloadRef) := requiredStreamField msg.values "payload_ref"
  let (_, missingPriority) := requiredStreamField msg.values "priority"
  let missing := (if missingJobID then ["job_id"] else []) ++
    (if missingEnqueueTS then ["enqueue_ts"] else []) ++
    (if missingPayloadRef then ["payload_ref"] else []) ++ (if missingPriority then ["priority"] else [])
  let traceID ← perform .newString
  if 0 < missing.length then
    match ← markPoisonBeforeAck jobID (utf8 StreamReason.missingField.text)
        (utf8 "missing stream fields: " ++ joinComma missing) with
    | .error _ => pure (rejected .dbError)
    | .ok _ =>
      match ← xackWithRetry cfg msg.id with
      | .error _ => pure (rejected .xackError)
      | .ok _ => pure (rejected .missingField)
  else
  let payloadKey := namespacedRedisKey cfg payloadRef
  let first ← perform (.get payloadKey)
  let payload ← (if (first.toOption.all fun raw => trimSpaces raw = []) ∧ payloadKey ≠ payloadRef then do
    match ← perform (.get payloadRef) with
    | .ok legacyRaw => pure (if trimSpaces legacyRaw ≠ [] then .ok legacyRaw else first)
    | .error _ => pure first
  else pure first : Program (Except Bytes Bytes))
  match payload.toOption.filter (fun raw => trimSpaces raw ≠ []) with
  | none =>
    match ← markPoisonBeforeAck jobID (utf8 StreamReason.payloadInvalid.text)
        (utf8 "payload missing: " ++ payloadKey) with
    | .error _ => pure (rejected .dbError)
    | .ok _ =>
      match ← xackWithRetry cfg msg.id with
      | .error _ => pure (rejected .xackError)
      | .ok _ => pure (rejected .payloadInvalid)
  | some payloadRaw =>
    match decodeStreamTaskPayload cfg payloadRaw with
    | .error derr =>
      match ← markPoisonBeforeAck jobID (utf8 StreamReason.payloadDecodeError.text) derr with
      | .error _ => pure (rejected .dbError)
      | .ok _ =>
        match ← xackWithRetry cfg msg.id with
        | .error _ => pure (rejected .xackError)
        | .ok _ => pure (rejected .payloadInvalid)
    | .ok taskReq =>
      let taskReq := if trimSpaces taskReq.jobID = [] then { taskReq with jobID } else taskReq
      if taskReq.jobID ≠ jobID then
        match ← markPoisonBeforeAck jobID (utf8 StreamReason.payloadInvalid.text)
            (utf8 "payload job_id mismatch") with
        | .error _ => pure (rejected .dbError)
        | .ok _ =>
          match ← xackWithRetry cfg msg.id with
          | .error _ => pure (rejected .xackError)
          | .ok _ => pure (rejected .payloadInvalid)
      else
        let (taskReq, traceID) :=
          if trimSpaces taskReq.traceID ≠ [] then (taskReq, trimSpaces taskReq.traceID)
          else ({ taskReq with traceID }, traceID)
        match ← perform (.reclaimSubmissionForRun jobID cfg.jobStreamConsumer cfg.jobLeaseSec) with
        | .error _ => pure (rejected .dbError)
        | .ok (attemptID, decision) =>
          if decision = utf8 "claimed" then
            runClaimedExecution msg taskReq jobID traceID attemptID
          else if decision = utf8 "lease_still_valid" then pure (rejected .leaseStillValid)
          else if decision = utf8 "done_or_stale" then
            match ← xackWithRetry cfg msg.id with
            | .error _ => pure (rejected .xackError)
            | .ok _ => pure (rejected .doneOrStale)
          else if decision = utf8 "not_found" then
            match ← xackWithRetry cfg msg.id with
            | .error _ => pure (rejected .xackError)
            | .ok _ => pure (rejected .notFound)
          else pure (rejected .dbError)

/-! ## Up to the fence -/

/-- What a handler has done when it comes to the fence: a result, or the arguments it passes. -/
inductive Stop where
  | done (res : StreamProcessResult)
  | fence (jobID consumer : Bytes) (leaseSec : Int)
  deriving DecidableEq

/-- A handler up to the fence, its own call left out. -/
def untilFence : Program StreamProcessResult → Program Stop
  | .ret res => .ret (.done res)
  | .call (.claimSubmissionForRun jobID consumer leaseSec) _ => .ret (.fence jobID consumer leaseSec)
  | .call (.reclaimSubmissionForRun jobID consumer leaseSec) _ => .ret (.fence jobID consumer leaseSec)
  | .call e k => .call e fun r => untilFence (k r)

/-- What is executed in the end, if anything. -/
inductive Executed where
  | nothing (res : StreamProcessResult)
  | task (msg : XMessage) (task : Task) (jobID traceID : Bytes) (attemptID : Int)
  deriving DecidableEq

/-- A handler whose fence grants the attempt, up to the execution. -/
def granted (attemptID : Int) : Program StreamProcessResult → Program Executed
  | .ret res => .ret (.nothing res)
  | .call (.claimSubmissionForRun ..) k => granted attemptID (k (.ok (attemptID, true)))
  | .call (.reclaimSubmissionForRun ..) k => granted attemptID (k (.ok (attemptID, utf8 "claimed")))
  | .call (.runClaimedExecution msg task jobID traceID attemptID) _ =>
    .ret (.task msg task jobID traceID attemptID)
  | .call .newString k => .call .newString fun r => granted attemptID (k r)
  | .call (.get key) k => .call (.get key) fun r => granted attemptID (k r)
  | .call (.markSubmissionPoison j c m) k =>
    .call (.markSubmissionPoison j c m) fun r => granted attemptID (k r)
  | .call (.ack s g i) k => .call (.ack s g i) fun r => granted attemptID (k r)

/-- After a failed write of the poison state nothing is acknowledged. -/
def KeepsUnrecorded : Program StreamProcessResult → Prop
  | .ret _ => True
  | .call (.markSubmissionPoison ..) k =>
    (∀ err, Prog.Uses (fun e => ∀ s g i, e ≠ .ack s g i) (k (.error err))) ∧
      ∀ ok, KeepsUnrecorded (k (.ok ok))
  | .call _ k => ∀ r, KeepsUnrecorded (k r)

/-! ## One function of what is done at the fence -/

/-- Mark the submission as poison, acknowledge, and end. -/
def reject (msg : XMessage) (jobID errorCode errorMessage : Bytes) (reason : StreamReason) :
    Program StreamProcessResult := do
  match ← markPoisonBeforeAck jobID errorCode errorMessage with
  | .error _ => pure (rejected .dbError)
  | .ok _ =>
    match ← xackWithRetry cfg msg.id with
    | .error _ => pure (rejected .xackError)
    | .ok _ => pure (rejected reason)

/-- The payload that one of two keys holds. -/
def getPayload (payloadKey payloadRef : Bytes) : Program (Except Bytes Bytes) := do
  let first ← perform (.get payloadKey)
  if (first.toOption.all fun raw => trimSpaces raw = []) ∧ payloadKey ≠ payloadRef then do
    match ← perform (.get payloadRef) with
    | .ok legacyRaw => pure (if trimSpaces legacyRaw ≠ [] then .ok legacyRaw else first)
    | .error _ => pure first
  else pure first

/-- The end of a handler that does `tail` with the task and its trace id. -/
def withTask (msg : XMessage) (jobID traceID : Bytes) (taskReq : Task)
    (tail : Task → Bytes → Program StreamProcessResult) : Program StreamProcessResult := do
  let taskReq := if trimSpaces taskReq.jobID = [] then { taskReq with jobID } else taskReq
  if taskReq.jobID ≠ jobID then
    reject cfg msg jobID (utf8 StreamReason.payloadInvalid.text)
      (utf8 "payload job_id mismatch") .payloadInvalid
  else
    let (taskReq, traceID) :=
      if trimSpaces taskReq.traceID ≠ [] then (taskReq, trimSpaces taskReq.traceID)
      else ({ taskReq with traceID }, traceID)
    tail taskReq traceID

/-- A handler that does `tail` with the job, the task and its trace id. -/
def handle (msg : XMessage) (tail : Bytes → Task → Bytes → Program StreamProcessResult) :
    Program StreamProcessResult := do
  let jobID := (requiredStreamField msg.values "job_id").1
  let payloadRef := (requiredStreamField msg.values "payload_ref").1
  let missing := ["job_id", "enqueue_ts", "payload_ref", "priority"].filter fun key =>
    (requiredStreamField msg.values key).2
  let traceID ← perform .newString
  if 0 < missing.length then
    reject cfg msg jobID (utf8 StreamReason.missingField.text)
      (utf8 "missing stream fields: " ++ joinComma missing) .missingField
  else
  let payload ← getPayload (namespacedRedisKey cfg payloadRef) payloadRef
  match payload.toOption.filter (fun raw => trimSpaces raw ≠ []) with
  | none =>
    reject cfg msg jobID (utf8 StreamReason.payloadInvalid.text)
      (utf8 "payload missing: " ++ namespacedRedisKey cfg payloadRef) .payloadInvalid
  | some payloadRaw =>
    match decodeStreamTaskPayload cfg payloadRaw with
    | .error derr =>
      reject cfg msg jobID (utf8 StreamReason.payloadDecodeError.text) derr .payloadInvalid
    | .ok taskReq => withTask cfg msg jobID traceID taskReq (tail jobID)

/-- What `handleMessage` does from the fence on. -/
def claimThen (msg : XMessage) (jobID : Bytes) (task : Task) (traceID : Bytes) :
    Program StreamProcessResult := do
  match ← perform (.claimSubmissionForRun jobID cfg.jobStreamConsumer cfg.jobLeaseSec) with
  | .error _ => pure (rejected .dbError)
  | .ok (attemptID, claimed) =>
    if ¬ claimed then
      match ← xackWithRetry cfg msg.id with
      | .error _ => pure (rejected .xackError)
      | .ok _ => pure (rejected .dbClaimReject)
    else runClaimedExecution msg task jobID traceID attemptID

/-- What `handleReclaimedMessage` does from the fence on. -/
def reclaimThen (msg : XMessage) (jobID : Bytes) (task : Task) (traceID : Bytes) :
    Program StreamProcessResult := do
  match ← perform (.reclaimSubmissionForRun jobID cfg.jobStreamConsumer cfg.jobLeaseSec) with
  | .error _ => pure (rejected .dbError)
  | .ok (attemptID, decision) =>
    if decision = utf8 "claimed" then runClaimedExecution msg task jobID traceID attemptID
    else if decision = utf8 "lease_still_valid" then pure (rejected .leaseStillValid)
    else if decision = utf8 "done_or_stale" then
      match ← xackWithRetry cfg msg.id with
      | .error _ => pure (rejected .xackError)
      | .ok _ => pure (rejected .doneOrStale)
    else if decision = utf8 "not_found" then
      match ← xackWithRetry cfg msg.id with
      | .error _ => pure (rejected .xackError)
      | .ok _ => pure (rejected .notFound)
    else pure (rejected .dbError)

theorem missing_eq (values : List (Bytes × FieldValue)) :
    (["job_id", "enqueue_ts", "payload_ref", "priority"].filter fun key =>
      (requiredStreamField values key).2) =
    (if (requiredStreamField values "job_id").2 then ["job_id"] else []) ++
      (if (requiredStreamField values "enqueue_ts").2 then ["enqueue_ts"] else []) ++
      (if (requiredStreamField values "payload_ref").2 then ["payload_ref"] else []) ++
      (if (requiredStreamField values "priority").2 then ["priority"] else []) := by
  simp only [List.filter_cons, List.filter_nil]
  cases (requiredStreamField values "job_id").2 <;> cases (requiredStreamField values "enqueue_ts").2 <;>
    cases (requiredStreamField values "payload_ref").2 <;>
    cases (requiredStreamField values "priority").2 <;> rfl

theorem handleMessage_eq (msg : XMessage) :
    handleMessage cfg msg = handle cfg msg (claimThen cfg msg) := by
  unfold handle getPayload
  rw [missing_eq]
  simp only [bind_assoc]
  rfl

theorem handleReclaimedMessage_eq (msg : XMessage) :
    handleReclaimedMessage cfg msg = handle cfg msg (reclaimThen cfg msg) := by
  unfold handle getPayload
  rw [missing_eq]
  simp only [bind_assoc]
  rfl

/-! ## What cannot tell the handlers apart -/

/-- An effect that comes before the fence. -/
def Plain : Effect → Prop
  | .claimSubmissionForRun .. => False
  | .reclaimSubmissionForRun .. => False
  | .runClaimedExecution .. => False
  | _ => True

section Plain

variable {cfg} {α S : Type} {msg : XMessage} {jobID code message payloadRef payloadKey : Bytes}
  {reason : StreamReason}

theorem plain_xackWithRetry {entryID : Bytes} : Prog.Uses Plain (xackWithRetry cfg entryID) := by
  refine ⟨trivial, fun r => ?_⟩
  cases r with
  | ok n => exact trivial
  | error err =>
    refine ⟨trivial, fun r => ?_⟩
    cases r <;> exact trivial

theorem plain_getPayload : Prog.Uses Plain (getPayload payloadKey payloadRef) := by
  refine (Prog.uses_perform.mpr trivial).bind fun first => ?_
  split
  · refine (Prog.uses_perform.mpr trivial).bind fun r => ?_
    cases r <;> exact trivial
  · exact trivial

/-- A view of programs that leaves plain effects as they are. -/
def Transparent (F : Program StreamProcessResult → Program S) : Prop :=
  ∀ e k, Plain e → F (.call e k) = .call e fun r => F (k r)

variable {F : Program StreamProcessResult → Program S}

theorem Transparent.bind (hF : Transparent F) {p : Program α} {f : α → Program StreamProcessResult}
    (hp : Prog.Uses Plain p) : F (p >>= f) = p >>= fun a => F (f a) := by
  induction p with
  | ret a => rfl
  | call e k ih =>
    obtain ⟨he, hk⟩ := hp
    rw [Prog.call_bind, hF e _ he, Prog.call_bind]
    congr 1
    funext r
    exact ih r (hk r)

/-- The task is rejected, or handed on, whatever is done with it. -/
theorem withTask_eq (traceID : Bytes) (taskReq : Task) :
    (∀ tail, withTask cfg msg jobID traceID taskReq tail =
      reject cfg msg jobID (utf8 StreamReason.payloadInvalid.text)
        (utf8 "payload job_id mismatch") .payloadInvalid) ∨
      ∃ task traceID', ∀ tail, withTask cfg msg jobID traceID taskReq tail = tail task traceID' := by
  unfold withTask
  simp only
  generalize (if trimSpaces taskReq.jobID = [] then ({ taskReq with jobID } : Task) else taskReq) = task
  by_cases hjob : task.jobID ≠ jobID
  · exact .inl fun tail => if_pos hjob
  · exact .inr ⟨_, _, fun tail => if_neg hjob⟩

/-- Such a view tells two handlers apart at the fence only. -/
theorem Transparent.handle_congr (hF : Transparent F)
    {tail tail' : Bytes → Task → Bytes → Program StreamProcessResult}
    (htail : ∀ jobID task traceID, F (tail jobID task traceID) = F (tail' jobID task traceID)) :
    F (handle cfg msg tail) = F (handle cfg msg tail') := by
  unfold handle
  rw [hF.bind (p := perform .newString) ⟨trivial, fun _ => trivial⟩,
    hF.bind (p := perform .newString) ⟨trivial, fun _ => trivial⟩]
  refine bind_congr fun traceID => ?_
  split
  · rfl
  rw [hF.bind plain_getPayload, hF.bind plain_getPayload]
  refine bind_congr fun payload => ?_
  cases payload.toOption.filter (fun raw => trimSpaces raw ≠ []) with
  | none => rfl
  | some payloadRaw =>
    simp only
    cases decodeStreamTaskPayload cfg payloadRaw with
    | error derr => rfl
    | ok taskReq =>
      -- the task is for the job of the message, or it is rejected
      show F (withTask cfg msg _ traceID taskReq _) = F (withTask cfg msg _ traceID taskReq _)
      rcases withTask_eq traceID taskReq with hreject | ⟨task, traceID', htask⟩
      · rw [hreject, hreject]
      · rw [htask, htask]
        exact htail _ _ _

theorem transparent_untilFence : Transparent untilFence := by
  intro e k he
  cases e <;> first | rfl | exact absurd he id

theorem transparent_granted (attemptID : Int) : Transparent (granted attemptID) := by
  intro e k he
  cases e <;> first | rfl | exact absurd he id

theorem untilFence_claimThen (jobID : Bytes) (task : Task) (traceID : Bytes) :
    untilFence (claimThen cfg msg jobID task traceID) =
      untilFence (reclaimThen cfg msg jobID task traceID) := rfl

theorem granted_claimThen (attemptID : Int) (jobID : Bytes) (task : Task) (traceID : Bytes) :
    granted attemptID (claimThen cfg msg jobID task traceID) =
      granted attemptID (reclaimThen cfg msg jobID task traceID) := rfl

/-! ## The acknowledgement of what is malformed -/

/-- A program that marks nothing leaves nothing unrecorded before what comes after it. -/
theorem keepsUnrecorded_bind {p : Program α} {f : α → Program StreamProcessResult}
    (hp : Prog.Uses (fun e => ∀ j c m, e ≠ .markSubmissionPoison j c m) p)
    (hf : ∀ a, KeepsUnrecorded (f a)) : KeepsUnrecorded (p >>= f) := by
  induction p with
  | ret a => exact hf a
  | call e k ih =>
    obtain ⟨he, hk⟩ := hp
    cases e
    case markSubmissionPoison j c m => exact absurd rfl (he j c m)
    all_goals exact fun r => ih r (hk r)

theorem unmarked_xackWithRetry {entryID : Bytes} :
    Prog.Uses (fun e => ∀ j c m, e ≠ .markSubmissionPoison j c m) (xackWithRetry cfg entryID) := by
  refine ⟨by simp, fun r => ?_⟩
  cases r with
  | ok n => exact trivial
  | error err =>
    refine ⟨by simp, fun r => ?_⟩
    cases r <;> exact trivial

theorem keepsUnrecorded_ack {entryID : Bytes} {res res' : StreamProcessResult} :
    KeepsUnrecorded (do
      match ← xackWithRetry cfg entryID with
      | .error _ => pure res
      | .ok _ => pure res') := by
  refine keepsUnrecorded_bind unmarked_xackWithRetry fun r => ?_
  cases r <;> exact trivial

theorem keepsUnrecorded_reject : KeepsUnrecorded (reject cfg msg jobID code message reason) := by
  unfold reject markPoisonBeforeAck
  split
  · exact keepsUnrecorded_ack
  · -- an error of the write ends the handler
    refine ⟨fun err => trivial, fun ok => ?_⟩
    exact keepsUnrecorded_ack

theorem keepsUnrecorded_handle {tail : Bytes → Task → Bytes → Program StreamProcessResult}
    (htail : ∀ jobID task traceID, KeepsUnrecorded (tail jobID task traceID)) :
    KeepsUnrecorded (handle cfg msg tail) := by
  unfold handle
  refine keepsUnrecorded_bind (Prog.uses_perform.mpr (by simp)) fun traceID => ?_
  split
  · exact keepsUnrecorded_reject
  have hget : Prog.Uses (fun e => ∀ j c m, e ≠ .markSubmissionPoison j c m)
      (getPayload (namespacedRedisKey cfg (requiredStreamField msg.values "payload_ref").1)
        (requiredStreamField msg.values "payload_ref").1) := by
    refine (Prog.uses_perform.mpr (by simp)).bind fun first => ?_
    split
    · refine (Prog.uses_perform.mpr (by simp)).bind fun r => ?_
      cases r <;> exact trivial
    · exact trivial
  refine keepsUnrecorded_bind hget fun payload => ?_
  cases payload.toOption.filter (fun raw => trimSpaces raw ≠ []) with
  | none => exact keepsUnrecorded_reject
  | some payloadRaw =>
    simp only
    cases decodeStreamTaskPayload cfg payloadRaw with
    | error derr => exact keepsUnrecorded_reject
    | ok taskReq =>
      show KeepsUnrecorded (withTask cfg msg _ traceID taskReq _)
      rcases withTask_eq traceID taskReq with hreject | ⟨task, traceID', htask⟩
      · rw [hreject]
        exact keepsUnrecorded_reject
      · rw [htask]
        exact htail _ _ _

theorem keepsUnrecorded_claimThen {task : Task} {traceID : Bytes} :
    KeepsUnrecorded (claimThen cfg msg jobID task traceID) := by
  refine keepsUnrecorded_bind (Prog.uses_perform.mpr (by simp)) fun r => ?_
  cases r with
  | error err => exact trivial
  | ok granted =>
    obtain ⟨attemptID, claimed⟩ := granted
    cases claimed with
    | false => exact keepsUnrecorded_ack
    | true => exact fun _ => trivial

theorem keepsUnrecorded_reclaimThen {task : Task} {traceID : Bytes} :
    KeepsUnrecorded (reclaimThen cfg msg jobID task traceID) := by
  refine keepsUnrecorded_bind (Prog.uses_perform.mpr (by simp)) fun r => ?_
  cases r with
  | error err => exact trivial
  | ok decided =>
    obtain ⟨attemptID, decision⟩ := decided
    show KeepsUnrecorded (if decision = utf8 "claimed" then _ else _)
    by_cases hclaimed : decision = utf8 "claimed"
    · rw [if_pos hclaimed]
      exact fun _ => trivial
    rw [if_neg hclaimed]
    by_cases hvalid : decision = utf8 "lease_still_valid"
    · rw [if_pos hvalid]
      exact trivial
    rw [if_neg hvalid]
    by_cases hdone : decision = utf8 "done_or_stale"
    · rw [if_pos hdone]
      exact keepsUnrecorded_ack
    rw [if_neg hdone]
    by_cases hnone : decision = utf8 "not_found"
    · rw [if_pos hnone]
      exact keepsUnrecorded_ack
    · rw [if_neg hnone]
      exact trivial

end Plain

/-- Fresh and reclaimed messages are treated alike up to the fence: every message and every
reply leads both handlers to the same effects with the same arguments, to the same result
or the same call at the fence; where the fence grants the attempt, they execute the same
task; and neither acknowledges what it failed to mark as poison. -/
theorem handlers_alike (msg : XMessage) :
    untilFence (handleMessage cfg msg) = untilFence (handleReclaimedMessage cfg msg) ∧
      (∀ attemptID, granted attemptID (handleMessage cfg msg) =
        granted attemptID (handleReclaimedMessage cfg msg)) ∧
      KeepsUnrecorded (handleMessage cfg msg) ∧ KeepsUnrecorded (handleReclaimedMessage cfg msg) := by
  rw [handleMessage_eq, handleReclaimedMessage_eq]
  refine ⟨transparent_untilFence.handle_congr untilFence_claimThen, ?_,
    keepsUnrecorded_handle fun _ _ _ => keepsUnrecorded_claimThen,
    keepsUnrecorded_handle fun _ _ _ => keepsUnrecorded_reclaimThen⟩
  intro attemptID
  exact (transparent_granted attemptID).handle_congr (granted_claimThen attemptID)

end DeepOj.Worker.Handlers
