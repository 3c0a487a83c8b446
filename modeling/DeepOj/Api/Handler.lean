import DeepOj.Api.OutboxDispatcher
import DeepOj.Worker.StreamConsumer
import Mathlib.Algebra.Ring.Nat

/-!
# The submit and status handlers
-/

namespace DeepOj.Api

open Repository Cluster Worker Go

/-- The limits and switches `HandleSubmit` reads. -/
structure ApiConfig where
  submitCodeMaxBytes : Nat
  submitDefaultTimeLimit : Int
  submitMaxTimeLimit : Int
  submitDefaultMemoryLimit : Int
  submitMaxMemoryLimit : Int
  submitMaxInflight : Nat
  outboxEnabled : Bool
  deriving DecidableEq, Repr

/-- `SubmitRequest`. -/
structure SubmitRequest where
  code : String
  language : Int
  timeLimit : Int
  memoryLimit : Int
  problemID : Int
  deriving DecidableEq, Repr

/-- Who sent a request. -/
structure Caller where
  request : Nat
  requestID : String
  userID : Option Nat
  admin : Bool
  deriving DecidableEq, Repr

/-- A limit of the request, defaulted and capped. -/
def normalizeLimit (v default cap : Int) : Int :=
  if v ≤ 0 then default else if v > cap then cap else v

/-- The request with its limits defaulted and capped. -/
def normalizeRequest (cfg : ApiConfig) (req : SubmitRequest) : SubmitRequest :=
  { req with
    timeLimit := normalizeLimit req.timeLimit cfg.submitDefaultTimeLimit cfg.submitMaxTimeLimit
    memoryLimit :=
      normalizeLimit req.memoryLimit cfg.submitDefaultMemoryLimit cfg.submitMaxMemoryLimit }

/-- The text `generateCacheKey` hashes. -/
def generateCacheKey (req : SubmitRequest) (testcaseHash : String) : String :=
  req.code ++ "|" ++ toString req.language ++ "|" ++ toString req.timeLimit ++ "|" ++
    toString req.memoryLimit ++ "|" ++ toString req.problemID ++ "|" ++ testcaseHash

/-- The row `HandleSubmit` creates. -/
def newSubmission (jobID : String) (userID : Option Nat) (req : SubmitRequest) : Submission :=
  { jobID := jobID
    problemID := if req.problemID > 0 then some req.problemID.toNat else none
    userID := match userID with
      | some u => if u > 0 then some u else none
      | none => none
    code := req.code
    language := req.language
    timeLimit := req.timeLimit
    memoryLimit := req.memoryLimit
    attemptID := 0
    leaseOwner := none
    leaseUntil := none
    status := "pending"
    state := "pending"
    errorCode := none
    errorMessage := none
    result := none
    createdAt := 0
    updatedAt := 0 }

/-- The task `HandleSubmit` enqueues. -/
def newTask (jobID : String) (caller : Caller) (req : SubmitRequest) (cacheKey : RedisKey)
    (enqueueTS : Nat) : TaskRequest :=
  { jobID := jobID
    code := req.code
    language := req.language
    timeLimit := req.timeLimit
    memoryLimit := req.memoryLimit
    cacheKey := cacheKey.text
    submitTime := enqueueTS
    problemID := (req.problemID % 2 ^ 32).toNat
    traceID := if caller.requestID = "" then jobID else caller.requestID }

/-- The outbox event of a new submission. -/
def newOutboxEvent (jobID : String) (task : TaskRequest) (enqueueTS : Nat) : OutboxEvent :=
  { jobID := jobID
    enqueueTS := enqueueTS
    priority := 0
    payload := task
    status := outboxStatusPending
    attempts := 0
    nextAttemptAt := 0
    lastError := none
    dispatchedAt := none
    streamEntryID := none }

/-- Send the response. -/
def reply (caller : Caller) (r : ApiReply) : Program Unit := act (.reply caller.request r)

/-- The status stored for a cached result. -/
def cachedStatus (data : ResultMap) : String :=
  match data.get "status" with
  | some (.str s) => if s = "" then "Finished" else s
  | _ => "Finished"

/-- `HandleSubmit` on a cache hit: record a finished submission and reply. The
outcome of the update is not looked at. -/
def submitCached (caller : Caller) (req : SubmitRequest) (data : ResultMap) : Program Unit := do
  let jobID ← act .uuid
  match ← request (.insert (newSubmission jobID caller.userID req) .cached) with
  | .error _ => reply caller (.error "DB_ERROR")
  | .ok _ =>
    let _ ← request (.update jobID (.updateResult (cachedStatus data) data) none)
    reply caller (.status jobID "Finished" "done" (some data))

/-- `persistSubmissionWithDeliveryMode` and the responses to its failures. -/
def persistSubmission (cfg : ApiConfig) (caller : Caller) (req : SubmitRequest)
    (fingerprint jobID : String) : Program Unit := do
  let enqueueTS ← act .now
  let inflightKey := namespacedRedisKey ⟨false, .inflight fingerprint⟩
  let task := newTask jobID caller req (namespacedRedisKey ⟨false, .cache fingerprint⟩) enqueueTS
  let submission := newSubmission jobID caller.userID req
  if cfg.outboxEnabled then
    match ← request (.insertWithOutbox submission (newOutboxEvent jobID task enqueueTS)) with
    | .error _ =>
      let _ ← request (.del inflightKey)
      reply caller (.error "DB_ERROR")
    | .ok _ => reply caller (.queuing jobID)
  else
    match ← request (.insert submission .direct) with
    | .error _ =>
      let _ ← request (.del inflightKey)
      reply caller (.error "DB_ERROR")
    | .ok _ =>
      match ← enqueueJobToStream jobID task with
      | .error _ =>
        let _ ← request (.del inflightKey)
        reply caller (.error "QUEUE_ERROR")
      | .ok _ => reply caller (.queuing jobID)

/-- `HandleSubmit` once the in-flight cap has been passed: deduplicate or persist. -/
def submitFresh (cfg : ApiConfig) (caller : Caller) (req : SubmitRequest) (fingerprint : String) :
    Program Unit := do
  let jobID ← act .uuid
  let inflightKey := namespacedRedisKey ⟨false, .inflight fingerprint⟩
  match ← request (.setNX inflightKey (.text jobID)) with
  | .ok false =>
    match okValue (← request (.get .api inflightKey)) with
    | some (.text existing) =>
      if existing = "" then persistSubmission cfg caller req fingerprint jobID
      else reply caller (.queuing existing)
    | _ => persistSubmission cfg caller req fingerprint jobID
  | _ => persistSubmission cfg caller req fingerprint jobID

/-- `HandleSubmit` on a cache miss: the cap on active submissions. -/
def submitUncached (cfg : ApiConfig) (caller : Caller) (req : SubmitRequest)
    (fingerprint : String) : Program Unit := do
  if cfg.submitMaxInflight > 0 then
    match ← request .countActive with
    | .error _ => submitFresh cfg caller req fingerprint
    | .ok active =>
      if active ≥ cfg.submitMaxInflight then reply caller (.error "INFLIGHT_CAP_REACHED")
      else submitFresh cfg caller req fingerprint
  else submitFresh cfg caller req fingerprint

/-- The testcase hash of the problem; `none` when the problem cannot be read. -/
def testcaseHashOf (problemID : Int) : Program (Option String) := do
  if problemID > 0 then
    match ← request (.getProblem problemID) with
    | .error _ => pure none
    | .ok hash => pure (some hash)
  else pure (some "")

/-- `HandleSubmit`, on a request whose body has been bound. -/
def handleSubmit (cfg : ApiConfig) (caller : Caller) (body : SubmitRequest) : Program Unit := do
  let allowed ← act .rateLimit
  if allowed = false then reply caller (.error "RATE_LIMITED")
  else if body.code = "" ∨ body.language = 0 then reply caller (.error "BAD_REQUEST")
  else if body.code.utf8ByteSize > cfg.submitCodeMaxBytes then reply caller (.error "INVALID_PARAM")
  else if body.language ≠ 1 then reply caller (.error "INVALID_PARAM")
  else
    let req := normalizeRequest cfg body
    match ← testcaseHashOf req.problemID with
    | none => reply caller (.error "PROBLEM_NOT_FOUND")
    | some testcaseHash =>
      let fingerprint := generateCacheKey req testcaseHash
      let cacheKey := namespacedRedisKey ⟨false, .cache fingerprint⟩
      match okValue (← request (.get .api cacheKey)) with
      | none => submitUncached cfg caller req fingerprint
      | some cached =>
        if cached.isEmpty then submitUncached cfg caller req fingerprint
        else
          match cached.asMap with
          | some data => submitCached caller req data
          | none =>
            let _ ← request (.del cacheKey)
            submitUncached cfg caller req fingerprint

/-- The response of `HandleStatus` from the row it read. -/
def rowReply (jobID : String) (s : Submission) : ApiReply :=
  .status jobID s.status s.state s.result

/-- `HandleStatus`. -/
def handleStatus (caller : Caller) (jobID : String) : Program Unit := do
  if jobID = "" then reply caller (.error "BAD_REQUEST")
  else
    match ← request (.select jobID .status) with
    | .error _ => reply caller (.error "NOT_FOUND")
    | .ok none => reply caller (.error "NOT_FOUND")
    | .ok (some submission) =>
      match caller.userID with
      | none => reply caller (.error "UNAUTHORIZED")
      | some userID =>
        if caller.admin = false ∧ submission.userID.getD 0 ≠ userID then
          reply caller (.error "FORBIDDEN")
        else
          let result ← getWithLegacy .api (resultKey jobID) (legacyResultKey jobID)
          match result with
          | none => reply caller (rowReply jobID submission)
          | some raw =>
            if raw.isEmpty then reply caller (rowReply jobID submission)
            else
              match raw.asMap with
              | some data => reply caller (.status jobID "Finished" "done" (some data))
              | none =>
                let _ ← request (.del (resultKey jobID))
                reply caller (rowReply jobID submission)

end DeepOj.Api
