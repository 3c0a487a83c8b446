import DeepOj.Repository.Fencing
import DeepOj.Repository.Outbox
import DeepOj.Conc.Rely

/-!
# The shared world

PostgreSQL, Redis and the job stream as the API, the dispatchers and the workers
see them, and the effects through which they touch them.
-/

namespace DeepOj.Cluster

open Repository Go

/-! ## Redis -/

/-- What a Redis key names. The fingerprint of a cache key stands for its hash. -/
inductive KeyName where
  | payload (jobID : String)
  | result (jobID : String)
  | cache (fingerprint : String)
  | inflight (fingerprint : String)
  deriving DecidableEq, Repr

/-- A Redis key, within the configured namespace or in its legacy form. -/
structure RedisKey where
  namespaced : Bool
  name : KeyName
  deriving DecidableEq, Repr

/-- `NamespacedRedisKey`. -/
def namespacedRedisKey (k : RedisKey) : RedisKey := { k with namespaced := true }

/-- The text of a key under the default prefix. -/
def RedisKey.text (k : RedisKey) : String :=
  match k.name with
  | .payload j => (if k.namespaced then "deepoj:" else "") ++ "task:payload:" ++ j
  | .result j => (if k.namespaced then "deepoj:" else "") ++ "result:" ++ j
  | .cache h => (if k.namespaced then "deepoj:" else "oj:") ++ "cache:" ++ h
  | .inflight h => (if k.namespaced then "deepoj:" else "oj:") ++ "inflight:oj:cache:" ++ h

/-- The envelope around a task; `taskData` is what its base64 text decodes to. -/
structure PayloadEnvelope where
  schemaVersion : Int
  taskData : Option TaskRequest
  encoding : String
  contentType : String
  deriving DecidableEq, Repr

/-- The values the services store: plain text, a payload envelope or a result map. -/
inductive RedisValue where
  | text (s : String)
  | envelope (p : PayloadEnvelope)
  | result (m : ResultMap)
  deriving DecidableEq, Repr

/-- `strings.TrimSpace(raw) == ""`. -/
def RedisValue.isBlank : RedisValue → Bool
  | .text s => trimSpace s = ""
  | _ => false

/-- `raw == ""`. -/
def RedisValue.isEmpty : RedisValue → Bool
  | .text s => s = ""
  | _ => false

/-- `json.Unmarshal` into a map. -/
def RedisValue.asMap : RedisValue → Option ResultMap
  | .result m => some m
  | _ => none

/-! ## The stream -/

/-- The fields of a stream message. -/
structure StreamValues where
  jobID : Option String
  enqueueTS : Option Int
  payloadRef : Option RedisKey
  priority : Option Int
  eventID : Option Nat
  deriving DecidableEq, Repr

/-- Where an entry stands in the consumer group: not yet delivered, in the pending
entries list of a consumer, or acknowledged. -/
inductive Delivery where
  | fresh
  | pending (consumer : String) (deliveredAt : Nat)
  | acked
  deriving DecidableEq, Repr

/-- A stream entry; its id is its position in the stream. -/
structure StreamEntry where
  values : StreamValues
  delivery : Delivery
  deriving DecidableEq, Repr

/-! ## History -/

/-- Which of the two ways of creating a row was used, and for what. -/
inductive Origin where
  | outbox
  | direct
  | cached
  deriving DecidableEq, Repr

/-- What `ExecuteTask` found out about a task. -/
inductive JudgeOutcome where
  | busy (err : String)
  | prepareFailed (err : String)
  | saveFailed (err : String)
  | compileFailed (err : String)
  | compileRejected (msg : String)
  | executeFailed (err : String)
  | judged (status : String) (timeUsed memoryUsed : Nat)
  deriving DecidableEq, Repr

/-- The body of an API response. -/
inductive ApiReply where
  | error (code : String)
  | queuing (jobID : String)
  | status (jobID status state : String) (data : Option ResultMap)
  deriving DecidableEq, Repr

/-- What has happened, as far as the properties of the system refer to it. -/
inductive LogEvent where
  | created (jobID : String) (origin : Origin)
  /-- An attempt was handed out to a worker handling the stream entry `via`. -/
  | started (jobID : String) (attemptID : Nat) (leaseOwner : String) (via : Option Nat)
  | executed (task : TaskRequest) (attemptID : Nat) (outcome : JudgeOutcome)
  | finalized (jobID : String) (attemptID : Nat) (status : String) (result : ResultMap)
  | inspected (jobID : String) (row : Option Submission)
  /-- The update behind a reply from the cache had no effect. -/
  | skipped (jobID : String)
  /-- The API read a result from the result key of the job. -/
  | served (jobID : String) (result : ResultMap)
  /-- A status request arrived while the row was `row`. -/
  | asked (request : Nat) (jobID : String) (row : Option Submission)
  | replied (request : Nat) (reply : ApiReply)
  deriving DecidableEq, Repr

/-! ## Running executions -/

/-- The reasons a stream message ends with. -/
inductive StreamReason where
  | ok
  | missingField
  | payloadInvalid
  | payloadDecodeError
  | dbClaimReject
  | dbError
  | xackError
  | leaseLost
  | dbErrorHeartbeat
  | staleAttempt
  | leaseStillValid
  | notFound
  | doneOrStale
  | alreadyFinished
  | notExpectedState
  | leaseOwnerMismatch
  deriving DecidableEq, Repr

/-- The text of a reason in logs, metrics and `error_code`. -/
def StreamReason.text : StreamReason → String
  | .ok => "ok"
  | .missingField => "missing_field"
  | .payloadInvalid => "payload_missing_or_invalid"
  | .payloadDecodeError => "payload_decode_error"
  | .dbClaimReject => "db_claim_reject"
  | .dbError => "db_error"
  | .xackError => "xack_error"
  | .leaseLost => "lease_lost"
  | .dbErrorHeartbeat => "db_error_heartbeat"
  | .staleAttempt => "stale_attempt"
  | .leaseStillValid => "lease_still_valid"
  | .notFound => "not_found"
  | .doneOrStale => "done_or_stale"
  | .alreadyFinished => "already_finished"
  | .notExpectedState => "not_in_expected_state"
  | .leaseOwnerMismatch => "lease_lost_or_owner_mismatch"

/-- `heartbeatResult`. -/
structure HeartbeatResult where
  leaseLost : Bool := false
  reason : StreamReason := .ok
  deriving DecidableEq, Repr

/-- The context and the heartbeat channel of one execution. -/
structure RunCell where
  cancelled : Bool
  heartbeat : Option HeartbeatResult
  deriving DecidableEq, Repr

/-! ## The world -/

/-- The shared state. The clocks of PostgreSQL and Redis are separate. -/
structure World where
  dbNow : Nat
  redisNow : Nat
  submissions : String → Option Submission
  outbox : List OutboxEvent
  redis : RedisKey → Option RedisValue
  stream : List StreamEntry
  cells : List RunCell
  requests : Nat
  log : List LogEvent

namespace World

/-- A system in which nothing has happened yet. -/
def empty : World where
  dbNow := 0
  redisNow := 0
  submissions := fun _ => none
  outbox := []
  redis := fun _ => none
  stream := []
  cells := []
  requests := 0
  log := []

/-- Write one row of `submissions`. -/
def setRow (w : World) (jobID : String) (s : Submission) : World :=
  { w with submissions := Function.update w.submissions jobID (some s) }

/-- Write one Redis key. -/
def setKey (w : World) (k : RedisKey) (v : Option RedisValue) : World :=
  { w with redis := Function.update w.redis k v }

/-- Change where an entry stands in the consumer group. -/
def setDelivery (w : World) (i : Nat) (d : Delivery) : World :=
  { w with stream := w.stream.modify i fun e => { e with delivery := d } }

/-- Change the outbox events with the given ids. -/
def setOutbox (w : World) (ids : List Nat) (f : Nat → OutboxEvent → OutboxEvent) : World :=
  { w with outbox := w.outbox.mapIdx fun i e => if i ∈ ids then f i e else e }

/-- Record an event. -/
def record (w : World) (ev : LogEvent) : World := { w with log := ev :: w.log }

@[simp] theorem setRow_self (w : World) (j : String) (s : Submission) :
    (w.setRow j s).submissions j = some s := Function.update_self ..

theorem setRow_of_ne (w : World) {j j' : String} (h : j' ≠ j) (s : Submission) :
    (w.setRow j s).submissions j' = w.submissions j' := Function.update_of_ne h ..

@[simp] theorem setKey_self (w : World) (k : RedisKey) (v : Option RedisValue) :
    (w.setKey k v).redis k = v := Function.update_self ..

theorem setKey_of_ne (w : World) {k k' : RedisKey} (h : k' ≠ k) (v : Option RedisValue) :
    (w.setKey k v).redis k' = w.redis k' := Function.update_of_ne h ..

end World

/-! ## Effects -/

/-- Which process reads a Redis key. -/
inductive Reader where
  | api
  | worker
  deriving DecidableEq, Repr

/-- The query a row is read by. -/
inductive Purpose where
  | status
  | finalizeReject
  | reclaimInspect
  deriving DecidableEq, Repr

/-- The branch a stream entry is acknowledged in. -/
inductive AckSite where
  | poison
  | claimRejected
  | doneOrStale
  | notFound
  | finalizeRejected (attemptID : Nat)
  | finalized (attemptID : Nat)
  deriving DecidableEq, Repr

/-- A request to PostgreSQL or Redis. -/
inductive Request where
  /-- An `UPDATE` of one row, on behalf of the handler of the stream entry `via`. -/
  | update (jobID : String) (op : RowOp) (via : Option Nat)
  | select (jobID : String) (purpose : Purpose)
  | insert (s : Submission) (origin : Origin)
  | insertWithOutbox (s : Submission) (event : OutboxEvent)
  | countActive
  | getProblem (problemID : Int)
  | claimOutbox (limit baseMs maxMs : Int)
  | markDispatched (eventID streamEntryID : Nat)
  | markDispatchError (eventID : Nat) (lastError : String)
  | get (reader : Reader) (k : RedisKey)
  | set (k : RedisKey) (v : RedisValue)
  | setNX (k : RedisKey) (v : RedisValue)
  | del (k : RedisKey)
  | xadd (values : StreamValues)
  | xack (entryID : Nat) (site : AckSite)
  deriving DecidableEq

/-- What a request returns when it succeeds. -/
@[reducible] def Request.Response : Request → Type
  | .update .. => Option Nat
  | .select .. => Option Submission
  | .insert .. => Unit
  | .insertWithOutbox .. => Nat
  | .countActive => Nat
  | .getProblem _ => String
  | .claimOutbox .. => List (Nat × OutboxEvent)
  | .markDispatched .. => Unit
  | .markDispatchError .. => Unit
  | .get .. => Option RedisValue
  | .set .. => Unit
  | .setNX .. => Bool
  | .del _ => Unit
  | .xadd _ => Nat
  | .xack .. => Unit

/-- A goroutine the worker starts. -/
inductive Goroutine where
  | heartbeat (cell : Nat) (jobID : String) (attemptID : Nat) (leaseOwner : String)
      (leaseSec : Int) (consecutiveErrors : Nat)
  deriving DecidableEq

/-- An action of a program on its own process. -/
inductive Action where
  | now
  | uuid
  | judge (task : TaskRequest) (attemptID : Nat)
  | newRun
  | cancelRun (cell : Nat)
  | go (g : Goroutine)
  | selectTick (cell : Nat)
  | sendHeartbeat (cell : Nat) (r : HeartbeatResult)
  | recvHeartbeat (cell : Nat)
  | rateLimit
  | reply (request : Nat) (r : ApiReply)
  deriving DecidableEq

/-- What an action returns. -/
@[reducible] def Action.Response : Action → Type
  | .now => Nat
  | .uuid => String
  | .judge .. => JudgeOutcome
  | .newRun => Nat
  | .cancelRun _ => Unit
  | .go _ => Unit
  | .selectTick _ => Bool
  | .sendHeartbeat .. => Unit
  | .recvHeartbeat _ => HeartbeatResult
  | .rateLimit => Bool
  | .reply .. => Unit

/-- An effect of a program. -/
inductive Effect where
  | request (q : Request)
  | act (a : Action)
  deriving DecidableEq

/-- The reply to an effect. Requests can fail; actions of the own process do not. -/
@[reducible] def Effect.Reply : Effect → Type
  | .request q => Except String q.Response
  | .act a => a.Response

/-- Programs of the services. -/
abbrev Program (α : Type) : Type := Conc.Prog Effect Effect.Reply α

/-- Send a request. -/
abbrev request (q : Request) : Program (Except String q.Response) :=
  Conc.Prog.perform (Effect.request q)

/-- Perform an action of the own process. -/
abbrev act (a : Action) : Program a.Response := Conc.Prog.perform (Effect.act a)

end DeepOj.Cluster
