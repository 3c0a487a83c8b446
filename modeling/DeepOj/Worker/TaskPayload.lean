import DeepOj.Api.OutboxDispatcher
import DeepOj.Pb.TaskRequest
import DeepOj.Worker.StreamConsumer

/-!
# The payload of a task

The task travels in an envelope: JSON, with the task in base 64. The consumer takes a
task that is not JSON for protocol buffers.
-/

namespace DeepOj.Payload

open Go Pb

/-! ## The envelope -/

/-- `payloadEnvelopeV1` of the producers, `streamEnvelopeV1` of the consumer. -/
structure Envelope where
  schemaVersion : Int64 := 0
  taskDataB64 : String := ""
  encoding : String := ""
  contentType : String := ""
  deriving DecidableEq, Repr

inductive EnvelopeField where
  | schemaVersion
  | taskDataB64
  | encoding
  | contentType
  deriving DecidableEq, Repr

namespace Envelope

def fields : List EnvelopeField := [.schemaVersion, .taskDataB64, .encoding, .contentType]

/-- The JSON tag. -/
def name : EnvelopeField → String
  | .schemaVersion => "schema_version"
  | .taskDataB64 => "task_data_b64"
  | .encoding => "encoding"
  | .contentType => "content_type"

/-- A field as JSON has it. -/
def get (e : Envelope) : EnvelopeField → Json.Scalar
  | .schemaVersion => .int e.schemaVersion.toInt
  | .taskDataB64 => .str e.taskDataB64
  | .encoding => .str e.encoding
  | .contentType => .str e.contentType

/-- Store a value in a field. -/
def store (e : Envelope) (f : EnvelopeField) (v : Json) : Option Envelope :=
  match f with
  | .schemaVersion =>
    (Json.storeInt (-2 ^ 63) (2 ^ 63 - 1) e.schemaVersion.toInt v).map fun n =>
      { e with schemaVersion := Int64.ofInt n }
  | .taskDataB64 => (Json.storeString e.taskDataB64 v).map fun s => { e with taskDataB64 := s }
  | .encoding => (Json.storeString e.encoding v).map fun s => { e with encoding := s }
  | .contentType => (Json.storeString e.contentType v).map fun s => { e with contentType := s }

def struct : Json.Struct Envelope EnvelopeField := ⟨fields, name, get, store⟩

theorem struct_lawful : struct.Lawful where
  names := by decide
  store t m f v hv := by
    cases f
    case schemaVersion =>
      have hlo := t.schemaVersion.le_toInt
      have hhi := t.schemaVersion.toInt_lt
      refine ⟨{ m with schemaVersion := t.schemaVersion }, ?_, rfl, fun g hg => ?_⟩
      · show (Json.storeInt _ _ m.schemaVersion.toInt v).map _ = _
        rw [Json.storeInt_holds hlo (by omega) hv, Option.map_some, Int64.ofInt_toInt]
      · cases g <;> first | rfl | exact absurd rfl hg
    case taskDataB64 | encoding | contentType =>
      refine ⟨_, congrArg (Option.map _) (Json.storeString_holds hv), rfl, fun g hg => ?_⟩
      cases g <;> first | rfl | exact absurd rfl hg

/-- The envelope around a task; no field has `omitempty`. -/
def ofTask (taskData : Bytes) : Bytes :=
  struct.marshal (fun _ => false)
    { schemaVersion := 1
      taskDataB64 := Base64.encodeToString taskData
      encoding := "base64"
      contentType := "application/json" }

/-- Every envelope is read back. -/
theorem unmarshal_marshal (e : Envelope) :
    struct.unmarshal {} (struct.marshal (fun _ => false) e) = some e := by
  have hwrites : struct.Writes e {} (struct.members (fun _ => false) e) :=
    Json.Struct.writes_members _ fun _ _ h _ => absurd h Bool.false_ne_true
  obtain ⟨e', he', hget⟩ := Json.Struct.unmarshal_same struct_lawful hwrites
    (Json.parse_objectText _) (Json.same_membersJson (Json.Struct.nodup_members struct_lawful _ e))
  obtain ⟨v, d, n, c⟩ := e
  obtain ⟨v', d', n', c'⟩ := e'
  have hv : Json.Scalar.int v'.toInt = .int v.toInt := hget .schemaVersion (by decide)
  have hd : Json.Scalar.str d' = .str d := hget .taskDataB64 (by decide)
  have hn : Json.Scalar.str n' = .str n := hget .encoding (by decide)
  have hc : Json.Scalar.str c' = .str c := hget .contentType (by decide)
  obtain rfl : v' = v := Int64.toInt_inj.mp (Json.Scalar.int.inj hv)
  obtain rfl := Json.Scalar.str.inj hd
  obtain rfl := Json.Scalar.str.inj hn
  obtain rfl := Json.Scalar.str.inj hc
  exact he'

end Envelope

/-! ## Writing -/

/-- `buildPayloadEnvelope` of the outbox dispatcher. -/
def buildPayloadEnvelope (taskData : Bytes) : Bytes := Envelope.ofTask taskData

/-- What `enqueueJobToStream` stores under the reference of the payload. -/
def enqueuedPayload (taskData : Bytes) : Bytes := Envelope.ofTask taskData

/-! ## Reading -/

/-- `decodeJSONTaskPayload`. -/
def decodeJSONTaskPayload (data : Bytes) : Option TaskRequest := TaskRequest.unmarshalJSON data

/-- `decodeProtoTaskPayload`. -/
def decodeProtoTaskPayload (data : Bytes) : Option TaskRequest := TaskRequest.unmarshalProto data

/-- The task in the bytes of an envelope, by content type. -/
def decodeTask (contentType : String) (data : Bytes) : Except String TaskRequest :=
  if toLower (trimSpace contentType) = "application/json" then
    match decodeJSONTaskPayload data with
    | some task => .ok task
    | none =>
      match decodeProtoTaskPayload data with
      | some task => .ok task
      | none => .error "decode task_data json"
  else if toLower (trimSpace contentType) ∈ ["application/x-protobuf", "application/protobuf"] then
    match decodeProtoTaskPayload data with
    | some task => .ok task
    | none => .error "proto: cannot parse invalid wire-format data"
  else .error ("unsupported payload content_type: " ++ contentType)

/-- `decodeStreamTaskPayload`. -/
def decodeStreamTaskPayload (payloadRaw : Bytes) : Except String TaskRequest :=
  match Envelope.struct.unmarshal {} payloadRaw with
  | none => .error "decode payload envelope"
  | some envelope =>
    let encoding := if trimSpace envelope.encoding = "" then "base64" else envelope.encoding
    let contentType :=
      if trimSpace envelope.contentType = "" then "application/json" else envelope.contentType
    if envelope.schemaVersion ≠ 1 then
      .error ("unsupported payload schema_version: " ++ toString envelope.schemaVersion)
    else if toLower (trimSpace encoding) ≠ "base64" then
      .error ("unsupported payload encoding: " ++ encoding)
    else
      match Base64.decodeString envelope.taskDataB64 with
      | none => .error "decode payload task_data_b64"
      | some decoded => decodeTask contentType decoded

/-- An envelope hands on the bytes it was built around. -/
theorem decodeStreamTaskPayload_ofTask (taskData : Bytes) :
    decodeStreamTaskPayload (Envelope.ofTask taskData) = decodeTask "application/json" taskData := by
  have hencoding : (if trimSpace "base64" = "" then "base64" else "base64") = "base64" := by
    rw [ite_self]
  have hcontent : (if trimSpace "application/json" = "" then "application/json"
      else "application/json") = "application/json" := by
    rw [ite_self]
  have hbase : toLower (trimSpace "base64") = "base64" := by decide +kernel
  rw [decodeStreamTaskPayload, Envelope.ofTask, Envelope.unmarshal_marshal]
  simp only [hencoding, hcontent, hbase, ne_eq, not_true_eq_false, if_false,
    Base64.decodeString_encodeToString]

theorem decodeTask_json {data : Bytes} {task : TaskRequest} (h : decodeJSONTaskPayload data = some task) :
    decodeTask "application/json" data = .ok task := by
  have hcontent : toLower (trimSpace "application/json") = "application/json" := by decide +kernel
  rw [decodeTask, if_pos hcontent, h]

/-! ## The round trip -/

/-- What PostgreSQL returns for a JSONB value that was stored from a text: a text with the same
value. White space, escapes and the order of the members are its own, and integers are written in
decimal digits. -/
def JsonbText (stored text : Bytes) : Prop :=
  ∃ v v', Json.parse stored = some v ∧ Json.parse text = some v' ∧ v.Same v'

/-- The bytes `taskData` are the task as it was written, or as the database gives it back. -/
def Carries (taskData : Bytes) (task : TaskRequest) : Prop :=
  taskData = task.marshalJSON ∨ JsonbText task.marshalJSON taskData

theorem Carries.decode {task : TaskRequest} {taskData : Bytes} (h : Carries taskData task) :
    decodeStreamTaskPayload (Envelope.ofTask taskData) = .ok task := by
  have hjson : decodeJSONTaskPayload taskData = some task := by
    rcases h with rfl | ⟨v, v', hv, hv', hsame⟩
    · exact TaskRequest.unmarshalJSON_marshalJSON task
    · have hparse : Json.parse task.marshalJSON = _ := Json.parse_objectText _
      rw [hv] at hparse
      obtain rfl := Option.some.inj hparse
      exact TaskRequest.unmarshalJSON_same hv' hsame
  rw [decodeStreamTaskPayload_ofTask]
  exact decodeTask_json hjson

/-- The consumer decodes the task it was sent, also after the database has rewritten it. -/
theorem payload_round_trip (task : TaskRequest) {taskData : Bytes} (h : Carries taskData task) :
    decodeStreamTaskPayload (buildPayloadEnvelope taskData) = .ok task ∧
      decodeStreamTaskPayload (enqueuedPayload taskData) = .ok task :=
  ⟨h.decode, h.decode⟩

/-- A task with text that JSON escapes and code that is no text. -/
def sampleTask : TaskRequest where
  jobID := "a\"<"
  code := [0, 255, 10]
  language := 1
  timeLimit := -5
  traceID := "\u2028"

/-- The task as PostgreSQL returns it. -/
def sampleText : Bytes :=
  utf8 ("\x7b\"code\": \"AP8K\", \"job_id\": \"a\\\"<\", \"language\": 1, " ++
    "\"trace_id\": \"\u2028\", \"time_limit\": -5\x7d")

theorem jsonbText_sample : JsonbText sampleTask.marshalJSON sampleText := by
  refine ⟨.obj [("job_id", .str "a\"<"), ("code", .str "AP8K"), ("language", .num [49]),
      ("time_limit", .num [45, 53]), ("trace_id", .str "\u2028")],
    .obj [("code", .str "AP8K"), ("job_id", .str "a\"<"), ("language", .num [49]),
      ("trace_id", .str "\u2028"), ("time_limit", .num [45, 53])], Json.parse_objectText _, rfl, ?_⟩
  refine .obj (by decide) (by decide) fun key v v' hv hv' => ?_
  have hint : ∀ n, Json.Same (.num (Json.intText n)) (.num (Json.intText n)) :=
    fun n => Json.same_json (.int n)
  simp only [List.mem_cons, Prod.mk.injEq, List.not_mem_nil, or_false] at hv hv'
  rcases hv with ⟨rfl, rfl⟩ | ⟨rfl, rfl⟩ | ⟨rfl, rfl⟩ | ⟨rfl, rfl⟩ | ⟨rfl, rfl⟩
  all_goals simp at hv'
  all_goals subst hv'
  · exact .str _
  · exact .str _
  · exact hint 1
  · exact hint (-5)
  · exact .str _

theorem payload_round_trip_sample :
    decodeStreamTaskPayload (buildPayloadEnvelope sampleText) = .ok sampleTask ∧
      decodeStreamTaskPayload (enqueuedPayload sampleText) = .ok sampleTask :=
  payload_round_trip sampleTask (.inr jsonbText_sample)

end DeepOj.Payload
