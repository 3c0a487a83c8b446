import DeepOj.Go.JsonUnmarshal
import DeepOj.Worker.TestLoop

/-!
# Reading what the engine printed

`parseAndValidateJudgeOutput` takes one line of JSON, looks for the members the protocol
requires, and compares the job and the attempt with the ones it asked for.
-/

namespace DeepOj.Protocol

open Go

/-! ## `JudgeResult` -/

/-- `JudgeResult`, as `encoding/json` fills it in. -/
structure JudgeResult where
  schemaVersion : Int64 := 0
  jobID : String := ""
  attemptID : Int64 := 0
  verdict : String := ""
  timeMs : Int64 := 0
  memKb : Int64 := 0
  exitSignal : Int64 := 0
  sandboxError : String := ""
  timeUsed : Int64 := 0
  memoryUsed : Int64 := 0
  exitCode : Int64 := 0
  status : String := ""
  error : String := ""
  deriving DecidableEq, Repr

/-- The fields, in their order. -/
inductive Field where
  | schemaVersion
  | jobID
  | attemptID
  | verdict
  | timeMs
  | memKb
  | exitSignal
  | sandboxError
  | timeUsed
  | memoryUsed
  | exitCode
  | status
  | error
  deriving DecidableEq, Repr

namespace Field

def all : List Field :=
  [schemaVersion, jobID, attemptID, verdict, timeMs, memKb, exitSignal, sandboxError, timeUsed,
    memoryUsed, exitCode, status, error]

/-- The JSON tag. -/
def name : Field → String
  | schemaVersion => "schema_version"
  | jobID => "job_id"
  | attemptID => "attempt_id"
  | verdict => "verdict"
  | timeMs => "time_ms"
  | memKb => "mem_kb"
  | exitSignal => "exit_signal"
  | sandboxError => "sandbox_error"
  | timeUsed => "time_used"
  | memoryUsed => "memory_used"
  | exitCode => "exit_code"
  | status => "status"
  | error => "error"

end Field

/-- A value in a field of type `int` or `int64`. -/
def storeInt64 (old : Int64) (v : Json) : Option Int64 :=
  (Json.storeInt (-2 ^ 63) (2 ^ 63 - 1) old.toInt v).map Int64.ofInt

namespace JudgeResult

/-- A field as JSON has it. -/
def get (t : JudgeResult) : Field → Json.Scalar
  | .schemaVersion => .int t.schemaVersion.toInt
  | .jobID => .str t.jobID
  | .attemptID => .int t.attemptID.toInt
  | .verdict => .str t.verdict
  | .timeMs => .int t.timeMs.toInt
  | .memKb => .int t.memKb.toInt
  | .exitSignal => .int t.exitSignal.toInt
  | .sandboxError => .str t.sandboxError
  | .timeUsed => .int t.timeUsed.toInt
  | .memoryUsed => .int t.memoryUsed.toInt
  | .exitCode => .int t.exitCode.toInt
  | .status => .str t.status
  | .error => .str t.error

/-- Store a value in a field. -/
def store (t : JudgeResult) (f : Field) (v : Json) : Option JudgeResult :=
  match f with
  | .schemaVersion => (storeInt64 t.schemaVersion v).map fun n => { t with schemaVersion := n }
  | .jobID => (Json.storeString t.jobID v).map fun s => { t with jobID := s }
  | .attemptID => (storeInt64 t.attemptID v).map fun n => { t with attemptID := n }
  | .verdict => (Json.storeString t.verdict v).map fun s => { t with verdict := s }
  | .timeMs => (storeInt64 t.timeMs v).map fun n => { t with timeMs := n }
  | .memKb => (storeInt64 t.memKb v).map fun n => { t with memKb := n }
  | .exitSignal => (storeInt64 t.exitSignal v).map fun n => { t with exitSignal := n }
  | .sandboxError => (Json.storeString t.sandboxError v).map fun s => { t with sandboxError := s }
  | .timeUsed => (storeInt64 t.timeUsed v).map fun n => { t with timeUsed := n }
  | .memoryUsed => (storeInt64 t.memoryUsed v).map fun n => { t with memoryUsed := n }
  | .exitCode => (storeInt64 t.exitCode v).map fun n => { t with exitCode := n }
  | .status => (Json.storeString t.status v).map fun s => { t with status := s }
  | .error => (Json.storeString t.error v).map fun s => { t with error := s }

/-- The structure with its tags. -/
def struct : Json.Struct JudgeResult Field := ⟨Field.all, Field.name, get, store⟩

end JudgeResult

theorem storeInt64_holds {old n : Int64} {v : Json} (h : Json.Holds v (.int n.toInt)) :
    storeInt64 old v = some n := by
  have hlo := n.le_toInt
  have hhi := n.toInt_lt
  rw [storeInt64, Json.storeInt_holds hlo (by omega) h, Option.map_some, Int64.ofInt_toInt]

theorem JudgeResult.struct_lawful : JudgeResult.struct.Lawful where
  names := by decide
  store t m f v hv := by
    cases f
    case jobID | verdict | sandboxError | status | error =>
      refine ⟨_, congrArg (Option.map _) (Json.storeString_holds hv), rfl, fun g hg => ?_⟩
      cases g <;> first | rfl | exact absurd rfl hg
    case schemaVersion | attemptID | timeMs | memKb | exitSignal | timeUsed | memoryUsed | exitCode =>
      refine ⟨_, congrArg (Option.map _) (storeInt64_holds hv), rfl, fun g hg => ?_⟩
      cases g <;> first | rfl | exact absurd rfl hg

/-! ## The checks -/

/-- The reasons of a `protocolError`. -/
inductive ProtocolReason where
  | emptyStdout
  | multilineStdout
  | invalidJSON
  | missingField
  | jobIDMismatch
  | attemptIDMismatch
  deriving DecidableEq, Repr

/-- `protocolError`. -/
structure ProtocolError where
  reason : ProtocolReason
  expectedJobID : String
  expectedAttemptID : Int64
  actualJobID : String := ""
  actualAttemptID : Int64 := 0
  field : String := ""
  deriving DecidableEq, Repr

/-- `map[string]json.RawMessage`. -/
def rawMap : Json → Option (List (String × Json))
  | .null => some []
  | .obj members => some members
  | _ => none

/-- `rawMap[key]`, which is the last member of that name; `null` counts as none. -/
def required (members : List (String × Json)) (key : String) : Option Json :=
  match members.reverse.lookup key with
  | some .null => none
  | v => v

/-- The members that the protocol requires. -/
def requiredFields : List String :=
  ["job_id", "attempt_id", "verdict", "time_ms", "mem_kb", "exit_signal", "sandbox_error"]

/-- The first member of these that is missing. -/
def missingField (members : List (String × Json)) : Option String :=
  requiredFields.find? fun key => (required members key).isNone

/-- A required member, read into a new variable. -/
def readField {α : Type} (store : Json → Option α) (members : List (String × Json)) (key : String) :
    Except String α :=
  match (required members key).bind store with
  | some v => .ok v
  | none => .error key

/-- The required members are read one by one; an error names the member. -/
def readRequired (members : List (String × Json)) : Except String (String × Int64) := do
  let actualJobID ← readField (Json.storeString "") members "job_id"
  let actualAttemptID ← readField (storeInt64 0) members "attempt_id"
  let _ ← readField (Json.storeString "") members "verdict"
  let _ ← readField (storeInt64 0) members "time_ms"
  let _ ← readField (storeInt64 0) members "mem_kb"
  let _ ← readField (storeInt64 0) members "exit_signal"
  let _ ← readField (Json.storeString "") members "sandbox_error"
  pure (actualJobID, actualAttemptID)

/-- `parseAndValidateJudgeOutput`, of the one line there is. -/
def validateLine (line : Bytes) (expectedJobID : String) (expectedAttemptID : Int64) :
    Except ProtocolError JudgeResult :=
  let error : ProtocolError :=
    { reason := .invalidJSON, expectedJobID, expectedAttemptID }
  match (Json.parse line).bind rawMap with
  | none => .error error
  | some members =>
    match missingField members with
    | some key => .error { error with reason := .missingField, field := key }
    | none =>
      match readRequired members with
      | .error key => .error { error with field := key }
      | .ok (actualJobID, actualAttemptID) =>
        if actualJobID ≠ expectedJobID then
          .error { error with reason := .jobIDMismatch, actualJobID, actualAttemptID }
        else if actualAttemptID ≠ expectedAttemptID then
          .error { error with reason := .attemptIDMismatch, actualJobID, actualAttemptID }
        else
          match JudgeResult.struct.unmarshal {} line with
          | some res => .ok res
          | none => .error error

/-- `strings.TrimRight(raw, "\n")`. -/
def trimNewlines (raw : Bytes) : Bytes := raw.rdropWhile (· = 10)

/-- `parseAndValidateJudgeOutput`. -/
def parseAndValidateJudgeOutput (raw : Bytes) (expectedJobID : String) (expectedAttemptID : Int64) :
    Except ProtocolError JudgeResult :=
  let trimmed := trimNewlines raw
  if trimSpaces trimmed = [] then
    .error { reason := .emptyStdout, expectedJobID, expectedAttemptID }
  else if 10 ∈ trimmed then
    .error { reason := .multilineStdout, expectedJobID, expectedAttemptID }
  else validateLine (trimSpaces trimmed) expectedJobID expectedAttemptID

end DeepOj.Protocol
