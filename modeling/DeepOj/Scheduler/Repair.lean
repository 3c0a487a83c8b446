import DeepOj.Api.Handler
import DeepOj.Worker.TaskPayload

/-!
# The task of a repaired job

The scheduler enqueues pending rows again. It stores the task as protocol buffers, in
an envelope that calls it JSON; the consumer takes it for what it is, because the tag of
the code is a control character, which no JSON text contains.
-/

namespace DeepOj.Scheduler

open Go Pb Payload Api
open Repository (Submission Call finalRow)

/-- `repairCandidate`. -/
structure RepairCandidate where
  jobID : String
  problemID : Int
  code : String
  language : Int
  timeLimit : Int
  memoryLimit : Int
  attemptID : Int
  createdAt : Nat
  deriving DecidableEq, Repr

/-- The columns of a row that `fetchRepairCandidates` selects. -/
def repairCandidate (row : Submission) : RepairCandidate where
  jobID := row.jobID
  problemID := (row.problemID.getD 0 : Nat)
  code := row.code
  language := row.language
  timeLimit := row.timeLimit
  memoryLimit := row.memoryLimit
  attemptID := row.attemptID
  createdAt := row.createdAt

/-- The task `enqueueRepairedJob` builds. -/
def repairTask (c : RepairCandidate) : TaskRequest where
  jobID := c.jobID
  code := utf8 c.code
  language := Int32.ofInt c.language
  timeLimit := Int32.ofInt c.timeLimit
  memoryLimit := Int32.ofInt c.memoryLimit
  problemID := UInt32.ofInt c.problemID
  submitTime := Int64.ofNat (c.createdAt / 1000)
  traceID := "repair-" ++ c.jobID

/-- The payload that `enqueueRepairedJob` stores, if the task can be marshalled. -/
def enqueueRepairedJob (c : RepairCandidate) : Option Bytes :=
  (repairTask c).marshalProto.map Envelope.ofTask

/-- The message of a task that `HandleSubmit` has built. -/
def taskMessage (t : Repository.TaskRequest) : TaskRequest where
  jobID := t.jobID
  code := utf8 t.code
  language := Int32.ofInt t.language
  timeLimit := Int32.ofInt t.timeLimit
  memoryLimit := Int32.ofInt t.memoryLimit
  cacheKey := t.cacheKey
  submitTime := Int64.ofNat t.submitTime
  problemID := UInt32.ofNat t.problemID
  traceID := t.traceID

/-- The fields in which the two paths agree. -/
structure SameJob (t t' : TaskRequest) : Prop where
  jobID : t.jobID = t'.jobID
  code : t.code = t'.code
  language : t.language = t'.language
  timeLimit : t.timeLimit = t'.timeLimit
  memoryLimit : t.memoryLimit = t'.memoryLimit
  problemID : t.problemID = t'.problemID

/-! ## The code is tagged with a control character -/

theorem appendTag_code : Protowire.appendTag 2 Protowire.bytesType = [18] := by
  decide +kernel

theorem tag_mem_wire {t : TaskRequest} (h : t.code ≠ []) : 18 ∈ t.wire := by
  have hfield : 18 ∈ Protowire.appendBytesField 2 t.code := by
    rw [Protowire.appendBytesField, if_neg h, appendTag_code]
    exact List.mem_cons_self
  unfold TaskRequest.wire
  rw [List.mem_append, List.mem_append]
  exact .inr (.inl hfield)

theorem eq_empty_of_marshalProto {t : TaskRequest} {b : Bytes} (h : t.marshalProto = some b) :
    b = t.wire := by
  unfold TaskRequest.marshalProto at h
  split at h
  · exact (Option.some.inj h).symm
  · cases h

/-- A task with code is never taken for JSON. -/
theorem decodeJSONTaskPayload_marshalProto {t : TaskRequest} {b : Bytes} (hcode : t.code ≠ [])
    (h : t.marshalProto = some b) : decodeJSONTaskPayload b = none := by
  have hmem : 18 ∈ b := by
    rw [eq_empty_of_marshalProto h]
    exact tag_mem_wire hcode
  have hparse : Json.parse b = none := Json.parse_control (by decide) (by decide) hmem
  show (Json.parse b).bind _ = none
  rw [hparse]
  rfl

theorem decodeTask_proto {data : Bytes} {task : TaskRequest} (hjson : decodeJSONTaskPayload data = none)
    (hproto : decodeProtoTaskPayload data = some task) :
    decodeTask "application/json" data = .ok task := by
  have hcontent : toLower (trimSpace "application/json") = "application/json" := by decide +kernel
  rw [decodeTask, if_pos hcontent, hjson]
  dsimp only
  rw [hproto]

/-! ## The row keeps the submission -/

/-- The columns that say what is to be judged. -/
structure SameSubmission (row row' : Submission) : Prop where
  jobID : row'.jobID = row.jobID
  problemID : row'.problemID = row.problemID
  code : row'.code = row.code
  language : row'.language = row.language
  timeLimit : row'.timeLimit = row.timeLimit
  memoryLimit : row'.memoryLimit = row.memoryLimit

theorem SameSubmission.refl (row : Submission) : SameSubmission row row := ⟨rfl, rfl, rfl, rfl, rfl, rfl⟩

theorem SameSubmission.trans {r r' r'' : Submission} (h : SameSubmission r r')
    (h' : SameSubmission r' r'') : SameSubmission r r'' where
  jobID := h'.jobID.trans h.jobID
  problemID := h'.problemID.trans h.problemID
  code := h'.code.trans h.code
  language := h'.language.trans h.language
  timeLimit := h'.timeLimit.trans h.timeLimit
  memoryLimit := h'.memoryLimit.trans h.memoryLimit

open Repository in
/-- No statement changes them. -/
theorem sameSubmission_apply (s : Submission) (c : Call) : SameSubmission s (c.apply s) := by
  unfold Call.apply RowOp.apply
  split
  · rename_i s' v h
    cases hop : c.op with
    | claim o l =>
      rw [hop] at h
      obtain ⟨_, _, rfl⟩ := claimSubmissionForRun_eq_some.mp h
      exact ⟨rfl, rfl, rfl, rfl, rfl, rfl⟩
    | refresh a o l =>
      rw [hop] at h
      obtain ⟨_, _, rfl⟩ := refreshSubmissionLease_eq_some.mp h
      exact ⟨rfl, rfl, rfl, rfl, rfl, rfl⟩
    | reclaim o l =>
      rw [hop] at h
      obtain ⟨_, _, rfl⟩ := reclaimSubmissionForRun_eq_some.mp h
      exact ⟨rfl, rfl, rfl, rfl, rfl, rfl⟩
    | finalize a o status m =>
      rw [hop] at h
      obtain ⟨_, _, rfl⟩ := finalizeSubmission_eq_some.mp h
      exact ⟨rfl, rfl, rfl, rfl, rfl, rfl⟩
    | poison code msg =>
      rw [hop] at h
      obtain ⟨_, _, rfl⟩ := markSubmissionPoison_eq_some.mp h
      exact ⟨rfl, rfl, rfl, rfl, rfl, rfl⟩
    | updateResult status m =>
      rw [hop] at h
      obtain ⟨_, _, rfl⟩ := updateSubmissionResultIfNotDone_eq_some.mp h
      exact ⟨rfl, rfl, rfl, rfl, rfl, rfl⟩
  · exact .refl s

theorem sameSubmission_finalRow (s : Submission) (cs : List Call) :
    SameSubmission s (finalRow s cs) := by
  induction cs generalizing s with
  | nil => exact .refl s
  | cons c cs ih => exact (sameSubmission_apply s c).trans (ih (c.apply s))

/-! ## The two paths -/

/-- A row that `HandleSubmit` inserted at `now`, after the statements `calls`. -/
def submittedRow (now : Nat) (jobID : String) (caller : Caller) (req : SubmitRequest)
    (calls : List Call) : Submission :=
  finalRow { newSubmission jobID caller.userID req with createdAt := now, updatedAt := now } calls

theorem sameJob_submittedRow {now : Nat} {jobID : String} {caller : Caller} {req : SubmitRequest}
    {calls : List Call} {cacheKey : Cluster.RedisKey} {enqueueTS : Nat} (h : 0 < req.problemID) :
    SameJob (repairTask (repairCandidate (submittedRow now jobID caller req calls)))
      (taskMessage (newTask jobID caller req cacheKey enqueueTS)) := by
  have hsame := sameSubmission_finalRow
    { newSubmission jobID caller.userID req with createdAt := now, updatedAt := now } calls
  have hid : (submittedRow now jobID caller req calls).problemID = some req.problemID.toNat := by
    rw [submittedRow, hsame.problemID]
    exact if_pos h
  have hproblem : ((repairCandidate (submittedRow now jobID caller req calls)).problemID) =
      req.problemID := by
    show (((submittedRow now jobID caller req calls).problemID.getD 0 : Nat) : Int) = _
    rw [hid, Option.getD_some]
    omega
  exact ⟨hsame.jobID, congrArg utf8 hsame.code, congrArg Int32.ofInt hsame.language,
    congrArg Int32.ofInt hsame.timeLimit, congrArg Int32.ofInt hsame.memoryLimit,
    congrArg UInt32.ofInt hproblem⟩

/-- The consumer reads from a repaired payload the task that was put in, and it is the task of
the normal path wherever `HandleSubmit` made the row. -/
theorem repair_path_agrees (row : Submission) (hcode : row.code ≠ "") {payload : Bytes}
    (h : enqueueRepairedJob (repairCandidate row) = some payload) :
    (∀ taskData, (repairTask (repairCandidate row)).marshalProto = some taskData →
      decodeJSONTaskPayload taskData = none) ∧
    decodeStreamTaskPayload payload = .ok (repairTask (repairCandidate row)) ∧
    ∀ now jobID caller req calls cacheKey enqueueTS taskData, 0 < req.problemID →
      row = submittedRow now jobID caller req calls →
      Carries taskData (taskMessage (newTask jobID caller req cacheKey enqueueTS)) →
      ∃ task, decodeStreamTaskPayload (buildPayloadEnvelope taskData) = .ok task ∧
        SameJob (repairTask (repairCandidate row)) task := by
  have hutf8 : (repairTask (repairCandidate row)).code ≠ [] := fun hnil =>
    hcode (eq_empty_of_utf8 hnil)
  refine ⟨fun taskData hdata => decodeJSONTaskPayload_marshalProto hutf8 hdata, ?_, ?_⟩
  · obtain ⟨taskData, hdata, rfl⟩ := Option.map_eq_some_iff.mp h
    rw [decodeStreamTaskPayload_ofTask]
    exact decodeTask_proto (decodeJSONTaskPayload_marshalProto hutf8 hdata)
      (TaskRequest.unmarshalProto_marshalProto hdata)
  · intro now jobID caller req calls cacheKey enqueueTS taskData hproblem hrow hcarries
    refine ⟨_, hcarries.decode, ?_⟩
    rw [hrow]
    exact sameJob_submittedRow hproblem

/-- A request whose code reads as JSON. -/
def sampleRequest : SubmitRequest :=
  { code := "\x7b\x7d", language := 1, timeLimit := 1000, memoryLimit := 65536, problemID := 7 }

def sampleCaller : Caller := ⟨0, "r", some 3, false⟩

def sampleRow : Submission := submittedRow 5000 "j\"\n" sampleCaller sampleRequest []

theorem repair_path_agrees_sample :
    decodeStreamTaskPayload (Envelope.ofTask (repairTask (repairCandidate sampleRow)).wire) =
        .ok (repairTask (repairCandidate sampleRow)) ∧
      ∃ task, decodeStreamTaskPayload (buildPayloadEnvelope
          (taskMessage (newTask "j\"\n" sampleCaller sampleRequest ⟨true, .cache "f"⟩ 5)).marshalJSON) =
            .ok task ∧
        SameJob (repairTask (repairCandidate sampleRow)) task := by
  have hwire : (repairTask (repairCandidate sampleRow)).marshalProto =
      some (repairTask (repairCandidate sampleRow)).wire := if_pos (by decide +kernel)
  have hpayload : enqueueRepairedJob (repairCandidate sampleRow) =
      some (Envelope.ofTask (repairTask (repairCandidate sampleRow)).wire) := by
    rw [enqueueRepairedJob, hwire, Option.map_some]
  obtain ⟨_, hdecode, hagree⟩ := repair_path_agrees sampleRow (by decide) hpayload
  exact ⟨hdecode, hagree _ _ _ _ _ _ _ _ (by decide) rfl (.inl rfl)⟩

end DeepOj.Scheduler
