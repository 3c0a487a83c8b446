import DeepOj.Worker.JudgeOutput

/-!
# The fields that are checked and the fields that are used

The line is decoded twice. The checks look a key up in a map, and find the last member of exactly
that name. The result is filled in by the rules for structures: a key stands for a field whatever
the case of its letters, and the last member that is not `null` counts. `ExecuteTask` then goes by
`status`, `time_used` and `memory_used`, which no check reads.
-/

namespace DeepOj.Protocol

open Go Sandbox

/-- The variables that `parseAndValidateJudgeOutput` reads the required members into. -/
structure Validated where
  jobID : String
  attemptID : Int64
  verdict : String
  timeMs : Int64
  memKb : Int64
  exitSignal : Int64
  sandboxError : String

/-- The required members, read one by one. -/
def validatedFields (members : List (String × Json)) : Except String Validated := do
  let jobID ← readField (Json.storeString "") members "job_id"
  let attemptID ← readField (storeInt64 0) members "attempt_id"
  let verdict ← readField (Json.storeString "") members "verdict"
  let timeMs ← readField (storeInt64 0) members "time_ms"
  let memKb ← readField (storeInt64 0) members "mem_kb"
  let exitSignal ← readField (storeInt64 0) members "exit_signal"
  let sandboxError ← readField (Json.storeString "") members "sandbox_error"
  pure { jobID, attemptID, verdict, timeMs, memKb, exitSignal, sandboxError }

/-- The fields that are used are the fields that were checked. -/
structure Faithful (jobID : String) (attemptID : Int64) (v : Validated) (res : JudgeResult) :
    Prop where
  jobID : res.jobID = jobID
  attemptID : res.attemptID = attemptID
  verdict : res.verdict = v.verdict
  timeMs : res.timeMs = v.timeMs
  memKb : res.memKb = v.memKb
  exitSignal : res.exitSignal = v.exitSignal
  sandboxError : res.sandboxError = v.sandboxError
  status : ∃ s, toVerdictAndStatus s = (v.verdict, res.status)
  timeUsed : res.timeUsed = v.timeMs
  memoryUsed : res.memoryUsed = v.memKb

/-! ## What an object says about a field -/

namespace Field

/-- The fields that are checked. -/
def validated : List Field :=
  [jobID, attemptID, verdict, timeMs, memKb, exitSignal, sandboxError]

/-- A value, as a field of this type reads it. -/
def read (f : Field) (v : Json) : Option Json.Scalar :=
  match f with
  | .jobID | .verdict | .sandboxError | .status | .error => (Json.storeString "" v).map .str
  | _ => (storeInt64 0 v).map fun n => .int n.toInt

end Field

/-- The last member of exactly the name. -/
def exactValue (members : List (String × Json)) (f : Field) : Option Json.Scalar :=
  (required members f.name).bind f.read

/-- The last member, other than `null`, whose name is that of the field up to the case of its
letters; the zero value when there is none. -/
def lastValue (members : List (String × Json)) (f : Field) : Option Json.Scalar :=
  (JudgeResult.struct.lastSet members f).elim (some (JudgeResult.struct.get {} f)) f.read

/-- No other member disputes what the required ones say. -/
structure Undisputed (members : List (String × Json)) : Prop where
  validated : ∀ f ∈ Field.validated, lastValue members f = exactValue members f
  status : ∃ s, exactValue members .verdict = some (.str (toVerdictAndStatus s).1) ∧
    lastValue members .status = some (.str (toVerdictAndStatus s).2)
  timeUsed : lastValue members .timeUsed = exactValue members .timeMs
  memoryUsed : lastValue members .memoryUsed = exactValue members .memKb

variable {raw : Bytes} {jobID : String} {attemptID : Int64} {res : JudgeResult} {v : Json}
  {members : List (String × Json)} {f : Field}

theorem storeString_of_value (h : v.isNull = false) (old : String) :
    Json.storeString old v = Json.storeString "" v := by
  cases v <;> simp_all [Json.storeString, Json.isNull]

theorem storeInt64_of_value (h : v.isNull = false) (old : Int64) :
    storeInt64 old v = storeInt64 0 v := by
  cases v <;> simp_all [storeInt64, Json.storeInt, Json.isNull]

theorem storeInt64_null (old : Int64) : storeInt64 old .null = some old := by
  simp [storeInt64, Json.storeInt]

theorem JudgeResult.struct_readsBy : JudgeResult.struct.ReadsBy Field.read where
  null m f := by
    cases f
    case jobID | verdict | sandboxError | status | error => rfl
    case schemaVersion | attemptID | timeMs | memKb | exitSignal | timeUsed | memoryUsed | exitCode =>
      simp [struct, store, storeInt64_null]
  value {m m' f v} hv hstore := by
    cases f
    case jobID | verdict | sandboxError | status | error =>
      obtain ⟨s, hs, rfl⟩ := Option.map_eq_some_iff.mp hstore
      rw [storeString_of_value hv] at hs
      refine ⟨congrArg (Option.map _) hs, fun g hg => ?_⟩
      cases g <;> first | rfl | exact absurd rfl hg
    case schemaVersion | attemptID | timeMs | memKb | exitSignal | timeUsed | memoryUsed | exitCode =>
      obtain ⟨n, hn, rfl⟩ := Option.map_eq_some_iff.mp hstore
      rw [storeInt64_of_value hv] at hn
      refine ⟨congrArg (Option.map _) hn, fun g hg => ?_⟩
      cases g <;> first | rfl | exact absurd rfl hg

/-- Each field of the result has the last value. -/
theorem lastValue_of_foldlM (h : members.foldlM JudgeResult.struct.storeMember {} = some res)
    (f : Field) : lastValue members f = some (JudgeResult.struct.get res f) :=
  Json.Struct.get_of_foldlM JudgeResult.struct_readsBy h

/-! ## The checks -/

theorem readField_eq_ok {α : Type} {store : Json → Option α} {key : String} {a : α} :
    readField store members key = .ok a ↔ (required members key).bind store = some a := by
  unfold readField
  cases (required members key).bind store <;> simp

/-- `readRequired` keeps the two values that are compared. -/
theorem readRequired_eq : readRequired members =
    (validatedFields members).map fun v => (v.jobID, v.attemptID) := by
  unfold readRequired validatedFields
  cases readField (Json.storeString "") members "job_id" with
  | error key => rfl
  | ok jobID =>
  cases readField (storeInt64 0) members "attempt_id" with
  | error key => rfl
  | ok attemptID =>
  cases readField (Json.storeString "") members "verdict" with
  | error key => rfl
  | ok verdict =>
  cases readField (storeInt64 0) members "time_ms" with
  | error key => rfl
  | ok timeMs =>
  cases readField (storeInt64 0) members "mem_kb" with
  | error key => rfl
  | ok memKb =>
  cases readField (storeInt64 0) members "exit_signal" with
  | error key => rfl
  | ok exitSignal =>
  cases readField (Json.storeString "") members "sandbox_error" <;> rfl

/-- What the checks have read is the value of the member of that name. -/
structure Reads (members : List (String × Json)) (v : Validated) : Prop where
  jobID : exactValue members .jobID = some (.str v.jobID)
  attemptID : exactValue members .attemptID = some (.int v.attemptID.toInt)
  verdict : exactValue members .verdict = some (.str v.verdict)
  timeMs : exactValue members .timeMs = some (.int v.timeMs.toInt)
  memKb : exactValue members .memKb = some (.int v.memKb.toInt)
  exitSignal : exactValue members .exitSignal = some (.int v.exitSignal.toInt)
  sandboxError : exactValue members .sandboxError = some (.str v.sandboxError)

theorem exactValue_str {s : String} (hf : f.read = fun v => (Json.storeString "" v).map .str)
    (h : readField (Json.storeString "") members f.name = .ok s) :
    exactValue members f = some (.str s) := by
  obtain ⟨v, hv, hs⟩ := Option.bind_eq_some_iff.mp (readField_eq_ok.mp h)
  rw [exactValue, hv, hf]
  exact congrArg (Option.map _) hs

theorem exactValue_int {n : Int64} (hf : f.read = fun v => (storeInt64 0 v).map fun n => .int n.toInt)
    (h : readField (storeInt64 0) members f.name = .ok n) :
    exactValue members f = some (.int n.toInt) := by
  obtain ⟨v, hv, hn⟩ := Option.bind_eq_some_iff.mp (readField_eq_ok.mp h)
  rw [exactValue, hv, hf]
  exact congrArg (Option.map _) hn

theorem reads_of_validatedFields {v : Validated} (h : validatedFields members = .ok v) :
    Reads members v := by
  unfold validatedFields at h
  cases h₁ : readField (Json.storeString "") members "job_id" with
  | error key => rw [h₁] at h; cases h
  | ok jobID =>
  cases h₂ : readField (storeInt64 0) members "attempt_id" with
  | error key => rw [h₁, h₂] at h; cases h
  | ok attemptID =>
  cases h₃ : readField (Json.storeString "") members "verdict" with
  | error key => rw [h₁, h₂, h₃] at h; cases h
  | ok verdict =>
  cases h₄ : readField (storeInt64 0) members "time_ms" with
  | error key => rw [h₁, h₂, h₃, h₄] at h; cases h
  | ok timeMs =>
  cases h₅ : readField (storeInt64 0) members "mem_kb" with
  | error key => rw [h₁, h₂, h₃, h₄, h₅] at h; cases h
  | ok memKb =>
  cases h₆ : readField (storeInt64 0) members "exit_signal" with
  | error key => rw [h₁, h₂, h₃, h₄, h₅, h₆] at h; cases h
  | ok exitSignal =>
  cases h₇ : readField (Json.storeString "") members "sandbox_error" with
  | error key => rw [h₁, h₂, h₃, h₄, h₅, h₆, h₇] at h; cases h
  | ok sandboxError =>
    rw [h₁, h₂, h₃, h₄, h₅, h₆, h₇] at h
    cases h
    exact {
      jobID := exactValue_str rfl h₁
      attemptID := exactValue_int rfl h₂
      verdict := exactValue_str rfl h₃
      timeMs := exactValue_int rfl h₄
      memKb := exactValue_int rfl h₅
      exitSignal := exactValue_int rfl h₆
      sandboxError := exactValue_str rfl h₇ }

/-- What an accepted line is: an object whose required members are read, name the job and the
attempt, and which fills in the result. -/
theorem exists_members (h : parseAndValidateJudgeOutput raw jobID attemptID = .ok res) :
    ∃ members v, Json.parse (trimSpaces (trimNewlines raw)) = some (.obj members) ∧
      validatedFields members = .ok v ∧ v.jobID = jobID ∧ v.attemptID = attemptID ∧
      members.foldlM JudgeResult.struct.storeMember {} = some res := by
  unfold parseAndValidateJudgeOutput at h
  by_cases hempty : trimSpaces (trimNewlines raw) = []
  · simp only [if_pos hempty] at h
    cases h
  by_cases hline : 10 ∈ trimNewlines raw
  · simp only [if_neg hempty, if_pos hline] at h
    cases h
  simp only [if_neg hempty, if_neg hline] at h
  unfold validateLine at h
  cases hparse : (Json.parse (trimSpaces (trimNewlines raw))).bind rawMap with
  | none =>
    simp only [hparse] at h
    cases h
  | some members =>
  simp only [hparse] at h
  cases hmissing : missingField members with
  | some key =>
    simp only [hmissing] at h
    cases h
  | none =>
  simp only [hmissing, readRequired_eq] at h
  cases hread : validatedFields members with
  | error key =>
    simp only [hread] at h
    cases h
  | ok v =>
  simp only [hread, Except.map] at h
  by_cases hjob : v.jobID = jobID
  · by_cases hattempt : v.attemptID = attemptID
    · rw [if_neg (not_not.mpr hjob), if_neg (not_not.mpr hattempt)] at h
      cases hres : JudgeResult.struct.unmarshal {} (trimSpaces (trimNewlines raw)) with
      | none =>
        rw [hres] at h
        cases h
      | some res' =>
        rw [hres] at h
        cases h
        obtain ⟨value, hvalue, hmembers⟩ := Option.bind_eq_some_iff.mp hparse
        rw [Json.Struct.unmarshal, hvalue] at hres
        cases value with
        | null =>
          -- `null` is a map without members, and lacks the required ones
          cases hmembers
          cases hmissing
        | obj _ =>
          cases hmembers
          exact ⟨members, v, hvalue, hread, hjob, hattempt, hres⟩
        | _ => cases hmembers
    · rw [if_neg (not_not.mpr hjob), if_pos hattempt] at h
      cases h
  · rw [if_pos hjob] at h
    cases h

/-! ## Agreement -/

section

variable {v : Validated} (hread : Reads members v)
  (hfold : members.foldlM JudgeResult.struct.storeMember {} = some res)

include hread hfold

theorem validated_iff : (∀ f ∈ Field.validated, lastValue members f = exactValue members f) ↔
    res.jobID = v.jobID ∧ res.attemptID = v.attemptID ∧ res.verdict = v.verdict ∧
      res.timeMs = v.timeMs ∧ res.memKb = v.memKb ∧ res.exitSignal = v.exitSignal ∧
      res.sandboxError = v.sandboxError := by
  simp [Field.validated, lastValue_of_foldlM hfold, hread.jobID, hread.attemptID, hread.verdict,
    hread.timeMs, hread.memKb, hread.exitSignal, hread.sandboxError, JudgeResult.struct,
    JudgeResult.get, Int64.toInt_inj]

theorem status_iff : (∃ s, exactValue members .verdict = some (.str (toVerdictAndStatus s).1) ∧
      lastValue members .status = some (.str (toVerdictAndStatus s).2)) ↔
    ∃ s, toVerdictAndStatus s = (v.verdict, res.status) := by
  simp [lastValue_of_foldlM hfold, hread.verdict, JudgeResult.struct, JudgeResult.get, Prod.ext_iff,
    eq_comm]

theorem timeUsed_iff : lastValue members .timeUsed = exactValue members .timeMs ↔
    res.timeUsed = v.timeMs := by
  simp [lastValue_of_foldlM hfold, hread.timeMs, JudgeResult.struct, JudgeResult.get, Int64.toInt_inj]

theorem memoryUsed_iff : lastValue members .memoryUsed = exactValue members .memKb ↔
    res.memoryUsed = v.memKb := by
  simp [lastValue_of_foldlM hfold, hread.memKb, JudgeResult.struct, JudgeResult.get, Int64.toInt_inj]

end

/-- The fields that are used of an accepted line are the ones that were checked exactly when no
other member disputes them. -/
theorem faithful_iff_undisputed (h : parseAndValidateJudgeOutput raw jobID attemptID = .ok res) :
    ∃ members v, Json.parse (trimSpaces (trimNewlines raw)) = some (.obj members) ∧
      validatedFields members = .ok v ∧
      (Faithful jobID attemptID v res ↔ Undisputed members) := by
  obtain ⟨members, v, hparse, hok, rfl, rfl, hfold⟩ := exists_members h
  refine ⟨members, v, hparse, hok, ?_⟩
  have hread := reads_of_validatedFields hok
  constructor
  · intro hf
    exact {
      validated := (validated_iff hread hfold).mpr ⟨hf.jobID, hf.attemptID, hf.verdict, hf.timeMs,
        hf.memKb, hf.exitSignal, hf.sandboxError⟩
      status := (status_iff hread hfold).mpr hf.status
      timeUsed := (timeUsed_iff hread hfold).mpr hf.timeUsed
      memoryUsed := (memoryUsed_iff hread hfold).mpr hf.memoryUsed }
  · intro hu
    obtain ⟨hjob, hattempt, hverdict, htime, hmem, hsignal, herror⟩ :=
      (validated_iff hread hfold).mp hu.validated
    exact {
      jobID := hjob
      attemptID := hattempt
      verdict := hverdict
      timeMs := htime
      memKb := hmem
      exitSignal := hsignal
      sandboxError := herror
      status := (status_iff hread hfold).mp hu.status
      timeUsed := (timeUsed_iff hread hfold).mp hu.timeUsed
      memoryUsed := (memoryUsed_iff hread hfold).mp hu.memoryUsed }

/-! ## Lines that are accepted -/

/-- A line as the engine prints it. -/
def engineLine : Bytes :=
  utf8 ("\x7b\"attempt_id\":1,\"exit_code\":0,\"exit_signal\":0,\"job_id\":\"job\",\"mem_kb\":2048," ++
    "\"memory_used\":2048,\"sandbox_error\":\"\",\"status\":\"Finished\",\"time_ms\":12," ++
    "\"time_used\":12,\"verdict\":\"OK\"\x7d\n")

theorem engineLine_accepted : parseAndValidateJudgeOutput engineLine "job" 1 = .ok
    { jobID := "job", attemptID := 1, verdict := "OK", timeMs := 12, memKb := 2048, timeUsed := 12,
      memoryUsed := 2048, status := "Finished" } := by
  decide +kernel

theorem faithful_iff_undisputed_engineLine :
    ∃ members v, Json.parse (trimSpaces (trimNewlines engineLine)) = some (.obj members) ∧
      validatedFields members = .ok v ∧
      (Faithful "job" 1 v
        { jobID := "job", attemptID := 1, verdict := "OK", timeMs := 12, memKb := 2048,
          timeUsed := 12, memoryUsed := 2048, status := "Finished" } ↔ Undisputed members) :=
  faithful_iff_undisputed engineLine_accepted

/-- The required members only, with the name of another job under a key in capitals. -/
def disputedLine : Bytes :=
  utf8 ("\x7b\"job_id\":\"job\",\"attempt_id\":1,\"verdict\":\"TLE\",\"time_ms\":12,\"mem_kb\":2048," ++
    "\"exit_signal\":0,\"sandbox_error\":\"\",\"JOB_ID\":\"other\"\x7d")

/-- It is accepted for the one job, with the id of the other in the result, and without a status. -/
theorem disputedLine_accepted : ∃ res, parseAndValidateJudgeOutput disputedLine "job" 1 = .ok res ∧
    res.jobID = "other" ∧ res.status = "" ∧ ∀ v, ¬ Faithful "job" 1 v res := by
  refine ⟨{ jobID := "other", attemptID := 1, verdict := "TLE", timeMs := 12, memKb := 2048 },
    by decide +kernel, rfl, rfl, ?_⟩
  intro v h
  exact absurd h.jobID (by decide)

end DeepOj.Protocol
