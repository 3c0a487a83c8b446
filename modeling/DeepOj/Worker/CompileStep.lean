import DeepOj.Sandbox.Compile
import DeepOj.Worker.Execution
import DeepOj.Worker.JudgeOutput

/-!
# The compile step

`Executor.Compile` starts the engine in compile mode and decodes what it has printed when it ends
or is killed; `ExecuteTask` reports "Compile Error" for whatever is not a compiled program.
-/

namespace DeepOj.Worker.Compiling

open Conc Go Repository Sandbox Sandbox.Compile
open Execution (op compileAndRun)

/-! ## The engine's object, as the worker decodes it -/

/-- `CompileResult`, as `encoding/json` fills it in. -/
structure CompileOutput where
  schemaVersion : Int64 := 0
  status : String := ""
  exePath : String := ""
  error : String := ""
  deriving DecidableEq, Repr

inductive Field where
  | schemaVersion
  | status
  | exePath
  | error
  deriving DecidableEq, Repr

/-- The JSON tag. -/
def Field.name : Field → String
  | schemaVersion => "schema_version"
  | status => "status"
  | exePath => "exe_path"
  | error => "error"

namespace CompileOutput

def get (t : CompileOutput) : Field → Json.Scalar
  | .schemaVersion => .int t.schemaVersion.toInt
  | .status => .str t.status
  | .exePath => .str t.exePath
  | .error => .str t.error

def store (t : CompileOutput) (f : Field) (v : Json) : Option CompileOutput :=
  match f with
  | .schemaVersion =>
    (Protocol.storeInt64 t.schemaVersion v).map fun n => { t with schemaVersion := n }
  | .status => (Json.storeString t.status v).map fun s => { t with status := s }
  | .exePath => (Json.storeString t.exePath v).map fun s => { t with exePath := s }
  | .error => (Json.storeString t.error v).map fun s => { t with error := s }

/-- The structure with its tags. -/
def struct : Json.Struct CompileOutput Field :=
  ⟨[.schemaVersion, .status, .exePath, .error], Field.name, get, store⟩

end CompileOutput

/-! ## `Executor.Compile` -/

/-- How the child's process has ended: the compiler in its way, a child that fails by its exit. -/
def EndsWith (compiler : Option WaitStatus) (status : WaitStatus) : Except ChildExit Unit → Prop
  | .ok () => compiler = some status
  | .error e => status = .exited e.code

/-- One compile step: what the worker, the engine and the compiler meet. -/
structure CompileStep where
  configPath : String
  /-- The error of `os.Stat`. -/
  configStat : Option String
  /-- The engine cannot be started. -/
  start : Option String
  sourcePath : Bytes
  requestID : Bytes
  host : EngineHost
  env : ChildEnv
  args : CompileArgs
  /-- How the child has exited, unless it has become the compiler. -/
  child : Except ChildExit Unit
  produced : ∀ cfg, host.config = some cfg →
    (compileChildFn env cfg args).run.Returns (fun _ _ => True) child
  /-- How the compiler has ended, if it was started. -/
  compiler : Option WaitStatus
  reaps : ∀ p status, host.waitpid p = .reaped status → EndsWith compiler status child
  runs : compiler ≠ none → configPath ≠ "" ∧ configStat = none ∧ start = none ∧ child = .ok () ∧
    ∃ cfg, Starts host sourcePath requestID cfg ∧ launchError cfg host.toHost requestID = none
  /-- What the worker has of the engine's output when the engine is gone. -/
  stdout : Bytes
  /-- The error of `runWithContext`: the exit status, a signal, or the deadline of the context. -/
  waitErr : Option String
  /-- The text of the error when the output is not decoded. -/
  parseErr : String
  /-- An engine that is killed has printed all, a part or nothing of what it prints. -/
  sees : stdout = [] ∨ ∃ fuel e, compileMode sourcePath requestID host fuel = some e ∧
    stdout <+: e.printed
  done : waitErr = none → ∃ fuel e, compileMode sourcePath requestID host fuel = some e ∧
    e.code = 0 ∧ stdout = e.printed

namespace CompileStep

variable (c : CompileStep)

/-- The end of `Executor.Compile`. -/
def decode : Except String Execution.CompileResult :=
  match CompileOutput.struct.unmarshal {} c.stdout with
  | some res => .ok ⟨res.status, res.exePath, res.error⟩
  | none => .error ("failed to parse compile json: " ++ c.parseErr)

/-- `Executor.Compile`. -/
def compile : Except String Execution.CompileResult :=
  if c.configPath = "" then
    .error "missing config.yaml: set JUDGER_CONFIG or mount config.yaml"
  else
    match c.configStat with
    | some err => .error ("config.yaml not found at " ++ c.configPath ++ ": " ++ err)
    | none =>
      match c.start with
      | some err => .error ("compile failed: " ++ err)
      | none =>
        match c.waitErr with
        | some err => if c.stdout = [] then .error ("compile failed: " ++ err) else c.decode
        | none => c.decode

end CompileStep

/-! ## `ExecuteTask` -/

/-- What ends `ExecuteTask` in its compile step. -/
def compileOutcome : Except String Execution.CompileResult → Option Cluster.JudgeOutcome
  | .error err => some (.compileFailed err)
  | .ok res =>
    if res.status ≠ "Compiled" ∨ res.exePath = "" then some (.compileRejected res.error) else none

/-- The status under which an outcome is reported. -/
def reportedStatus (task : TaskRequest) (attemptID : Nat) (traceID : String)
    (outcome : Cluster.JudgeOutcome) : Option String :=
  match (reportedResult task attemptID traceID outcome).bind (·.lookup "status") with
  | some (.str status) => some status
  | _ => none

/-- The compile step of `compileAndRun`, and what follows it. -/
theorem compileAndRun_eq : compileAndRun = (do
    match compileOutcome (← op (.compile .compile)) with
    | some outcome => pure outcome
    | none => do
      let n ← op .glob
      Execution.runCases 0 n 0 0) := by
  show (op (.compile .compile) >>= _) = (op (.compile .compile) >>= _)
  congr 1
  funext reply
  cases reply with
  | error err => rfl
  | ok res =>
    unfold compileOutcome
    by_cases h : res.status ≠ "Compiled" ∨ res.exePath = ""
    · simp only [if_pos h]
    · simp only [if_neg h]

/-- Whatever ends it is reported as a compile error. -/
theorem reportedStatus_compileOutcome {task : TaskRequest} {attemptID : Nat} {traceID : String}
    {reply : Except String Execution.CompileResult} {outcome : Cluster.JudgeOutcome}
    (h : compileOutcome reply = some outcome) :
    reportedStatus task attemptID traceID outcome = some "Compile Error" := by
  unfold compileOutcome at h
  cases reply with
  | error err =>
    cases h
    rfl
  | ok res =>
    by_cases hres : res.status ≠ "Compiled" ∨ res.exePath = ""
    · simp only [if_pos hres] at h
      cases h
      rfl
    · simp only [if_neg hres] at h
      cases h

namespace CompileStep

/-- What the compile step makes `ExecuteTask` report. -/
def reported (c : CompileStep) (task : TaskRequest) (attemptID : Nat) (traceID : String) :
    Option String :=
  (compileOutcome c.compile).bind (reportedStatus task attemptID traceID)

/-- The compiler has run in the sandbox, and has exited by itself with a code below those of the
sandbox. -/
def Rejected (c : CompileStep) : Prop :=
  ∃ code, c.compiler = some (.exited code) ∧ 0 < code ∧ code < 120

/-- "Compile Error" means that the compiler has rejected the source; whatever else is reported is a
system error. -/
structure Honest (c : CompileStep) (task : TaskRequest) (attemptID : Nat) (traceID : String) :
    Prop where
  rejected : c.reported task attemptID traceID = some "Compile Error" → c.Rejected
  blamed : ¬ c.Rejected → c.reported task attemptID traceID ≠ none →
    c.reported task attemptID traceID = some "System Error"

/-- Nothing fails: the engine is started and gets to the compiler, the compiler exits with zero, the
path of the executable can be printed, and the worker has the whole object. -/
structure Healthy (c : CompileStep) : Prop where
  config : c.configPath ≠ "" ∧ c.configStat = none
  start : c.start = none
  engine : ∃ cfg, Starts c.host c.sourcePath c.requestID cfg ∧
    Compiles cfg c.host.toHost c.requestID ∧
    ∃ text, dump (compiledMembers (exeFile cfg c.requestID)) = some text ∧ text <+: c.stdout

end CompileStep

/-! ## What is decoded -/

section Decode

theorem field_names : CompileOutput.struct.field "schema_version" = some .schemaVersion ∧
    CompileOutput.struct.field "status" = some .status ∧
    CompileOutput.struct.field "exe_path" = some .exePath ∧
    CompileOutput.struct.field "error" = some .error := by
  decide

theorem storeInt64_one : Protocol.storeInt64 0 (.num (Json.intText 1)) = some 1 := by
  decide

theorem storeMember_of_field {m : CompileOutput} {key : String} {f : Field} {v : Json}
    (h : CompileOutput.struct.field key = some f) :
    CompileOutput.struct.storeMember m (key, v) = m.store f v := by
  simp only [Json.Struct.storeMember, h]
  rfl

theorem storeValue_compiled (exePath : Bytes) :
    CompileOutput.struct.storeValue {} (.obj (Json.membersJson
      ((ordered (compiledMembers exePath)).map fun m => (m.1, m.2.scalar)))) =
    some { schemaVersion := 1, status := "Compiled", exePath := (text? exePath).getD "" } := by
  obtain ⟨hversion, hstatus, hpath, -⟩ := field_names
  have hordered : ordered (compiledMembers exePath) = [("exe_path", .str exePath),
      ("schema_version", .int 1), ("status", .str (utf8 "Compiled"))] := by
    simp [ordered, compiledMembers]
  simp only [hordered, Json.Struct.storeValue, Json.membersJson, List.map_cons, List.map_nil,
    List.foldlM_cons, List.foldlM_nil, storeMember_of_field hversion, storeMember_of_field hstatus,
    storeMember_of_field hpath, DumpValue.scalar_utf8]
  simp [CompileOutput.store, DumpValue.scalar, storeInt64_one, Json.Scalar.json, Json.storeString]

theorem storeValue_error (status : String) (error : Bytes) :
    CompileOutput.struct.storeValue {} (.obj (Json.membersJson
      ((ordered (errorMembers status error)).map fun m => (m.1, m.2.scalar)))) =
    some { schemaVersion := 1, status := status, error := (text? error).getD "" } := by
  obtain ⟨hversion, hstatus, -, herror⟩ := field_names
  have hordered : ordered (errorMembers status error) = [("error", .str error),
      ("schema_version", .int 1), ("status", .str (utf8 status))] := by
    simp [ordered, errorMembers]
  simp only [hordered, Json.Struct.storeValue, Json.membersJson, List.map_cons, List.map_nil,
    List.foldlM_cons, List.foldlM_nil, storeMember_of_field hversion, storeMember_of_field hstatus,
    storeMember_of_field herror, DumpValue.scalar_utf8]
  simp [CompileOutput.store, DumpValue.scalar, storeInt64_one, Json.Scalar.json, Json.storeString]

/-- The object with these members, as it is printed, up to the newline. -/
theorem parse_dump {out : List (String × DumpValue)} {text : Bytes} (h : dump out = some text) :
    (∃ mid, text = mid ++ [125]) ∧ ∀ rest, rest <+: [10] → Json.parse (text ++ rest) =
      some (.obj (Json.membersJson ((ordered out).map fun m => (m.1, m.2.scalar)))) := by
  unfold dump at h
  split at h <;> cases h
  refine ⟨⟨123 :: _, rfl⟩, ?_⟩
  intro rest hrest
  obtain ⟨s, hs, heof⟩ := Option.bind_eq_some_iff.mp (Json.parse_objectTextWith escapes_dumpEscapes
    ((ordered out).map fun m => (m.1, m.2.scalar)))
  rw [Json.parse, Json.run_append, hs, Option.bind_some, Json.eof_obj heof]
  rcases List.prefix_cons_iff.mp hrest with rfl | ⟨t, rfl, ht⟩
  · rfl
  · rw [List.prefix_nil.mp ht]
    rfl

/-- What is decoded of a part of the output is nothing, or the whole object. -/
theorem unmarshal_of_prefix {out : List (String × DumpValue)} {text stdout : Bytes}
    {res : CompileOutput} (hdump : dump out = some text) (hsees : stdout <+: text ++ [10])
    (hres : CompileOutput.struct.unmarshal {} stdout = some res) :
    res = {} ∨ text <+: stdout ∧ CompileOutput.struct.storeValue {} (.obj (Json.membersJson
      ((ordered out).map fun m => (m.1, m.2.scalar)))) = some res := by
  obtain ⟨⟨mid, hmid⟩, hparse⟩ := parse_dump hdump
  obtain ⟨v, hv, hstore⟩ := Option.bind_eq_some_iff.mp hres
  obtain ⟨post, hpost⟩ := hsees
  cases v with
  | null =>
    cases hstore
    exact .inl rfl
  | obj members =>
    right
    have hspace := Json.space_of_parse_obj hv (hpost ▸ hparse [10] (List.prefix_refl _))
    rcases List.append_eq_append_iff.mp hpost with ⟨cut, hcut, hrest⟩ | ⟨rest, rfl, hrest⟩
    · -- the object is cut off, and its closing brace is missing
      have hnil : cut = [] := by
        by_contra hne
        have hbrace : (125 : UInt8) ∈ cut := by
          have hlast : cut.getLast hne = 125 := by
            have hl := congrArg List.getLast? (hcut.symm.trans hmid)
            rw [List.getLast?_append_of_ne_nil _ hne, List.getLast?_concat] at hl
            exact Option.some.inj ((List.getLast?_eq_some_getLast hne).symm.trans hl)
          rw [← hlast]
          exact List.getLast_mem hne
        have hsp := hspace 125 (by rw [hrest]; exact List.mem_append_left _ hbrace)
        exact absurd hsp (by decide)
      subst hnil
      rw [List.append_nil] at hcut
      subst hcut
      have hvalue := hparse [] (List.nil_prefix)
      rw [List.append_nil, hv] at hvalue
      rw [Option.some.inj hvalue] at hstore
      exact ⟨List.prefix_refl _, hstore⟩
    · have hvalue := hparse rest ⟨post, hrest.symm⟩
      rw [hv] at hvalue
      rw [Option.some.inj hvalue] at hstore
      exact ⟨List.prefix_append _ _, hstore⟩
  | _ => cases hstore

end Decode

/-! ## When the step goes on -/

namespace CompileStep

variable {c : CompileStep}

/-- The worker has decoded a compiled program. -/
def Decoded (c : CompileStep) : Prop :=
  ∃ res : CompileOutput, CompileOutput.struct.unmarshal {} c.stdout = some res ∧
    res.status = "Compiled" ∧ res.exePath ≠ ""

theorem compileOutcome_decode : compileOutcome c.decode = none ↔ c.Decoded := by
  unfold decode Decoded
  cases h : CompileOutput.struct.unmarshal {} c.stdout with
  | none => simp [compileOutcome]
  | some res => simp [compileOutcome]

theorem stdout_ne_nil (h : c.Decoded) : c.stdout ≠ [] := by
  intro hnil
  obtain ⟨res, hres, -⟩ := h
  rw [hnil] at hres
  cases hres

theorem compileOutcome_eq_none : compileOutcome c.compile = none ↔
    c.configPath ≠ "" ∧ c.configStat = none ∧ c.start = none ∧ c.Decoded := by
  unfold compile
  by_cases hpath : c.configPath = ""
  · simp [hpath, compileOutcome]
  rw [if_neg hpath]
  cases hstat : c.configStat with
  | some err => simp [compileOutcome]
  | none =>
  cases hstart : c.start with
  | some err => simp [compileOutcome]
  | none =>
  cases hwait : c.waitErr with
  | none => simp [hpath, compileOutcome_decode]
  | some err =>
    by_cases hout : c.stdout = []
    · -- what has printed nothing is not decoded
      have hnot : ¬ c.Decoded := fun h => stdout_ne_nil h hout
      simp [hout, hnot, compileOutcome]
    · simp [hpath, hout, compileOutcome_decode]

/-- A compiled program is decoded only of what the engine prints when it has compiled. -/
theorem engine_of_decoded (h : c.Decoded) : ∃ cfg, Starts c.host c.sourcePath c.requestID cfg ∧
    Compiles cfg c.host.toHost c.requestID ∧
    ∃ text, dump (compiledMembers (exeFile cfg c.requestID)) = some text ∧ text <+: c.stdout := by
  have hne := stdout_ne_nil h
  obtain ⟨res, hres, hstatus, -⟩ := h
  rcases c.sees with hnil | ⟨fuel, e, he, hprefix⟩
  · exact absurd hnil hne
  rcases compileMode_cases he with (hnil | ⟨status, error, text, hnot, hdump, hprinted⟩) |
    ⟨cfg, hstart, hcompiles, rfl⟩
  · rw [hnil] at hprefix
    exact absurd (List.prefix_nil.mp hprefix) hne
  · rw [hprinted] at hprefix
    rcases unmarshal_of_prefix hdump hprefix hres with rfl | ⟨-, hstore⟩
    · exact absurd hstatus (by decide)
    · rw [storeValue_error] at hstore
      cases hstore
      exact absurd hstatus hnot
  · refine ⟨cfg, hstart, hcompiles, ?_⟩
    cases hdump : dump (compiledMembers (exeFile cfg c.requestID)) with
    | none =>
      simp only [emit, hdump] at hprefix
      exact absurd (List.prefix_nil.mp hprefix) hne
    | some text =>
      simp only [emit, hdump] at hprefix
      rcases unmarshal_of_prefix hdump hprefix hres with rfl | ⟨htext, -⟩
      · exact absurd hstatus (by decide)
      · exact ⟨text, rfl, htext⟩

theorem decoded_of_engine {cfg : GlobalConfig} {text : Bytes}
    (hstart : Starts c.host c.sourcePath c.requestID cfg)
    (hcompiles : Compiles cfg c.host.toHost c.requestID)
    (hdump : dump (compiledMembers (exeFile cfg c.requestID)) = some text)
    (htext : text <+: c.stdout) : c.Decoded := by
  obtain ⟨⟨mid, hmid⟩, hparse⟩ := parse_dump hdump
  obtain ⟨fuel, hrun⟩ := exists_compileMode hstart hcompiles
  obtain ⟨rest, hrest⟩ := htext
  have hsuffix : rest <+: [10] := by
    rcases c.sees with hnil | ⟨fuel', e, he, hprefix⟩
    · rw [hnil, hmid] at hrest
      simp at hrest
    · rw [compileMode_unique hrun he, ← hrest] at hprefix
      simp only [emit, hdump] at hprefix
      exact (List.prefix_append_right_inj text).mp hprefix
  have hvalue : CompileOutput.struct.unmarshal {} c.stdout = some
      { schemaVersion := 1, status := "Compiled",
        exePath := (text? (exeFile cfg c.requestID)).getD "" } := by
    rw [Json.Struct.unmarshal, ← hrest, hparse rest hsuffix]
    exact storeValue_compiled _
  refine ⟨_, hvalue, rfl, ?_⟩
  -- the path ends with the name of the executable
  have hdumps : (DumpValue.str (exeFile cfg c.requestID)).Dumps := by
    unfold dump at hdump
    split at hdump
    · rename_i hall
      exact hall ("exe_path", _) (by simp [compiledMembers])
    · cases hdump
  obtain ⟨path, hpath⟩ := Option.isSome_iff_exists.mp hdumps
  show (text? (exeFile cfg c.requestID)).getD "" ≠ ""
  rw [hpath]
  rintro rfl
  exact exeFile_ne_nil cfg c.requestID (utf8_of_text? hpath).symm

theorem reported_eq_none {task : TaskRequest} {attemptID : Nat} {traceID : String} :
    c.reported task attemptID traceID = none ↔ c.Healthy := by
  unfold reported
  constructor
  · intro h
    cases hout : compileOutcome c.compile with
    | some outcome =>
      rw [hout, Option.bind_some, reportedStatus_compileOutcome hout] at h
      cases h
    | none =>
      obtain ⟨hpath, hstat, hstart, hdecoded⟩ := compileOutcome_eq_none.mp hout
      exact ⟨⟨hpath, hstat⟩, hstart, engine_of_decoded hdecoded⟩
  · intro h
    obtain ⟨cfg, hstart, hcompiles, text, hdump, htext⟩ := h.engine
    have hdecoded := decoded_of_engine hstart hcompiles hdump htext
    rw [compileOutcome_eq_none.mpr ⟨h.config.1, h.config.2, h.start, hdecoded⟩]
    rfl

/-- A step that does not go on is reported as a compile error, whatever has ended it. -/
theorem reported_cases (c : CompileStep) (task : TaskRequest) (attemptID : Nat) (traceID : String) :
    c.reported task attemptID traceID = none ∨
      c.reported task attemptID traceID = some "Compile Error" := by
  unfold reported
  cases hout : compileOutcome c.compile with
  | none => exact .inl rfl
  | some outcome => exact .inr (reportedStatus_compileOutcome hout)

/-- What the engine takes for a rejection is one: a child that fails exits with a code of the
sandbox. -/
theorem rejected_of_exited {cfg : GlobalConfig} {code : Nat} (hconfig : c.host.config = some cfg)
    (h : Ends cfg c.host.toHost (.reaped (.exited code))) (hpos : 0 < code) (hlt : code < 120) :
    c.Rejected := by
  obtain ⟨p, hreaped⟩ := exists_reaped h
  have hend := c.reaps p _ hreaped
  cases hchild : c.child with
  | ok _ =>
    rw [hchild] at hend
    exact ⟨code, hend, hpos, hlt⟩
  | error e =>
    rw [hchild] at hend
    have hexit : 120 ≤ e.code := exits_compileChildFn.always.of_returns (c.produced cfg hconfig) e hchild
    cases hend
    omega

/-- What is reported is right exactly when nothing fails or the compiler has rejected the source. -/
theorem honest_iff (c : CompileStep) (task : TaskRequest) (attemptID : Nat) (traceID : String) :
    c.Honest task attemptID traceID ↔ c.Healthy ∨ c.Rejected := by
  constructor
  · intro h
    rcases c.reported_cases task attemptID traceID with hnone | hsome
    · exact .inl (reported_eq_none.mp hnone)
    · exact .inr (h.rejected hsome)
  · rintro (h | h)
    · have hnone : c.reported task attemptID traceID = none := reported_eq_none.mpr h
      exact ⟨fun hsome => absurd (hnone.symm.trans hsome) (by simp), fun _ hne => absurd hnone hne⟩
    · exact ⟨fun _ => h, fun hnot => absurd h hnot⟩

end CompileStep

/-! ## A failure of the sandbox -/

def sampleConfig : GlobalConfig where
  mountDirs := [utf8 "/usr"]
  mountFiles := []
  compileMemLimit := 536870912
  runTmpfsSizeMb := 64
  cgroupPidsLimit := 20
  runUid := 65534
  runGid := 65534
  workspaceRoot := utf8 "/work"
  compilerPath := utf8 "/usr/bin/g++"
  compileCpuLimit := 10
  compileRealLimit := 20
  compileTmpfsSizeMb := 128
  compileLogMaxBytes := 16777216

/-- An engine whose child exits with `code` at once. -/
def engineExits (code : Nat) : EngineHost where
  createDirectories := none
  opens := true
  writes := true
  chown := none
  permissions := none
  clone := none
  waitpid := fun _ => .reaped (.exited code)
  delay := fun _ => 0
  compileLog := none
  config := some sampleConfig
  rootExists := some true
  compilerExecutable := true
  createRoot := none
  source := some (utf8 "int main() {}")

theorem compileMode_engineExits {code : Nat} (hcode : code ≠ 0) :
    compileMode (utf8 "/work/code/job/main.cpp") (utf8 "job") (engineExits code) 1 =
      some (emit (errorMembers "Compile Error" (exitMessage code [])) 2) := by
  have hstart : startCompile (utf8 "/work/code/job/main.cpp") (utf8 "job") (engineExits code) =
      .ok sampleConfig := rfl
  have hlaunch : launchError sampleConfig (engineExits code).toHost (utf8 "job") = none := rfl
  have hwait : Loop.run (wait sampleConfig (engineExits code).toHost) 1 ⟨0, 0⟩ =
      some (.reaped (.exited code)) := rfl
  simp only [compileMode, hstart, compile, hlaunch, hwait, Option.map_some, Waiting.toResult,
    if_neg hcode, report]
  rfl

/-- The child cannot open `compile_error.log`. -/
def logFails : CompileStep where
  configPath := "/app/config.yaml"
  configStat := none
  start := none
  sourcePath := utf8 "/work/code/job/main.cpp"
  requestID := utf8 "job"
  host := engineExits ERR_OPEN_OUTPUT
  env := ⟨fun _ => "Permission denied", 0, 0, 0, 0, none⟩
  args := ⟨utf8 "/work/job/main.cpp", none, true⟩
  child := .error ⟨ERR_OPEN_OUTPUT, []⟩
  produced := fun _ _ => .ret _
  compiler := none
  reaps := by
    intro p status h
    cases h
    rfl
  runs := fun h => absurd rfl h
  stdout := (emit (errorMembers "Compile Error" (exitMessage ERR_OPEN_OUTPUT [])) 2).printed
  waitErr := some "exit status 2"
  parseErr := ""
  sees := .inr ⟨1, emit (errorMembers "Compile Error" (exitMessage ERR_OPEN_OUTPUT [])) 2,
    compileMode_engineExits (by decide), List.prefix_refl _⟩
  done := nofun

/-- The compiler has not run, and a compile error is reported. -/
theorem logFails_reported : ¬ logFails.Rejected ∧
    ∀ (task : TaskRequest) (attemptID : Nat) (traceID : String),
      logFails.reported task attemptID traceID = some "Compile Error" ∧
        ¬ logFails.Honest task attemptID traceID := by
  have hnot : ¬ logFails.Rejected := by
    rintro ⟨code, hcode, -⟩
    cases hcode
  have hsick : ¬ logFails.Healthy := by
    intro h
    obtain ⟨cfg, hstart, hcompiles, -⟩ := h.engine
    obtain ⟨p, hreaped⟩ := exists_reaped hcompiles.exits
    cases hreaped
  refine ⟨hnot, ?_⟩
  intro task attemptID traceID
  have hreported : logFails.reported task attemptID traceID = some "Compile Error" := by
    rcases logFails.reported_cases task attemptID traceID with hnone | hsome
    · exact absurd (CompileStep.reported_eq_none.mp hnone) hsick
    · exact hsome
  exact ⟨hreported, fun h => hnot (h.rejected hreported)⟩

end DeepOj.Worker.Compiling
