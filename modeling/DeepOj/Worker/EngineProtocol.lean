import DeepOj.Sandbox.Engine
import DeepOj.Sandbox.RunSpec
import DeepOj.Worker.JudgeOutput

/-!
# The engine's line is accepted by the worker

Whatever the sandbox answers, the worker reads back what the engine put in, unless the error
text comes from the program and is not valid UTF-8: then `dump` throws, and there is no line.
-/

namespace DeepOj.Protocol

open Go Sandbox

/-- The options of the command line that `Execute` runs. -/
def executeConfig (codePath inputPath outputPath jobID : String) (attemptID : Int64) :
    ExecutionConfig :=
  ({ codePath, inputPath, outputPath, jobID } : ExecutionConfig).setAttemptID
    (Json.intText attemptID.toInt)

/-- The fields of a result are within their types, `int` and `long`. -/
structure InRange (r : RunResult) : Prop where
  timeUsed : -2 ^ 31 ≤ r.timeUsed ∧ r.timeUsed < 2 ^ 31
  memoryUsed : -2 ^ 63 ≤ r.memoryUsed ∧ r.memoryUsed < 2 ^ 63
  exitCode : r.exitCode < 2 ^ 31
  exitSignal : r.exitSignal < 2 ^ 31

/-- What the worker has read is the result. -/
structure Agrees (jobID : String) (attemptID : Int64) (r : RunResult) (res : JudgeResult) :
    Prop where
  jobID : res.jobID = jobID
  attemptID : res.attemptID = attemptID
  verdict : res.verdict = (toVerdictAndStatus r.status).1
  status : res.status = (toVerdictAndStatus r.status).2
  timeMs : res.timeMs.toInt = r.timeUsed
  timeUsed : res.timeUsed.toInt = r.timeUsed
  memKb : res.memKb.toInt = r.memoryUsed
  memoryUsed : res.memoryUsed.toInt = r.memoryUsed
  exitSignal : res.exitSignal.toInt = r.exitSignal
  exitCode : res.exitCode.toInt = r.exitCode
  sandboxError : res.sandboxError = r.sandboxError
  error : utf8 res.error = r.errorMessage

/-- The engine prints one line, which is accepted and agrees with the result. -/
def RoundTrips (stdout : Option Bytes) (jobID : String) (attemptID : Int64) (r : RunResult) : Prop :=
  ∃ line, stdout = some (line ++ [10]) ∧ 10 ∉ line ∧
    ∃ res, parseAndValidateJudgeOutput (line ++ [10]) jobID attemptID = .ok res ∧
      Agrees jobID attemptID r res

/-! ## A line with distinct members -/

section Members

variable {key : String} {v : Json} {s : Json.Scalar} {members : List (String × Json)}
  {ms : List (String × Json.Scalar)}

theorem lookup_of_mem (hnd : (members.map Prod.fst).Nodup) (h : (key, v) ∈ members) :
    members.lookup key = some v := by
  induction members with
  | nil => cases h
  | cons m members ih =>
    rw [List.map_cons, List.nodup_cons] at hnd
    rcases List.mem_cons.mp h with rfl | h
    · exact List.lookup_cons_self
    · have hne : (key == m.1) = false := by
        refine beq_false_of_ne ?_
        rintro rfl
        exact hnd.1 (List.mem_map.mpr ⟨_, h, rfl⟩)
      rw [List.lookup_cons, hne]
      exact ih hnd.2 h

theorem map_fst_membersJson : (Json.membersJson ms).map Prod.fst = ms.map Prod.fst := by
  rw [Json.membersJson, List.map_map]
  rfl

/-- A member that was written is there. -/
theorem required_membersJson (hnd : (ms.map Prod.fst).Nodup) (h : (key, s) ∈ ms) :
    required (Json.membersJson ms) key = some s.json := by
  have hmem : (key, s.json) ∈ (Json.membersJson ms).reverse :=
    List.mem_reverse.mpr (List.mem_map.mpr ⟨(key, s), h, rfl⟩)
  have hrev : ((Json.membersJson ms).reverse.map Prod.fst).Nodup := by
    rw [List.map_reverse, List.nodup_reverse, map_fst_membersJson]
    exact hnd
  rw [required, lookup_of_mem hrev hmem]
  cases s <;> rfl

theorem readField_str (hnd : (ms.map Prod.fst).Nodup) {t : String} (h : (key, .str t) ∈ ms) :
    readField (Json.storeString "") (Json.membersJson ms) key = .ok t := by
  rw [readField, required_membersJson hnd h]
  rfl

theorem readField_int (hnd : (ms.map Prod.fst).Nodup) {n : Int64} (h : (key, .int n.toInt) ∈ ms) :
    readField (storeInt64 0) (Json.membersJson ms) key = .ok n := by
  have hstore : storeInt64 0 (Json.Scalar.int n.toInt).json = some n :=
    storeInt64_holds (Json.same_json _).holds
  rw [readField, required_membersJson hnd h]
  simp only [Option.bind_some, hstore]

end Members

/-- A result is known by its fields. -/
theorem eq_of_get {t t' : JudgeResult} (h : ∀ f, t.get f = t'.get f) : t = t' := by
  have hstr : ∀ {a b}, Json.Scalar.str a = .str b → a = b := fun h => Json.Scalar.str.inj h
  have hint : ∀ {a b : Int64}, Json.Scalar.int a.toInt = .int b.toInt → a = b := fun h =>
    Int64.toInt_inj.mp (Json.Scalar.int.inj h)
  obtain ⟨sv, j, a, v, tm, mk, sig, se, tu, mu, code, st, err⟩ := t
  obtain ⟨sv', j', a', v', tm', mk', sig', se', tu', mu', code', st', err'⟩ := t'
  obtain rfl : sv = sv' := hint (h .schemaVersion)
  obtain rfl : j = j' := hstr (h .jobID)
  obtain rfl : a = a' := hint (h .attemptID)
  obtain rfl : v = v' := hstr (h .verdict)
  obtain rfl : tm = tm' := hint (h .timeMs)
  obtain rfl : mk = mk' := hint (h .memKb)
  obtain rfl : sig = sig' := hint (h .exitSignal)
  obtain rfl : se = se' := hstr (h .sandboxError)
  obtain rfl : tu = tu' := hint (h .timeUsed)
  obtain rfl : mu = mu' := hint (h .memoryUsed)
  obtain rfl : code = code' := hint (h .exitCode)
  obtain rfl : st = st' := hstr (h .status)
  obtain rfl : err = err' := hstr (h .error)
  rfl

/-! ## Accepting a line -/

/-- The members that hold the fields of a result, in some order; the error may be left out. -/
structure Holds (t : JudgeResult) (ms : List (String × Json.Scalar)) : Prop where
  nodup : (ms.map Prod.fst).Nodup
  member : ∀ p ∈ ms, ∃ f, p = (Field.name f, t.get f)
  present : ∀ f, f ≠ Field.error → (Field.name f, t.get f) ∈ ms
  error : Field.error.name ∉ ms.map Prod.fst → t.error = ""

section Accept

variable {t : JudgeResult} {ms : List (String × Json.Scalar)} {esc : Char → Bool}

theorem Holds.writes (h : Holds t ms) : JudgeResult.struct.Writes t {} ms := by
  refine ⟨fun p hp => ?_, fun f _ hnot => ?_⟩
  · obtain ⟨f, rfl⟩ := h.member p hp
    refine ⟨f, ?_, rfl⟩
    cases f <;> decide
  · by_cases hf : f = .error
    · subst hf
      show Json.Scalar.str "" = .str t.error
      rw [h.error hnot]
    · exact absurd (List.mem_map.mpr ⟨_, h.present f hf, rfl⟩) hnot

/-- Such a line is accepted for its job and its attempt. -/
theorem Holds.validateLine (h : Holds t ms) (hesc : Json.Escapes esc) :
    validateLine (Json.objectTextWith esc ms) t.jobID t.attemptID = .ok t := by
  have hparse := Json.parse_objectTextWith hesc ms
  obtain ⟨t', ht', hget⟩ := Json.Struct.unmarshal_same JudgeResult.struct_lawful h.writes hparse
    (Json.same_membersJson h.nodup)
  obtain rfl : t' = t := eq_of_get fun f => hget f (by cases f <;> decide)
  have hstr : ∀ f s, f ≠ Field.error → t'.get f = .str s →
      readField (Json.storeString "") (Json.membersJson ms) f.name = .ok s := fun f s hf hs =>
    readField_str h.nodup (hs ▸ h.present f hf)
  have hint : ∀ f (n : Int64), f ≠ Field.error → t'.get f = .int n.toInt →
      readField (storeInt64 0) (Json.membersJson ms) f.name = .ok n := fun f n hf hn =>
    readField_int h.nodup (hn ▸ h.present f hf)
  have hrequired : readRequired (Json.membersJson ms) = .ok (t'.jobID, t'.attemptID) := by
    have hjob : readField _ _ "job_id" = _ := hstr .jobID _ (by decide) rfl
    have hattempt : readField _ _ "attempt_id" = _ := hint .attemptID _ (by decide) rfl
    have hverdict : readField _ _ "verdict" = _ := hstr .verdict _ (by decide) rfl
    have htime : readField _ _ "time_ms" = _ := hint .timeMs _ (by decide) rfl
    have hmem : readField _ _ "mem_kb" = _ := hint .memKb _ (by decide) rfl
    have hsignal : readField _ _ "exit_signal" = _ := hint .exitSignal _ (by decide) rfl
    have herror : readField _ _ "sandbox_error" = _ := hstr .sandboxError _ (by decide) rfl
    rw [readRequired, hjob, hattempt, hverdict, htime, hmem, hsignal, herror]
    rfl
  have hmissing : missingField (Json.membersJson ms) = none := by
    refine List.find?_eq_none.mpr fun key hkey => ?_
    have hfield : ∃ f, f ≠ Field.error ∧ f.name = key := by
      simp only [requiredFields, List.mem_cons, List.not_mem_nil, or_false] at hkey
      rcases hkey with rfl | rfl | rfl | rfl | rfl | rfl | rfl
      · exact ⟨.jobID, by decide, rfl⟩
      · exact ⟨.attemptID, by decide, rfl⟩
      · exact ⟨.verdict, by decide, rfl⟩
      · exact ⟨.timeMs, by decide, rfl⟩
      · exact ⟨.memKb, by decide, rfl⟩
      · exact ⟨.exitSignal, by decide, rfl⟩
      · exact ⟨.sandboxError, by decide, rfl⟩
    obtain ⟨f, hf, rfl⟩ := hfield
    rw [required_membersJson h.nodup (h.present f hf)]
    exact Bool.false_ne_true
  rw [Protocol.validateLine, hparse]
  simp only [Option.bind_some, rawMap, hmissing, hrequired, ne_eq, not_true_eq_false, if_false, ht']

/-- The line is the only one, and stands between braces. -/
theorem Holds.parse (h : Holds t ms) (hesc : Json.Escapes esc) :
    10 ∉ Json.objectTextWith esc ms ∧
      parseAndValidateJudgeOutput (Json.objectTextWith esc ms ++ [10]) t.jobID t.attemptID = .ok t := by
  have hline : 10 ∉ Json.objectTextWith esc ms := fun hmem =>
    absurd (Json.le_of_mem_objectTextWith hesc ms 10 hmem) (by decide)
  have htrim : trimNewlines (Json.objectTextWith esc ms ++ [10]) = Json.objectTextWith esc ms := by
    have hlast : Json.objectTextWith esc ms = (123 :: Json.membersTextWith esc ms) ++ [125] := rfl
    rw [trimNewlines, List.rdropWhile_concat_pos _ _ _ (by decide), hlast,
      List.rdropWhile_concat_neg _ _ _ (by decide)]
  have hspaces : trimSpaces (Json.objectTextWith esc ms) = Json.objectTextWith esc ms :=
    trimSpaces_braces _
  refine ⟨hline, ?_⟩
  rw [parseAndValidateJudgeOutput]
  simp only [htrim, hspaces]
  rw [if_neg (by exact List.cons_ne_nil _ _), if_neg hline]
  exact h.validateLine hesc

end Accept

/-! ## The engine's line -/

section Engine

variable {jobID : String} {attemptID : Int64} {r : RunResult}

/-- What the worker is to read. -/
def reported (jobID : String) (attemptID : Int64) (r : RunResult) : JudgeResult where
  schemaVersion := 1
  jobID := jobID
  attemptID := attemptID
  verdict := (toVerdictAndStatus r.status).1
  timeMs := Int64.ofInt r.timeUsed
  memKb := Int64.ofInt r.memoryUsed
  exitSignal := Int64.ofInt r.exitSignal
  sandboxError := r.sandboxError
  timeUsed := Int64.ofInt r.timeUsed
  memoryUsed := Int64.ofInt r.memoryUsed
  exitCode := Int64.ofInt r.exitCode
  status := (toVerdictAndStatus r.status).2
  error := (text? r.errorMessage).getD ""

/-- A system error that is already blamed keeps its name. -/
theorem runReport_sandboxError (jobID : String) (h : Blames r) (attempt : Int) :
    (runReport jobID attempt r).sandboxError = r.sandboxError := by
  show (if (toVerdictAndStatus r.status).1 = "SE" ∧ r.sandboxError = "" then _ else _) = _
  refine if_neg ?_
  rintro ⟨hse, hempty⟩
  refine h ?_ hempty
  cases hs : r.status
  case systemError => rfl
  all_goals
    rw [hs] at hse
    exact absurd hse (by decide)

/-- The numbers of a result survive the conversions. -/
theorem toInt_reported (hr : InRange r) :
    (Int64.ofInt r.timeUsed).toInt = r.timeUsed ∧ (Int64.ofInt r.memoryUsed).toInt = r.memoryUsed ∧
      (Int64.ofInt r.exitSignal).toInt = r.exitSignal ∧ (Int64.ofInt r.exitCode).toInt = r.exitCode := by
  obtain ⟨htime, hmem, hcode, hsignal⟩ := hr
  refine ⟨Int64.toInt_ofInt_of_le ?_ ?_, Int64.toInt_ofInt_of_le hmem.1 hmem.2,
    Int64.toInt_ofInt_of_le ?_ ?_, Int64.toInt_ofInt_of_le ?_ ?_⟩
  all_goals omega

theorem agrees_reported (hr : InRange r) (hdumps : (text? r.errorMessage).isSome = true) :
    Agrees jobID attemptID r (reported jobID attemptID r) := by
  obtain ⟨htime, hmem, hsignal, hcode⟩ := toInt_reported hr
  refine ⟨rfl, rfl, rfl, rfl, htime, htime, hmem, hmem, hsignal, hcode, rfl, ?_⟩
  obtain ⟨s, hs⟩ := Option.isSome_iff_exists.mp hdumps
  show utf8 ((text? r.errorMessage).getD "") = r.errorMessage
  rw [hs, Option.getD_some]
  exact utf8_of_text? hs

/-- The fields in the order in which `BuildRunJSON` sets them. -/
def assigned (r : RunResult) : List Field :=
  [.schemaVersion, .jobID, .attemptID, .verdict, .timeMs, .memKb, .exitSignal, .sandboxError, .status,
    .timeUsed, .memoryUsed, .exitCode] ++ if r.errorMessage ≠ [] then [.error] else []

/-- What `BuildRunJSON` sets is what the worker is to read. -/
theorem members_runReport (hr : InRange r) (hblames : Blames r) :
    ((runReport jobID attemptID.toInt r).members.map fun m => (m.1, m.2.scalar)) =
      (assigned r).map fun f => (f.name, (reported jobID attemptID r).get f) := by
  obtain ⟨htime, hmem, hsignal, hcode⟩ := toInt_reported hr
  have hsandbox := runReport_sandboxError jobID hblames attemptID.toInt
  have herror : (runReport jobID attemptID.toInt r).error =
      if r.errorMessage ≠ [] then some r.errorMessage else none := rfl
  rw [RunJSON.members, assigned, List.map_append, List.map_append, hsandbox, herror]
  congr 1
  · simp only [List.map_cons, List.map_nil, DumpValue.scalar_utf8, JudgeResult.get, reported, htime, hmem,
      hsignal, hcode]
    rfl
  · by_cases he : r.errorMessage = []
    · simp only [he, ne_eq, not_true_eq_false, if_false]
      rfl
    · simp only [he, ne_eq, not_false_eq_true, if_true]
      rfl

theorem holds_reported (jobID : String) (attemptID : Int64) (hr : InRange r) (hblames : Blames r) {ms : List (String × Json.Scalar)}
    (hperm : ms.Perm ((runReport jobID attemptID.toInt r).members.map fun m => (m.1, m.2.scalar))) :
    Holds (reported jobID attemptID r) ms := by
  rw [members_runReport hr hblames] at hperm
  have hkeys : (ms.map Prod.fst).Perm ((assigned r).map Field.name) := by
    have hmap := hperm.map Prod.fst
    rw [List.map_map] at hmap
    exact hmap
  refine ⟨hkeys.nodup_iff.mpr ?_, fun p hp => ?_, fun f hf => ?_, fun hnot => ?_⟩
  · unfold assigned
    split <;> decide
  · obtain ⟨f, -, rfl⟩ := List.mem_map.mp (hperm.mem_iff.mp hp)
    exact ⟨f, rfl⟩
  · refine hperm.mem_iff.mpr (List.mem_map.mpr ⟨f, List.mem_append_left _ ?_, rfl⟩)
    cases f
    case error => exact absurd rfl hf
    all_goals decide
  · have hempty : r.errorMessage = [] := by
      by_contra he
      refine hnot (hkeys.mem_iff.mpr (List.mem_map_of_mem ?_))
      rw [assigned, if_pos he]
      exact List.mem_append_right _ List.mem_cons_self
    show (text? r.errorMessage).getD "" = ""
    rw [hempty]
    exact congrArg (Option.getD · "") (text?_utf8 "")

theorem executeConfig_eq (codePath inputPath outputPath jobID : String) (attemptID : Int64) :
    executeConfig codePath inputPath outputPath jobID attemptID =
      { codePath, inputPath, outputPath, jobID, attemptID := attemptID.toInt, attemptExplicit := true } := by
  rw [executeConfig, ExecutionConfig.setAttemptID, stoll_intText attemptID.le_toInt attemptID.toInt_lt]

/-- In run mode the report is printed, if it can be dumped. -/
theorem runMode_executeConfig {codePath inputPath outputPath : String} (hcode : codePath ≠ "")
    (hinput : inputPath ≠ "") (houtput : outputPath ≠ "") (hjob : jobID ≠ "") :
    runMode (executeConfig codePath inputPath outputPath jobID attemptID) r =
      emitJSONLine (runReport jobID attemptID.toInt r) := by
  rw [executeConfig_eq, runMode]
  simp [hcode, hinput, houtput, hjob]

/-- The result makes the round trip exactly when its error text is valid. -/
theorem roundTrips_iff (hr : InRange r) (hblames : Blames r) :
    RoundTrips (emitJSONLine (runReport jobID attemptID.toInt r)) jobID attemptID r ↔
      (text? r.errorMessage).isSome = true := by
  have hdumps : (∀ m ∈ (runReport jobID attemptID.toInt r).members, m.2.Dumps) ↔
      (text? r.errorMessage).isSome = true := by
    rw [dumps_members]
    show (∀ e, (if r.errorMessage ≠ [] then some r.errorMessage else none) = some e → _) ↔ _
    by_cases he : r.errorMessage = []
    · rw [he]
      refine ⟨fun _ => ?_, fun _ e h => ?_⟩
      · exact congrArg Option.isSome (text?_utf8 "")
      · cases h
    · rw [if_pos he]
      exact ⟨fun h => h _ rfl, fun h e heq => Option.some.inj heq ▸ h⟩
  rw [← hdumps]
  constructor
  · rintro ⟨line, hline, -⟩
    by_contra hnot
    rw [emitJSONLine, dump, if_neg hnot] at hline
    cases hline
  · intro h
    have hms := holds_reported jobID attemptID hr hblames
      ((perm_ordered _).map _)
    obtain ⟨hsingle, hparse⟩ := hms.parse escapes_dumpEscapes
    refine ⟨_, ?_, hsingle, _, hparse, agrees_reported hr (hdumps.mp h)⟩
    rw [emitJSONLine, dump_of_dumps h, Option.map_some]

end Engine

/-- The program's launcher left a detail in the stderr file that is no text. -/
def UnprintableLaunch (lim : Limits) (host : Host) : Prop :=
  ∃ detail, LaunchFailed lim host detail ∧ text? detail = none

/-- Whatever the sandbox answers makes the round trip, unless the launch fails with a detail that
is not valid UTF-8. -/
theorem run_round_trips {lim : Limits} {host : Host} {fuel : Nat} {r : RunResult}
    (hrun : run lim host fuel = some r) (hr : InRange r) {codePath inputPath outputPath jobID : String}
    (hcode : codePath ≠ "") (hinput : inputPath ≠ "") (houtput : outputPath ≠ "") (hjob : jobID ≠ "")
    (attemptID : Int64) :
    RoundTrips (runMode (executeConfig codePath inputPath outputPath jobID attemptID) r) jobID
      attemptID r ↔ ¬ UnprintableLaunch lim host := by
  obtain ⟨hblames, hmessage⟩ := run_blames hrun
  rw [runMode_executeConfig hcode hinput houtput hjob, roundTrips_iff hr hblames]
  constructor
  · rintro hvalid ⟨detail, hfail, hdetail⟩
    have hd : detail ≠ [] := by
      rintro rfl
      have hempty : text? [] = some "" := text?_utf8 ""
      rw [hempty] at hdetail
      cases hdetail
    rw [run_launchFailed hfail hd hrun, isSome_text?_utf8_append, hdetail] at hvalid
    cases hvalid
  · intro hnot
    rcases hmessage with ⟨s, hs⟩ | ⟨detail, hfail, hs⟩
    · rw [hs, text?_utf8]
      rfl
    · rw [hs, isSome_text?_utf8_append]
      by_contra hinvalid
      exact hnot ⟨detail, hfail, Option.not_isSome_iff_eq_none.mp hinvalid⟩

/-- A program that exits with 127 after it has written `[sandbox][run_exec_failed]` and a byte that
begins no character. -/
def markingProgram : Host where
  round := id
  strsignal := fun _ => "Unknown signal"
  devNull := none
  clone := none
  wait4 := fun _ => .reaped (.exited 127) {}
  delay := fun _ => 0
  reap := fun _ => (0, {})
  cgroupPeak := none
  outputFile := .sized 0
  stderrLines := [utf8 "[sandbox][run_exec_failed] " ++ [0xFF]]

/-- The result it leads to. -/
def markedResult : RunResult where
  status := .systemError
  exitCode := 127
  sandboxError := "execve_failed"
  errorMessage := utf8 launchPrefix ++ [0xFF]

theorem run_markingProgram : run ⟨1000, 262144, 10485760⟩ markingProgram 1 = some markedResult := by
  decide +kernel

/-- It leaves the worker without a line. -/
theorem marked_result_no_line :
    ¬ ∀ (lim : Limits) (host : Host) (fuel : Nat) (r : RunResult), run lim host fuel = some r →
      InRange r → ∀ (codePath inputPath outputPath jobID : String) (attemptID : Int64),
      codePath ≠ "" → inputPath ≠ "" → outputPath ≠ "" → jobID ≠ "" →
      RoundTrips (runMode (executeConfig codePath inputPath outputPath jobID attemptID) r) jobID
        attemptID r := by
  intro h
  obtain ⟨line, hline, -⟩ := h _ _ _ _ run_markingProgram ⟨by decide, by decide, by decide, by decide⟩
    "main" "1.in" "1.out" "job" 1 (by decide) (by decide) (by decide) (by decide)
  have hthrows : runMode (executeConfig "main" "1.in" "1.out" "job" 1) markedResult = none := by
    decide +kernel
  rw [hthrows] at hline
  cases hline

/-- Without the byte it is read back. -/
theorem run_round_trips_launch :
    RoundTrips (runMode (executeConfig "main" "1.in" "1.out" "job" 1)
      { status := .runtimeError, exitCode := 3 }) "job" 1 { status := .runtimeError, exitCode := 3 } := by
  have hrun : run ⟨1000, 262144, 10485760⟩
      { markingProgram with wait4 := fun _ => .reaped (.exited 3) {} } 1 =
      some { status := .runtimeError, exitCode := 3 } := by decide +kernel
  refine (run_round_trips hrun ⟨by decide, by decide, by decide, by decide⟩ (by decide) (by decide) (by decide)
    (by decide) 1).mpr ?_
  rintro ⟨detail, ⟨-, -, n, usage, -, hw, -⟩, -⟩
  cases hw

end DeepOj.Protocol
