import DeepOj.Conc.Events
import DeepOj.Worker.Execution
import DeepOj.Worker.JobId

/-!
# The engine's directory of a job

A source that compiles leaves the engine's request directory behind, for the test cases.
`ExecuteTask` asks for its removal in one place, after the result has been reported.
-/

namespace DeepOj.Worker.Execution

open Conc Repository Cluster Go

/-- An operation of `ExecuteTask` with its reply. -/
abbrev TaskEvent := Conc.Event Op Op.Reply

/-- There is an executable. -/
def CompileResult.Compiled (res : CompileResult) : Prop := res.status = "Compiled" ∧ res.exePath ≠ ""

instance (res : CompileResult) : Decidable res.Compiled := inferInstanceAs (Decidable (_ ∧ _))

/-- The request directories after an event: `Sandbox::Compile` commits the one of a source that
compiles, `Executor.Cleanup` removes it. -/
def dirsAfter (tempDir : Bytes) (jobID : String) (dirs : List Bytes) : TaskEvent → List Bytes
  | ⟨.compile _, .ok res⟩ => if res.Compiled then fsAppend tempDir (utf8 jobID) :: dirs else dirs
  | ⟨.cleanup, _⟩ =>
    match removedByCleanup tempDir (utf8 jobID) with
    | some path => dirs.filter fun dir => dir ≠ path
    | none => dirs
  | _ => dirs

/-- The request directories after a run. -/
def requestDirs (tempDir : Bytes) (jobID : String) (dirs : List Bytes) (tr : List TaskEvent) : List Bytes :=
  tr.foldl (dirsAfter tempDir jobID) dirs

/-- The source has been compiled. -/
def isCompiled : TaskEvent → Bool
  | ⟨.compile _, .ok res⟩ => res.Compiled
  | _ => false

/-- `Execute` has returned an error. -/
def isExecuteError : TaskEvent → Bool
  | ⟨.execute .., .error _⟩ => true
  | _ => false

/-- The result key could not be set. -/
def isReportError : TaskEvent → Bool
  | ⟨.request _ (.setNX ..), .error _⟩ => true
  | _ => false

/-- No `Execute` has returned an error, and what was to be reported could be. -/
def Untroubled (tr : List TaskEvent) : Prop := ∀ ev ∈ tr, isExecuteError ev = false ∧ isReportError ev = false

instance (tr : List TaskEvent) : Decidable (Untroubled tr) := inferInstanceAs (Decidable (∀ ev ∈ tr, _))

/-! ## Events of the parts -/

/-- The operations that say nothing of the engine's directory. -/
def Aside : Op → Prop
  | .compile _ => False
  | .cleanup => False
  | .execute .. => False
  | .request .. => False
  | _ => True

/-- The operations of the test case loop. -/
def CaseOp : Op → Prop
  | .execute .. => True
  | .compare _ => True
  | _ => False

/-- The operation of a report. -/
def ReportOp : Op → Prop
  | .request .. => True
  | _ => False

section Events

variable {tempDir : Bytes} {jobID : String} {dirs : List Bytes} {tr : List TaskEvent}

theorem dirsAfter_of_quiet {ev : TaskEvent} (h : Aside ev.1 ∨ CaseOp ev.1 ∨ ReportOp ev.1) :
    dirsAfter tempDir jobID dirs ev = dirs := by
  obtain ⟨o, r⟩ := ev
  cases o with
  | compile ctx => rcases h with h | h | h <;> cases h
  | cleanup => rcases h with h | h | h <;> cases h
  | _ => rfl

theorem requestDirs_of_quiet (h : ∀ ev ∈ tr, Aside ev.1 ∨ CaseOp ev.1 ∨ ReportOp ev.1) :
    requestDirs tempDir jobID dirs tr = dirs := by
  induction tr with
  | nil => rfl
  | cons ev tr ih =>
    unfold requestDirs
    rw [List.foldl_cons, dirsAfter_of_quiet (h ev List.mem_cons_self)]
    exact ih fun ev hev => h ev (List.mem_cons_of_mem _ hev)

theorem requestDirs_append (tr tr' : List TaskEvent) :
    requestDirs tempDir jobID dirs (tr ++ tr') = requestDirs tempDir jobID (requestDirs tempDir jobID dirs tr) tr' :=
  List.foldl_append

theorem not_compiled_of_quiet {ev : TaskEvent} (h : Aside ev.1 ∨ CaseOp ev.1 ∨ ReportOp ev.1) : isCompiled ev = false := by
  obtain ⟨o, r⟩ := ev
  cases o with
  | compile ctx => rcases h with h | h | h <;> cases h
  | _ => rfl

theorem untroubled_of_aside (h : ∀ ev ∈ tr, Aside ev.1) : Untroubled tr := by
  intro ev hev
  have haside := h ev hev
  obtain ⟨o, r⟩ := ev
  cases o with
  | execute ctx i => cases haside
  | request ctx q => cases haside
  | _ => exact ⟨rfl, rfl⟩

theorem untroubled_nil : Untroubled [] := by
  intro ev hev
  cases hev

theorem untroubled_append (tr tr' : List TaskEvent) : Untroubled (tr ++ tr') ↔ Untroubled tr ∧ Untroubled tr' :=
  List.forall_mem_append

end Events

/-! ## The runs of the parts -/

section Runs

variable {tr : List TaskEvent} {outcome : JudgeOutcome}

theorem uses_judgeStatus (i : Nat) (res : JudgeResult) : (judgeStatus i res).Uses fun o => ∃ j, o = .compare j := by
  unfold judgeStatus
  split
  · exact ⟨⟨i, rfl⟩, fun _ => trivial⟩
  · trivial

theorem uses_runCases_caseOp (i n : Nat) (maxTime maxMem : Int) : (runCases i n maxTime maxMem).Uses CaseOp := by
  induction n generalizing i maxTime maxMem with
  | zero => trivial
  | succ n ih =>
    refine ⟨trivial, fun r => ?_⟩
    cases r with
    | error err => trivial
    | ok res =>
      refine ((uses_judgeStatus i res).mono ?_).bind fun status => ?_
      · rintro _ ⟨j, rfl⟩
        trivial
      · split
        · trivial
        · exact ih _ _ _

/-- The loop ends with a verdict exactly if no `Execute` has returned an error. -/
theorem runs_runCases {i n : Nat} {maxTime maxMem : Int} (h : Prog.Runs (runCases i n maxTime maxMem) tr outcome) :
    (Untroubled tr ∧ ∃ status time mem, outcome = .judged status time mem) ∨
    (¬ Untroubled tr ∧ ∃ err, outcome = .executeFailed err) := by
  induction n generalizing i maxTime maxMem tr with
  | zero =>
    obtain ⟨rfl, rfl⟩ := Prog.runs_ret.mp h
    exact .inl ⟨untroubled_nil, _, _, _, rfl⟩
  | succ n ih =>
    obtain ⟨r, tr₁, rfl, hrun⟩ := Prog.runs_perform_bind.mp h
    cases r with
    | error err =>
      obtain ⟨rfl, rfl⟩ := Prog.runs_ret.mp hrun
      exact .inr ⟨fun hun => Bool.noConfusion (hun _ List.mem_cons_self).1, err, rfl⟩
    | ok res =>
      obtain ⟨tr₂, tr₃, status, rfl, hstatus, hrun'⟩ := Prog.runs_bind.mp hrun
      have hcompare : Untroubled tr₂ := by
        apply untroubled_of_aside
        intro ev hev
        obtain ⟨j, hj⟩ := hstatus.uses (uses_judgeStatus i res) ev hev
        rw [hj]
        trivial
      have hrest : Untroubled (⟨.execute .case i, .ok res⟩ :: (tr₂ ++ tr₃)) ↔ Untroubled tr₃ := by
        constructor
        · intro hun ev hev
          exact hun ev (List.mem_cons_of_mem _ (List.mem_append_right _ hev))
        · intro hun ev hev
          rcases List.mem_cons.mp hev with rfl | hev
          · exact ⟨rfl, rfl⟩
          · exact (untroubled_append tr₂ tr₃).mpr ⟨hcompare, hun⟩ ev hev
      rw [hrest]
      by_cases hbad : status ≠ "Accepted"
      · rw [if_pos hbad] at hrun'
        obtain ⟨rfl, rfl⟩ := Prog.runs_ret.mp hrun'
        exact .inl ⟨untroubled_nil, _, _, _, rfl⟩
      · rw [if_neg hbad] at hrun'
        exact ih hrun'

/-- A successful compilation commits the directory, and what follows leaves it there. -/
theorem runs_judge (h : Prog.Runs judge tr outcome) (hcompiled : ∃ ev ∈ tr, isCompiled ev = true) :
    (∀ tempDir jobID dirs, requestDirs tempDir jobID dirs tr = fsAppend tempDir (utf8 jobID) :: dirs) ∧
    ((Untroubled tr ∧ ∃ status time mem, outcome = .judged status time mem) ∨
      (¬ Untroubled tr ∧ ∃ err, outcome = .executeFailed err)) := by
  unfold judge at h
  obtain ⟨prepared, tr₁, rfl, hrun₁⟩ := Prog.runs_perform_bind.mp h
  obtain ⟨ev, hev, hcomp⟩ := hcompiled
  cases prepared with
  | error err =>
    obtain ⟨rfl, rfl⟩ := Prog.runs_ret.mp hrun₁
    rw [List.mem_singleton.mp hev] at hcomp
    cases hcomp
  | ok _ =>
    obtain ⟨saved, tr₂, rfl, hrun₂⟩ := Prog.runs_perform_bind.mp hrun₁
    cases saved with
    | error err =>
      obtain ⟨rfl, rfl⟩ := Prog.runs_ret.mp hrun₂
      simp only [List.mem_cons, List.not_mem_nil, or_false] at hev
      rcases hev with rfl | rfl <;> cases hcomp
    | ok _ =>
      obtain ⟨compiled, tr₃, rfl, hrun₃⟩ := Prog.runs_perform_bind.mp hrun₂
      cases compiled with
      | error err =>
        obtain ⟨rfl, rfl⟩ := Prog.runs_ret.mp hrun₃
        simp only [List.mem_cons, List.not_mem_nil, or_false] at hev
        rcases hev with rfl | rfl | rfl <;> cases hcomp
      | ok res =>
        change Prog.Runs (if res.status ≠ "Compiled" ∨ res.exePath = "" then _ else _) tr₃ outcome at hrun₃
        by_cases hbad : res.status ≠ "Compiled" ∨ res.exePath = ""
        · rw [if_pos hbad] at hrun₃
          obtain ⟨rfl, rfl⟩ := Prog.runs_ret.mp hrun₃
          simp only [List.mem_cons, List.not_mem_nil, or_false] at hev
          rcases hev with rfl | rfl | rfl
          · cases hcomp
          · cases hcomp
          · have hok : res.Compiled := of_decide_eq_true hcomp
            rcases hbad with hbad | hbad
            · exact absurd hok.1 hbad
            · exact absurd hbad hok.2
        · rw [if_neg hbad] at hrun₃
          rw [not_or, not_not] at hbad
          have hok : res.Compiled := hbad
          obtain ⟨n, tr₄, rfl, hrun₄⟩ := Prog.runs_perform_bind.mp hrun₃
          have hcases := hrun₄.uses (uses_runCases_caseOp 0 n 0 0)
          constructor
          · intro tempDir jobID dirs
            have hquiet : requestDirs tempDir jobID (fsAppend tempDir (utf8 jobID) :: dirs) tr₄ =
                fsAppend tempDir (utf8 jobID) :: dirs :=
              requestDirs_of_quiet fun ev hev => .inr (.inl (hcases ev hev))
            show requestDirs tempDir jobID (if res.Compiled then _ else _) tr₄ = _
            rw [if_pos hok]
            exact hquiet
          · have hlead : ∀ tr : List TaskEvent, Untroubled (⟨.prepare .run, .ok ()⟩ :: ⟨.save, .ok ()⟩ ::
                ⟨.compile .compile, .ok res⟩ :: ⟨.glob, n⟩ :: tr) ↔ Untroubled tr := by
              intro tr
              unfold Untroubled
              simp [isExecuteError, isReportError]
            rw [hlead]
            exact runs_runCases hrun₄

theorem uses_reportOutcome (task : TaskRequest) (attemptID : Nat) (traceID : String) (outcome : JudgeOutcome) :
    (inContext .run (reportOutcome task attemptID traceID outcome)).Uses ReportOp := by
  unfold reportOutcome
  by_cases hsafe : isSafeJobID task.jobID = false
  · rw [if_pos hsafe]
    trivial
  · rw [if_neg hsafe]
    cases reportedResult task attemptID traceID outcome with
    | none => trivial
    | some result =>
      refine ⟨trivial, fun r => ?_⟩
      cases r <;> trivial

/-- What is reported comes back as an error exactly if the result key could not be set. -/
theorem runs_reportOutcome {task : TaskRequest} {attemptID : Nat} {traceID : String}
    {res : TaskResponse × Option String} (hsafe : isSafeJobID task.jobID = true)
    (hresult : ∃ m, reportedResult task attemptID traceID outcome = some m)
    (h : Prog.Runs (inContext .run (reportOutcome task attemptID traceID outcome)) tr res) :
    Untroubled tr ↔ res.2 = none := by
  obtain ⟨m, hm⟩ := hresult
  unfold reportOutcome at h
  rw [if_neg (by rw [hsafe]; exact Bool.noConfusion), hm] at h
  obtain ⟨r, tr₁, rfl, hrun⟩ := Prog.runs_call.mp h
  cases r with
  | error err =>
    obtain ⟨rfl, rfl⟩ := Prog.runs_ret.mp hrun
    constructor
    · intro hun
      cases (hun _ List.mem_cons_self).2
    · intro hnone
      cases hnone
  | ok set =>
    obtain ⟨rfl, rfl⟩ := Prog.runs_ret.mp hrun
    refine iff_of_true ?_ rfl
    intro ev hev
    rw [List.mem_singleton.mp hev]
    exact ⟨rfl, rfl⟩

/-- The engine is asked to clean up after a verdict that could be reported, and only then. -/
theorem runs_cleanUp {err : Option String} {u : Unit} (h : Prog.Runs (cleanUp outcome err) tr u) :
    (tr = [⟨.cleanup, ()⟩] ∧ (∃ status time mem, outcome = .judged status time mem) ∧ err = none) ∨
    (tr = [] ∧ ((∀ status time mem, outcome ≠ .judged status time mem) ∨ err ≠ none)) := by
  cases outcome with
  | judged status time mem =>
    cases err with
    | none => exact .inl ⟨Prog.runs_perform.mp h, ⟨_, _, _, rfl⟩, rfl⟩
    | some err => exact .inr ⟨(Prog.runs_ret.mp h).1, .inr (by simp)⟩
  | _ => exact .inr ⟨(Prog.runs_ret.mp h).1, .inl fun _ _ _ heq => by cases heq⟩

/-- The trace id of a task costs at most the drawing of a fresh one. -/
theorem runs_taskTraceID {task : TaskRequest} {traceID : String}
    (h : Prog.Runs (inContext .run (taskTraceID task)) tr traceID) : ∀ ev ∈ tr, Aside ev.1 := by
  unfold taskTraceID at h
  -- a variable, so that nothing computes the trimmed text
  generalize trimSpace task.traceID = trimmed at h
  by_cases hblank : trimmed = ""
  · rw [if_pos hblank] at h
    exact h.uses ⟨trivial, fun _ => trivial⟩
  · rw [if_neg hblank] at h
    exact h.uses trivial

end Runs

/-! ## The whole run -/

/-- The judge's ids are the engine's, so that `Cleanup` removes what `Compile` has committed. -/
theorem removedByCleanup_of_safe (tempDir : Bytes) {jobID : String} (h : isSafeJobID jobID = true) :
    removedByCleanup tempDir (utf8 jobID) = some (fsAppend tempDir (utf8 jobID)) := by
  rw [removedByCleanup_eq, removedByCompile_eq_some]
  refine ⟨?_, rfl⟩
  rw [isValidRequestIdChars_eq, ← isSafeJobIDBytes_eq, isSafeJobIDBytes_utf8, h]

section Whole

variable {task : TaskRequest} {attemptID : Nat} {tr : List TaskEvent} {outcome : JudgeOutcome} {traceID : String}
  {reply res : TaskResponse × Option String} {tempDir : Bytes} {dirs : List Bytes}

/-- The clean-up removes the committed directory, and is asked for after an untroubled judgement and report. -/
theorem removed_iff_of_verdict {trJudge trReport trClean : List TaskEvent} {u : Unit}
    (hsafe : isSafeJobID task.jobID = true)
    (hverdict : (Untroubled trJudge ∧ ∃ status time mem, outcome = .judged status time mem) ∨
      (¬ Untroubled trJudge ∧ ∃ err, outcome = .executeFailed err))
    (hreport : Prog.Runs (inContext .run (reportOutcome task attemptID traceID outcome)) trReport reply)
    (hclean : Prog.Runs (cleanUp outcome reply.2) trClean u) :
    fsAppend tempDir (utf8 task.jobID) ∉
        requestDirs tempDir task.jobID (fsAppend tempDir (utf8 task.jobID) :: dirs) trClean ↔
      Untroubled trJudge ∧ Untroubled trReport := by
  have hresult : ∃ m, reportedResult task attemptID traceID outcome = some m := by
    rcases hverdict with ⟨_, status, time, mem, rfl⟩ | ⟨_, err, rfl⟩
    · exact ⟨_, rfl⟩
    · exact ⟨_, rfl⟩
  rw [runs_reportOutcome hsafe hresult hreport]
  rcases runs_cleanUp hclean with ⟨rfl, ⟨status, time, mem, rfl⟩, hnone⟩ | ⟨rfl, hnot⟩
  · have hjudged : Untroubled trJudge := by
      rcases hverdict with ⟨hun, _⟩ | ⟨_, err, heq⟩
      · exact hun
      · cases heq
    refine iff_of_true ?_ ⟨hjudged, hnone⟩
    show _ ∉ (match removedByCleanup tempDir (utf8 task.jobID) with
      | some path => (fsAppend tempDir (utf8 task.jobID) :: dirs).filter fun dir => dir ≠ path
      | none => fsAppend tempDir (utf8 task.jobID) :: dirs)
    rw [removedByCleanup_of_safe tempDir hsafe]
    simp
  · -- nothing is removed
    refine iff_of_false (not_not.mpr List.mem_cons_self) ?_
    rintro ⟨hun, hnone⟩
    rcases hnot with hnot | herr
    · rcases hverdict with ⟨_, status, time, mem, heq⟩ | ⟨hbad, _⟩
      · exact hnot status time mem heq
      · exact hbad hun
    · exact herr hnone

theorem quiet_cleanUp {u : Unit} {err : Option String} (h : Prog.Runs (cleanUp outcome err) tr u) :
    Untroubled tr ∧ ∀ ev ∈ tr, isCompiled ev = false := by
  rcases runs_cleanUp h with ⟨rfl, _⟩ | ⟨rfl, _⟩
  · constructor
    · intro ev hev
      rw [List.mem_singleton.mp hev]
      exact ⟨rfl, rfl⟩
    · intro ev hev
      rw [List.mem_singleton.mp hev]
      rfl
  · constructor
    · exact untroubled_nil
    · intro ev hev
      cases hev

theorem executeAcquired_removed_iff (h : Prog.Runs (executeAcquired task attemptID) tr res)
    (hcompiled : ∃ ev ∈ tr, isCompiled ev = true) :
    fsAppend tempDir (utf8 task.jobID) ∉ requestDirs tempDir task.jobID dirs tr ↔ Untroubled tr := by
  unfold executeAcquired at h
  obtain ⟨trTrace, tr₁, traceID, rfl, htrace, hrun₁⟩ := Prog.runs_bind.mp h
  have haside := runs_taskTraceID htrace
  obtain ⟨ev, hev, hcomp⟩ := hcompiled
  have hnotTrace : ev ∉ trTrace := by
    intro hev
    cases hcomp.symm.trans (not_compiled_of_quiet (.inl (haside ev hev)))
  rcases Bool.eq_false_or_eq_true (isSafeJobID task.jobID) with hsafe | hrefused
  · rw [if_pos hsafe] at hrun₁
    obtain ⟨trJudge, tr₂, outcome, rfl, hjudge, hrun₂⟩ := Prog.runs_bind.mp hrun₁
    obtain ⟨trReport, tr₃, reply, rfl, hreport, hrun₃⟩ := Prog.runs_bind.mp hrun₂
    obtain ⟨trClean, tr₄, _, rfl, hclean, hrun₄⟩ := Prog.runs_bind.mp hrun₃
    obtain ⟨rfl, rfl⟩ := Prog.runs_ret.mp hrun₄
    have hreports := hreport.uses (uses_reportOutcome task attemptID traceID outcome)
    obtain ⟨hquiet, hnotClean⟩ := quiet_cleanUp hclean
    have hbefore : ev ∈ trJudge := by
      simp only [List.mem_append, List.append_nil] at hev
      rcases hev with hev | hev | hev | hev
      · exact absurd hev hnotTrace
      · exact hev
      · cases hcomp.symm.trans (not_compiled_of_quiet (.inr (.inr (hreports ev hev))))
      · cases hcomp.symm.trans (hnotClean ev hev)
    obtain ⟨hdir, hverdict⟩ := runs_judge hjudge ⟨ev, hbefore, hcomp⟩
    -- up to the clean-up the directory is there
    have hdirs : requestDirs tempDir task.jobID dirs (trTrace ++ (trJudge ++ (trReport ++ (trClean ++ [])))) =
        requestDirs tempDir task.jobID (fsAppend tempDir (utf8 task.jobID) :: dirs) trClean := by
      rw [requestDirs_append, requestDirs_of_quiet fun ev hev => .inl (haside ev hev), requestDirs_append, hdir,
        requestDirs_append, requestDirs_of_quiet fun ev hev => .inr (.inr (hreports ev hev)), List.append_nil]
    have hparts : Untroubled (trTrace ++ (trJudge ++ (trReport ++ (trClean ++ [])))) ↔
        Untroubled trJudge ∧ Untroubled trReport := by
      rw [untroubled_append, untroubled_append, untroubled_append, List.append_nil]
      exact ⟨fun h => ⟨h.2.1, h.2.2.1⟩, fun h => ⟨untroubled_of_aside haside, h.1, h.2, hquiet⟩⟩
    rw [hdirs, hparts]
    exact removed_iff_of_verdict hsafe hverdict hreport hclean
  · rw [if_neg (by rw [hrefused]; exact Bool.noConfusion)] at hrun₁
    obtain ⟨rfl, rfl⟩ := Prog.runs_ret.mp hrun₁
    rw [List.append_nil] at hev
    exact absurd hev hnotTrace

end Whole

/-- After a successful compilation the engine's directory of the job is gone when `ExecuteTask`
returns exactly if no `Execute` has returned an error and the result could be reported. -/
theorem sandbox_dir_removed_iff (task : TaskRequest) (attemptID : Nat) (tr : List TaskEvent)
    (res : TaskResponse × Option String) (h : Prog.Runs (executeTask task attemptID) tr res)
    (hcompiled : ∃ ev ∈ tr, isCompiled ev = true) (tempDir : Bytes) (dirs : List Bytes) :
    fsAppend tempDir (utf8 task.jobID) ∉ requestDirs tempDir task.jobID dirs tr ↔ Untroubled tr := by
  unfold executeTask at h
  obtain ⟨acquired, tr₁, rfl, hrun₁⟩ := Prog.runs_perform_bind.mp h
  obtain ⟨ev, hev, hcomp⟩ := hcompiled
  rcases List.mem_cons.mp hev with rfl | hlater
  · cases hcomp
  · cases acquired with
    | some err =>
      obtain ⟨rfl, rfl⟩ := Prog.runs_ret.mp hrun₁
      cases hlater
    | none =>
      have hun : Untroubled (⟨.acquire .run, none⟩ :: tr₁) ↔ Untroubled tr₁ := by
        unfold Untroubled
        rw [List.forall_mem_cons]
        exact and_iff_right ⟨rfl, rfl⟩
      rw [hun]
      exact executeAcquired_removed_iff hrun₁ ⟨ev, hlater, hcomp⟩

section Leak

/-- Everything goes well but for `executed`, which every test case comes to. -/
def repliesWith (executed : Except String JudgeResult) : (o : Op) → o.Reply
  | .request _ (.setNX ..) => .ok true
  | .request _ _ => .error "not asked"
  | .act .now => 0
  | .act .uuid => "7"
  | .act (.judge ..) => .busy ""
  | .act .newRun => 0
  | .act (.cancelRun _) => ()
  | .act (.go _) => ()
  | .act (.selectTick _) => false
  | .act (.sendHeartbeat ..) => ()
  | .act (.recvHeartbeat _) => {}
  | .act .rateLimit => true
  | .act (.reply ..) => ()
  | .enter => ()
  | .leave => ()
  | .acquire _ => none
  | .prepare _ => .ok ()
  | .save => .ok ()
  | .compile _ => .ok ⟨"Compiled", "/tmp/deep_oj/job-1/main", ""⟩
  | .glob => 1
  | .execute .. => executed
  | .compare _ => true
  | .cleanup => ()

def leakTask : TaskRequest where
  jobID := "job-1"
  code := "x"
  language := 1
  timeLimit := 1000
  memoryLimit := 65536
  cacheKey := ""
  submitTime := 0
  problemID := 1
  traceID := "trace-1"

/-- The events of an attempt at it. -/
def eventsWith (executed : Except String JudgeResult) : List TaskEvent :=
  (executeTask leakTask 1).events (repliesWith executed)

set_option maxRecDepth 4000 in
theorem sandbox_dir_removed_iff_accepted :
    fsAppend (utf8 "/tmp/deep_oj") (utf8 "job-1") ∉
      requestDirs (utf8 "/tmp/deep_oj") "job-1" [] (eventsWith (.ok ⟨"Finished", 10, 100⟩)) := by
  have hun : Untroubled (eventsWith (.ok ⟨"Finished", 10, 100⟩)) := by decide +kernel
  have hcompiled : ∃ ev ∈ eventsWith (.ok ⟨"Finished", 10, 100⟩), isCompiled ev = true := by decide +kernel
  exact (sandbox_dir_removed_iff leakTask 1 _ _ (Prog.runs_events _ _) hcompiled _ []).mpr hun

set_option maxRecDepth 4000 in
/-- An engine that could not run a test case leaves the directory behind. -/
theorem sandbox_dir_left : ¬ ∀ task attemptID tr res, Prog.Runs (executeTask task attemptID) tr res →
    (∃ ev ∈ tr, isCompiled ev = true) → ∀ tempDir dirs,
      fsAppend tempDir (utf8 task.jobID) ∉ requestDirs tempDir task.jobID dirs tr := by
  intro hall
  have hcompiled : ∃ ev ∈ eventsWith (.error "command timed out"), isCompiled ev = true := by decide +kernel
  have hgone := hall leakTask 1 _ _ (Prog.runs_events (repliesWith (.error "command timed out")) _) hcompiled
    (utf8 "/tmp/deep_oj") []
  have hthere : fsAppend (utf8 "/tmp/deep_oj") (utf8 "job-1") ∈
      requestDirs (utf8 "/tmp/deep_oj") "job-1" [] (eventsWith (.error "command timed out")) := by decide +kernel
  exact hgone hthere

end Leak

end DeepOj.Worker.Execution
