import DeepOj.Worker.Execution
import Mathlib.Data.List.Perm.Basic

/-!
# A cancelled execution leaves no verdict

What an execution does after it was cancelled comes from that. Its report is sent on
the context of the run, which is then cancelled. What follows is sent on the context
of the worker, unless the heartbeat says that the lease is lost; so it matters that
a heartbeat that cancels the run always says so.
-/

namespace DeepOj.Worker.Execution

open Conc Repository Cluster Go Machine

/-- The request gives the submission its final status or acknowledges its stream entry. -/
def Final : Request → Prop
  | .update _ (.finalize ..) _ => True
  | .xack .. => True
  | _ => False

instance (q : Request) : Decidable (Final q) := by
  unfold Final
  split <;> infer_instance

/-- Everything that was sent was sent before `ExecuteTask` ran on a cancelled context; if it ever
did, the submission was not finalized and the stream entry not acknowledged. -/
structure LeavesNoVerdict (w : World) : Prop where
  sent : ∀ s ∈ w.sent, s.late = false
  final : w.hit = true → ∀ s ∈ w.sent, ¬ Final s.request

/-! ## The stages of the two goroutines -/

/-- Where a goroutine stands. -/
inductive Stage where
  /-- The execution, before it starts its heartbeat. -/
  | fresh
  | started
  | executing
  | returned
  /-- The heartbeat has not lost the lease. -/
  | settled
  /-- The heartbeat has lost the lease. -/
  | leaseLost
  /-- A heartbeat. -/
  | beating
  /-- A heartbeat that has cancelled the run. -/
  | cancelled
  | ended
  deriving DecidableEq

namespace Stage

/-- The operations of a stage. -/
def Allows : Stage → Op → Prop
  | .fresh, .act .newRun => True
  | .fresh, .act (.go _) => True
  | .started, .enter => True
  | .executing, .request ctx q => ctx = .run ∧ ¬ Final q
  | .executing, .act .uuid => True
  | .executing, .leave => True
  | .executing, .acquire _ => True
  | .executing, .prepare _ => True
  | .executing, .save => True
  | .executing, .compile _ => True
  | .executing, .glob => True
  | .executing, .execute .. => True
  | .executing, .compare _ => True
  | .executing, .cleanup => True
  | .returned, .act (.cancelRun _) => True
  | .returned, .act (.recvHeartbeat _) => True
  | .settled, .request ctx _ => ctx = .worker
  | .settled, .act .now => True
  | .beating, .request ctx q => ctx = .run ∧ ¬ Final q
  | .beating, .act (.selectTick _) => True
  | .beating, .act (.cancelRun _) => True
  | .beating, .act (.sendHeartbeat _ r) => r.leaseLost = false
  | .beating, .act (.go _) => True
  | .cancelled, .act (.sendHeartbeat _ r) => r.leaseLost = true
  | _, _ => False

/-- The stage after an operation. -/
def next : Stage → (o : Op) → o.Reply → Stage
  | .fresh, .act (.go _), _ => .started
  | .started, .enter, _ => .executing
  | .executing, .leave, _ => .returned
  | .returned, .act (.recvHeartbeat _), r => if r.leaseLost then .leaseLost else .settled
  | .beating, .act (.cancelRun _), _ => .cancelled
  | .beating, .act (.sendHeartbeat ..), _ => .ended
  | .beating, .act (.go _), _ => .ended
  | .cancelled, .act (.sendHeartbeat ..), _ => .ended
  | st, _, _ => st

/-- A goroutine of the execution, not of the heartbeat. -/
def isExecution : Stage → Nat
  | .beating => 0
  | .cancelled => 0
  | .ended => 0
  | _ => 1

/-- The heartbeat result is to come from here, or has arrived here. -/
def holdsResult : Stage → Nat
  | .fresh => 1
  | .beating => 1
  | .cancelled => 1
  | .settled => 1
  | .leaseLost => 1
  | _ => 0

end Stage

/-- The recorder of the stages. -/
def stages : Recorder Op Op.Reply Event Stage where
  start _ := .ended
  fork _ := .beating
  next := Stage.next

/-- The rules of the stages. -/
def stageRules : Rules Op Op.Reply Stage where
  allowed := Stage.Allows
  promised _ _ _ := True
  ended _ := True

/-- The program keeps the rules from this stage on. -/
abbrev Keeps {α : Type} (st : Stage) (p : ExecProgram α) (Q : Stage → α → Prop) : Prop :=
  Obeys stages stageRules st p Q

/-! ## The programs keep the rules -/

section Programs

variable {α : Type}

/-- An operation that leaves the stage as it is. -/
def Stays (st : Stage) (o : Op) : Prop := st.Allows o ∧ ∀ r, st.next o r = st

theorem keeps_of_confined {st : Stage} {p : ExecProgram α} (hp : p.Confined (Stays st)) :
    Keeps st p fun st' _ => st' = st := by
  refine ⟨heeds_of_uses (I := fun st' => st' = st) (P := Stays st) ?_ ?_ hp.uses rfl⟩
  · rintro st' o rfl ho
    exact ho.1
  · rintro st' o r rfl ho
    exact ho.2 r

/-- A request, or a look at the clock. -/
def Asks : Effect → Prop
  | .request _ => True
  | .act .now => True
  | _ => False

theorem uses_getWithLegacy (reader : Reader) (key legacy : RedisKey) :
    (getWithLegacy reader key legacy).Uses Asks := by
  refine ⟨trivial, fun r => ?_⟩
  show Prog.Uses Asks (if _ then _ else _)
  split
  · exact ⟨trivial, fun _ => trivial⟩
  · trivial

theorem uses_resolveFinalResult (task : TaskRequest) (jobID traceID : String) (attemptID : Nat)
    (resp : Option TaskResponse) (execErr : Option String) :
    (resolveFinalResult task jobID attemptID traceID resp execErr).Uses Asks := by
  refine .bind (uses_getWithLegacy _ _ _) fun raw => ?_
  split <;> trivial

theorem uses_finalizeSubmissionWithFence (entryID attemptID : Nat) (jobID owner status : String)
    (result : ResultMap) :
    (finalizeSubmissionWithFence entryID jobID attemptID owner status result).Uses Asks := by
  refine ⟨trivial, fun r => ?_⟩
  cases r with
  | error err => trivial
  | ok updated =>
    cases updated with
    | some n => trivial
    | none =>
      refine ⟨trivial, fun r => ?_⟩
      cases r with
      | error err => trivial
      | ok row => exact ⟨trivial, fun _ => trivial⟩

theorem uses_ackThen (msg : StreamMessage) (site : AckSite) (res : StreamProcessResult) :
    (ackThen msg site res).Uses Asks := by
  have hack : (xackWithRetry msg.id site).Uses Asks := by
    refine ⟨trivial, fun r => ?_⟩
    cases r with
    | ok n => trivial
    | error err =>
      refine ⟨trivial, fun r => ?_⟩
      cases r <;> trivial
  refine .bind hack fun r => ?_
  cases r <;> trivial

/-- On the worker's context, after the heartbeat has not lost the lease. -/
theorem confined_onWorker {p : Program α} (hp : p.Uses Asks) :
    (inContext .worker p).Confined (Stays .settled) := by
  constructor
  induction p with
  | ret a => trivial
  | call e k ih =>
    cases e with
    | request q => exact ⟨⟨rfl, fun _ => rfl⟩, fun r => ih r (hp.2 r)⟩
    | act a =>
      cases a with
      | now => exact ⟨⟨trivial, fun _ => rfl⟩, fun r => ih r (hp.2 r)⟩
      | _ => exact hp.1.elim

/-- What `ExecuteTask` does: all it sends is its report, on the context of the run. -/
def TaskOp : Op → Prop
  | .request ctx q => ctx = .run ∧ ∃ k v, q = .setNX k v
  | .act a => a = .uuid
  | .enter => False
  | .leave => False
  | _ => True

theorem stays_of_taskOp (o : Op) (h : TaskOp o) : Stays .executing o := by
  cases o with
  | request ctx q =>
    obtain ⟨rfl, k, v, rfl⟩ := h
    exact ⟨⟨rfl, id⟩, fun _ => rfl⟩
  | act a =>
    obtain rfl : a = .uuid := h
    exact ⟨trivial, fun _ => rfl⟩
  | enter => exact h.elim
  | leave => exact h.elim
  | _ => exact ⟨trivial, fun _ => rfl⟩

theorem confined_reportOutcome (task : TaskRequest) (attemptID : Nat) (traceID : String)
    (outcome : JudgeOutcome) :
    (inContext .run (reportOutcome task attemptID traceID outcome)).Confined TaskOp := by
  unfold reportOutcome
  by_cases hsafe : isSafeJobID task.jobID = false
  · rw [if_pos hsafe]
    exact ⟨trivial⟩
  · rw [if_neg hsafe]
    cases reportedResult task attemptID traceID outcome with
    | none => exact ⟨trivial⟩
    | some result =>
      refine ⟨⟨rfl, _, _, rfl⟩, fun r => ?_⟩
      cases r <;> trivial

theorem confined_taskTraceID (task : TaskRequest) : (inContext .run (taskTraceID task)).Confined TaskOp := by
  unfold taskTraceID
  -- a variable, so that nothing computes the trimmed text
  generalize trimSpace task.traceID = trimmed
  by_cases hblank : trimmed = ""
  · rw [if_pos hblank]
    exact ⟨rfl, fun _ => trivial⟩
  · rw [if_neg hblank]
    exact ⟨trivial⟩

theorem uses_runCases (i n : Nat) (maxTime maxMem : Int) : (runCases i n maxTime maxMem).Uses TaskOp := by
  induction n generalizing i maxTime maxMem with
  | zero => trivial
  | succ n ih =>
    refine ⟨trivial, fun r => ?_⟩
    cases r with
    | error err => trivial
    | ok res =>
      have hstatus : (judgeStatus i res).Uses TaskOp := by
        unfold judgeStatus
        split
        · exact ⟨trivial, fun _ => trivial⟩
        · trivial
      refine Prog.Uses.bind (p := judgeStatus i res) hstatus fun status => ?_
      split
      · trivial
      · exact ih _ _ _

theorem uses_judge : judge.Uses TaskOp := by
  refine ⟨trivial, fun r => ?_⟩
  cases r with
  | error err => trivial
  | ok u =>
    refine ⟨trivial, fun r => ?_⟩
    cases r with
    | error err => trivial
    | ok u =>
      refine ⟨trivial, fun r => ?_⟩
      cases r with
      | error err => trivial
      | ok res =>
        show Prog.Uses _ (if _ then _ else _)
        split
        · trivial
        · exact ⟨trivial, fun n => uses_runCases 0 n 0 0⟩

theorem uses_cleanUp (outcome : JudgeOutcome) (execErr : Option String) :
    (cleanUp outcome execErr).Uses TaskOp := by
  unfold cleanUp
  split
  · exact ⟨trivial, fun _ => trivial⟩
  · trivial

/-- `ExecuteTask` sends only its report, on the context of the run. -/
theorem confined_executeTask (task : TaskRequest) (attemptID : Nat) :
    (executeTask task attemptID).Confined TaskOp := by
  have hacquired : (executeAcquired task attemptID).Confined TaskOp := by
    unfold executeAcquired
    refine (confined_taskTraceID task).bind fun traceID => ?_
    by_cases hsafe : isSafeJobID task.jobID = true
    · rw [if_pos hsafe]
      refine .bind ⟨uses_judge⟩ fun outcome => ?_
      refine (confined_reportOutcome task attemptID traceID outcome).bind fun res => ?_
      exact .bind ⟨uses_cleanUp outcome res.2⟩ fun _ => ⟨trivial⟩
    · rw [if_neg hsafe]
      exact ⟨trivial⟩
  unfold executeTask
  refine .bind ⟨⟨trivial, fun _ => trivial⟩⟩ fun busy => ?_
  cases busy with
  | some err => exact ⟨trivial⟩
  | none => exact hacquired

theorem keeps_executeTask (task : TaskRequest) (attemptID : Nat) :
    Keeps .executing (executeTask task attemptID) fun st _ => st = .executing :=
  keeps_of_confined ((confined_executeTask task attemptID).mono stays_of_taskOp)

theorem confined_finalize (cfg : WorkerConfig) (msg : StreamMessage) (task : TaskRequest)
    (jobID traceID : String) (attemptID : Nat) (resp : TaskResponse) (execErr : Option String) :
    (finalize cfg msg task jobID traceID attemptID resp execErr).Confined (Stays .settled) := by
  unfold finalize
  refine (confined_onWorker (uses_resolveFinalResult _ _ _ _ _ _)).bind fun res => ?_
  refine (confined_onWorker (uses_finalizeSubmissionWithFence _ _ _ _ _ _)).bind fun r => ?_
  have hack : ∀ site res, (inContext .worker (ackThen msg site res)).Confined (Stays .settled) :=
    fun site res => confined_onWorker (uses_ackThen msg site res)
  cases r with
  | error err => exact ⟨trivial⟩
  | ok fence =>
    dsimp only
    split
    · exact hack _ _
    · split
      · exact hack _ _
      · exact ⟨trivial⟩

/-- The execution ends when the heartbeat has lost the lease. -/
theorem keeps_execution (cfg : WorkerConfig) (msg : StreamMessage) (task : TaskRequest)
    (jobID traceID : String) (attemptID : Nat) :
    Keeps .fresh (execution cfg msg task jobID traceID attemptID) fun _ _ => True := by
  refine .bind (P := fun _ _ => True) ?_ fun _ _ _ => .pure trivial
  refine .effect trivial fun cell _ => .effect trivial fun _ _ => .effect trivial fun _ _ => ?_
  refine .bind (keeps_executeTask task attemptID) fun st res hst => ?_
  subst hst
  refine .effect trivial fun _ _ => .effect trivial fun _ _ => .effect trivial fun hbRes _ => ?_
  show Keeps (if hbRes.leaseLost then .leaseLost else .settled) (if hbRes.leaseLost = true then _ else _) _
  cases hl : hbRes.leaseLost with
  | true => exact .pure trivial
  | false => exact (keeps_of_confined (confined_finalize _ _ _ _ _ _ _ _)).mono fun _ _ _ => trivial

/-- A heartbeat that cancels the run says that the lease is lost. -/
theorem keeps_runLeaseHeartbeat (cell : Nat) (jobID : String) (attemptID : Nat) (leaseOwner : String)
    (leaseSec : Int) (errors : Nat) :
    Keeps .beating (inContext .run (runLeaseHeartbeat cell jobID attemptID leaseOwner leaseSec errors))
      fun _ _ => True := by
  have hlost : ∀ reason, Keeps .beating (inContext .run (do
      act (.cancelRun cell)
      act (.sendHeartbeat cell { leaseLost := true, reason }))) fun _ _ => True :=
    fun reason => ⟨trivial, fun _ _ => ⟨rfl, fun _ _ => trivial⟩⟩
  refine ⟨trivial, fun tick _ => ?_⟩
  cases tick with
  | false => exact ⟨rfl, fun _ _ => trivial⟩
  | true =>
    refine ⟨⟨rfl, id⟩, fun r _ => ?_⟩
    cases r with
    | error err =>
      show Heeds _ _ _ (inContext .run (if _ then _ else _)) _
      split
      · exact (hlost _).heeds
      · exact ⟨trivial, fun _ _ => trivial⟩
    | ok refreshed =>
      cases refreshed with
      | none => exact (hlost _).heeds
      | some n => exact ⟨trivial, fun _ _ => trivial⟩

theorem disciplined : machine.Disciplined stages stageRules where
  env w v w' ps h p hp := by
    cases h
    cases hp
  forks o p hp := by
    unfold machine forks at hp
    dsimp only at hp
    split at hp
    · rw [List.mem_singleton.mp hp]
      exact (keeps_runLeaseHeartbeat _ _ _ _ _ _).heeds
    · cases hp

end Programs

/-! ## The invariant -/

/-- The phase a goroutine is in, if it is the execution. -/
def Stage.InPhase : Stage → Phase → Prop
  | .fresh, ph => ph = .before
  | .started, ph => ph = .before
  | .executing, ph => ph = .executing
  | .returned, ph => ph = .returned
  | .settled, ph => ph = .returned
  | .leaseLost, ph => ph = .returned
  | _, _ => True

/-- The heartbeat says, or will say, that the lease is lost. -/
def LeaseLost (w : World) (gs : List Stage) : Prop :=
  .cancelled ∈ gs ∨ .leaseLost ∈ gs ∨ ∃ r, w.heartbeat = some r ∧ r.leaseLost = true

/-- The results in the heartbeat channel. -/
def World.waiting (w : World) : Nat := if w.heartbeat.isSome then 1 else 0

/-- What holds of the contexts, the heartbeat and what has been sent. -/
structure Inv (w : World) (gs : List Stage) : Prop where
  /-- There is one execution. -/
  execution : (gs.map Stage.isExecution).sum = 1
  /-- There is one heartbeat result, to come or arrived. -/
  result : (gs.map Stage.holdsResult).sum + w.waiting = 1
  phase : ∀ st ∈ gs, st.InPhase w.phase
  before : w.phase = .before → w.hit = false
  done : w.hit = true → w.runDone = true
  cancelled : w.phase ≠ .returned → w.runDone = true → w.workerDone = false → LeaseLost w gs
  lost : w.hit = true → w.workerDone = false → LeaseLost w gs
  settled : .settled ∈ gs → w.hit = true → w.workerDone = true
  sent : ∀ s ∈ w.sent, s.late = false
  final : ∀ s ∈ w.sent, Final s.request → w.phase = .returned ∧ w.hit = false

section Invariant

variable {w w' : World} {g x : Stage} {gs gs' rest : List Stage}

theorem le_sum {f : Stage → Nat} (hx : x ∈ gs) : f x ≤ (gs.map f).sum := by
  induction gs with
  | nil => cases hx
  | cons y gs ih =>
    rw [List.map_cons, List.sum_cons]
    rcases List.mem_cons.mp hx with rfl | hx
    · omega
    · have := ih hx
      omega

/-- The order of the goroutines does not matter. -/
theorem Inv.perm (h : Inv w gs) (hp : gs.Perm gs') : Inv w gs' := by
  have hmem : ∀ st, st ∈ gs' ↔ st ∈ gs := fun st => hp.symm.mem_iff
  have hlost : LeaseLost w gs → LeaseLost w gs' := by
    unfold LeaseLost
    rw [hmem, hmem]
    exact id
  refine ⟨?_, ?_, ?_, h.before, h.done, fun h₁ h₂ h₃ => hlost (h.cancelled h₁ h₂ h₃),
    fun h₁ h₂ => hlost (h.lost h₁ h₂), ?_, h.sent, h.final⟩
  · rw [← (hp.map Stage.isExecution).sum_eq]
    exact h.execution
  · rw [← (hp.map Stage.holdsResult).sum_eq]
    exact h.result
  · intro st hst
    exact h.phase st ((hmem st).mp hst)
  · intro hst
    exact h.settled ((hmem _).mp hst)

/-- Next to the execution no other goroutine is one. -/
theorem Inv.alone (h : Inv w (g :: rest)) (hg : g.isExecution = 1) (hx : x ∈ rest) :
    x.isExecution = 0 := by
  have hsum := h.execution
  have hle := le_sum (f := Stage.isExecution) hx
  rw [List.map_cons, List.sum_cons] at hsum
  omega

/-- While a goroutine or the channel holds the result, no other goroutine does. -/
theorem Inv.holds (h : Inv w (g :: rest)) (hg : g.holdsResult + w.waiting = 1) (hx : x ∈ rest) :
    x.holdsResult = 0 := by
  have hsum := h.result
  have hle := le_sum (f := Stage.holdsResult) hx
  rw [List.map_cons, List.sum_cons] at hsum
  omega

theorem inPhase_of_not_execution (h : x.isExecution = 0) (ph : Phase) : x.InPhase ph := by
  cases x <;> trivial

/-- What is lost is lost with other goroutines than these, too. -/
theorem LeaseLost.of_rest (h : LeaseLost w (g :: rest)) (hc : g ≠ .cancelled) (hl : g ≠ .leaseLost)
    (hw : w'.heartbeat = w.heartbeat) (hsub : ∀ st ∈ rest, st ∈ gs') : LeaseLost w' gs' := by
  unfold LeaseLost at h ⊢
  rw [hw]
  rcases h with h | h | h
  · exact .inl (hsub _ ((List.mem_cons.mp h).resolve_left hc.symm))
  · exact .inr (.inl (hsub _ ((List.mem_cons.mp h).resolve_left hl.symm)))
  · exact .inr (.inr h)

/-- A request on a context that is cancelled when `ExecuteTask` has been hit. -/
theorem Inv.request (h : Inv w gs) {ctx : Context} {q : Request} {p : Pick}
    {r : Except String q.Response} (hp : perform w (.request ctx q) p = some (w', r))
    (hdone : w.hit = true → w.done ctx = true)
    (hfinal : Final q → w.phase = .returned) : Inv w' gs := by
  simp only [perform] at hp
  split at hp <;> cases hp
  · exact h
  · rename_i hopen
    have hhit : w.hit = false := by
      rw [← Bool.not_eq_true]
      exact fun hh => hopen (hdone hh)
    refine ⟨h.execution, h.result, h.phase, h.before, h.done, h.cancelled, h.lost, h.settled, ?_, ?_⟩
    · intro s hs
      rcases List.mem_cons.mp hs with rfl | hs
      · exact hhit
      · exact h.sent s hs
    · intro s hs hf
      rcases List.mem_cons.mp hs with rfl | hs
      · exact ⟨hfinal hf, hhit⟩
      · exact h.final s hs hf

/-- No final request has been sent before `ExecuteTask` has returned. -/
theorem Inv.not_final (h : Inv w gs) (hph : w.phase ≠ .returned) {s : Sent} (hs : s ∈ w.sent) :
    ¬ Final s.request := fun hf => hph (h.final s hs hf).1

theorem Inv.newRun (h : Inv w (.fresh :: rest)) :
    Inv { w with runDone := w.workerDone } (.fresh :: rest) := by
  have hph : w.phase = .before := h.phase _ List.mem_cons_self
  have hhit := h.before hph
  refine ⟨h.execution, h.result, h.phase, h.before, ?_, ?_, h.lost, h.settled, h.sent, h.final⟩
  · intro hh
    rw [hhit] at hh
    cases hh
  · intro _ hr hw
    rw [hw] at hr
    cases hr

/-- The heartbeat is started. -/
theorem Inv.started (h : Inv w (.fresh :: rest)) : Inv w (.started :: (rest ++ [.beating])) := by
  have hph : w.phase = .before := h.phase _ List.mem_cons_self
  have hsub : ∀ st ∈ rest, st ∈ Stage.started :: (rest ++ [.beating]) :=
    fun st hst => List.mem_cons_of_mem _ (List.mem_append_left _ hst)
  have hexec := h.execution
  have hres := h.result
  refine ⟨?_, ?_, ?_, h.before, h.done, ?_, ?_, ?_, h.sent, h.final⟩
  · simp only [List.map_cons, List.sum_cons, List.map_append, List.sum_append, List.map_nil,
      List.sum_nil, Stage.isExecution] at hexec ⊢
    omega
  · simp only [List.map_cons, List.sum_cons, List.map_append, List.sum_append, List.map_nil,
      List.sum_nil, Stage.holdsResult] at hres ⊢
    omega
  · intro st hst
    rcases List.mem_cons.mp hst with rfl | hst
    · exact hph
    · rcases List.mem_append.mp hst with hst | hst
      · exact h.phase st (List.mem_cons_of_mem _ hst)
      · rw [List.mem_singleton.mp hst]
        trivial
  · intro h₁ h₂ h₃
    exact (h.cancelled h₁ h₂ h₃).of_rest (by simp) (by simp) rfl hsub
  · intro h₁ h₂
    exact (h.lost h₁ h₂).of_rest (by simp) (by simp) rfl hsub
  · intro hst hh
    rw [h.before hph] at hh
    cases hh

/-- `ExecuteTask` is called. -/
theorem Inv.entered (h : Inv w (.started :: rest)) :
    Inv { w with phase := .executing, hit := w.hit || w.runDone } (.executing :: rest) := by
  have hph : w.phase = .before := h.phase _ List.mem_cons_self
  have hne : w.phase ≠ .returned := by
    rw [hph]
    simp
  have hhit := h.before hph
  have hlost : w.runDone = true → w.workerDone = false → LeaseLost w (.executing :: rest) :=
    fun hr hw => (h.cancelled hne hr hw).of_rest (by simp) (by simp) rfl fun st hst =>
      List.mem_cons_of_mem _ hst
  refine ⟨h.execution, h.result, ?_, ?_, ?_, ?_, ?_, ?_, h.sent, ?_⟩
  · intro st hst
    rcases List.mem_cons.mp hst with rfl | hst
    · rfl
    · exact inPhase_of_not_execution (h.alone rfl hst) _
  · intro hp
    cases hp
  · intro hh
    show w.runDone = true
    simpa [hhit] using hh
  · intro _ hr hw
    exact hlost hr hw
  · intro hh hw
    exact hlost (by simpa [hhit] using hh) hw
  · intro hst
    rcases List.mem_cons.mp hst with hst | hst
    · cases hst
    · have := h.alone rfl hst
      cases this
  · intro s hs hf
    exact absurd hf (h.not_final hne hs)

/-- `ExecuteTask` returns. -/
theorem Inv.left (h : Inv w (.executing :: rest)) :
    Inv { w with phase := .returned } (.returned :: rest) := by
  have hph : w.phase = .executing := h.phase _ List.mem_cons_self
  have hne : w.phase ≠ .returned := by
    rw [hph]
    simp
  refine ⟨h.execution, h.result, ?_, ?_, h.done, ?_, ?_, ?_, h.sent, ?_⟩
  · intro st hst
    rcases List.mem_cons.mp hst with rfl | hst
    · rfl
    · exact inPhase_of_not_execution (h.alone rfl hst) _
  · intro hp
    cases hp
  · intro hp
    exact absurd rfl hp
  · intro hh hw
    exact (h.lost hh hw).of_rest (by simp) (by simp) rfl fun st hst => List.mem_cons_of_mem _ hst
  · intro hst
    rcases List.mem_cons.mp hst with hst | hst
    · cases hst
    · have := h.alone rfl hst
      cases this
  · intro s hs hf
    exact absurd hf (h.not_final hne hs)

/-- The execution cancels the run itself. -/
theorem Inv.cancelRun (h : Inv w gs) (hph : w.phase = .returned) : Inv w.cancelRun gs := by
  have hhit : w.cancelRun.hit = w.hit := by
    simp [World.cancelRun, hph]
  refine ⟨h.execution, h.result, h.phase, ?_, fun _ => rfl, ?_, ?_, ?_, h.sent, ?_⟩
  · intro hp
    rw [hhit]
    exact h.before hp
  · intro hp
    exact absurd hph hp
  · intro hh hw
    rw [hhit] at hh
    exact h.lost hh hw
  · intro hst hh
    rw [hhit] at hh
    exact h.settled hst hh
  · intro s hs hf
    rw [hhit]
    exact h.final s hs hf

/-- While the result is in the channel, the lease is lost only if the result says so. -/
theorem LeaseLost.of_waiting (hl : LeaseLost w (g :: rest)) (h : Inv w (g :: rest))
    (hg : g.holdsResult = 0) {r : HeartbeatResult} (hr : w.heartbeat = some r) :
    r.leaseLost = true := by
  have hw : g.holdsResult + w.waiting = 1 := by
    simp [hg, World.waiting, hr]
  have hnone : ∀ x : Stage, x.holdsResult = 1 → x ∉ g :: rest := by
    intro x hx hmem
    rcases List.mem_cons.mp hmem with rfl | hmem
    · omega
    · have := h.holds hw hmem
      omega
  rcases hl with hl | hl | ⟨r', hr', hlost⟩
  · exact absurd hl (hnone _ rfl)
  · exact absurd hl (hnone _ rfl)
  · rw [hr] at hr'
    cases hr'
    exact hlost

/-- The execution takes the heartbeat's result. -/
theorem Inv.received (h : Inv w (.returned :: rest)) {r : HeartbeatResult}
    (hr : w.heartbeat = some r) : Inv { w with heartbeat := none }
      ((if r.leaseLost then .leaseLost else .settled) :: rest) := by
  have hph : w.phase = .returned := h.phase _ List.mem_cons_self
  have hexec := h.execution
  have hres := h.result
  -- the result tells whether the lease was lost
  have htold : w.hit = true → w.workerDone = false → r.leaseLost = true :=
    fun hh hw => (h.lost hh hw).of_waiting h rfl hr
  refine ⟨?_, ?_, ?_, h.before, h.done, ?_, ?_, ?_, h.sent, h.final⟩
  · cases r.leaseLost <;> exact hexec
  · simp only [List.map_cons, List.sum_cons, World.waiting, hr, Option.isSome_some, if_true,
      Stage.holdsResult] at hres
    cases r.leaseLost <;>
      simp only [List.map_cons, List.sum_cons, World.waiting, Option.isSome_none, Stage.holdsResult,
        if_true, Bool.false_eq_true, if_false] <;> omega
  · intro st hst
    rcases List.mem_cons.mp hst with rfl | hst
    · cases r.leaseLost <;> exact hph
    · exact h.phase st (List.mem_cons_of_mem _ hst)
  · intro hp
    exact absurd hph hp
  · intro hh hw
    rw [htold hh hw]
    exact .inr (.inl List.mem_cons_self)
  · intro hst hh
    rcases List.mem_cons.mp hst with hst | hst
    · by_contra hw
      rw [htold hh (by simpa using hw)] at hst
      cases hst
    · exact h.settled (List.mem_cons_of_mem _ hst) hh

/-- The heartbeat cancels the run. -/
theorem Inv.cancelledBy (h : Inv w (.beating :: rest)) : Inv w.cancelRun (.cancelled :: rest) := by
  have hlost : LeaseLost w.cancelRun (.cancelled :: rest) := .inl List.mem_cons_self
  refine ⟨h.execution, h.result, ?_, ?_, fun _ => rfl, fun _ _ _ => hlost, fun _ _ => hlost, ?_,
    h.sent, ?_⟩
  · intro st hst
    rcases List.mem_cons.mp hst with rfl | hst
    · trivial
    · exact h.phase st (List.mem_cons_of_mem _ hst)
  · intro hp
    have hhit := h.before hp
    have hph : w.phase = .before := hp
    simp [World.cancelRun, hhit, hph]
  · intro hst
    rcases List.mem_cons.mp hst with hst | hst
    · cases hst
    · have hsum := h.result
      have hle := le_sum (f := Stage.holdsResult) hst
      simp only [List.map_cons, List.sum_cons, Stage.holdsResult] at hsum hle
      omega
  · intro s hs hf
    obtain ⟨hph, hhit⟩ := h.final s hs hf
    exact ⟨hph, by simp [World.cancelRun, hhit, hph]⟩

/-- The heartbeat sends its result. -/
theorem Inv.reported (h : Inv w (g :: rest)) {r : HeartbeatResult} (hfree : w.heartbeat = none)
    (hg : g = .beating ∧ r.leaseLost = false ∨ g = .cancelled ∧ r.leaseLost = true) :
    Inv { w with heartbeat := some r } (.ended :: rest) := by
  have hexec := h.execution
  have hres := h.result
  have hweight : g.holdsResult = 1 ∧ g.isExecution = 0 := by
    rcases hg with ⟨rfl, -⟩ | ⟨rfl, -⟩ <;> exact ⟨rfl, rfl⟩
  have hwait : w.waiting = 0 := by simp [World.waiting, hfree]
  have hothers : ∀ x ∈ rest, x.holdsResult = 0 := fun x hx => h.holds (by omega) hx
  -- where the lease is lost, it is this heartbeat that has cancelled the run
  have hlost : LeaseLost w (g :: rest) → LeaseLost { w with heartbeat := some r } (.ended :: rest) := by
    rintro (hl | hl | ⟨r', hr', -⟩)
    · rcases List.mem_cons.mp hl with rfl | hl
      · rcases hg with ⟨hc, -⟩ | ⟨-, hr⟩
        · cases hc
        · exact .inr (.inr ⟨r, rfl, hr⟩)
      · have := hothers _ hl
        cases this
    · rcases List.mem_cons.mp hl with rfl | hl
      · rcases hg with ⟨hc, -⟩ | ⟨hc, -⟩ <;> cases hc
      · have := hothers _ hl
        cases this
    · rw [hfree] at hr'
      cases hr'
  refine ⟨?_, ?_, ?_, h.before, h.done, fun h₁ h₂ h₃ => hlost (h.cancelled h₁ h₂ h₃),
    fun h₁ h₂ => hlost (h.lost h₁ h₂), ?_, h.sent, h.final⟩
  · rw [List.map_cons, List.sum_cons] at hexec ⊢
    have hover : Stage.ended.isExecution = 0 := rfl
    omega
  · rw [List.map_cons, List.sum_cons] at hres ⊢
    have hover : Stage.ended.holdsResult = 0 := rfl
    have hnow : ({ w with heartbeat := some r } : World).waiting = 1 := rfl
    omega
  · intro st hst
    rcases List.mem_cons.mp hst with rfl | hst
    · trivial
    · exact h.phase st (List.mem_cons_of_mem _ hst)
  · intro hst
    rcases List.mem_cons.mp hst with hst | hst
    · cases hst
    · have := hothers _ hst
      cases this

/-- The heartbeat goes on. -/
theorem Inv.beats (h : Inv w (.beating :: rest)) : Inv w (.ended :: (rest ++ [.beating])) := by
  have hperm : (Stage.beating :: rest).Perm (rest ++ [.beating]) :=
    (List.perm_append_singleton _ _).symm
  have h' := h.perm hperm
  have hsub : ∀ st ∈ rest ++ [.beating], st ∈ Stage.ended :: (rest ++ [.beating]) :=
    fun st hst => List.mem_cons_of_mem _ hst
  have hlost : LeaseLost w (rest ++ [.beating]) → LeaseLost w (.ended :: (rest ++ [.beating])) := by
    rintro (hl | hl | hl)
    · exact .inl (hsub _ hl)
    · exact .inr (.inl (hsub _ hl))
    · exact .inr (.inr hl)
  refine ⟨?_, ?_, ?_, h'.before, h'.done, fun h₁ h₂ h₃ => hlost (h'.cancelled h₁ h₂ h₃),
    fun h₁ h₂ => hlost (h'.lost h₁ h₂), ?_, h'.sent, h'.final⟩
  · rw [List.map_cons, List.sum_cons, h'.execution]
    rfl
  · rw [List.map_cons, List.sum_cons, Nat.add_assoc, h'.result]
    rfl
  · intro st hst
    rcases List.mem_cons.mp hst with rfl | hst
    · trivial
    · exact h'.phase st hst
  · intro hst
    rcases List.mem_cons.mp hst with hst | hst
    · cases hst
    · exact h'.settled hst

/-- The worker shuts down. -/
theorem Inv.shutdown (h : Inv w gs) : Inv w.shutdown gs := by
  refine ⟨h.execution, h.result, h.phase, ?_, fun _ => rfl, ?_, ?_, fun _ _ => rfl, h.sent, ?_⟩
  · intro hp
    have hph : w.phase = .before := hp
    simp [World.shutdown, World.cancelRun, h.before hph, hph]
  · intro _ _ hw
    cases hw
  · intro _ hw
    cases hw
  · intro s hs hf
    obtain ⟨hph, hhit⟩ := h.final s hs hf
    exact ⟨hph, by simp [World.shutdown, World.cancelRun, hhit, hph]⟩

/-- One operation of a goroutine that its stage allows. -/
theorem Inv.perform (h : Inv w (g :: rest)) {o : Op} (ha : g.Allows o) {p : Pick} {r : o.Reply}
    (hp : perform w o p = some (w', r)) :
    Inv w' (g.next o r :: (rest ++ (forks o).map fun _ => .beating)) := by
  have hph : g.InPhase w.phase := h.phase _ List.mem_cons_self
  have hnil : ∀ {w' : World} {st : Stage}, Inv w' (st :: rest) → Inv w' (st :: (rest ++ [])) := by
    intro w' st h'
    rw [List.append_nil]
    exact h'
  cases g with
  | fresh =>
    cases o with
    | act a =>
      cases a with
      | newRun =>
        cases hp
        exact hnil h.newRun
      | go c =>
        cases c
        cases hp
        exact h.started
      | _ => exact ha.elim
    | _ => exact ha.elim
  | started =>
    cases o with
    | enter =>
      cases hp
      exact hnil h.entered
    | _ => exact ha.elim
  | executing =>
    cases o with
    | request ctx q =>
      obtain ⟨rfl, hq⟩ := ha
      exact hnil (h.request hp h.done fun hf => absurd hf hq)
    | leave =>
      cases hp
      exact hnil h.left
    | act a =>
      cases a with
      | uuid =>
        cases hp
        exact hnil h
      | _ => exact ha.elim
    | acquire ctx =>
      simp only [Execution.perform] at hp
      split at hp
      · cases hp
        exact hnil h
      · split at hp <;> cases hp
        exact hnil h
    | enter => exact ha.elim
    | _ =>
      cases hp
      exact hnil h
  | returned =>
    cases o with
    | act a =>
      cases a with
      | cancelRun cell =>
        cases hp
        exact hnil (h.cancelRun hph)
      | recvHeartbeat cell =>
        obtain ⟨r', hr', heq⟩ := Option.map_eq_some_iff.mp hp
        cases heq
        exact hnil (h.received hr')
      | _ => exact ha.elim
    | _ => exact ha.elim
  | settled =>
    cases o with
    | request ctx q =>
      obtain rfl : ctx = .worker := ha
      exact hnil (h.request hp (h.settled List.mem_cons_self) fun _ => hph)
    | act a =>
      cases a with
      | now =>
        cases hp
        exact hnil h
      | _ => exact ha.elim
    | _ => exact ha.elim
  | leaseLost => exact ha.elim
  | beating =>
    cases o with
    | request ctx q =>
      obtain ⟨rfl, hq⟩ := ha
      exact hnil (h.request hp h.done fun hf => absurd hf hq)
    | act a =>
      cases a with
      | selectTick cell =>
        simp only [Execution.perform, performAct] at hp
        split at hp
        · cases hp
          exact hnil h
        · split at hp <;> cases hp
          exact hnil h
      | cancelRun cell =>
        cases hp
        exact hnil h.cancelledBy
      | sendHeartbeat cell res =>
        simp only [Execution.perform, performAct] at hp
        split at hp <;> cases hp
        rename_i hfree
        exact hnil (h.reported hfree (.inl ⟨rfl, ha⟩))
      | go c =>
        cases c
        cases hp
        exact h.beats
      | _ => exact ha.elim
    | _ => exact ha.elim
  | cancelled =>
    cases o with
    | act a =>
      cases a with
      | sendHeartbeat cell res =>
        simp only [Execution.perform, performAct] at hp
        split at hp <;> cases hp
        rename_i hfree
        exact hnil (h.reported hfree (.inr ⟨rfl, ha⟩))
      | _ => exact ha.elim
    | _ => exact ha.elim
  | ended => exact ha.elim

/-- Before anything has happened. -/
theorem Inv.initial : Inv {} [.fresh] := by
  refine ⟨rfl, rfl, ?_, fun _ => rfl, ?_, ?_, ?_, ?_, ?_, ?_⟩
  · intro st hst
    rw [List.mem_singleton.mp hst]
    rfl
  · intro hh
    cases hh
  · intro _ hr
    cases hr
  · intro hh
    cases hh
  · intro _ hh
    cases hh
  · intro s hs
    cases hs
  · intro s hs
    cases hs

/-- An execution that was hit has sent nothing final. -/
theorem Inv.leavesNoVerdict (h : Inv w gs) : LeavesNoVerdict w := by
  refine ⟨h.sent, fun hhit s hs hf => ?_⟩
  have hnot := (h.final s hs hf).2
  rw [hhit] at hnot
  cases hnot

end Invariant

/-! ## Runs -/

/-- A move keeps the invariant. -/
theorem Inv.record {s s' : RecordedConfig World Op Op.Reply Stage} {m : Move Pick Event}
    (h : Inv s.world (s.threads.map Prod.fst)) (hheed : AllHeed stages stageRules s)
    (hstep : machine.record stages s m = some s') : Inv s'.world (s'.threads.map Prod.fst) := by
  obtain ⟨i, c, g, e, k, w, r, rfl, hi, hsem, rfl⟩ | ⟨i, rfl, rfl⟩ | ⟨v, w, ps, rfl, hv, rfl⟩ :=
    record_cases hstep
  · have hallow : g.Allows e := hheed.allowed hi
    have hgs : (s.threads.map Prod.fst)[i]? = some g := by simp [hi]
    obtain ⟨hlt, hget⟩ := List.getElem?_eq_some_iff.mp hgs
    -- bring the goroutine to the front, let it move, and bring it back
    have hfront : (g :: (s.threads.map Prod.fst).eraseIdx i).Perm (s.threads.map Prod.fst) := by
      rw [← hget]
      exact List.getElem_cons_eraseIdx_perm hlt
    have hback : (g.next e r :: (s.threads.map Prod.fst).eraseIdx i).Perm
        ((s.threads.map Prod.fst).set i (g.next e r)) := (List.set_perm_cons_eraseIdx hlt _).symm
    have hmoved := (h.perm hfront.symm).perform hallow hsem
    rw [← List.cons_append] at hmoved
    have hinv := hmoved.perm (hback.append_right _)
    simpa [List.map_set, machine, stages, Function.comp_def] using hinv
  · rw [records_crash]
    exact h
  · cases hv
    simpa using h.shutdown

/-- Once `ExecuteTask` runs on a cancelled context, nothing more is sent. -/
theorem cancelled_leaves_no_verdict (cfg : WorkerConfig) (msg : StreamMessage) (task : TaskRequest)
    (jobID traceID : String) (attemptID : Nat) {s : Config World Op Op.Reply}
    (h : machine.Reach anyMove (start cfg msg task jobID traceID attemptID) s) :
    LeavesNoVerdict s.world := by
  obtain ⟨r, rfl, hrun⟩ := exists_record (K := stages) h
    ⟨{}, [(.fresh, execution cfg msg task jobID traceID attemptID)]⟩ rfl
  have hinv : AllHeed stages stageRules r ∧ Inv r.world (r.threads.map Prod.fst) := by
    refine hrun.invariant (J := fun r => AllHeed stages stageRules r ∧
      Inv r.world (r.threads.map Prod.fst)) ?_ ?_
    · refine ⟨fun t ht => ?_, Inv.initial⟩
      obtain rfl := List.mem_singleton.mp ht
      exact (keeps_execution cfg msg task jobID traceID attemptID).heeds
    · intro s s' m hJ _ hstep
      exact ⟨disciplined.record hJ.1 (fun _ _ _ _ _ _ _ _ _ _ => trivial)
        (fun _ _ _ _ => trivial) hstep, hJ.2.record hJ.1 hstep⟩
  exact hinv.2.leavesNoVerdict

/-- An execution of a C++ program. -/
def smallExecution : Config World Op Op.Reply :=
  start ⟨"w", 30, 5⟩ ⟨1, ⟨some "j", some 0, none, some 0, none⟩⟩
    ⟨"j", "c", 1, 1000, 256, "", 0, 1, "t"⟩ "j" "t" 1

/-- The heartbeat has renewed the lease once when the worker shuts down; the compiler is killed. -/
def killedCompiler : List (Move Pick Event) :=
  List.replicate 6 (.call 0 {}) ++ List.replicate 3 (.call 1 {}) ++
  .env .shutdown :: .call 0 { compiled := .error "signal: killed" } ::
  List.replicate 3 (.call 0 {}) ++ List.replicate 2 (.call 2 { first := false }) ++
  List.replicate 10 (.call 0 {})

set_option maxRecDepth 8000 in
/-- All goroutines end, with only the heartbeat's request sent. -/
theorem cancelled_leaves_no_verdict_killed :
    LeavesNoVerdict (machine.play anyMove smallExecution killedCompiler).world ∧
      (machine.play anyMove smallExecution killedCompiler).world.hit = true ∧
      (machine.play anyMove smallExecution killedCompiler).world.sent.length = 1 ∧
      ∀ p ∈ (machine.play anyMove smallExecution killedCompiler).threads, p.next.isNone = true :=
  ⟨cancelled_leaves_no_verdict _ _ _ _ _ _ (machine.reach_play anyMove .init killedCompiler),
    by decide +kernel, by decide +kernel, by decide +kernel⟩

end DeepOj.Worker.Execution
