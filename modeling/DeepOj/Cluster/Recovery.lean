import DeepOj.Cluster.TaskIntegrity
import DeepOj.Conc.Alone
import Mathlib.Data.Finset.Card
import Mathlib.Data.Finset.Dedup

/-!
# Recovery

Whatever has gone wrong so far (crashed processes, lost replies, lost payloads, entries
nobody reads), a submission that waits, or runs with an entry some consumer holds, can
still be brought to its end, without any further failure.
-/

namespace DeepOj.Cluster

open Repository Worker Api Go Conc
open Scheduler (RepairCandidate repairCandidate)
open Scheduler.RepairCycle
  (RepairConfig Due fetchRepairCandidates mem_fetchRepairCandidates defaultRepairBatchSize)

/-- The effect ends without failure. -/
def answered : Fate → Prop
  | .ok _ => True
  | _ => False

/-- A move of one worker, of one scheduler or of the clocks, in which nothing fails. A
worker is given the entries of the stream in order. -/
def Healthy (wcfg : WorkerConfig) (rcfg : RepairConfig) (s : State) : Move Fate RepairEnv → Prop
  | .call _ c => answered c
  | .env (.base (.dbTick _)) => True
  | .env (.base (.redisTick _)) => True
  | .env (.base (.deliver cfg i)) =>
    cfg = wcfg ∧ ∀ k < i, ∀ e, s.world.stream[k]? = some e → e.delivery ≠ .fresh
  | .env (.base (.autoclaim cfg _)) => cfg = wcfg
  | .env (.repair cfg _) => cfg = rcfg
  | _ => False

/-- A run in which nothing fails. -/
abbrev HealthyRun (wcfg : WorkerConfig) (rcfg : RepairConfig) (s s' : State) : Prop :=
  repairSystem.Reach (Healthy wcfg rcfg) s s'

abbrev RunsAlone {α : Type} (w : World) (p : Program α) (w' : World) (p' : Program α)
    (fs : List (Program Unit)) :
    Prop :=
  repairSystem.Alone answered w p w' p' fs

/-! ## What a run leaves alone -/

/-- Some entry of the stream names job `j` and is not acknowledged. -/
def Held (w : World) (j : String) : Prop :=
  ∃ (i : Nat) (e : StreamEntry), w.stream[i]? = some e ∧ requiredStreamField e.values.jobID = some j ∧
    e.delivery ≠ .acked

theorem Held.append {w w' : World} {j : String} (h : Held w j) (es : List StreamEntry)
    (hs : w'.stream = w.stream ++ es) : Held w' j := by
  obtain ⟨i, e, he, h⟩ := h
  have hlt : i < w.stream.length := (List.getElem?_eq_some_iff.mp he).1
  exact ⟨i, e, by rw [hs, List.getElem?_append_left hlt]; exact he, h⟩

theorem Held.same {w w' : World} {j : String} (h : Held w j) (hs : w'.stream = w.stream) : Held w' j :=
  h.append [] (by rw [hs, List.append_nil])

/-- Giving an entry to a consumer acknowledges nothing. -/
theorem Held.give {w : World} {j : String} (h : Held w j) (i : Nat) (o : String) : Held (w.give i o) j := by
  obtain ⟨k, e, he, hj, ha⟩ := h
  by_cases hk : k = i
  · subst hk
    exact ⟨k, _, w.give_self o he, hj, by simp⟩
  · exact ⟨k, e, (w.give_getElem? i o hk).trans he, hj, ha⟩

/-- Of the rows, only that of job `j` may differ. -/
structure Touches (j : String) (w w' : World) : Prop where
  rows : ∀ j', j' ≠ j → w'.submissions j' = w.submissions j'
  jobs : w'.jobs = w.jobs
  held : ∀ j', Held w j' → Held w' j'

theorem Touches.trans {j : String} {w₁ w₂ w₃ : World} (h₁ : Touches j w₁ w₂) (h₂ : Touches j w₂ w₃) :
    Touches j w₁ w₃ where
  rows := fun j' hj => (h₂.rows j' hj).trans (h₁.rows j' hj)
  jobs := h₂.jobs.trans h₁.jobs
  held := fun j' h => h₂.held j' (h₁.held j' h)

/-- The rows are the same. -/
structure SameRows (w w' : World) : Prop where
  rows : w'.submissions = w.submissions
  jobs : w'.jobs = w.jobs
  held : ∀ j, Held w j → Held w' j

theorem SameRows.refl (w : World) : SameRows w w := ⟨rfl, rfl, fun _ h => h⟩

theorem SameRows.trans {w₁ w₂ w₃ : World} (h₁ : SameRows w₁ w₂) (h₂ : SameRows w₂ w₃) : SameRows w₁ w₃ :=
  ⟨h₂.rows.trans h₁.rows, h₂.jobs.trans h₁.jobs, fun j h => h₂.held j (h₁.held j h)⟩

theorem SameRows.touches {w w' : World} (h : SameRows w w') (j : String) : Touches j w w' :=
  ⟨fun j' _ => congrFun h.rows j', h.jobs, h.held⟩

theorem SameRows.row {w w' : World} (h : SameRows w w') {j : String} {r : Submission}
    (hr : w.submissions j = some r) : w'.submissions j = some r :=
  (congrFun h.rows j).trans hr

/-- The rows are the same, and so is the time. -/
structure Still (w w' : World) : Prop extends SameRows w w' where
  dbNow : w'.dbNow = w.dbNow

theorem Still.refl (w : World) : Still w w := ⟨.refl w, rfl⟩

theorem Still.trans {w₁ w₂ w₃ : World} (h₁ : Still w₁ w₂) (h₂ : Still w₂ w₃) : Still w₁ w₃ :=
  ⟨h₁.toSameRows.trans h₂.toSameRows, h₂.dbNow.trans h₁.dbNow⟩

/-- A world that differs in nothing that counts here. -/
theorem Still.of_eq {w w' : World} (hr : w'.submissions = w.submissions) (hj : w'.jobs = w.jobs)
    (hs : w'.stream = w.stream) (hn : w'.dbNow = w.dbNow) : Still w w' :=
  ⟨⟨hr, hj, fun _ h => h.same hs⟩, hn⟩

/-! ## Effects that nothing blocks -/

/-- Effects that no other process can block, and that leave the rows alone. -/
def Passive : Effect → Prop
  | .request (.get _ _) => True
  | .request (.set _ _) => True
  | .request (.setNX _ _) => True
  | .act .now => True
  | .act .uuid => True
  | .act (.judge _ _) => True
  | _ => False

theorem passive_answered (w₀ w : World) (e : Effect) (he : Passive e)
    (hw : Still w₀ w ∧ w.cells = w₀.cells) :
    forks e = [] ∧ ∃ c w' r, answered c ∧ perform w e c = some (w', r) ∧ Still w₀ w' ∧ w'.cells = w₀.cells := by
  have hok : answered (.ok { uuid := "t" }) := trivial
  have hkeep : ∀ w', Still w w' → w'.cells = w.cells → Still w₀ w' ∧ w'.cells = w₀.cells :=
    fun w' h hc => ⟨hw.1.trans h, hc.trans hw.2⟩
  cases e with
  | request q =>
    refine ⟨rfl, .ok { uuid := "t" }, _, _, hok, rfl, ?_⟩
    cases q with
    | get reader k =>
      simp only [World.recordGet]
      split <;> exact hkeep _ (.of_eq rfl rfl rfl rfl) rfl
    | set k v => exact hkeep _ (.of_eq rfl rfl rfl rfl) rfl
    | setNX k v =>
      dsimp only
      cases w.redis k <;> exact hkeep _ (.of_eq rfl rfl rfl rfl) rfl
    | _ => exact he.elim
  | act a =>
    cases a with
    | now => exact ⟨rfl, .ok {}, w, 0, trivial, rfl, hw⟩
    | uuid => exact ⟨rfl, .ok { uuid := "t" }, w, "t", hok, by simp only [perform, actLocally]; rfl, hw⟩
    | judge task a => exact ⟨rfl, .ok {}, _, _, trivial, rfl, hkeep _ (.of_eq rfl rfl rfl rfl) rfl⟩
    | _ => exact he.elim

/-- A program of such effects runs to its end. -/
theorem passive_completes {α : Type} {p : Program α} (hp : p.Confined Passive) (w : World) :
    ∃ w' a, RunsAlone w p w' (.ret a) [] ∧ Still w w' ∧ w'.cells = w.cells :=
  Machine.Alone.complete (M := repairSystem) (I := fun w' => Still w w' ∧ w'.cells = w.cells)
    (fun w' e he hw => passive_answered w w' e he hw) hp ⟨.refl w, rfl⟩

theorem passive_call {α : Type} {e : Effect} {f : e.Reply → Program α} (h : Passive e)
    (hf : ∀ r, (f r).Confined Passive) : (Prog.perform e >>= f).Confined Passive :=
  .call h hf

theorem passive_getWithLegacy (reader : Reader) (k l : RedisKey) :
    (getWithLegacy reader k l).Confined Passive := by
  unfold getWithLegacy
  refine passive_call trivial fun r => ?_
  dsimp only
  split
  · exact passive_call trivial fun r => .ret _
  · exact .ret _

theorem passive_executeTask (task : TaskRequest) (a : Nat) : (executeTask task a).Confined Passive := by
  unfold executeTask
  refine .bind ?_ fun tr => passive_call trivial fun outcome => ?_
  · unfold taskTraceID
    split
    · exact .perform trivial
    · exact .ret _
  · have hreport : (reportOutcome task a tr outcome).Confined Passive := by
      unfold reportOutcome
      split
      · exact .ret _
      · cases reportedResult task a tr outcome with
        | none => exact .ret _
        | some m =>
          refine .bind (passive_call trivial fun r => ?_) fun r => ?_
          · cases r <;> exact .ret _
          · cases r <;> exact .ret _
    cases outcome with
    | busy err => exact .ret _
    | _ => exact hreport

theorem passive_resolveFinalResult (task : TaskRequest) (j : String) (a : Nat) (tr : String)
    (resp : Option TaskResponse) (err : Option String) :
    (resolveFinalResult task j a tr resp err).Confined Passive := by
  refine (passive_getWithLegacy .worker _ _).bind fun raw => ?_
  cases raw.bind RedisValue.asMap <;> exact .ret _

/-! ## Single effects -/

/-- An action of the own process. -/
theorem runsAlone_act {α : Type} {w w' : World} {x : Action} {k : x.Response → Program α} {p' : Program α}
    {fs : List (Program Unit)} (w₁ : World) (r : x.Response) (hx : actLocally w {} x = some (w₁, r))
    (hf : forks (.act x) = [])
    (h : RunsAlone w₁ (k r) w' p' fs) : RunsAlone w (.call (.act x) k) w' p' fs :=
  .call (c := Fate.ok {}) trivial hf hx h

/-- Starting a goroutine. -/
theorem runsAlone_go {α : Type} {w w' : World} {g : Goroutine} {k : Unit → Program α} {p' : Program α}
    {fs : List (Program Unit)} (h : RunsAlone w (k ()) w' p' fs) :
    RunsAlone w (.call (.act (.go g)) k) w' p' (g.program :: fs) :=
  .step (M := repairSystem) (e := .act (.go g)) (c := Fate.ok {}) (r := ()) trivial rfl h

/-- A request that is served. -/
theorem runsAlone_request {α : Type} {w w' : World} {q : Request} {k : Except String q.Response → Program α}
    {p' : Program α} {fs : List (Program Unit)} (w₁ : World) (r : Except String q.Response)
    (hq : serve w {} q = (w₁, r)) (h : RunsAlone w₁ (k r) w' p' fs) :
    RunsAlone w (.call (.request q) k) w' p' fs :=
  .call (M := repairSystem) (e := .request q) (c := Fate.ok {}) trivial rfl (congrArg some hq) h

/-! ## Loading the task -/

/-- An update that selects the row, answered. -/
theorem perform_update {w : World} {j : String} {op : RowOp} {via : Option Nat} {r r' : Submission} {v : Nat}
    (hr : w.submissions j = some r) (hx : op.exec w.dbNow r = some (r', v)) :
    perform w (.request (.update j op via)) (.ok {}) =
      some ((w.setRow j r').recordUpdate j op via v, .ok (some v)) := by
  simp only [perform, serve, hr, hx]

theorem touches_update (w : World) (j : String) (op : RowOp) (via : Option Nat) (r : Submission) (v : Nat) :
    Touches j w ((w.setRow j r).recordUpdate j op via v) where
  rows := fun j' hj => by
    rw [(recordUpdate_eq (w.setRow j r) j op via v).1]
    exact w.setRow_of_ne hj r
  jobs := by cases op <;> rfl
  held := fun j' h => h.same (recordUpdate_eq (w.setRow j r) j op via v).2.1

theorem row_update (w : World) (j : String) (op : RowOp) (via : Option Nat) (r : Submission) (v : Nat) :
    ((w.setRow j r).recordUpdate j op via v).submissions j = some r := by
  rw [(recordUpdate_eq (w.setRow j r) j op via v).1]
  exact w.setRow_self j r

/-- Alone, the program loads a task of job `j`, or ends the job as poison. -/
def Loads (j : String) (w : World) (p : Program Loaded) : Prop :=
  ∃ w' p', RunsAlone w p w' p' [] ∧ Touches j w w' ∧
    (RowDone w' j ∨ ∃ task tr, p' = .ret (.ok (j, task, tr)) ∧ Still w w')

section Load

variable {w : World} {msg : StreamMessage} {j : String} {r : Submission}

/-- After a program that leaves the rows alone. -/
theorem Loads.after {α : Type} {p : Program α} {f : α → Program Loaded} {a : α} {w₁ : World}
    (h : RunsAlone w p w₁ (.ret a) []) (hsame : Still w w₁) (hf : Loads j w₁ (f a)) :
    Loads j w (p >>= f) := by
  obtain ⟨w', p', hrun, ht, hend⟩ := hf
  refine ⟨w', p', h.andThen hrun, (hsame.touches j).trans ht, hend.imp_right ?_⟩
  rintro ⟨task, tr, rfl, hsame'⟩
  exact ⟨task, tr, rfl, hsame.trans hsame'⟩

/-- A message that is rejected as poison ends its job. -/
theorem loads_poisoned (hj : trimSpace j ≠ "") (hr : w.submissions j = some r) (hd : r.state ≠ "done")
    (code err : String) (reason : StreamReason) : Loads j w (poisoned msg j code err reason) := by
  obtain ⟨r', hx, hdone⟩ : ∃ r', (RowOp.poison code err).exec w.dbNow r = some (r', 1) ∧ r'.state = "done" :=
    ⟨_, markSubmissionPoison_eq_some.mpr ⟨hd, rfl, rfl⟩, rfl⟩
  unfold poisoned rejectPoison markPoisonBeforeAck
  rw [if_neg hj]
  exact ⟨_, _, .call (c := Fate.ok {}) trivial rfl (perform_update hr hx) (.refl _ _),
    touches_update w j _ _ _ _, .inl ⟨r', row_update w j _ _ _ _, hdone⟩⟩

theorem loads_checkTask (hj : trimSpace j ≠ "") (hr : w.submissions j = some r) (hd : r.state ≠ "done")
    (tr : String) (task : TaskRequest) : Loads j w (checkTask msg j tr task) := by
  unfold checkTask
  split
  · exact loads_poisoned hj hr hd _ _ _
  · split
    · exact ⟨w, _, .refl _ _, (SameRows.refl w).touches j, .inr ⟨_, _, rfl, .refl w⟩⟩
    · exact ⟨w, _, .refl _ _, (SameRows.refl w).touches j, .inr ⟨_, _, rfl, .refl w⟩⟩

theorem loads_loadPayload (hj : trimSpace j ≠ "") (hr : w.submissions j = some r) (hd : r.state ≠ "done")
    (tr : String) (ref : RedisKey) : Loads j w (loadPayload msg j tr ref) := by
  obtain ⟨w₁, raw, hget, hsame, _⟩ :=
    passive_completes (passive_getWithLegacy .worker (namespacedRedisKey ref) ref) w
  have hr₁ : w₁.submissions j = some r := (congrFun hsame.rows j).trans hr
  unfold loadPayload
  refine .after hget hsame ?_
  cases raw with
  | none => exact loads_poisoned hj hr₁ hd _ _ _
  | some v =>
    dsimp only
    split
    · exact loads_poisoned hj hr₁ hd _ _ _
    · split
      · exact loads_poisoned hj hr₁ hd _ _ _
      · exact loads_checkTask hj hr₁ hd tr _

theorem loads_loadTask (hmsg : requiredStreamField msg.values.jobID = some j) (hr : w.submissions j = some r)
    (hd : r.state ≠ "done") : Loads j w (loadTask msg) := by
  have hne : trimSpace j ≠ "" := trimSpace_ne_of_required hmsg
  have huuid : perform w (.act .uuid) (.ok { uuid := "t" }) = some (w, "t") := by
    simp only [perform, actLocally]
    rfl
  unfold loadTask
  rw [hmsg, Option.getD_some]
  refine .after (.call (c := Fate.ok { uuid := "t" }) trivial rfl huuid (.refl _ _)) (.refl w) ?_
  split
  · exact loads_loadPayload hne hr hd _ _
  · exact loads_poisoned hne hr hd _ _ _

/-- A message with all its fields, whose payload is there. -/
structure FreshMessage (w : World) (msg : StreamMessage) (j : String) : Prop where
  complete : missingFields msg.values = []
  jobID : requiredStreamField msg.values.jobID = some j
  payloadRef : msg.values.payloadRef = some (payloadKey j)
  payload : ∃ task, w.redis (payloadKey j) = some (buildPayloadEnvelope task) ∧ task.jobID = j

/-- The task of such a message is loaded. -/
theorem loadTask_fresh (h : FreshMessage w msg j) :
    ∃ w' task tr, RunsAlone w (loadTask msg) w' (.ret (.ok (j, task, tr))) [] ∧ Still w w' := by
  obtain ⟨task, hpayload, hj⟩ := h.payload
  have hne : trimSpace j ≠ "" := trimSpace_ne_of_required h.jobID
  have huuid : perform w (.act .uuid) (.ok { uuid := "t" }) = some (w, "t") := by
    simp only [perform, actLocally]
    rfl
  have hget : RunsAlone w (getWithLegacy .worker (namespacedRedisKey (payloadKey j)) (payloadKey j)) w
      (.ret (some (buildPayloadEnvelope task))) [] := by
    unfold getWithLegacy
    refine runsAlone_request w (.ok (some (buildPayloadEnvelope task))) ?_ ?_
    · simp only [serve, World.recordGet]
      exact congrArg (fun v => (w, Except.ok v)) hpayload
    · exact .refl _ _
  have hfill : fillJobID j task = task := by
    unfold fillJobID
    rw [if_neg (by rw [hj]; exact hne)]
  obtain ⟨task', tr, hcheck⟩ : ∃ task' tr, checkTask msg j "t" task = .ret (.ok (j, task', tr)) := by
    unfold checkTask
    rw [if_neg (not_not.mpr hj)]
    split <;> exact ⟨_, _, rfl⟩
  refine ⟨w, task', tr, ?_, .refl w⟩
  have hloaded : RunsAlone w (loadPayload msg j "t" (payloadKey j)) w (.ret (.ok (j, task', tr))) [] := by
    unfold loadPayload
    refine hget.andThen ?_
    have hblank : ¬ (buildPayloadEnvelope task).isBlank = true := by
      simp [buildPayloadEnvelope, RedisValue.isBlank]
    simp only [if_neg hblank, decode_buildPayloadEnvelope, hfill, hcheck]
    exact .refl _ _
  unfold loadTask
  rw [h.jobID, h.complete, h.payloadRef]
  exact .call (c := Fate.ok { uuid := "t" }) trivial rfl huuid hloaded

end Load

/-! ## Running an execution to its end -/

/-- Attempt `a` of job `j` runs under a lease of `o`. -/
def RunsUnder (w : World) (j : String) (a : Nat) (o : String) : Prop :=
  ∃ r, w.submissions j = some r ∧ r.attemptID = a ∧ r.leaseOwner = some o ∧ leaseAfter r w.dbNow = true ∧
    r.status = "running" ∧ r.state = "processing"

theorem RunsUnder.same {w w' : World} {j : String} {a : Nat} {o : String} (h : RunsUnder w j a o)
    (hs : Still w w') : RunsUnder w' j a o := by
  obtain ⟨r, hr, h⟩ := h
  exact ⟨r, (congrFun hs.rows j).trans hr, by rw [hs.dbNow]; exact h⟩

/-- A statement that starts an attempt starts it under a lease. -/
theorem runsUnder_started {w : World} {j : String} {op : RowOp} {via : Option Nat} {r r' : Submission} {v : Nat}
    {o : String} (ho : op.starts = some o) (hx : op.exec w.dbNow r = some (r', v)) :
    RunsUnder ((w.setRow j r').recordUpdate j op via v) j v o := by
  obtain ⟨_, ha, hown, hstate, hstatus⟩ := starts_of_exec ho hx
  have hnow : ((w.setRow j r').recordUpdate j op via v).dbNow = w.dbNow := by cases op <;> rfl
  refine ⟨r', row_update w j op via r' v, ha, hown, ?_, hstatus, hstate⟩
  rw [hnow]
  cases op with
  | claim o' l =>
    obtain ⟨_, _, rfl⟩ := claimSubmissionForRun_eq_some.mp hx
    exact decide_eq_true (Nat.lt_add_of_pos_right (leaseInterval_pos l))
  | reclaim o' l =>
    obtain ⟨_, _, rfl⟩ := reclaimSubmissionForRun_eq_some.mp hx
    exact decide_eq_true (Nat.lt_add_of_pos_right (leaseInterval_pos l))
  | _ => cases ho

/-- Some attempt has stored its result for job `j`. -/
def Finalized (w : World) (j : String) : Prop := ∃ a st m, LogEvent.finalized j a st m ∈ w.log

/-- Once the heartbeat has ended in peace, the attempt stores its result. -/
theorem finalize_alone {w : World} {j : String} {a : Nat} {o : String} (h : RunsUnder w j a o)
    (i : Nat) (st : String) (m : ResultMap) :
    ∃ w' p', RunsAlone w (finalizeSubmissionWithFence i j a o st m) w' p' [] ∧ Touches j w w' ∧
      Finalized w' j := by
  obtain ⟨r, hr, hfence⟩ := h
  obtain ⟨r', hx⟩ : ∃ r', (RowOp.finalize a o st m).exec w.dbNow r = some (r', 1) :=
    ⟨_, finalizeSubmission_eq_some.mpr ⟨hfence, rfl, rfl⟩⟩
  exact ⟨_, _, .call (c := Fate.ok {}) trivial rfl (perform_update hr hx) (.refl _ _),
    touches_update w j _ _ _ _, a, st, m, List.mem_cons_self⟩

/-- The cell `n` belongs to an execution that is over, and holds `hb`. -/
def CellAt (w : World) (n : Nat) (hb : Option HeartbeatResult) : Prop := w.cells[n]? = some ⟨true, hb⟩

/-- What `runClaimedExecution` does once the heartbeat has ended. -/
def afterHeartbeat (cfg : WorkerConfig) (msg : StreamMessage) (task : TaskRequest) (j tr : String) (a : Nat)
    (res : TaskResponse × Option String) (hbRes : HeartbeatResult) : Program StreamProcessResult :=
  if hbRes.leaseLost then pure (rejected hbRes.reason)
  else do
    let (finalStatus, finalResult) ← resolveFinalResult task j a tr (some res.1) res.2
    match ← finalizeSubmissionWithFence msg.id j a cfg.jobStreamConsumer finalStatus
        (finalResult.set "attempt_id" (.num a)) with
    | .error _ => pure (rejected .dbError)
    | .ok res =>
      if res.applied then ackThen msg (.finalized a) ⟨true, .ok⟩
      else
        let reason := mapFinalizeRejectReason res.reason
        if isBusinessFinalizeRejectReason reason then ackThen msg (.finalizeRejected a) (rejected reason)
        else pure (rejected .dbError)

/-- The execution, up to its last wait and from there on. -/
theorem runClaimedExecution_eq (cfg : WorkerConfig) (msg : StreamMessage) (task : TaskRequest) (j tr : String)
    (a : Nat) : runClaimedExecution cfg msg task j tr a =
      .call (.act .newRun) fun cell =>
        .call (.act (.go (.heartbeat cell j a cfg.jobStreamConsumer cfg.jobLeaseSec 0))) fun _ =>
          executeTask task a >>= fun res => act (.cancelRun cell) >>= fun _ => act (.recvHeartbeat cell) >>=
            afterHeartbeat cfg msg task j tr a res := rfl

section Execution

variable {w : World} {j : String} {a : Nat} {cfg : WorkerConfig}

/-- An execution runs up to the point where it waits for its heartbeat. -/
theorem execution_waits (cfg : WorkerConfig) (msg : StreamMessage) (task : TaskRequest)
    (j tr : String) (a : Nat)
    (w : World) :
    ∃ n w' res, RunsAlone w (runClaimedExecution cfg msg task j tr a) w'
        (.call (.act (.recvHeartbeat n)) (afterHeartbeat cfg msg task j tr a res))
        [runLeaseHeartbeat n j a cfg.jobStreamConsumer cfg.jobLeaseSec 0] ∧
      Still w w' ∧ CellAt w' n none := by
  let n := w.cells.length
  let w₀ : World := { w with cells := w.cells ++ [⟨false, none⟩] }
  obtain ⟨w₁, res, hexec, hsame, hcells⟩ := passive_completes (passive_executeTask task a) w₀
  have hcell : w₁.cells[n]? = some ⟨false, none⟩ := by
    rw [hcells]
    exact List.getElem?_concat_length
  let w' := w₁.setCell n fun c => { c with cancelled := true }
  have hnew : Still w w₀ := .of_eq rfl rfl rfl rfl
  have hcancelled : Still w₁ w' := .of_eq rfl rfl rfl rfl
  refine ⟨n, w', res, ?_, hnew.trans (hsame.trans hcancelled), ?_⟩
  · have hcancel : RunsAlone w₁ (act (.cancelRun n) >>= fun _ => act (.recvHeartbeat n) >>=
        afterHeartbeat cfg msg task j tr a res) w'
        (.call (.act (.recvHeartbeat n)) (afterHeartbeat cfg msg task j tr a res)) [] :=
      runsAlone_act w' () rfl rfl (.refl _ _)
    have hrun := runsAlone_go (g := .heartbeat n j a cfg.jobStreamConsumer cfg.jobLeaseSec 0)
      (k := fun _ => executeTask task a >>= fun res => act (.cancelRun n) >>= fun _ =>
        act (.recvHeartbeat n) >>=
        afterHeartbeat cfg msg task j tr a res) (hexec.andThen hcancel)
    rw [runClaimedExecution_eq]
    exact runsAlone_act w₀ n rfl rfl hrun
  · simp only [CellAt, w', World.setCell, List.getElem?_modify, hcell]
    simp

/-- A heartbeat that has ended in peace lets the execution end its job. -/
theorem execution_ends (h : RunsUnder w j a cfg.jobStreamConsumer) (msg : StreamMessage) (task : TaskRequest)
    (tr : String) (res : TaskResponse × Option String) :
    ∃ w' p', RunsAlone w (afterHeartbeat cfg msg task j tr a res {}) w' p' [] ∧ Touches j w w' ∧
      Finalized w' j := by
  obtain ⟨w₁, final, hfinal, hsame, _⟩ :=
    passive_completes (passive_resolveFinalResult task j a tr (some res.1) res.2) w
  obtain ⟨w₂, p', hrun, ht, hdone⟩ := finalize_alone (h.same hsame) msg.id final.1
    (final.2.set "attempt_id" (.num a))
  exact ⟨w₂, _, hfinal.andThen (hrun.bind _), (hsame.touches j).trans ht, hdone⟩

/-- The heartbeat of an execution that is over sends its result. -/
theorem heartbeat_ends {n : Nat} (hcell : CellAt w n none) (o : String) (leaseSec : Int) (errors : Nat) :
    ∃ w', RunsAlone w (runLeaseHeartbeat n j a o leaseSec errors) w' (.ret ()) [] ∧ Still w w' ∧
      CellAt w' n (some {}) := by
  have hselect : perform w (.act (.selectTick n)) (.ok {}) = some (w, false) := by
    simp only [CellAt] at hcell
    simp [perform, actLocally, hcell]
  refine ⟨w.setCell n fun c => { c with heartbeat := some {} }, ?_, .of_eq rfl rfl rfl rfl, ?_⟩
  · exact .call (c := Fate.ok {}) trivial rfl hselect (.call (c := Fate.ok {}) trivial rfl rfl (.refl _ _))
  · simp only [CellAt] at hcell
    simp only [CellAt, World.setCell, List.getElem?_modify, hcell]
    simp

end Execution

/-! ## Runs of the whole system -/

section Runs

variable {wcfg : WorkerConfig} {rcfg : RepairConfig} {s s' s'' : State} {j : String}

theorem HealthyRun.trans (h : HealthyRun wcfg rcfg s s') (h' : HealthyRun wcfg rcfg s' s'') :
    HealthyRun wcfg rcfg s s'' := by
  induction h' with
  | init => exact h
  | step m _ hok hstep ih => exact .step m ih hok hstep

/-- A move of the environment. -/
theorem HealthyRun.env {v : RepairEnv} {w : World} {ps : List (Program Unit)} (h : HealthyRun wcfg rcfg s s')
    (hok : Healthy wcfg rcfg s' (.env v)) (hv : repairEnvStep s'.world v = some (w, ps)) :
    HealthyRun wcfg rcfg s ⟨w, s'.threads ++ ps⟩ :=
  .step (.env v) h hok (by simp only [Machine.step, repairSystem, hv])

/-- What one thread does alone is such a run. -/
theorem healthyRun_alone {w w' : World} {ts : List (Program Unit)} {i : Nat} {p p' : Program Unit}
    {fs : List (Program Unit)} (hi : ts[i]? = some p) (h : RunsAlone w p w' p' fs) :
    HealthyRun wcfg rcfg ⟨w, ts⟩ ⟨w', ts.set i p' ++ fs⟩ :=
  h.reach (fun _ _ _ hc => hc) hi .init

/-- A thread about to run an execution brings its job to an end. -/
theorem execution_finishes (rcfg : RepairConfig) {w : World} {ts : List (Program Unit)}
    {i a : Nat} {tr : String}
    {msg : StreamMessage} {task : TaskRequest} {f : StreamProcessResult → Program Unit}
    (hi : ts[i]? = some (runClaimedExecution wcfg msg task j tr a >>= f))
    (h : RunsUnder w j a wcfg.jobStreamConsumer) :
    ∃ s', HealthyRun wcfg rcfg ⟨w, ts⟩ s' ∧ Touches j w s'.world ∧ Finalized s'.world j := by
  obtain ⟨n, w₁, res, hwait, hsame₁, hcell⟩ := execution_waits wcfg msg task j tr a w
  obtain ⟨w₂, hbeat, hsame₂, hcell₂⟩ := heartbeat_ends (j := j) (a := a) hcell wcfg.jobStreamConsumer
    wcfg.jobLeaseSec 0
  obtain ⟨w₃, p', hend, ht, hdone⟩ := execution_ends ((h.same hsame₁).same hsame₂) msg task tr res
  have hlt : i < ts.length := (List.getElem?_eq_some_iff.mp hi).1
  let waits : Program Unit :=
    .call (.act (.recvHeartbeat n)) (afterHeartbeat wcfg msg task j tr a res) >>= f
  let beats := runLeaseHeartbeat n j a wcfg.jobStreamConsumer wcfg.jobLeaseSec 0
  have hrecv : RunsAlone w₂ waits w₃ (p' >>= f) [] := by
    refine runsAlone_act w₂ ({} : HeartbeatResult) ?_ rfl (hend.bind f)
    simp only [CellAt] at hcell₂
    simp only [actLocally, hcell₂]
  -- the execution up to its receive, its heartbeat, and the execution again
  have hrun₁ : HealthyRun wcfg rcfg ⟨w, ts⟩ ⟨w₁, ts.set i waits ++ [beats]⟩ :=
      healthyRun_alone hi (hwait.bind f)
  have hlast : (ts.set i waits ++ [beats])[ts.length]? = some beats := by simp
  have hrun₂ : HealthyRun wcfg rcfg _ _ := healthyRun_alone hlast hbeat
  have hback : ((ts.set i waits ++ [beats]).set ts.length (.ret ()) ++ [])[i]? = some waits := by
    rw [List.append_nil, List.getElem?_set_ne (Nat.ne_of_gt hlt),
      List.getElem?_append_left (by simpa using hlt),
      List.getElem?_set_self hlt]
  have hrun₃ : HealthyRun wcfg rcfg _ _ := healthyRun_alone hback hrecv
  exact ⟨_, (hrun₁.trans hrun₂).trans hrun₃, ((hsame₁.trans hsame₂).touches j).trans ht, hdone⟩

/-- A thread that has loaded its task and starts an attempt on the row brings the job to an end. -/
theorem attempt_finishes (rcfg : RepairConfig) {w w₁ : World} {ts : List (Program Unit)} {i v : Nat}
    {msg : StreamMessage} {op : RowOp} {r r' : Submission} {task : TaskRequest} {tr : String}
    {g : Loaded → Program StreamProcessResult}
    (hi : ts[i]? = some (handler (loadTask msg >>= g)))
    (hload : RunsAlone w (loadTask msg) w₁ (.ret (.ok (j, task, tr))) []) (hsame : Still w w₁)
    (hr : w.submissions j = some r) (ho : op.starts = some wcfg.jobStreamConsumer)
    (hx : op.exec w.dbNow r = some (r', v))
    (hg : ∃ k, g (.ok (j, task, tr)) = (request (.update j op (some msg.id)) >>= k) ∧
      k (.ok (some v)) = runClaimedExecution wcfg msg task j tr v) :
    ∃ s', HealthyRun wcfg rcfg ⟨w, ts⟩ s' ∧ Touches j w s'.world ∧ Finalized s'.world j := by
  have hlt : i < ts.length := (List.getElem?_eq_some_iff.mp hi).1
  obtain ⟨k, hk, hrun⟩ := hg
  let w₂ := (w₁.setRow j r').recordUpdate j op (some msg.id) v
  have hx₁ : op.exec w₁.dbNow r = some (r', v) := by rw [hsame.dbNow]; exact hx
  have hstart : RunsAlone w₁ (g (.ok (j, task, tr))) w₂ (runClaimedExecution wcfg msg task j tr v) [] := by
    rw [hk, ← hrun]
    exact .call (c := Fate.ok {}) trivial rfl (perform_update (hsame.row hr) hx₁) (.refl _ _)
  have hrun₁ : HealthyRun wcfg rcfg _ _ := healthyRun_alone hi ((hload.andThen hstart).bind _)
  have hnext := List.getElem?_set_self (a := runClaimedExecution wcfg msg task j tr v >>= fun _ => pure ()) hlt
  obtain ⟨s', hrun₂, ht, hdone⟩ := execution_finishes rcfg hnext (runsUnder_started ho hx₁)
  refine ⟨s', hrun₁.trans ?_, (hsame.touches j).trans ((touches_update w₁ j op _ r' v).trans ht), hdone⟩
  simpa using hrun₂

/-- The handler of a new entry ends a job that waits, if its payload is there. -/
theorem message_finishes (rcfg : RepairConfig) {w : World} {ts : List (Program Unit)}
    {i : Nat} {msg : StreamMessage}
    {r : Submission}
    (hi : ts[i]? = some (handler (handleMessage wcfg msg))) (hmsg : FreshMessage w msg j)
    (hr : w.submissions j = some r) (hp : r.state = "pending") :
    ∃ s', HealthyRun wcfg rcfg ⟨w, ts⟩ s' ∧ Touches j w s'.world ∧ Finalized s'.world j := by
  obtain ⟨w₁, task, tr, hload, hsame⟩ := loadTask_fresh hmsg
  have hx : (RowOp.claim wcfg.jobStreamConsumer wcfg.jobLeaseSec).exec w.dbNow r = some (_, _) :=
    claimSubmissionForRun_eq_some.mpr ⟨hp, rfl, rfl⟩
  exact attempt_finishes rcfg hi hload hsame hr rfl hx ⟨_, rfl, rfl⟩

/-- The handler of a reclaimed entry ends a job whose lease is over. -/
theorem reclaimed_finishes (rcfg : RepairConfig) {w : World} {ts : List (Program Unit)}
    {i : Nat} {msg : StreamMessage}
    {r : Submission}
    (hi : ts[i]? = some (handler (handleReclaimedMessage wcfg msg)))
    (hmsg : requiredStreamField msg.values.jobID = some j) (hr : w.submissions j = some r)
    (hrun : r.status = "running" ∧ r.state = "processing" ∧ leaseBefore r w.dbNow = true) :
    ∃ s', HealthyRun wcfg rcfg ⟨w, ts⟩ s' ∧ Touches j w s'.world ∧
      (RowDone s'.world j ∨ Finalized s'.world j) := by
  have hx : (RowOp.reclaim wcfg.jobStreamConsumer wcfg.jobLeaseSec).exec w.dbNow r = some (_, _) :=
    reclaimSubmissionForRun_eq_some.mpr ⟨hrun, rfl, rfl⟩
  obtain ⟨w₁, p', hload, ht, hdone | ⟨task, tr, rfl, hsame⟩⟩ := loads_loadTask hmsg hr (not_done_of_exec hx)
  · exact ⟨_, healthyRun_alone hi ((hload.bind _).bind _), ht, .inl hdone⟩
  · obtain ⟨s', h, ht, hdone⟩ := attempt_finishes rcfg hi hload hsame hr rfl hx ⟨_, rfl, rfl⟩
    exact ⟨s', h, ht, .inr hdone⟩

/-! ## Delivering the entries before one -/

theorem still_give (w : World) (i : Nat) (o : String) : Still w (w.give i o) :=
  ⟨⟨rfl, rfl, fun _ h => h.give i o⟩, rfl⟩

/-- An entry that has been given to a consumer is not new. -/
theorem give_delivery {w : World} {i : Nat} {o : String} {e : StreamEntry}
    (h : (w.give i o).stream[i]? = some e) :
    e.delivery ≠ .fresh := by
  simp only [World.give, World.setDelivery, List.getElem?_modify] at h
  obtain ⟨e₀, _, rfl⟩ := Option.map_eq_some_iff.mp h
  simp

/-- The worker is given the first `n` entries; the others stay as they are. -/
theorem deliver_before (wcfg : WorkerConfig) (rcfg : RepairConfig) (s : State) (n : Nat) :
    ∃ s', HealthyRun wcfg rcfg s s' ∧ Still s.world s'.world ∧ s'.world.redis = s.world.redis ∧
      (∀ (k : Nat) (e : StreamEntry), k < n → s'.world.stream[k]? = some e → e.delivery ≠ .fresh) ∧
      ∀ k ≥ n, s'.world.stream[k]? = s.world.stream[k]? := by
  induction n with
  | zero => exact ⟨s, .init, .refl _, rfl, by simp, fun _ _ => rfl⟩
  | succ n ih =>
    obtain ⟨s₁, hrun, hstill, hredis, hbefore, hrest⟩ := ih
    by_cases hfresh : ∃ v, s₁.world.stream[n]? = some ⟨v, .fresh⟩
    · obtain ⟨v, he⟩ := hfresh
      have hgiven : repairEnvStep s₁.world (.base (.deliver wcfg n)) =
          some (s₁.world.give n wcfg.jobStreamConsumer, [handler (handleMessage wcfg ⟨n, v⟩)]) := by
        simp only [repairEnvStep, envStep, he]
      refine ⟨_, hrun.env (v := .base (.deliver wcfg n)) ⟨rfl, fun k hk e => hbefore k e hk⟩ hgiven,
        hstill.trans (still_give _ _ _), hredis,
        fun k e hk he' => ?_, fun k hk => ?_⟩
      · obtain hk | rfl : k < n ∨ k = n := by omega
        · exact hbefore k e hk ((World.give_getElem? _ _ _ (Nat.ne_of_lt hk)).symm.trans he')
        · exact give_delivery he'
      · exact (World.give_getElem? _ _ _ (by omega)).trans (hrest k (by omega))
    · refine ⟨s₁, hrun, hstill, hredis, fun k e hk he => ?_, fun k hk => hrest k (by omega)⟩
      obtain hk | rfl : k < n ∨ k = n := by omega
      · exact hbefore k e hk he
      · intro hd
        exact hfresh ⟨e.values, by rw [he, ← hd]⟩

/-! ## Bringing one job to its end -/

/-- A job that runs, with an entry that is not acknowledged, is taken over once its lease is over. -/
theorem held_finishes (wcfg : WorkerConfig) (rcfg : RepairConfig) {s : State} {r : Submission}
    (hr : s.world.submissions j = some r) (hstatus : r.status = "running") (hstate : r.state = "processing")
    {t : Nat} (hlease : r.leaseUntil = some t) (hheld : Held s.world j) :
    ∃ s', HealthyRun wcfg rcfg s s' ∧ Touches j s.world s'.world ∧
      (RowDone s'.world j ∨ Finalized s'.world j) := by
  obtain ⟨s₁, hrun₁, hstill₁, _, hbefore, hrest⟩ := deliver_before wcfg rcfg s s.world.stream.length
  obtain ⟨i, ⟨values, delivery⟩, he, hmsg, ha⟩ := hstill₁.held j hheld
  cases delivery with
  | fresh =>
    obtain hlt | hge := Nat.lt_or_ge i s.world.stream.length
    · exact absurd rfl (hbefore i _ hlt he)
    · rw [hrest i hge, List.getElem?_eq_none hge] at he
      cases he
  | acked => exact absurd rfl ha
  | pending c d =>
    -- both clocks go on until the lease and the idle time are over
    let w₂ : World := { s₁.world with dbNow := s₁.world.dbNow + (t + 1) }
    let w₃ : World := { w₂ with redisNow := s₁.world.redisNow + (d + minIdle wcfg) }
    let w₄ := w₃.give i wcfg.jobStreamConsumer
    have hdb : HealthyRun wcfg rcfg s ⟨w₂, s₁.threads ++ []⟩ :=
      hrun₁.env (v := .base (.dbTick (t + 1))) trivial rfl
    have hredis : HealthyRun wcfg rcfg s ⟨w₃, s₁.threads ++ [] ++ []⟩ :=
      hdb.env (v := .base (.redisTick (d + minIdle wcfg))) trivial rfl
    have hclaim : repairEnvStep w₃ (.base (.autoclaim wcfg i)) =
        some (w₄, [handler (handleReclaimedMessage wcfg ⟨i, values⟩)]) := by
      have he₃ : w₃.stream[i]? = some ⟨values, .pending c d⟩ := he
      have hidle : d + minIdle wcfg ≤ w₃.redisNow := Nat.le_add_left _ _
      simp only [repairEnvStep, envStep, he₃, if_pos hidle, w₄]
    have hrun₂ := hredis.env (v := .base (.autoclaim wcfg i)) rfl hclaim
    have hr₄ : w₄.submissions j = some r := hstill₁.row hr
    have hover : leaseBefore r w₄.dbNow = true := by
      have hlt : t < s₁.world.dbNow + (t + 1) := by omega
      simp only [leaseBefore, hlease]
      exact decide_eq_true hlt
    have hlast :
        (s₁.threads ++ [] ++ [] ++
          [handler (handleReclaimedMessage wcfg ⟨i, values⟩)])[s₁.threads.length]? =
        some (handler (handleReclaimedMessage wcfg ⟨i, values⟩)) := by simp
    obtain ⟨s', hrun₃, ht, hdone⟩ := reclaimed_finishes rcfg hlast hmsg hr₄ ⟨hstatus, hstate, hover⟩
    have hsame : SameRows s.world w₄ :=
      hstill₁.toSameRows.trans ⟨rfl, rfl, fun j' h => (show Held w₃ j' from h.same rfl).give i _⟩
    exact ⟨s', hrun₂.trans hrun₃, (hsame.touches j).trans ht, hdone⟩

/-- The entry that `enqueueRepairedJob` appends. -/
def repairedEntry (j : String) (now : Nat) : StreamEntry :=
  ⟨{ jobID := some j, enqueueTS := some now, payloadRef := some (payloadKey j), priority := some 0,
     eventID := none },
    .fresh⟩

/-- A repair cycle appends an entry for its first candidate. -/
theorem repair_appends (w : World) (c : RepairCandidate) (rest : List RepairCandidate) :
    ∃ w' p', RunsAlone w (runRepairCycle (c :: rest) []) w' p' [] ∧ Still w w' ∧
      w'.stream = w.stream ++ [repairedEntry c.jobID 0] ∧
      w'.redis (payloadKey c.jobID) = some (buildPayloadEnvelope (repairedTask c)) := by
  let w₁ := w.setKey (payloadKey c.jobID) (some (buildPayloadEnvelope (repairedTask c)))
  let w₂ : World := { w₁ with stream := w₁.stream ++ [repairedEntry c.jobID 0] }
  have hstill₁ : Still w w₁ := .of_eq rfl rfl rfl rfl
  have hstill₂ : Still w₁ w₂ := ⟨⟨rfl, rfl, fun _ h => h.append _ rfl⟩, rfl⟩
  refine ⟨w₂, runRepairCycle rest [c.jobID], ?_, hstill₁.trans hstill₂, rfl, w.setKey_self _ _⟩
  rw [runRepairCycle, if_neg List.not_mem_nil]
  exact runsAlone_request w₁ (.ok ()) rfl (runsAlone_act w₁ (0 : Nat) rfl rfl
    (runsAlone_request w₂ (.ok w₁.stream.length) rfl (.refl _ _)))

/-- Late enough, a query returns some row that waits. -/
theorem exists_candidate {rows : List Submission} {r : Submission} (hr : r ∈ rows) (hp : r.state = "pending")
    (minAgeSec limit : Int) :
    ∃ now r₀ rest, r₀ ∈ rows ∧ r₀.state = "pending" ∧
      fetchRepairCandidates now minAgeSec limit rows = repairCandidate r₀ :: rest := by
  let now := r.createdAt + (minAgeSec * 1000000).toNat + 1
  have hdue : Due now minAgeSec r := ⟨hp, by simp only [now]; omega⟩
  have hne : fetchRepairCandidates now minAgeSec limit rows ≠ [] := by
    have hlimit : 0 < (if limit ≤ 0 then defaultRepairBatchSize else limit).toNat := by
      unfold defaultRepairBatchSize
      split <;> omega
    have hmem : r ∈ rows.filter (Due now minAgeSec) := List.mem_filter.mpr ⟨hr, decide_eq_true hdue⟩
    have hlen := List.length_pos_of_mem hmem
    apply List.ne_nil_of_length_pos
    simp only [fetchRepairCandidates, List.length_map, List.length_take, List.length_insertionSort]
    omega
  obtain ⟨c, rest, hc⟩ := List.exists_cons_of_ne_nil hne
  obtain ⟨r₀, hin, hdue₀, rfl⟩ := mem_fetchRepairCandidates (hc ▸ List.mem_cons_self)
  exact ⟨now, r₀, rest, hin, hdue₀.1, hc⟩

/-- Where some row waits, the scheduler enqueues such a row. -/
theorem waiting_enqueued (wcfg : WorkerConfig) (rcfg : RepairConfig) {s : State} (hf : Faithful s.world)
    {r : Submission} (hr : s.world.submissions j = some r) (hp : r.state = "pending") :
    ∃ j₀ r₀ s', s.world.submissions j₀ = some r₀ ∧ r₀.state = "pending" ∧ UUIDText j₀ ∧
      HealthyRun wcfg rcfg s s' ∧ Still s.world s'.world ∧
      s'.world.stream = s.world.stream ++ [repairedEntry j₀ 0] ∧
      ∃ task, s'.world.redis (payloadKey j₀) = some (buildPayloadEnvelope task) ∧ task.jobID = j₀ := by
  let rows := s.world.jobs.filterMap s.world.submissions
  have hrow : r ∈ rows := List.mem_filterMap.mpr ⟨j, (hf.rows j r hr).2, hr⟩
  obtain ⟨now, r₀, rest, hin, hp₀, hfetch⟩ := exists_candidate hrow hp rcfg.repairMinAgeSec rcfg.repairBatchSize
  obtain ⟨j₀, _, hr₀⟩ := List.mem_filterMap.mp hin
  obtain ⟨rfl, huuid, _⟩ := (hf.rows j₀ r₀ hr₀).1
  let cycle := runRepairCycle (repairCandidate r₀ :: rest) []
  have htick : repairEnvStep s.world (.repair rcfg now) = some (s.world, [cycle]) := by
    simp only [repairEnvStep]
    rw [hfetch]
  have hrun₁ : HealthyRun wcfg rcfg s _ := HealthyRun.env .init (v := .repair rcfg now) rfl htick
  obtain ⟨w₁, p', hrepair, hstill, hstream, hpayload⟩ := repair_appends s.world (repairCandidate r₀) rest
  have hlast : (s.threads ++ [cycle])[s.threads.length]? = some cycle := by simp
  exact ⟨_, r₀, _, hr₀, hp₀, huuid, hrun₁.trans (healthyRun_alone hlast hrepair), hstill, hstream,
    _, hpayload, rfl⟩

/-- A worker that gets to the entry ends its job. -/
theorem waiting_finishes (wcfg : WorkerConfig) (rcfg : RepairConfig) {s : State} (hf : Faithful s.world)
    {r : Submission} (hr : s.world.submissions j = some r) (hp : r.state = "pending") :
    ∃ j₀ r₀ s', s.world.submissions j₀ = some r₀ ∧ r₀.state = "pending" ∧
      HealthyRun wcfg rcfg s s' ∧ Touches j₀ s.world s'.world ∧ Finalized s'.world j₀ := by
  obtain ⟨j₀, r₀, s₁, hr₀, hp₀, huuid, hrun₁, hstill₁, hstream, hpayload⟩ := waiting_enqueued wcfg rcfg hf hr hp
  obtain ⟨s₂, hrun₂, hstill₂, hredis, hbefore, hrest⟩ := deliver_before wcfg rcfg s₁ s.world.stream.length
  let n := s.world.stream.length
  let msg : StreamMessage := ⟨n, (repairedEntry j₀ 0).values⟩
  have he : s₂.world.stream[n]? = some (repairedEntry j₀ 0) := by
    rw [hrest n le_rfl, hstream]
    exact List.getElem?_concat_length
  have hgiven : repairEnvStep s₂.world (.base (.deliver wcfg n)) =
      some (s₂.world.give n wcfg.jobStreamConsumer, [handler (handleMessage wcfg msg)]) := by
    simp only [repairEnvStep, envStep, he]
    rfl
  have hrun₃ := (hrun₁.trans hrun₂).env (v := .base (.deliver wcfg n))
      ⟨rfl, fun k hk e => hbefore k e hk⟩ hgiven
  have hlast : (s₂.threads ++ [handler (handleMessage wcfg msg)])[s₂.threads.length]? =
      some (handler (handleMessage wcfg msg)) := by simp
  have hsame : Still s.world (s₂.world.give n wcfg.jobStreamConsumer) :=
    hstill₁.trans (hstill₂.trans (still_give _ _ _))
  have hjob : requiredStreamField (some j₀) = some j₀ := by
    simp only [requiredStreamField, huuid.2, if_neg huuid.1]
  have hmsg : FreshMessage (s₂.world.give n wcfg.jobStreamConsumer) msg j₀ := by
    obtain ⟨task, htask, hj⟩ := hpayload
    refine ⟨?_, hjob, rfl, task, (congrFun hredis _).trans htask, hj⟩
    simp [missingFields, msg, repairedEntry, hjob]
  obtain ⟨s', hrun₄, ht, hdone⟩ := message_finishes rcfg hlast hmsg (hsame.row hr₀) hp₀
  exact ⟨j₀, r₀, s', hr₀, hp₀, hrun₃.trans hrun₄, (hsame.touches j₀).trans ht, hdone⟩

/-! ## Bringing all jobs to their end -/

/-- Such a run goes on from any reachable state. -/
theorem HealthyRun.reach (h : HealthyRun wcfg rcfg s s') (h₀ : repairSystem.Reach Machine.anyMove start s) :
    repairSystem.Reach Machine.anyMove start s' := by
  induction h with
  | init => exact h₀
  | step m _ _ hstep ih => exact .step m ih trivial hstep

theorem HealthyRun.grows (h : HealthyRun wcfg rcfg s s') : Grows s.world s'.world := by
  have hany : repairSystem.Reach Machine.anyMove s s' := by
    induction h with
    | init => exact .init
    | step m _ _ hstep ih => exact .step m ih trivial hstep
  exact (keepsTasks_reach hany).grows

theorem faithful_reach (h : repairSystem.Reach Machine.anyMove start s) : Faithful s.world :=
  (sound_integrity.reach good_integrity h).inv

/-- The submission waits, or it runs and some entry for it is not acknowledged. -/
def Recoverable (w : World) (j : String) : Prop :=
  ∃ r, w.submissions j = some r ∧ (r.state = "pending" ∨ r.state = "processing" ∧ Held w j)

/-- The row records the verdict of an attempt that judged the job. -/
def HasVerdict (w : World) (j : String) : Prop := ∃ a st m, Judged w j a ∧ Recorded w j a st m

theorem Finalized.hasVerdict {w : World} (h : Finalized w j) (hf : Faithful w) : HasVerdict w j := by
  obtain ⟨a, st, m, h⟩ := h
  exact ⟨a, st, m, hf.finalized j a st m h⟩

theorem HasVerdict.rowDone {w : World} (h : HasVerdict w j) : RowDone w j := by
  obtain ⟨a, st, m, _, r, hr, hd, _⟩ := h
  exact ⟨r, hr, hd⟩

theorem Finalized.grows {w w' : World} (h : Finalized w j) (g : Grows w w') : Finalized w' j := by
  obtain ⟨a, st, m, h⟩ := h
  exact ⟨a, st, m, g.mem h⟩

/-- One job is brought to its end, by a verdict if it waited. -/
theorem recovers_one (wcfg : WorkerConfig) (rcfg : RepairConfig)
    (h₀ : repairSystem.Reach Machine.anyMove start s) (h : Recoverable s.world j) :
    ∃ j₀ s', Recoverable s.world j₀ ∧ HealthyRun wcfg rcfg s s' ∧ Touches j₀ s.world s'.world ∧
      RowDone s'.world j₀ ∧
      ∀ r, s.world.submissions j₀ = some r → r.state = "pending" → Finalized s'.world j₀ := by
  have hf := faithful_reach h₀
  obtain ⟨r, hr, hp | ⟨hp, hheld⟩⟩ := h
  · obtain ⟨j₀, r₀, s', hr₀, hp₀, hrun, ht, hfin⟩ := waiting_finishes wcfg rcfg hf hr hp
    have hdone := (hfin.hasVerdict (faithful_reach (hrun.reach h₀))).rowDone
    exact ⟨j₀, s', ⟨r₀, hr₀, .inl hp₀⟩, hrun, ht, hdone, fun _ _ _ => hfin⟩
  · obtain hw | ⟨_, hstatus, t, hlease⟩ | hd := (hf.rows j r hr).1.state
    · simp [hp] at hw
    · obtain ⟨s', hrun, ht, hend⟩ := held_finishes wcfg rcfg hr hstatus hp hlease hheld
      have hdone : RowDone s'.world j :=
        hend.elim id fun hfin => (hfin.hasVerdict (faithful_reach (hrun.reach h₀))).rowDone
      refine ⟨j, s', ⟨r, hr, .inr ⟨hp, hheld⟩⟩, hrun, ht, hdone, fun r' hr' hw => ?_⟩
      rw [hr] at hr'
      cases hr'
      simp [hp] at hw
    · simp [hp] at hd

open Classical in
/-- The jobs that are not done. -/
noncomputable def unfinished (w : World) : Finset String := w.jobs.toFinset.filter fun j => ¬ RowDone w j

/-- Ending a job leaves fewer. -/
theorem unfinished_lt {w w' : World} {j : String} (hj : j ∈ w.jobs) (hn : ¬ RowDone w j) (ht : Touches j w w')
    (hd : RowDone w' j) : (unfinished w').card < (unfinished w).card := by
  classical
  apply Finset.card_lt_card
  refine ⟨fun j' h => ?_, fun hsub => ?_⟩
  · simp only [unfinished, Finset.mem_filter, List.mem_toFinset, ht.jobs] at h ⊢
    refine ⟨h.1, fun hdone => h.2 ?_⟩
    have hne : j' ≠ j := fun he => h.2 (he ▸ hd)
    obtain ⟨r, hr, hstate⟩ := hdone
    exact ⟨r, (ht.rows j' hne).trans hr, hstate⟩
  · have hmem : j ∈ unfinished w := by
      simp only [unfinished, Finset.mem_filter, List.mem_toFinset]
      exact ⟨hj, hn⟩
    have hmem' := hsub hmem
    simp only [unfinished, Finset.mem_filter] at hmem'
    exact hmem'.2 hd

theorem Recoverable.not_done {w : World} (h : Recoverable w j) : ¬ RowDone w j := by
  rintro ⟨r', hr', hd⟩
  obtain ⟨r, hr, hstate⟩ := h
  rw [hr] at hr'
  cases hr'
  obtain hp | ⟨hp, _⟩ := hstate <;> simp [hp] at hd

theorem Recoverable.touches {w w' : World} {j j₀ : String} (h : Recoverable w j) (hne : j ≠ j₀)
    (ht : Touches j₀ w w') : Recoverable w' j := by
  obtain ⟨r, hr, hstate⟩ := h
  exact ⟨r, (ht.rows j hne).trans hr, hstate.imp_right fun ⟨hp, hheld⟩ => ⟨hp, ht.held j hheld⟩⟩

/-- All of them are, one after the other. -/
theorem recovers_all (wcfg : WorkerConfig) (rcfg : RepairConfig) (n : Nat) :
    ∀ s : State, (unfinished s.world).card = n → repairSystem.Reach Machine.anyMove start s →
      ∃ s', HealthyRun wcfg rcfg s s' ∧ ∀ j, Recoverable s.world j → RowDone s'.world j ∧
        ∀ r, s.world.submissions j = some r → r.state = "pending" → Finalized s'.world j := by
  induction n using Nat.strong_induction_on with
  | _ n ih =>
    intro s hn h₀
    by_cases hopen : ∃ j, Recoverable s.world j
    · obtain ⟨j, hj⟩ := hopen
      obtain ⟨j₀, s₁, hj₀, hrun₁, ht, hdone, hfin⟩ := recovers_one wcfg rcfg h₀ hj
      have hopen₀ : ¬ RowDone s.world j₀ := hj₀.not_done
      obtain ⟨r₀, hr₀, _⟩ := hj₀
      have hlt := unfinished_lt ((faithful_reach h₀).rows j₀ r₀ hr₀).2 hopen₀ ht hdone
      obtain ⟨s', hrun₂, hall⟩ := ih _ (hn ▸ hlt) s₁ rfl (hrun₁.reach h₀)
      refine ⟨s', hrun₁.trans hrun₂, fun j hj => ?_⟩
      by_cases hne : j = j₀
      · subst hne
        exact ⟨stable_rowDone j _ _ hrun₂.grows hdone, fun r hr hp => (hfin r hr hp).grows hrun₂.grows⟩
      · obtain ⟨hd, hv⟩ := hall j (hj.touches hne ht)
        exact ⟨hd, fun r hr hp => hv r ((ht.rows j hne).trans hr) hp⟩
    · exact ⟨s, .init, fun j hj => absurd ⟨j, hj⟩ hopen⟩

end Runs

/-- From every state the services can reach, whatever has failed so far, one worker and one
scheduler can end all submissions at once without any further failure: those that wait get
their verdict, and those that run, with an entry that is not acknowledged, are done. -/
theorem recoverable_without_loss (wcfg : WorkerConfig) (rcfg : RepairConfig) {s : State}
    (h : repairSystem.Reach Machine.anyMove start s) :
    ∃ s', HealthyRun wcfg rcfg s s' ∧
      (∀ j r, s.world.submissions j = some r → r.state = "pending" → HasVerdict s'.world j) ∧
      ∀ j r, s.world.submissions j = some r → r.state = "processing" → Held s.world j → RowDone s'.world j := by
  obtain ⟨s', hrun, hall⟩ := recovers_all wcfg rcfg _ s rfl h
  refine ⟨s', hrun, fun j r hr hp => ?_, fun j r hr hp hheld => ?_⟩
  · exact ((hall j ⟨r, hr, .inl hp⟩).2 r hr hp).hasVerdict (faithful_reach (hrun.reach h))
  · exact (hall j ⟨r, hr, .inr ⟨hp, hheld⟩⟩).1

/-- The worker that has claimed `job-1` dies, and the payload is lost. -/
def stranded : List Step :=
  submitted ++ [.env (.deliver (worker "w1") 0), .call 2 (.ok { uuid := "t1" })] ++ calls 2 2 ++
    [.crash 2, .env (.expire (payloadKey "job-1"))]

/-- A job nobody has enqueued gets its verdict, and the job of the dead worker is done. -/
theorem recoverable_without_loss_stranded :
    let rcfg : RepairConfig := ⟨⟨100000, 100000⟩, 200, 60⟩
    let s₁ := repairSystem.play Machine.anyMove start (submission.map served)
    let s₂ := repairSystem.play Machine.anyMove start (stranded.map served)
    (∃ s', HealthyRun (worker "w2") rcfg s₁ s' ∧ HasVerdict s'.world "job-1") ∧
      ∃ s', HealthyRun (worker "w2") rcfg s₂ s' ∧ RowDone s'.world "job-1" := by
  intro rcfg s₁ s₂
  have h₁ : repairSystem.Reach Machine.anyMove start s₁ := repairSystem.reach_play Machine.anyMove .init _
  have h₂ : repairSystem.Reach Machine.anyMove start s₂ := repairSystem.reach_play Machine.anyMove .init _
  obtain ⟨r₁, hr₁, hp₁⟩ := Option.map_eq_some_iff.mp
    (show (s₁.world.submissions "job-1").map (·.state) = some "pending" by decide +kernel)
  obtain ⟨r₂, hr₂, hp₂⟩ := Option.map_eq_some_iff.mp
    (show (s₂.world.submissions "job-1").map (·.state) = some "processing" by decide +kernel)
  obtain ⟨e, he, hj, ha⟩ : ∃ e, s₂.world.stream[0]? = some e ∧
      requiredStreamField e.values.jobID = some "job-1" ∧ e.delivery ≠ .acked := by
    have hsome : (s₂.world.stream[0]?).isSome = true := by decide +kernel
    obtain ⟨e, he⟩ := Option.isSome_iff_exists.mp hsome
    have hfields : (s₂.world.stream[0]?).map (fun e => (requiredStreamField e.values.jobID, e.delivery)) =
        some (some "job-1", .pending "w1" 0) := by decide +kernel
    rw [he] at hfields
    obtain ⟨hj, hd⟩ := Prod.mk.inj (Option.some.inj hfields)
    exact ⟨e, he, hj, by rw [hd]; simp⟩
  obtain ⟨s', hrun, hwait, _⟩ := recoverable_without_loss (worker "w2") rcfg h₁
  obtain ⟨s'', hrun', _, hheld⟩ := recoverable_without_loss (worker "w2") rcfg h₂
  exact ⟨⟨s', hrun, hwait _ r₁ hr₁ hp₁⟩, s'', hrun', hheld _ r₂ hr₂ hp₂ ⟨0, e, he, hj, ha⟩⟩

end DeepOj.Cluster
