import DeepOj.Cluster.System
import DeepOj.Scheduler.RepairCycle

/-!
# The system with its repair loop

Schedulers run next to the services: a repair cycle reads the old pending rows and
enqueues them once more, whoever else is enqueueing or judging them at the time.
-/

namespace DeepOj.Cluster

open Repository Worker Api Scheduler Scheduler.RepairCycle

/-- The task a worker decodes from the message that `enqueueRepairedJob` stores. -/
def repairedTask (c : RepairCandidate) : TaskRequest where
  jobID := c.jobID
  code := c.code
  language := (Int32.ofInt c.language).toInt
  timeLimit := (Int32.ofInt c.timeLimit).toInt
  memoryLimit := (Int32.ofInt c.memoryLimit).toInt
  cacheKey := ""
  submitTime := c.createdAt / 1000
  problemID := (UInt32.ofInt c.problemID).toNat
  traceID := "repair-" ++ c.jobID

/-- It is the message that the scheduler marshals. -/
theorem taskMessage_repairedTask (c : RepairCandidate) : taskMessage (repairedTask c) = repairTask c := by
  simp only [taskMessage, repairedTask, repairTask, Int32.ofInt_toInt, UInt32.ofNat_toNat]

/-- `enqueueRepairedJob`. A payload whose entry was not appended stays. -/
def enqueueRepairedJob (c : RepairCandidate) : Program Unit := do
  match ← request (.set (payloadKey c.jobID) (buildPayloadEnvelope (repairedTask c))) with
  | .error _ => pure ()
  | .ok _ =>
    let enqueueTS ← act .now
    let _ ← request (.xadd
      { jobID := some c.jobID, enqueueTS := some enqueueTS, payloadRef := some (payloadKey c.jobID)
        priority := some 0, eventID := none })
    pure ()

/-- The loop of `runRepairCycle` over its candidates. -/
def runRepairCycle : List RepairCandidate → List String → Program Unit
  | [], _ => pure ()
  | c :: rest, seen =>
    if c.jobID ∈ seen then runRepairCycle rest seen
    else do
      enqueueRepairedJob c
      runRepairCycle rest (c.jobID :: seen)

/-- A move of the environment, the ticks of the schedulers included. -/
inductive RepairEnv where
  | base (v : Env)
  /-- The ticker of a scheduler, on the clock of its process. -/
  | repair (cfg : RepairConfig) (now : Nat)
  deriving DecidableEq

/-- An environment move. -/
def repairEnvStep (w : World) : RepairEnv → Option (World × List (Program Unit))
  | .base v => envStep w v
  | .repair cfg now =>
    let rows := w.jobs.filterMap w.submissions
    some (w, [runRepairCycle (fetchRepairCandidates now cfg.repairMinAgeSec cfg.repairBatchSize rows) []])

/-- The services and the schedulers as one interleaving machine. -/
def repairSystem : Conc.Machine World Effect Effect.Reply Fate RepairEnv where
  sem := perform
  forks := forks
  env := repairEnvStep

/-! ## Submitting, under any discipline -/

section Submit

open Conc (Discipline)

variable {α β : Type} {D : Discipline World Effect} {cfg : ApiConfig} {caller : Caller}

/-- The program meets the discipline wherever it starts. -/
abbrev Meets (D : Discipline World Effect) (p : Program α) : Prop :=
  repairSystem.Triple D (fun _ => True) p fun _ _ => True

/-- What `HandleSubmit` does apart from storing rows. -/
def Preparatory : Effect → Prop
  | .request (.getProblem _) => True
  | .request .countActive => True
  | .request (.get .api _) => True
  | .request (.setNX k _) => ∀ j, k.name ≠ .payload j
  | .request (.del _) => True
  | .act .uuid => True
  | .act .rateLimit => True
  | .act (.reply _ _) => True
  | _ => False

/-- The discipline always allows it. -/
abbrev AllowsPreparatory (D : Discipline World Effect) : Prop := ∀ e, Preparatory e → ∀ w, D.Allowed e w

theorem meets_step {e : Effect} {f : e.Reply → Program β} (h : ∀ w, D.Allowed e w) (hf : ∀ r, Meets D (f r)) :
    Meets D (Conc.Prog.perform e >>= f) :=
  .call (fun _ _ => True) (fun _ _ _ h => h) (fun w _ _ => h w) (fun _ _ _ _ _ _ _ _ => trivial) hf

/-- A generated id is the text of a UUID. -/
theorem meets_uuid {f : String → Program β} (h : ∀ w, D.Allowed (.act .uuid) w)
    (hf : ∀ j, UUIDText j → Meets D (f j)) :
    Meets D (act .uuid >>= f) := by
  refine .call (fun j _ => UUIDText j) (fun _ _ _ h => h) (fun w _ _ => h w) ?_ fun j =>
    ⟨fun w hu => (hf j hu).wp w trivial⟩
  intro w c w' j _ _ hp _
  obtain ⟨ch, ha⟩ := perform_act hp
  simp only [actLocally] at ha
  split at ha
  · rename_i hu
    cases ha
    exact hu
  · cases ha

theorem meets_reply (h : AllowsPreparatory D) (r : ApiReply) : Meets D (reply caller r) :=
  .of_confined (.perform (h _ trivial))

theorem meets_submitFresh (h : AllowsPreparatory D) (req : SubmitRequest) (fingerprint : String)
    (hpersist : ∀ j, UUIDText j → Meets D (persistSubmission cfg caller req fingerprint j)) :
    Meets D (submitFresh cfg caller req fingerprint) := by
  unfold submitFresh
  refine meets_uuid (h _ trivial) fun j hu => ?_
  -- an inflight key is no payload key
  refine meets_step (h _ fun _ hk => by cases hk) fun r => ?_
  cases r with
  | error err => exact hpersist j hu
  | ok fresh =>
    cases fresh with
    | true => exact hpersist j hu
    | false =>
      refine meets_step (h _ trivial) fun r => ?_
      cases okValue r with
      | none => exact hpersist j hu
      | some v =>
        cases v with
        | text existing =>
          dsimp only
          split
          · exact hpersist j hu
          · exact meets_reply h _
        | envelope p => exact hpersist j hu
        | result m => exact hpersist j hu

theorem meets_submitUncached (h : AllowsPreparatory D) (req : SubmitRequest) (fingerprint : String)
    (hpersist : ∀ j, UUIDText j → Meets D (persistSubmission cfg caller req fingerprint j)) :
    Meets D (submitUncached cfg caller req fingerprint) := by
  have hfresh := meets_submitFresh h req fingerprint hpersist
  unfold submitUncached
  split
  · refine meets_step (h _ trivial) fun r => ?_
    cases r with
    | error err => exact hfresh
    | ok active =>
      dsimp only
      split
      · exact meets_reply h _
      · exact hfresh
  · exact hfresh

/-- The handler meets a discipline if it does where it stores a row. -/
theorem meets_handleSubmit (h : AllowsPreparatory D) (cfg : ApiConfig) (caller : Caller) (body : SubmitRequest)
    (hcached : ∀ req m, Meets D (submitCached caller req m))
    (hpersist : ∀ req fp j, UUIDText j → Meets D (persistSubmission cfg caller req fp j)) :
    Meets D (handleSubmit cfg caller body) := by
  unfold handleSubmit
  refine meets_step (h _ trivial) fun allowed => ?_
  by_cases h₁ : allowed = false
  · rw [if_pos h₁]; exact meets_reply h _
  rw [if_neg h₁]
  by_cases h₂ : body.code = "" ∨ body.language = 0
  · rw [if_pos h₂]; exact meets_reply h _
  rw [if_neg h₂]
  by_cases h₃ : body.code.utf8ByteSize > cfg.submitCodeMaxBytes
  · rw [if_pos h₃]; exact meets_reply h _
  rw [if_neg h₃]
  by_cases h₄ : body.language ≠ 1
  · rw [if_pos h₄]; exact meets_reply h _
  rw [if_neg h₄]
  dsimp only
  have huncached : ∀ fp, Meets D (submitUncached cfg caller (normalizeRequest cfg body) fp) :=
    fun fp => meets_submitUncached h _ fp (hpersist _ fp)
  have hhash : Meets D (testcaseHashOf (normalizeRequest cfg body).problemID) := by
    unfold testcaseHashOf
    split
    · refine meets_step (h _ trivial) fun r => ?_
      cases r <;> exact .ret fun _ _ => trivial
    · exact .ret fun _ _ => trivial
  refine .bind hhash fun hash => ?_
  cases hash with
  | none => exact meets_reply h _
  | some hash =>
    refine meets_step (h _ trivial) fun r => ?_
    cases okValue r with
    | none => exact huncached _
    | some cached =>
      dsimp only
      split
      · exact huncached _
      · cases cached.asMap with
        | some m => exact hcached _ m
        | none => exact meets_step (h _ trivial) fun _ => huncached _

end Submit

end DeepOj.Cluster
