import DeepOj.Cluster.TaskContract

/-!
# Every program hands tasks on unchanged

One triple for each program that touches a task, and from these what is judged in any
run: the submission the row records, and nothing else.
-/

namespace DeepOj.Cluster

open Repository Worker Api Go Conc
open Scheduler (RepairCandidate repairCandidate SameSubmission)
open Scheduler.RepairCycle (RepairConfig fetchRepairCandidates mem_fetchRepairCandidates)

variable {α β : Type}

/-! ## Rules -/

/-- From a world satisfying `P` the program keeps the contract and ends with `Q`. -/
abbrev HandsOn (P : World → Prop) (p : Program α) (Q : α → World → Prop) : Prop :=
  repairSystem.Triple integrity P p Q

/-- The fact survives every step. -/
def Kept (P : World → Prop) : Prop := ∀ w w', KeepsTasks w w' → P w → P w'

theorem kept_true : Kept fun _ => True := fun _ _ _ _ => trivial

theorem kept_taskOf (j : String) (task : TaskRequest) : Kept fun w => TaskOf w j task :=
  fun _ _ g h => h.keeps g

theorem kept_judged (j : String) (a : Nat) : Kept fun w => Judged w j a := fun _ _ g h => h.keeps g

/-- An effect that may be performed in any world. -/
def Effect.Neutral (e : Effect) : Prop := ∀ w, Honest e w

theorem handsOn_neutral {P : World → Prop} {p : Program α} (h : p.Confined Effect.Neutral) :
    HandsOn P p anyOutcome :=
  Machine.Triple.of_confined h

theorem handsOn_bind {P : World → Prop} {p : Program α} {Q : α → World → Prop} {f : α → Program β}
    {Q' : β → World → Prop} (hp : HandsOn P p Q) (hf : ∀ a, HandsOn (Q a) (f a) Q') :
    HandsOn P (p >>= f) Q' :=
  Machine.Triple.bind hp hf

theorem handsOn_weaken {P P' : World → Prop} {p : Program α} {Q Q' : α → World → Prop}
    (h : HandsOn P p Q) (hP : ∀ w, P' w → P w) (hQ : ∀ a w, Q a w → Q' a w) : HandsOn P' p Q' :=
  Machine.Triple.conseq h hP hQ

theorem handsOn_pure {P : World → Prop} {a : α} {Q : α → World → Prop} (h : ∀ w, P w → Q a w) :
    HandsOn P (pure a) Q :=
  Machine.Triple.ret h

theorem handsOn_frame {P F : World → Prop} {p : Program α} {Q : α → World → Prop} (hF : Kept F)
    (h : HandsOn P p Q) : HandsOn (fun w => P w ∧ F w) p fun a w => Q a w ∧ F w :=
  Machine.Triple.frame (fun _ w w' g => hF w w' g) (fun w _ _ w' _ hp => hF w w' (keepsTasks_perform hp)) h

/-- A neutral program keeps what every step keeps. -/
theorem handsOn_keeping {F : World → Prop} {p : Program α} (hF : Kept F)
    (h : p.Confined Effect.Neutral) : HandsOn F p fun _ w => F w :=
  handsOn_weaken (handsOn_frame hF (handsOn_neutral (P := fun _ => True) h)) (fun _ hw => ⟨trivial, hw⟩)
    fun _ _ hw => hw.2

/-- Splitting on a fact that does not depend on the world. -/
theorem handsOn_of_imp {P : World → Prop} {p : Program α} {Q : α → World → Prop} {φ : Prop}
    (hφ : ∀ w, P w → φ) (h : φ → HandsOn P p Q) : HandsOn P p Q :=
  ⟨fun w hw => (h (hφ w hw)).wp w hw⟩

/-- One effect, whose reply may tell the program something. -/
theorem handsOn_effect {P : World → Prop} {e : Effect} {Q : e.Reply → World → Prop} (hst : Kept P)
    (hh : ∀ w, P w → Honest e w)
    (hq : ∀ w c w' r, perform w e c = some (w', r) → Faithful w' → P w' → Q r w') :
    HandsOn P (Prog.perform e) Q :=
  Machine.Triple.call (D := integrity) Q (fun w w' g h => hst w w' g h) (fun w _ h => hh w h)
    (fun w c w' r _ hP hp hf => hq w c w' r hp hf (hst w w' (keepsTasks_perform hp) hP))
    fun _ => Machine.Triple.ret fun _ h => h

/-- One effect, whose reply tells the program nothing. -/
theorem handsOn_any {P : World → Prop} {e : Effect} (hst : Kept P) (hh : ∀ w, P w → Honest e w) :
    HandsOn P (Prog.perform e) fun _ w => P w :=
  handsOn_effect hst hh fun _ _ _ _ _ _ h => h

/-! ## Programs without a task -/

theorem neutral_call {e : Effect} {f : e.Reply → Program β} (h : e.Neutral)
    (hf : ∀ r, (f r).Confined Effect.Neutral) : (Prog.perform e >>= f).Confined Effect.Neutral :=
  .call h hf

theorem neutral_getWithLegacy (reader : Reader) (k l : RedisKey) :
    (getWithLegacy reader k l).Confined Effect.Neutral := by
  unfold getWithLegacy
  refine neutral_call (fun _ => trivial) fun r => ?_
  dsimp only
  split
  · exact neutral_call (fun _ => trivial) fun r => .ret _
  · exact .ret _

theorem neutral_ackThen (msg : StreamMessage) (site : AckSite) (res : StreamProcessResult) :
    (ackThen msg site res).Confined Effect.Neutral := by
  have hack : (xackWithRetry msg.id site).Confined Effect.Neutral := by
    unfold xackWithRetry
    refine neutral_call (fun _ => trivial) fun r => ?_
    cases r with
    | ok u => exact .ret _
    | error err =>
      refine neutral_call (fun _ => trivial) fun r => ?_
      cases r <;> exact .ret _
  refine hack.bind fun r => ?_
  cases r <;> exact .ret _

theorem neutral_rejectPoison (msg : StreamMessage) (j code err : String) (reason : StreamReason) :
    (rejectPoison msg j code err reason).Confined Effect.Neutral := by
  refine .bind ?_ fun r => ?_
  · unfold markPoisonBeforeAck
    by_cases hj : trimSpace j = ""
    · rw [if_pos hj]
      exact .ret _
    · rw [if_neg hj]
      refine neutral_call (fun _ => trivial) fun r => ?_
      cases r <;> exact .ret _
  · cases r with
    | error err => exact .ret _
    | ok u => exact neutral_ackThen msg .poison _

theorem neutral_runLeaseHeartbeat (cell : Nat) (j : String) (a : Nat) (o : String) (l : Int) (n : Nat) :
    (runLeaseHeartbeat cell j a o l n).Confined Effect.Neutral := by
  have hgive : ∀ r, (do act (.cancelRun cell); act (.sendHeartbeat cell r) : Program Unit).Confined
      Effect.Neutral :=
    fun r => neutral_call (fun _ => trivial) fun _ => .perform fun _ => trivial
  unfold runLeaseHeartbeat
  refine neutral_call (fun _ => trivial) fun tick => ?_
  cases tick with
  | false => exact .perform fun _ => trivial
  | true =>
    refine neutral_call (fun _ => trivial) fun r => ?_
    cases r with
    | error err =>
      dsimp only
      split
      · exact hgive _
      · exact .perform fun _ => trivial
    | ok v =>
      cases v with
      | none => exact hgive _
      | some v => exact .perform fun _ => trivial

theorem neutral_reportOutcome (task : TaskRequest) (a : Nat) (tr : String) (outcome : JudgeOutcome) :
    (reportOutcome task a tr outcome).Confined Effect.Neutral := by
  unfold reportOutcome
  by_cases hs : isSafeJobID task.jobID = false
  · rw [if_pos hs]
    exact .ret _
  · rw [if_neg hs]
    cases reportedResult task a tr outcome with
    | none => exact .ret _
    | some m =>
      refine .bind ?_ fun r => by cases r <;> exact .ret _
      -- a result key is no payload key
      refine neutral_call (fun _ j h => by cases h) fun r => ?_
      cases r <;> exact .ret _

theorem neutral_resolveFinalResult (task : TaskRequest) (j : String) (a : Nat) (tr : String)
    (resp : Option TaskResponse) (err : Option String) :
    (resolveFinalResult task j a tr resp err).Confined Effect.Neutral := by
  refine (neutral_getWithLegacy .worker _ _).bind fun raw => ?_
  cases raw.bind RedisValue.asMap <;> exact .ret _

theorem neutral_reclaimForRun (cfg : WorkerConfig) (i : Nat) (j : String) :
    (reclaimForRun cfg i j).Confined Effect.Neutral := by
  unfold reclaimForRun
  refine neutral_call (fun _ => trivial) fun r => ?_
  cases r with
  | error err => exact .ret _
  | ok v =>
    cases v with
    | some a => exact .ret _
    | none =>
      refine neutral_call (fun _ => trivial) fun r => ?_
      cases r with
      | error err => exact .ret _
      | ok row => exact neutral_call (fun _ => trivial) fun _ => .ret _

theorem neutral_reply (caller : Caller) (r : ApiReply) : (reply caller r).Confined Effect.Neutral :=
  .perform fun _ => trivial

theorem neutral_handleStatus (caller : Caller) (j : String) :
    (handleStatus caller j).Confined Effect.Neutral := by
  unfold handleStatus
  by_cases hj : j = ""
  · rw [if_pos hj]
    exact neutral_reply caller _
  rw [if_neg hj]
  refine neutral_call (fun _ => trivial) fun r => ?_
  cases r with
  | error err => exact neutral_reply caller _
  | ok row =>
    cases row with
    | none => exact neutral_reply caller _
    | some row =>
      dsimp only
      cases caller.userID with
      | none => exact neutral_reply caller _
      | some u =>
        dsimp only
        split
        · exact neutral_reply caller _
        · refine (neutral_getWithLegacy .api _ _).bind fun raw => ?_
          cases raw with
          | none => exact neutral_reply caller _
          | some v =>
            dsimp only
            split
            · exact neutral_reply caller _
            · cases v.asMap with
              | some m => exact neutral_reply caller _
              | none => exact neutral_call (fun _ => trivial) fun _ => neutral_reply caller _

/-! ## Enqueueing -/

/-- A payload of the job, and whatever follows without a task. -/
theorem handsOn_setPayload {j : String} {task : TaskRequest}
    {f : Except String Unit → Program β} (hf : ∀ r, (f r).Confined Effect.Neutral) :
    HandsOn (fun w => TaskOf w j task)
      (request (.set (payloadKey j) (buildPayloadEnvelope task)) >>= f) anyOutcome :=
  handsOn_bind (handsOn_any (kept_taskOf j task) fun _ h => ⟨j, task, rfl, rfl, h⟩) fun r =>
    handsOn_neutral (hf r)

theorem neutral_markDispatchError (i : Nat) (err : String) :
    (markDispatchError i err).Confined Effect.Neutral :=
  neutral_call (fun _ => trivial) fun _ => .ret _

theorem handsOn_dispatchOne (i : Nat) (evt : OutboxEvent) :
    HandsOn (fun w => TaskOf w evt.jobID evt.payload) (dispatchOne i evt) anyOutcome := by
  unfold dispatchOne
  refine handsOn_setPayload fun r => ?_
  cases r with
  | error err => exact neutral_markDispatchError i err
  | ok u =>
    refine neutral_call (fun _ => ⟨evt.jobID, rfl, rfl⟩) fun r => ?_
    cases r with
    | error err => exact neutral_call (fun _ => trivial) fun _ => neutral_markDispatchError i err
    | ok entryID => exact neutral_call (fun _ => trivial) fun _ => .ret _

/-- Every event carries a task of its job. -/
def AllTasks (l : List (Nat × OutboxEvent)) (w : World) : Prop :=
  ∀ p ∈ l, TaskOf w p.2.jobID p.2.payload

theorem kept_allTasks (l : List (Nat × OutboxEvent)) : Kept (AllTasks l) :=
  fun _ _ g h p hp => (h p hp).keeps g

theorem handsOn_dispatchAll (l : List (Nat × OutboxEvent)) :
    HandsOn (AllTasks l) (dispatchAll l) anyOutcome := by
  induction l with
  | nil => exact handsOn_pure fun _ _ => trivial
  | cons p rest ih =>
    obtain ⟨i, evt⟩ := p
    have hone := handsOn_frame (kept_allTasks rest) (handsOn_dispatchOne i evt)
    refine handsOn_bind (handsOn_weaken hone
      (fun w h => ⟨h (i, evt) List.mem_cons_self, fun p hp => h p (List.mem_cons_of_mem _ hp)⟩)
      fun _ _ h => h) fun _ => ?_
    exact handsOn_weaken ih (fun w h => h.2) fun _ _ h => h

theorem handsOn_dispatchOnce (cfg : DispatcherConfig) :
    HandsOn (fun _ => True) (dispatchOnce cfg) anyOutcome := by
  have hclaim : HandsOn (fun _ => True)
      (request (.claimOutbox cfg.batch cfg.retryBaseMs cfg.retryMaxMs))
      fun r w => ∀ l, r = .ok l → AllTasks l w := by
    refine handsOn_effect kept_true (fun _ _ => trivial) ?_
    intro w c w' r hp hf _ l hl
    obtain ⟨ch, rfl, rfl | ⟨msg, rfl⟩⟩ | ⟨_, msg, rfl⟩ := perform_request hp
    · -- a claimed event is one of the outbox
      cases hl
      intro p hp
      obtain ⟨i, _, hi⟩ := List.mem_filterMap.mp hp
      obtain ⟨e, he, rfl⟩ := Option.map_eq_some_iff.mp hi
      exact hf.events i e he
    · cases hl
    · cases hl
  refine handsOn_bind hclaim fun r => ?_
  cases r with
  | error err => exact handsOn_pure fun _ _ => trivial
  | ok l => exact handsOn_weaken (handsOn_dispatchAll l) (fun w h => h l rfl) fun _ _ h => h

theorem handsOn_enqueueJobToStream (j : String) (task : TaskRequest) :
    HandsOn (fun w => TaskOf w j task) (enqueueJobToStream j task) anyOutcome := by
  unfold enqueueJobToStream
  refine handsOn_bind (handsOn_any (kept_taskOf j task) fun _ _ => trivial) fun ts => ?_
  refine handsOn_setPayload fun r => ?_
  cases r with
  | error err => exact .ret _
  | ok u =>
    refine neutral_call (fun _ => ⟨j, rfl, rfl⟩) fun r => ?_
    cases r with
    | error err => exact neutral_call (fun _ => trivial) fun _ => .ret _
    | ok i => exact .ret _

theorem handsOn_enqueueRepairedJob (c : RepairCandidate) :
    HandsOn (fun w => TaskOf w c.jobID (repairedTask c)) (enqueueRepairedJob c) anyOutcome := by
  unfold enqueueRepairedJob
  refine handsOn_setPayload fun r => ?_
  cases r with
  | error err => exact .ret _
  | ok u =>
    refine neutral_call (fun _ => trivial) fun ts => ?_
    exact neutral_call (fun _ => ⟨c.jobID, rfl, rfl⟩) fun _ => .ret _

/-- Every candidate has a row that asks for its task. -/
def AllRepairs (l : List RepairCandidate) (w : World) : Prop :=
  ∀ c ∈ l, TaskOf w c.jobID (repairedTask c)

theorem kept_allRepairs (l : List RepairCandidate) : Kept (AllRepairs l) :=
  fun _ _ g h c hc => (h c hc).keeps g

theorem handsOn_runRepairCycle (l : List RepairCandidate) (seen : List String) :
    HandsOn (AllRepairs l) (runRepairCycle l seen) anyOutcome := by
  induction l generalizing seen with
  | nil => exact handsOn_pure fun _ _ => trivial
  | cons c rest ih =>
    have hrest : ∀ w, AllRepairs (c :: rest) w → AllRepairs rest w :=
      fun w h c' hc' => h c' (List.mem_cons_of_mem _ hc')
    unfold runRepairCycle
    by_cases hs : c.jobID ∈ seen
    · rw [if_pos hs]
      exact handsOn_weaken (ih seen) hrest fun _ _ h => h
    · rw [if_neg hs]
      have hone := handsOn_frame (kept_allRepairs rest) (handsOn_enqueueRepairedJob c)
      refine handsOn_bind (handsOn_weaken hone
        (fun w h => ⟨h c List.mem_cons_self, hrest w h⟩) fun _ _ h => h) fun _ => ?_
      exact handsOn_weaken (ih (c.jobID :: seen)) (fun w h => h.2) fun _ _ h => h

/-! ## Submitting -/

theorem neutral_delThenError (k : RedisKey) (caller : Caller) (code : String) :
    (do let _ ← request (.del k); reply caller (.error code) : Program Unit).Confined Effect.Neutral :=
  neutral_call (fun _ => trivial) fun _ => neutral_reply caller _

theorem preparatory_integrity : AllowsPreparatory integrity := by
  intro e h w
  cases e with
  | request q =>
    cases q with
    | setNX k v => exact h
    | getProblem _ => trivial
    | countActive => trivial
    | get _ _ => trivial
    | del _ => trivial
    | _ => exact h.elim
  | act a => cases a <;> trivial

theorem handsOn_submitCached (caller : Caller) (req : SubmitRequest) (m : ResultMap) :
    HandsOn (fun _ => True) (submitCached caller req m) anyOutcome := by
  unfold submitCached
  refine meets_uuid (preparatory_integrity _ trivial) fun j hu => ?_
  refine handsOn_neutral (neutral_call (fun _ => ⟨hu, rfl⟩) fun r => ?_)
  cases r with
  | error err => exact neutral_reply caller _
  | ok u => exact neutral_call (fun _ => trivial) fun _ => neutral_reply caller _

theorem handsOn_persistSubmission (cfg : ApiConfig) (caller : Caller) (req : SubmitRequest)
    (fingerprint j : String) (hu : UUIDText j) :
    HandsOn (fun _ => True) (persistSubmission cfg caller req fingerprint j) anyOutcome := by
  unfold persistSubmission
  refine handsOn_bind (handsOn_any kept_true fun _ _ => trivial) fun ts => ?_
  dsimp only
  by_cases hout : cfg.outboxEnabled = true
  · rw [if_pos hout]
    refine handsOn_neutral
      (neutral_call (fun _ => ⟨⟨hu, rfl⟩, rfl, asksFor_newTask j caller req _ ts⟩) fun r => ?_)
    cases r with
    | error err => exact neutral_delThenError _ caller _
    | ok u => exact neutral_reply caller _
  · rw [if_neg hout]
    have hinsert : HandsOn (fun _ => True)
        (request (.insert (newSubmission j caller.userID req) .direct))
        fun r w => ∀ u, r = .ok u → TaskOf w j (newTask j caller req
          (namespacedRedisKey ⟨false, .cache fingerprint⟩) ts) := by
      refine handsOn_effect kept_true (fun _ _ => ⟨hu, rfl⟩) ?_
      intro w c w' r hp _ _ u hok
      obtain ⟨ch, rfl, rfl | ⟨msg, rfl⟩⟩ | ⟨_, msg, rfl⟩ := perform_request hp
      · simp only [serve] at hok ⊢
        cases hr : w.submissions (newSubmission j caller.userID req).jobID with
        | some r => rw [hr] at hok; cases hok
        | none =>
          refine ⟨rfl, _, w.setRow_self _ _, ?_⟩
          have ha := asksFor_newTask j caller req (namespacedRedisKey ⟨false, .cache fingerprint⟩) ts
          exact ⟨ha.jobID, ha.code, ha.language, ha.timeLimit, ha.memoryLimit, ha.problemID⟩
      · cases hok
      · cases hok
    refine handsOn_bind hinsert fun r => ?_
    cases r with
    | error err => exact handsOn_neutral (neutral_delThenError _ caller _)
    | ok u =>
      refine handsOn_weaken (handsOn_bind (handsOn_enqueueJobToStream j _) fun r => ?_)
        (fun w h => h u rfl) fun _ _ h => h
      refine handsOn_neutral ?_
      cases r with
      | error err => exact neutral_delThenError _ caller _
      | ok i => exact neutral_reply caller _

/-- An effect that may be performed in any world, before a program that needs nothing. -/
theorem handsOn_step {e : Effect} {f : e.Reply → Program β} {Q : β → World → Prop} (h : e.Neutral)
    (hf : ∀ r, HandsOn (fun _ => True) (f r) Q) :
    HandsOn (fun _ => True) (Prog.perform e >>= f) Q :=
  handsOn_bind (handsOn_any kept_true fun w _ => h w) hf

theorem handsOn_handleSubmit (cfg : ApiConfig) (caller : Caller) (body : SubmitRequest) :
    HandsOn (fun _ => True) (handleSubmit cfg caller body) anyOutcome :=
  meets_handleSubmit preparatory_integrity cfg caller body (fun req m => handsOn_submitCached caller req m)
    fun req fp j hu => handsOn_persistSubmission cfg caller req fp j hu

/-! ## Judging -/

theorem decode_buildPayloadEnvelope (task : TaskRequest) :
    decodeStreamTaskPayload (buildPayloadEnvelope task) = .ok task := by
  have hencoding : toLower (trimSpace "base64") = "base64" := by decide
  have hcontent : toLower (trimSpace "application/json") = "application/json" := by decide
  have hblank : trimSpace "base64" ≠ "" ∧ trimSpace "application/json" ≠ "" := by decide
  simp [decodeStreamTaskPayload, buildPayloadEnvelope, hencoding, hcontent, hblank]

/-- What is read from a payload key is a task of the job. -/
theorem handsOn_getPayload (j : String) :
    HandsOn (fun _ => True) (getWithLegacy .worker (payloadKey j) (payloadKey j)) fun r w =>
      ∀ v, r = some v → ∃ task, v = buildPayloadEnvelope task ∧ TaskOf w j task := by
  have hget : HandsOn (fun _ => True) (request (.get .worker (payloadKey j))) fun r w =>
      ∀ v, okValue r = some v → ∃ task, v = buildPayloadEnvelope task ∧ TaskOf w j task := by
    refine handsOn_effect kept_true (fun _ _ => trivial) ?_
    intro w c w' r hp hf _ v hv
    obtain ⟨ch, rfl, rfl | ⟨msg, rfl⟩⟩ | ⟨_, msg, rfl⟩ := perform_request hp
    · exact hf.payloads true j v hv
    · cases hv
    · cases hv
  unfold getWithLegacy
  refine handsOn_bind hget fun r => ?_
  dsimp only
  rw [if_neg (fun h => h.2 rfl)]
  exact handsOn_pure fun _ h => h

/-- A message that was not rejected carries a task of its job. -/
def TaskLoaded (r : Loaded) (w : World) : Prop :=
  ∀ j task tr, r = .ok (j, task, tr) → task.jobID = j ∧ TaskOf w task.jobID task

theorem handsOn_poisoned {P : World → Prop} (msg : StreamMessage) (j code err : String)
    (reason : StreamReason) : HandsOn P (poisoned msg j code err reason) TaskLoaded := by
  refine handsOn_bind (handsOn_neutral (neutral_rejectPoison msg j code err reason)) fun res => ?_
  exact handsOn_pure fun w _ j task tr h => by cases h

theorem handsOn_checkTask (msg : StreamMessage) (j tr : String) (task : TaskRequest) :
    HandsOn (fun w => TaskOf w task.jobID task) (checkTask msg j tr task) TaskLoaded := by
  unfold checkTask
  by_cases hj : task.jobID = j
  · rw [if_neg (not_not.mpr hj)]
    by_cases ht : trimSpace task.traceID = ""
    · rw [if_pos ht]
      refine handsOn_pure fun w h j' task' tr' heq => ?_
      cases heq
      obtain ⟨hid, row, hr, ha⟩ := h
      exact ⟨hj, hid, row, hr, ha.setTrace tr⟩
    · rw [if_neg ht]
      refine handsOn_pure fun w h j' task' tr' heq => ?_
      cases heq
      exact ⟨hj, h⟩
  · rw [if_pos hj]
    exact handsOn_poisoned msg _ _ _ _

theorem handsOn_loadTask (msg : StreamMessage) (hmsg : NamesPayload msg.values) :
    HandsOn (fun _ => True) (loadTask msg) TaskLoaded := by
  obtain ⟨j, hj, href⟩ := hmsg
  unfold loadTask
  dsimp only
  refine handsOn_step (fun _ => trivial) fun freshTrace => ?_
  split
  · rename_i payloadRef hmissing hpayload
    rw [href] at hpayload
    cases hpayload
    have hne : trimSpace j ≠ "" := by
      intro hblank
      simp [missingFields, requiredStreamField, hj, hblank] at hmissing
    unfold loadPayload
    dsimp only
    refine handsOn_bind (handsOn_getPayload j) fun raw => ?_
    cases raw with
    | none => exact handsOn_poisoned msg _ _ _ _
    | some v =>
      dsimp only
      refine handsOn_of_imp (fun w h => (h v rfl).imp fun _ ht => ht.1) ?_
      rintro ⟨task, rfl⟩
      rw [decode_buildPayloadEnvelope]
      split
      · exact handsOn_poisoned msg _ _ _ _
      · -- the payload names its job, so nothing is filled in
        have htask : ∀ w, (∀ v, some (buildPayloadEnvelope task) = some v →
            ∃ task, v = buildPayloadEnvelope task ∧ TaskOf w j task) → TaskOf w j task := by
          intro w h
          obtain ⟨task', heq, ht⟩ := h _ rfl
          cases heq
          exact ht
        refine handsOn_of_imp (fun w h => (htask w h).1) fun hid => ?_
        dsimp only
        rw [show fillJobID _ task = task from if_neg (hid ▸ hne)]
        exact handsOn_weaken (handsOn_checkTask msg _ freshTrace task) (fun w h => hid ▸ htask w h)
          fun _ _ h => h
  · exact handsOn_poisoned msg _ _ _ _

theorem handsOn_executeTask (task : TaskRequest) (a : Nat) :
    HandsOn (fun w => TaskOf w task.jobID task) (executeTask task a)
      fun _ w => Judged w task.jobID a := by
  have htrace : (taskTraceID task).Confined Effect.Neutral := by
    unfold taskTraceID
    split
    · exact .perform fun _ => trivial
    · exact .ret _
  have hjudge : HandsOn (fun w => TaskOf w task.jobID task) (act (.judge task a))
      fun _ w => Judged w task.jobID a := by
    refine handsOn_effect (kept_taskOf _ task) (fun _ h => h) ?_
    intro w c w' r hp _ _
    obtain ⟨ch, ha⟩ := perform_act hp
    cases ha
    exact ⟨task, ch.outcome, List.mem_cons_self, rfl⟩
  unfold executeTask
  refine handsOn_bind (handsOn_keeping (kept_taskOf _ task) htrace) fun tr => ?_
  refine handsOn_bind hjudge fun outcome => handsOn_keeping (kept_judged _ a) ?_
  cases outcome with
  | busy err => exact .ret _
  | _ => exact neutral_reportOutcome task a tr _

theorem handsOn_finalizeSubmissionWithFence (i : Nat) (j : String) (a : Nat) (o st : String)
    (m : ResultMap) :
    HandsOn (fun w => Judged w j a) (finalizeSubmissionWithFence i j a o st m) anyOutcome := by
  refine handsOn_bind (handsOn_any (kept_judged j a) fun _ h => h) fun r => handsOn_neutral ?_
  cases r with
  | error err => exact .ret _
  | ok applied =>
    cases applied with
    | some v => exact .ret _
    | none =>
      refine neutral_call (fun _ => trivial) fun row => ?_
      cases row with
      | error err => exact .ret _
      | ok row => exact neutral_call (fun _ => trivial) fun _ => .ret _

theorem handsOn_runClaimedExecution (cfg : WorkerConfig) (msg : StreamMessage) (task : TaskRequest)
    (tr : String) (a : Nat) :
    HandsOn (fun w => TaskOf w task.jobID task)
      (runClaimedExecution cfg msg task task.jobID tr a) anyOutcome := by
  have hst := kept_taskOf task.jobID task
  have hjudged := kept_judged task.jobID a
  unfold runClaimedExecution
  refine handsOn_bind (handsOn_any hst fun _ _ => trivial) fun cell => ?_
  refine handsOn_bind (handsOn_any hst fun _ _ => trivial) fun _ => ?_
  refine handsOn_bind (handsOn_executeTask task a) fun res => ?_
  refine handsOn_bind (handsOn_any hjudged fun _ _ => trivial) fun _ => ?_
  refine handsOn_bind (handsOn_any hjudged fun _ _ => trivial) fun hbRes => ?_
  split
  · exact handsOn_pure fun _ _ => trivial
  · refine handsOn_bind (handsOn_keeping hjudged (neutral_resolveFinalResult task _ a tr _ _)) fun final => ?_
    refine handsOn_bind (handsOn_finalizeSubmissionWithFence msg.id _ a _ _ _) fun r => ?_
    refine handsOn_neutral ?_
    cases r with
    | error err => exact .ret _
    | ok res =>
      dsimp only
      split
      · exact neutral_ackThen msg _ _
      · split
        · exact neutral_ackThen msg _ _
        · exact .ret _

theorem handsOn_handleMessage (cfg : WorkerConfig) (msg : StreamMessage) (hmsg : NamesPayload msg.values) :
    HandsOn (fun _ => True) (handleMessage cfg msg) anyOutcome := by
  unfold handleMessage
  refine handsOn_bind (handsOn_loadTask msg hmsg) fun loaded => ?_
  cases loaded with
  | error res => exact handsOn_pure fun _ _ => trivial
  | ok t =>
    obtain ⟨j, task, tr⟩ := t
    refine handsOn_of_imp (fun w h => (h j task tr rfl).1) ?_
    rintro rfl
    have hst := kept_taskOf task.jobID task
    refine handsOn_bind (handsOn_weaken (handsOn_any hst fun _ _ => trivial)
      (fun w h => (h _ task tr rfl).2) fun _ _ h => h) fun r => ?_
    cases r with
    | error err => exact handsOn_pure fun _ _ => trivial
    | ok v =>
      cases v with
      | none => exact handsOn_neutral (neutral_ackThen msg _ _)
      | some a => exact handsOn_runClaimedExecution cfg msg task tr a

theorem handsOn_handleReclaimedMessage (cfg : WorkerConfig) (msg : StreamMessage)
    (hmsg : NamesPayload msg.values) :
    HandsOn (fun _ => True) (handleReclaimedMessage cfg msg) anyOutcome := by
  unfold handleReclaimedMessage
  refine handsOn_bind (handsOn_loadTask msg hmsg) fun loaded => ?_
  cases loaded with
  | error res => exact handsOn_pure fun _ _ => trivial
  | ok t =>
    obtain ⟨j, task, tr⟩ := t
    refine handsOn_of_imp (fun w h => (h j task tr rfl).1) ?_
    rintro rfl
    refine handsOn_bind (handsOn_weaken (handsOn_keeping (kept_taskOf task.jobID task)
      (neutral_reclaimForRun cfg msg.id _)) (fun w h => (h _ task tr rfl).2) fun _ _ h => h) fun r => ?_
    cases r with
    | error err => exact handsOn_pure fun _ _ => trivial
    | ok p =>
      obtain ⟨a, decision⟩ := p
      cases decision with
      | claimed => exact handsOn_runClaimedExecution cfg msg task tr a
      | leaseStillValid => exact handsOn_pure fun _ _ => trivial
      | doneOrStale => exact handsOn_neutral (neutral_ackThen msg _ _)
      | notFound => exact handsOn_neutral (neutral_ackThen msg _ _)

/-! ## Every run -/

/-- The programs an environment move starts keep the contract. -/
theorem handsOn_envStep {w w' : World} {v : Env} {ps : List (Program Unit)} (hf : Faithful w)
    (hv : envStep w v = some (w', ps)) : ∀ p ∈ ps, HandsOn (fun _ => True) p anyOutcome := by
  have hhandler : ∀ {p : Program StreamProcessResult}, HandsOn (fun _ => True) p anyOutcome →
      HandsOn (fun _ => True) (handler p) anyOutcome :=
    fun h => handsOn_bind h fun _ => handsOn_pure fun _ _ => trivial
  intro p hp
  cases v with
  | dbTick d => cases hv; exact absurd hp List.not_mem_nil
  | redisTick d => cases hv; exact absurd hp List.not_mem_nil
  | deliver cfg i =>
    simp only [envStep] at hv
    split at hv
    · rename_i values he
      cases hv
      rw [List.mem_singleton.mp hp]
      exact hhandler (handsOn_handleMessage cfg ⟨i, values⟩ (hf.entries i _ he))
    · cases hv
  | autoclaim cfg i =>
    simp only [envStep] at hv
    split at hv
    · rename_i values c t he
      split at hv
      · cases hv
        rw [List.mem_singleton.mp hp]
        exact hhandler (handsOn_handleReclaimedMessage cfg ⟨i, values⟩ (hf.entries i _ he))
      · cases hv
    · cases hv
  | dispatch cfg =>
    cases hv
    rw [List.mem_singleton.mp hp]
    exact handsOn_dispatchOnce cfg
  | submit cfg requestID userID body =>
    cases hv
    rw [List.mem_singleton.mp hp]
    exact handsOn_handleSubmit cfg _ body
  | status userID admin j =>
    cases hv
    rw [List.mem_singleton.mp hp]
    exact handsOn_neutral (neutral_handleStatus _ j)
  | expire k => cases hv; exact absurd hp List.not_mem_nil
  | fillCache fp v => cases hv; exact absurd hp List.not_mem_nil

/-- A repair cycle takes up tasks of their jobs. -/
theorem allRepairs_fetch {w : World} (hf : Faithful w) (now : Nat) (minAgeSec limit : Int) :
    AllRepairs (fetchRepairCandidates now minAgeSec limit (w.jobs.filterMap w.submissions)) w := by
  intro c hc
  obtain ⟨row, hrow, _, rfl⟩ := mem_fetchRepairCandidates hc
  obtain ⟨j, _, hj⟩ := List.mem_filterMap.mp hrow
  have hid : row.jobID = j := (hf.rows j row hj).1.jobID
  exact ⟨rfl, row, by rw [show (repairCandidate row).jobID = j from hid]; exact hj, asksFor_repairedTask row⟩

/-- The contract covers every move. -/
theorem sound_integrity : repairSystem.Sound integrity Machine.anyMove where
  call_inv := fun _ _ _ _ _ _ _ hf hh _ _ hp => hf.adds (adds_perform hf hh hp)
  call_rely := fun _ _ _ _ _ _ _ _ _ _ _ hp _ _ _ _ => keepsTasks_perform hp
  fork_wp := by
    intro w e c w' r _ _ _ _ p hp
    cases e with
    | request q => exact absurd hp List.not_mem_nil
    | act a =>
      cases a with
      | go g =>
        rw [List.mem_singleton.mp hp]
        cases g with
        | heartbeat cell j a o l n =>
          exact (handsOn_neutral (P := fun _ => True) (neutral_runLeaseHeartbeat cell j a o l n)).wp w' trivial
      | _ => exact absurd hp List.not_mem_nil
  env_inv := by
    intro s v w ps hf _ hv
    cases v with
    | base v => exact hf.adds (adds_envStep hv)
    | repair cfg now => cases hv; exact hf
  env_rely := by
    intro s v w ps _ _ hv _ _ _
    cases v with
    | base v => exact keepsTasks_envStep hv
    | repair cfg now => cases hv; exact .refl _
  env_wp := by
    intro s v w ps hf _ hv _ p hp
    cases v with
    | base v => exact (handsOn_envStep hf hv p hp).wp w trivial
    | repair cfg now =>
      cases hv
      rw [List.mem_singleton.mp hp]
      exact (handsOn_runRepairCycle _ []).wp _ (allRepairs_fetch hf now _ _)

theorem good_integrity : repairSystem.Good integrity start where
  inv := faithful_empty
  threads := fun _ hp => absurd hp List.not_mem_nil

/-- What a run does to the rows. -/
theorem keepsTasks_reach {s₀ s : State} (h : repairSystem.Reach Machine.anyMove s₀ s) :
    KeepsTasks s₀.world s.world := by
  refine h.invariant (J := fun s => KeepsTasks s₀.world s.world) (.refl _) ?_
  intro s s' m hk _ hstep
  obtain ⟨i, c, e, k, w, r, rfl, _, hs, rfl⟩ | ⟨i, rfl, rfl⟩ | ⟨v, w, ps, rfl, hv, rfl⟩ :=
    repairSystem.step_cases hstep
  · exact hk.trans (keepsTasks_perform hs)
  · exact hk
  · cases v with
    | base v => exact hk.trans (keepsTasks_envStep hv)
    | repair cfg now => cases hv; exact hk

/-- A move of the services alone. -/
def served : Step → Move Fate RepairEnv
  | .call i c => .call i c
  | .crash i => .crash i
  | .env v => .env (.base v)

/-- The repaired job has entry 0, and a dispatcher appends entry 1; a worker judges entry 0. -/
def judgedRepair : List Step :=
  calls 1 3 ++ [dispatch] ++ calls 2 4 ++
    [.env (.deliver (worker "w1") 0), .call 3 (.ok { uuid := "t1" })] ++ calls 3 4 ++
    [.call 3 (.ok { outcome := .judged "Accepted" 10 1000 })] ++ calls 3 2 ++ calls 4 2 ++ calls 3 4

/-- A scheduler repairs `job-1` before it is dispatched. -/
def repairedTwice : List (Move Fate RepairEnv) :=
  .env (.repair ⟨⟨100000, 100000⟩, 200, 60⟩ 61000000) :: judgedRepair.map served

end DeepOj.Cluster
