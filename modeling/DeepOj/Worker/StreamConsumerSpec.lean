import DeepOj.Cluster.Triples

/-!
# The worker keeps the contract

One triple for each program of the stream consumer, from the acknowledgement up
to the two message handlers.
-/

namespace DeepOj.Worker

open Repository Cluster Go

variable {kept : Bool}

/-! ## Acknowledging -/

theorem keeps_xackWithRetry (i : Nat) (j : String) (site : AckSite) :
    Keeps kept (fun w => EntryFor w i j ∧ AckJustified w i j site) (xackWithRetry i site)
      anyOutcome := by
  have hst : Stable fun w => EntryFor w i j ∧ AckJustified w i j site :=
    (stable_entryFor i j).and (stable_ackJustified i j site)
  have hack : Keeps kept _ (request (.xack i site)) _ :=
    keeps_request_any hst fun w _ h => ⟨j, h⟩
  refine keeps_bind hack fun r => ?_
  cases r with
  | ok u => exact keeps_pure fun _ _ => trivial
  | error err =>
    refine keeps_bind hack fun r => ?_
    cases r <;> exact keeps_pure fun _ _ => trivial

theorem keeps_ackThen (msg : StreamMessage) (j : String) (site : AckSite)
    (res : StreamProcessResult) :
    Keeps kept (fun w => EntryFor w msg.id j ∧ AckJustified w msg.id j site) (ackThen msg site res)
      anyOutcome := by
  refine keeps_bind (keeps_xackWithRetry msg.id j site) fun r => ?_
  cases r <;> exact keeps_pure fun _ _ => trivial

/-! ## Rejecting a message as poison -/

/-- After the poison update has been answered the row is done. -/
theorem keeps_markPoisonBeforeAck (i : Nat) (j code text : String) (hj : trimSpace j ≠ "") :
    Keeps kept (fun w => EntryFor w i j) (markPoisonBeforeAck i j code text) fun r w =>
      EntryFor w i j ∧ (r = .ok () → RowDone w j) := by
  unfold markPoisonBeforeAck
  rw [if_neg hj]
  refine keeps_bind (Q := fun r w => EntryFor w i j ∧ (∀ v, r = .ok v → RowDone w j))
    (keeps_request (stable_entryFor i j) (fun w _ h => ⟨i, rfl, h⟩) ?_ ?_ ?_) fun r => ?_
  · intro w ch hs he he' hs'
    refine ⟨he', fun v hv => ?_⟩
    obtain ⟨r, hr⟩ := hs.hasRow (hs.entry_enqueuable he)
    cases v with
    | some v =>
      -- the update wrote the terminal state
      obtain ⟨s, s', _, hx, hw⟩ := serve_update_result hv
      obtain ⟨_, _, rfl⟩ := markSubmissionPoison_eq_some.mp hx
      rw [hw]
      exact ⟨_, (w.setRow_self j _), rfl⟩
    | none =>
      -- the update found the row done already
      obtain ⟨hn, hw⟩ := serve_update_none hv
      rw [hw]
      refine ⟨r, hr, ?_⟩
      have := hn r hr
      by_contra hd
      simp [RowOp.exec, markSubmissionPoison, hd] at this
  · exact fun w ch msg _ _ he' => ⟨he', fun v hv => by cases hv⟩
  · exact fun w msg _ he' => ⟨he', fun v hv => by cases hv⟩
  · cases r with
    | ok v => exact keeps_pure fun w h => ⟨h.1, fun _ => h.2 v rfl⟩
    | error err => exact keeps_pure fun w h => ⟨h.1, fun he => by cases he⟩

theorem keeps_rejectPoison (msg : StreamMessage) (j code text : String) (reason : StreamReason)
    (hj : trimSpace j ≠ "") :
    Keeps kept (fun w => EntryFor w msg.id j) (rejectPoison msg j code text reason) anyOutcome := by
  refine keeps_bind (keeps_markPoisonBeforeAck msg.id j code text hj) fun r => ?_
  cases r with
  | error err => exact keeps_pure fun _ _ => trivial
  | ok u =>
    exact keeps_weaken (keeps_ackThen msg j .poison _) (fun w h => ⟨h.1, h.2 rfl⟩)
      fun _ _ _ => trivial

/-! ## Loading the task -/

/-- The message is one of the entries of the stream. -/
def Delivered (msg : StreamMessage) (w : World) : Prop :=
  ∃ e, w.stream[msg.id]? = some e ∧ e.values = msg.values

theorem stable_delivered (msg : StreamMessage) : Stable (Delivered msg) := by
  rintro w w' g ⟨e, he, hv⟩
  obtain ⟨e', he', hv'⟩ := g.stream msg.id e he
  exact ⟨e', he', hv'.trans hv⟩

theorem Delivered.entryFor {msg : StreamMessage} {w : World} {j : String} (h : Delivered msg w)
    (hj : requiredStreamField msg.values.jobID = some j) : EntryFor w msg.id j := by
  obtain ⟨e, he, hv⟩ := h
  exact ⟨e, he, by rw [hv]; exact hj⟩

theorem Delivered.complete {msg : StreamMessage} {w : World} (hs : Sane w) (h : Delivered msg w) :
    ∃ j, Complete j msg.values := by
  obtain ⟨e, he, hv⟩ := h
  obtain ⟨j, hc, _⟩ := hs.entries msg.id e he
  exact ⟨j, by rw [← hv]; exact hc⟩

theorem trimSpace_ne_of_required {raw : Option String} {j : String}
    (h : requiredStreamField raw = some j) : trimSpace j ≠ "" := by
  cases raw with
  | none => cases h
  | some v =>
    simp only [requiredStreamField] at h
    split at h
    · cases h
    · rename_i hv
      cases h
      rw [trimSpace_idem]
      exact hv

theorem payloadRef_of_complete {j : String} {v : StreamValues} (h : Complete j v) :
    ∃ k, v.payloadRef = some k := by
  have hm := h.2
  cases hp : v.payloadRef with
  | some k => exact ⟨k, rfl⟩
  | none => simp [missingFields, hp] at hm

/-- A read of one key and its legacy form, which may say something of the value. -/
theorem keeps_getWithLegacy {P : World → Prop} (hst : Stable P) {reader : Reader}
    {key legacy : RedisKey} {S : RedisValue → World → Prop}
    (hS : ∀ v, Stable (S v))
    (hkey : ∀ w ch v, Sane w → P w → w.redis key = some v →
      S v (serve w ch (.get reader key)).1)
    (hlegacy : ∀ w ch v, Sane w → P w → w.redis legacy = some v →
      S v (serve w ch (.get reader legacy)).1) :
    Keeps kept P (getWithLegacy reader key legacy) fun r w => P w ∧ ∀ v, r = some v → S v w := by
  have hget : ∀ (F : World → Prop), Stable F → ∀ k, (∀ w ch v, Sane w → P w → w.redis k = some v →
      S v (serve w ch (.get reader k)).1) →
      Keeps kept (fun w => P w ∧ F w) (request (.get reader k)) fun r w =>
        (P w ∧ F w) ∧ ∀ v, okValue r = some v → S v w := by
    intro F hF k hk
    refine keeps_request (hst.and hF) (fun _ _ _ => trivial) ?_ ?_ ?_
    · exact fun w ch hs hP hP' _ => ⟨hP', fun v hv => hk w ch v hs hP.1 hv⟩
    · exact fun w ch msg _ _ hP' => ⟨hP', fun v hv => by cases hv⟩
    · exact fun w msg _ hP' => ⟨hP', fun v hv => by cases hv⟩
  unfold getWithLegacy
  refine keeps_bind (keeps_weaken (hget (fun _ => True) stable_true key hkey)
    (fun w h => ⟨h, trivial⟩) fun _ _ h => h) fun r => ?_
  dsimp only
  split
  · -- the first read gave nothing usable
    refine keeps_bind (keeps_weaken (hget (fun w => ∀ v, okValue r = some v → S v w)
      (fun w w' g h v hv => hS v w w' g (h v hv)) legacy hlegacy)
      (fun w h => ⟨h.1.1, h.2⟩) fun _ _ h => h) fun r' => ?_
    split
    · exact keeps_pure fun w h => ⟨h.1.1, h.1.2⟩
    · exact keeps_pure fun w h => ⟨h.1.1, h.2⟩
  · exact keeps_pure fun w h => ⟨h.1.1, h.2⟩

/-- A message that was not rejected carries a task of the job its entry names. -/
def TaskFor (msg : StreamMessage) (r : Loaded) (w : World) : Prop :=
  ∀ j task tr, r = .ok (j, task, tr) → EntryFor w msg.id j ∧ task.jobID = j

section Load

variable {msg : StreamMessage} {j : String} (hc : Complete j msg.values)

include hc

theorem keeps_poisoned (code text : String) (reason : StreamReason) :
    Keeps kept (Delivered msg) (poisoned msg j code text reason) (TaskFor msg) := by
  have hne : trimSpace j ≠ "" := trimSpace_ne_of_required hc.1
  refine keeps_bind (keeps_weaken (keeps_rejectPoison msg j code text reason hne)
    (fun w h => h.entryFor hc.1) fun _ _ h => h) fun res => ?_
  exact keeps_pure fun w _ j task tr h => by cases h

theorem keeps_checkTask (freshTrace : String) (task : TaskRequest) :
    Keeps kept (Delivered msg) (checkTask msg j freshTrace task) (TaskFor msg) := by
  unfold checkTask
  by_cases hj : task.jobID = j
  · rw [if_neg (not_not.mpr hj)]
    by_cases ht : trimSpace task.traceID = ""
    · rw [if_pos ht]
      refine keeps_pure fun w h j' task' tr heq => ?_
      cases heq
      exact ⟨h.entryFor hc.1, hj⟩
    · rw [if_neg ht]
      refine keeps_pure fun w h j' task' tr heq => ?_
      cases heq
      exact ⟨h.entryFor hc.1, hj⟩
  · rw [if_pos hj]
    exact keeps_poisoned hc _ _ _

theorem keeps_loadPayload (freshTrace : String) (payloadRef : RedisKey) :
    Keeps kept (Delivered msg) (loadPayload msg j freshTrace payloadRef) (TaskFor msg) := by
  have hget : Keeps kept (Delivered msg)
      (getWithLegacy .worker (namespacedRedisKey payloadRef) payloadRef) fun r w =>
        Delivered msg w ∧ ∀ v, r = some v → True :=
    keeps_getWithLegacy (S := fun _ _ => True) (stable_delivered msg) (fun _ => stable_true)
      (fun _ _ _ _ _ _ => trivial) fun _ _ _ _ _ _ => trivial
  unfold loadPayload
  dsimp only
  refine keeps_bind hget fun raw => ?_
  refine keeps_weaken (P := Delivered msg) ?_ (fun w h => h.1) fun _ _ h => h
  cases raw with
  | none =>
    dsimp only
    exact keeps_poisoned hc _ _ _
  | some v =>
    dsimp only
    split
    · exact keeps_poisoned hc _ _ _
    · split
      · exact keeps_poisoned hc _ _ _
      · exact keeps_checkTask hc _ _

end Load

theorem keeps_loadTask (msg : StreamMessage) :
    Keeps kept (Delivered msg) (loadTask msg) (TaskFor msg) := by
  have huuid : Keeps kept (Delivered msg) (act .uuid) fun _ w =>
      Delivered msg w ∧ ∃ j, Complete j msg.values :=
    keeps_act (stable_delivered msg) (fun _ _ _ => trivial)
      fun w ch w' r hs h _ h' => ⟨h', h.complete hs⟩
  unfold loadTask
  dsimp only
  refine keeps_bind huuid fun freshTrace => ?_
  refine keeps_of_imp (fun w h => h.2) ?_
  rintro ⟨j, hc⟩
  obtain ⟨k, hk⟩ := payloadRef_of_complete hc
  refine keeps_weaken (P := Delivered msg) ?_ (fun w h => h.1) fun _ _ h => h
  rw [hc.2, hk, hc.1]
  exact keeps_loadPayload hc freshTrace k

/-! ## Executing and resolving -/

/-- Attempt `a` found `outcome` and answered with the response and the error. -/
def Executed (w : World) (task : TaskRequest) (a : Nat) (res : TaskResponse × Option String) :
    Prop :=
  ∃ outcome, LogEvent.executed task a outcome ∈ w.log ∧ Answers task outcome res.1 res.2

theorem stable_executed (task : TaskRequest) (a : Nat) (res : TaskResponse × Option String) :
    Stable fun w => Executed w task a res := by
  rintro w w' g ⟨outcome, hm, ha⟩
  exact ⟨outcome, g.mem hm, ha⟩

theorem keeps_reportResult {w₀ : World → Prop} (hst : Stable w₀) (j : String) (m : ResultMap)
    (hc : ∀ w, w₀ w → ∃ b, Computed w j b m) :
    Keeps kept w₀ (reportResult j m) fun _ w => w₀ w := by
  refine keeps_bind (keeps_request_any hst fun w _ h => .inr ?_) fun r => ?_
  · obtain ⟨b, hb⟩ := hc w h
    exact ⟨j, b, m, rfl, rfl, hb⟩
  · cases r <;> exact keeps_pure fun _ h => h

/-- Once the task has been judged, whatever is reported was computed by the attempt. -/
theorem keeps_reportOutcome (task : TaskRequest) (a : Nat) (traceID : String)
    (outcome : JudgeOutcome) :
    Keeps kept (fun w => LogEvent.executed task a outcome ∈ w.log)
      (reportOutcome task a traceID outcome) fun res w => Executed w task a res := by
  unfold reportOutcome
  by_cases hs : isSafeJobID task.jobID = false
  · rw [if_pos hs]
    exact keeps_pure fun w h => ⟨outcome, h, .unsafeJob hs⟩
  · rw [if_neg hs]
    cases hm : reportedResult task a traceID outcome with
    | none => exact keeps_pure fun w h => ⟨outcome, h, .reported⟩
    | some m =>
      refine keeps_bind (keeps_reportResult (stable_logged _) task.jobID m
        fun w h => ⟨a, task, outcome, traceID, h, rfl, hm⟩) fun r => ?_
      cases r with
      | error err => exact keeps_pure fun w h => ⟨outcome, h, .unreported err⟩
      | ok u => exact keeps_pure fun w h => ⟨outcome, h, .reported⟩

theorem keeps_executeTask (task : TaskRequest) (a : Nat) (o : String) (i : Nat) :
    Keeps kept (fun w => Started w task.jobID a o i) (executeTask task a)
      fun res w => Executed w task a res := by
  have hst := stable_started task.jobID a o i
  have htrace : Keeps kept (fun w => Started w task.jobID a o i) (taskTraceID task)
      fun _ w => Started w task.jobID a o i := by
    unfold taskTraceID
    by_cases ht : trimSpace task.traceID = ""
    · rw [if_pos ht]
      exact keeps_act_any hst fun _ _ _ => trivial
    · rw [if_neg ht]
      exact keeps_pure fun _ h => h
  have hjudge : Keeps kept (fun w => Started w task.jobID a o i) (act (.judge task a))
      fun outcome w => LogEvent.executed task a outcome ∈ w.log := by
    refine keeps_act hst (fun w _ h => ⟨o, i, h⟩) ?_
    intro w ch w' r _ _ ha _
    cases ha
    exact List.mem_cons_self
  unfold executeTask
  refine keeps_bind htrace fun traceID => keeps_bind hjudge fun outcome => ?_
  cases outcome with
  | busy err => exact keeps_pure fun w h => ⟨_, h, .busy err rfl⟩
  | prepareFailed err => exact keeps_reportOutcome task a traceID _
  | saveFailed err => exact keeps_reportOutcome task a traceID _
  | compileFailed err => exact keeps_reportOutcome task a traceID _
  | compileRejected msg => exact keeps_reportOutcome task a traceID _
  | executeFailed err => exact keeps_reportOutcome task a traceID _
  | judged status timeUsed memoryUsed => exact keeps_reportOutcome task a traceID _

/-- The resolved status and result are ones the attempt may store. -/
theorem keeps_resolveFinalResult (task : TaskRequest) (a : Nat) (traceID : String)
    (res : TaskResponse × Option String) :
    Keeps kept (fun w => Executed w task a res)
      (resolveFinalResult task task.jobID a traceID (some res.1) res.2)
      fun p w => Resolved w task.jobID a p.1 (p.2.set "attempt_id" (.num a)) := by
  have hread : ∀ (w : World) (ch : Chance) (ns : Bool) (v : RedisValue), Sane w →
      w.redis ⟨ns, .result task.jobID⟩ = some v →
      ∃ b m, v = .result m ∧
        Computed (serve w ch (.get .worker ⟨ns, .result task.jobID⟩)).1 task.jobID b m := by
    intro w ch ns v hs hv
    obtain ⟨b, m, hm, hc⟩ := hs.results ns task.jobID v hv
    exact ⟨b, m, hm, hc.grows (grows_serve w ch _)⟩
  refine keeps_bind (keeps_getWithLegacy
    (S := fun v w => ∃ b m, v = .result m ∧ Computed w task.jobID b m)
    (stable_executed task a res)
    (fun v => stable_exists fun b => stable_exists fun m =>
      fun w w' g h => ⟨h.1, h.2.grows g⟩)
    (fun w ch v hs _ hv => hread w ch true v hs hv)
    fun w ch v hs _ hv => hread w ch false v hs hv) fun raw => ?_
  cases hr : raw.bind RedisValue.asMap with
  | none =>
    refine keeps_pure fun w h => ?_
    obtain ⟨⟨outcome, hm, ha⟩, _⟩ := h
    exact ⟨task, outcome, res.1, res.2, traceID, _, hm, rfl, ha, .inl rfl, rfl, rfl⟩
  | some read =>
    refine keeps_pure fun w h => ?_
    obtain ⟨⟨outcome, hm, ha⟩, hv⟩ := h
    obtain ⟨v, hraw, hv'⟩ := Option.bind_eq_some_iff.mp hr
    obtain ⟨b, m, rfl, hc⟩ := hv v hraw
    cases hv'
    exact ⟨task, outcome, res.1, res.2, traceID, _, hm, rfl, ha, .inr ⟨b, read, hc, rfl⟩, rfl, rfl⟩

/-! ## Finalizing -/

/-- An applied finalize leaves the row done. -/
theorem keeps_finalizeSubmissionWithFence (i : Nat) (j : String) (a : Nat) (o st : String)
    (m : ResultMap) :
    Keeps kept (fun w => Started w j a o i ∧ Resolved w j a st m)
      (finalizeSubmissionWithFence i j a o st m)
      fun r w => ∀ res, r = .ok res → res.applied = true → RowDone w j := by
  have hst : Stable fun w => Started w j a o i ∧ Resolved w j a st m :=
    (stable_started j a o i).and fun w w' g h => h.grows g
  have hupdate : Keeps kept (fun w => Started w j a o i ∧ Resolved w j a st m)
      (request (.update j (.finalize a o st m) (some i)))
      fun r w => ∀ v, r = .ok (some v) → RowDone w j := by
    refine keeps_request hst (fun w _ h => ⟨i, rfl, h⟩) ?_ ?_ ?_
    · intro w ch _ _ _ _ v hv
      obtain ⟨s, s', _, hx, hw⟩ := serve_update_result hv
      obtain ⟨_, _, rfl⟩ := finalizeSubmission_eq_some.mp hx
      rw [hw]
      exact ⟨_, w.setRow_self j _, rfl⟩
    · exact fun w ch msg _ _ _ v hv => by cases hv
    · exact fun w msg _ _ v hv => by cases hv
  unfold finalizeSubmissionWithFence
  refine keeps_bind hupdate fun r => ?_
  cases r with
  | error err => exact keeps_pure fun w _ res h => by cases h
  | ok applied =>
    cases applied with
    | some v => exact keeps_pure fun w h res _ _ => h v rfl
    | none =>
      have hselect : Keeps kept (fun _ => True) (request (.select j .finalizeReject))
          fun _ _ => True :=
        keeps_request_any stable_true fun _ _ _ h => by cases h
      refine keeps_weaken (keeps_bind hselect fun row => ?_) (fun _ _ => trivial) fun _ _ h => h
      cases row with
      | error err => exact keeps_pure fun w _ res h => by cases h
      | ok row =>
        dsimp only
        refine keeps_bind (keeps_act_any stable_true fun _ _ _ => trivial) fun appNow => ?_
        refine keeps_pure fun w _ res h happ => ?_
        -- an inspected row is a rejected finalize
        cases h
        cases row with
        | none => cases happ
        | some s => cases happ

theorem keeps_runLeaseHeartbeat (cell : Nat) (j : String) (a : Nat) (o : String) (l : Int)
    (n i : Nat) :
    Keeps kept (fun w => Started w j a o i) (runLeaseHeartbeat cell j a o l n) anyOutcome := by
  have hst := stable_started j a o i
  have hlost : ∀ reason, Keeps kept (fun w => Started w j a o i)
      (do act (.cancelRun cell); act (.sendHeartbeat cell { leaseLost := true, reason := reason }))
      anyOutcome := fun reason =>
    keeps_bind (keeps_act_any hst fun _ _ _ => trivial) fun _ =>
      keeps_weaken (keeps_act_any hst fun _ _ _ => trivial) (fun _ h => h) fun _ _ _ => trivial
  have hgo : ∀ n', Keeps kept (fun w => Started w j a o i) (act (.go (.heartbeat cell j a o l n')))
      anyOutcome := fun n' =>
    keeps_weaken (keeps_act_any hst fun w _ h => ⟨i, h⟩) (fun _ h => h) fun _ _ _ => trivial
  unfold runLeaseHeartbeat
  refine keeps_bind (keeps_act_any hst fun _ _ _ => trivial) fun tick => ?_
  cases tick with
  | false =>
    exact keeps_weaken (keeps_act_any hst fun _ _ _ => trivial) (fun _ h => h) fun _ _ _ => trivial
  | true =>
    refine keeps_bind (keeps_request_any hst fun w _ h => ⟨i, h⟩) fun r => ?_
    cases r with
    | error err =>
      dsimp only
      split
      · exact hlost _
      · exact hgo _
    | ok v =>
      cases v with
      | none => exact hlost _
      | some v => exact hgo 0

/-! ## The execution and the handlers -/

theorem keeps_runClaimedExecution (cfg : WorkerConfig) (msg : StreamMessage) (task : TaskRequest)
    (j traceID : String) (a : Nat) (hj : task.jobID = j) :
    Keeps kept (fun w => Started w j a cfg.jobStreamConsumer msg.id ∧ EntryFor w msg.id j)
      (runClaimedExecution cfg msg task j traceID a) anyOutcome := by
  subst hj
  have hS := stable_started task.jobID a cfg.jobStreamConsumer msg.id
  have hE := stable_entryFor msg.id task.jobID
  have hst := hS.and hE
  unfold runClaimedExecution
  refine keeps_bind (keeps_act_any hst fun _ _ _ => trivial) fun cell => ?_
  refine keeps_bind (keeps_act_any hst fun w _ h => ⟨msg.id, h.1⟩) fun _ => ?_
  refine keeps_bind (keeps_weaken (keeps_frame hst (keeps_executeTask task a _ _))
    (fun w h => ⟨h.1, h⟩) fun _ _ h => h) fun res => ?_
  have hst' : Stable fun w => Executed w task a res ∧
      Started w task.jobID a cfg.jobStreamConsumer msg.id ∧ EntryFor w msg.id task.jobID :=
    (stable_executed task a res).and hst
  refine keeps_bind (keeps_act_any hst' fun _ _ _ => trivial) fun _ => ?_
  refine keeps_bind (keeps_act_any hst' fun _ _ _ => trivial) fun hbRes => ?_
  dsimp only
  split
  · exact keeps_pure fun _ _ => trivial
  refine keeps_bind (keeps_frame hst (keeps_resolveFinalResult task a traceID res)) fun p => ?_
  refine keeps_bind (keeps_weaken (keeps_frame hst
    (keeps_finalizeSubmissionWithFence msg.id task.jobID a cfg.jobStreamConsumer p.1 _))
    (fun w h => ⟨⟨h.2.1, h.1⟩, h.2⟩) fun _ _ h => h) fun r => ?_
  cases r with
  | error err => exact keeps_pure fun _ _ => trivial
  | ok fres =>
    dsimp only
    split
    · -- the finalize was applied
      rename_i happ
      exact keeps_weaken (keeps_ackThen msg task.jobID (.finalized a) _)
        (fun w h => ⟨h.2.2, ⟨_, h.2.1⟩, h.1 fres rfl happ⟩) fun _ _ _ => trivial
    · split
      · exact keeps_weaken (keeps_ackThen msg task.jobID (.finalizeRejected a) _)
          (fun w h => ⟨h.2.2, _, h.2.1⟩) fun _ _ _ => trivial
      · exact keeps_pure fun _ _ => trivial

/-- The claim hands out an attempt for the entry, or shows that one was started. -/
theorem keeps_claim (cfg : WorkerConfig) (i : Nat) (j : String) :
    Keeps kept (fun w => EntryFor w i j)
      (request (.update j (.claim cfg.jobStreamConsumer cfg.jobLeaseSec) (some i)))
      fun r w => EntryFor w i j ∧ (r = .ok none → RowStarted w j) ∧
        ∀ a, r = .ok (some a) → Started w j a cfg.jobStreamConsumer i := by
  refine keeps_request (stable_entryFor i j) (fun w _ h => ⟨i, rfl, h⟩) ?_ ?_ ?_
  · intro w ch hs he he' _
    refine ⟨he', fun hn => ?_, fun a ha => ?_⟩
    · obtain ⟨hnone, hw⟩ := serve_update_none hn
      obtain ⟨s, hrow⟩ := hs.hasRow (hs.entry_enqueuable he)
      rw [hw]
      refine ⟨s, hrow, fun hp => ?_⟩
      have := hnone s hrow
      simp [RowOp.exec, claimSubmissionForRun, hp] at this
    · obtain ⟨s, s', _, _, hw⟩ := serve_update_result ha
      rw [hw]
      exact List.mem_cons_self
  · exact fun w ch msg _ _ he' => ⟨he', (fun h => by cases h), fun a h => by cases h⟩
  · exact fun w msg _ he' => ⟨he', (fun h => by cases h), fun a h => by cases h⟩

theorem keeps_handleMessage (cfg : WorkerConfig) (msg : StreamMessage) :
    Keeps kept (Delivered msg) (handleMessage cfg msg) anyOutcome := by
  unfold handleMessage
  refine keeps_bind (keeps_loadTask msg) fun r => ?_
  cases r with
  | error res => exact keeps_pure fun _ _ => trivial
  | ok p =>
    obtain ⟨j, task, traceID⟩ := p
    dsimp only
    refine keeps_of_imp (φ := task.jobID = j) (fun w h => (h j task traceID rfl).2) fun hj => ?_
    refine keeps_weaken (keeps_bind (keeps_claim cfg msg.id j) fun r => ?_)
      (fun w h => (h j task traceID rfl).1) fun _ _ h => h
    cases r with
    | error err => exact keeps_pure fun _ _ => trivial
    | ok v =>
      cases v with
      | none =>
        exact keeps_weaken (keeps_ackThen msg j .claimRejected _) (fun w h => ⟨h.1, h.2.1 rfl⟩)
          fun _ _ _ => trivial
      | some a =>
        exact keeps_weaken (keeps_runClaimedExecution cfg msg task j traceID a hj)
          (fun w h => ⟨h.2.2 a rfl, h.1⟩) fun _ _ _ => trivial

/-- A reclaim hands out an attempt for the entry, or the row has been inspected. -/
def ReclaimKnown (cfg : WorkerConfig) (i : Nat) (j : String)
    (r : Except String (Nat × ReclaimDecision)) (w : World) : Prop :=
  EntryFor w i j ∧ ∀ a d, r = .ok (a, d) →
    (d = .claimed → Started w j a cfg.jobStreamConsumer i) ∧
      (d ≠ .claimed → ∃ s, LogEvent.inspected j (some s) ∈ w.log)

theorem reclaimDecision_ne_claimed (row : Option Submission) (appNow : Nat) :
    reclaimDecision row appNow ≠ .claimed := by
  cases row with
  | none => simp [reclaimDecision]
  | some s =>
    simp only [reclaimDecision]
    split_ifs <;> decide

theorem keeps_reclaimForRun (cfg : WorkerConfig) (i : Nat) (j : String) :
    Keeps kept (fun w => EntryFor w i j) (reclaimForRun cfg i j) (ReclaimKnown cfg i j) := by
  have hE := stable_entryFor i j
  have hupdate : Keeps kept (fun w => EntryFor w i j)
      (request (.update j (.reclaim cfg.jobStreamConsumer cfg.jobLeaseSec) (some i)))
      fun r w => EntryFor w i j ∧
        ∀ a, r = .ok (some a) → Started w j a cfg.jobStreamConsumer i := by
    refine keeps_request hE (fun w _ h => ⟨i, rfl, h⟩) ?_ ?_ ?_
    · intro w ch _ _ he' _
      refine ⟨he', fun a ha => ?_⟩
      obtain ⟨s, s', _, _, hw⟩ := serve_update_result ha
      rw [hw]
      exact List.mem_cons_self
    · exact fun w ch msg _ _ he' => ⟨he', fun a h => by cases h⟩
    · exact fun w msg _ he' => ⟨he', fun a h => by cases h⟩
  have hselect : Keeps kept (fun w => EntryFor w i j) (request (.select j .reclaimInspect))
      fun r w => EntryFor w i j ∧
        ∀ row, r = .ok row → ∃ s, LogEvent.inspected j (some s) ∈ w.log := by
    refine keeps_request hE (fun w hs h _ => hs.hasRow (hs.entry_enqueuable h)) ?_ ?_ ?_
    · intro w ch hs he he' _
      refine ⟨he', fun row hrow => ?_⟩
      obtain ⟨s, hs'⟩ := hs.hasRow (hs.entry_enqueuable he)
      refine ⟨s, ?_⟩
      have hev : LogEvent.inspected j (w.submissions j) ∈
          (serve w ch (.select j .reclaimInspect)).1.log := List.mem_cons_self
      rw [hs'] at hev
      exact hev
    · exact fun w ch msg _ _ he' => ⟨he', fun row h => by cases h⟩
    · exact fun w msg _ he' => ⟨he', fun row h => by cases h⟩
  unfold reclaimForRun
  refine keeps_bind hupdate fun r => ?_
  cases r with
  | error err => exact keeps_pure fun w h => ⟨h.1, fun a d h => by cases h⟩
  | ok v =>
    cases v with
    | some a =>
      refine keeps_pure fun w h => ⟨h.1, fun a' d heq => ?_⟩
      cases heq
      exact ⟨fun _ => h.2 a rfl, fun hne => absurd rfl hne⟩
    | none =>
      refine keeps_weaken (keeps_bind hselect fun r => ?_) (fun w h => h.1) fun _ _ h => h
      cases r with
      | error err => exact keeps_pure fun w h => ⟨h.1, fun a d h => by cases h⟩
      | ok row =>
        dsimp only
        have hst : Stable fun w => EntryFor w i j ∧
            ∀ row', (Except.ok row : Except String (Option Submission)) = .ok row' →
              ∃ s, LogEvent.inspected j (some s) ∈ w.log :=
          hE.and fun w w' g h row' heq => (h row' heq).imp fun _ hm => g.mem hm
        refine keeps_bind (keeps_act_any hst fun _ _ _ => trivial) fun appNow => ?_
        refine keeps_pure fun w h => ⟨h.1, fun a d heq => ?_⟩
        cases heq
        exact ⟨fun hc => absurd hc (reclaimDecision_ne_claimed row appNow), fun _ => h.2 row rfl⟩

theorem keeps_handleReclaimedMessage (cfg : WorkerConfig) (msg : StreamMessage) :
    Keeps kept (Delivered msg) (handleReclaimedMessage cfg msg) anyOutcome := by
  unfold handleReclaimedMessage
  refine keeps_bind (keeps_loadTask msg) fun r => ?_
  cases r with
  | error res => exact keeps_pure fun _ _ => trivial
  | ok p =>
    obtain ⟨j, task, traceID⟩ := p
    dsimp only
    refine keeps_of_imp (φ := task.jobID = j) (fun w h => (h j task traceID rfl).2) fun hj => ?_
    refine keeps_weaken (keeps_bind (keeps_reclaimForRun cfg msg.id j) fun r => ?_)
      (fun w h => (h j task traceID rfl).1) fun _ _ h => h
    cases r with
    | error err => exact keeps_pure fun _ _ => trivial
    | ok p =>
      obtain ⟨a, d⟩ := p
      cases d with
      | claimed =>
        exact keeps_weaken (keeps_runClaimedExecution cfg msg task j traceID a hj)
          (fun w h => ⟨(h.2 a _ rfl).1 rfl, h.1⟩) fun _ _ _ => trivial
      | leaseStillValid => exact keeps_pure fun _ _ => trivial
      | doneOrStale =>
        exact keeps_weaken (keeps_ackThen msg j .doneOrStale _)
          (fun w h => ⟨h.1, (h.2 a _ rfl).2 (by decide)⟩) fun _ _ _ => trivial
      | notFound =>
        exact keeps_weaken (keeps_ackThen msg j .notFound _)
          (fun w h => ⟨h.1, (h.2 a _ rfl).2 (by decide)⟩) fun _ _ _ => trivial

end DeepOj.Worker
