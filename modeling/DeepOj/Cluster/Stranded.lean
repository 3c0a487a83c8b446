import DeepOj.Cluster.Delivery
import DeepOj.Cluster.Recovery

/-!
# Jobs that are left behind

A row that is processing ends through an entry of the stream. Once every entry for it is
acknowledged, its event is delivered and no thread is at work on it, nothing that the services
or the schedulers do turns to it again.
-/

namespace DeepOj.Cluster

open Repository Worker Api Go Conc
open Scheduler (RepairCandidate)
open Scheduler.RepairCycle (fetchRepairCandidates mem_fetchRepairCandidates)

/-! ## What a step leaves alone -/

/-- The effect leaves the job alone, given that the job has a row. -/
def Spares (j : String) : Effect → Prop
  | .request (.update j' _ _) => j' ≠ j
  | .request (.xadd v) => requiredStreamField v.jobID ≠ some j
  | .request (.insertWithOutbox s event) => event.jobID = s.jobID ∧ UUIDText s.jobID
  | .act (.go (.heartbeat _ j' _ _ _ _)) => j' ≠ j
  | _ => True

/-- The row of the job is `r`, its entries are acknowledged, and its events are delivered. -/
structure Left (j : String) (r : Submission) (w : World) : Prop where
  row : w.submissions j = some r
  entries : ∀ e ∈ w.stream, requiredStreamField e.values.jobID = some j → e.delivery = .acked
  events : ∀ e ∈ w.outbox, requiredStreamField (some e.jobID) = some j → e.dispatchedAt ≠ none

section Step

variable {j : String} {r : Submission} {w w' : World}

theorem Left.of_same (h : Left j r w) (hs : SameData w w') : Left j r w' where
  row := by rw [hs.rows]; exact h.row
  entries := by rw [hs.stream]; exact h.entries
  events := by rw [hs.outbox]; exact h.events

theorem Left.setKey (h : Left j r w) (k : RedisKey) (v : Option RedisValue) : Left j r (w.setKey k v) :=
  ⟨h.row, h.entries, h.events⟩

/-- The row of another job. -/
theorem Left.setRow (h : Left j r w) {j' : String} (hne : j' ≠ j) (row : Submission) :
    Left j r (w.setRow j' row) :=
  ⟨(w.setRow_of_ne hne.symm row).trans h.row, h.entries, h.events⟩

theorem Left.insertRow (h : Left j r w) {s : Submission} (hnone : w.submissions s.jobID = none)
    (origin : Origin) :
    Left j r (w.insertRow s origin) :=
  ⟨rows_insertRow origin hnone h.row, h.entries, h.events⟩

theorem ne_of_new (h : Left j r w) {j' : String} (hnone : w.submissions j' = none) : j' ≠ j := by
  rintro rfl
  rw [h.row] at hnone
  cases hnone

/-- Events are changed, but none that is delivered becomes undelivered. -/
theorem Left.setOutbox (h : Left j r w) (ids : List Nat) {f : Nat → OutboxEvent → OutboxEvent}
    (hf : ∀ i e, (f i e).jobID = e.jobID ∧ (e.dispatchedAt ≠ none → (f i e).dispatchedAt ≠ none)) :
    Left j r (w.setOutbox ids f) where
  row := h.row
  entries := h.entries
  events := by
    intro e he hj
    obtain ⟨i, hi, rfl⟩ := List.mem_mapIdx.mp he
    have hold := h.events _ (List.getElem_mem hi)
    split at hj
    · rename_i hid
      rw [if_pos hid]
      rw [(hf i _).1] at hj
      exact (hf i _).2 (hold hj)
    · rename_i hid
      rw [if_neg hid]
      exact hold hj

/-- The mark of an entry changes; an entry for the job is not given out again. -/
theorem Left.setDelivery (h : Left j r w) (i : Nat) (d : Delivery)
    (hi : d = .acked ∨ ∀ e, w.stream[i]? = some e → requiredStreamField e.values.jobID ≠ some j) :
    Left j r (w.setDelivery i d) where
  row := h.row
  events := h.events
  entries := by
    intro e he hj
    obtain ⟨k, hk⟩ := List.getElem?_of_mem he
    simp only [World.setDelivery, List.getElem?_modify] at hk
    obtain ⟨e₀, he₀, heq⟩ := Option.map_eq_some_iff.mp hk
    have hold := h.entries e₀ (List.mem_of_getElem? he₀)
    by_cases hki : i = k
    · subst hki
      rw [if_pos rfl] at heq
      subst heq
      obtain rfl | hi := hi
      · rfl
      · exact absurd hj (hi e₀ he₀)
    · rw [if_neg hki] at heq
      subst heq
      exact hold hj

/-- An effect that spares the job leaves it as it is. -/
theorem Left.serve (h : Left j r w) {q : Request} (hs : Spares j (.request q)) (ch : Chance) :
    Left j r (serve w ch q).1 := by
  cases q with
  | update j' op via =>
    obtain ⟨r₀, r', v, _, _, heq⟩ | ⟨_, heq⟩ := serve_update w ch j' op via
    · rw [heq]
      have hdata := recordUpdate_eq (w.setRow j' r') j' op via v
      exact (h.setRow hs r').of_same ⟨hdata.1, hdata.2.2.1, hdata.2.1, hdata.2.2.2.1, by cases op <;> rfl⟩
    · rw [heq]
      exact h.of_same (sameData_recordSkip w j' op)
  | select j' purpose => cases purpose <;> exact ⟨h.row, h.entries, h.events⟩
  | insert s origin =>
    simp only [Cluster.serve]
    cases hr : w.submissions s.jobID with
    | none => exact h.insertRow hr origin
    | some _ => exact h
  | insertWithOutbox s event =>
    simp only [Cluster.serve]
    split
    · exact h
    · rename_i hnew
      have hnone : w.submissions s.jobID = none := by
        cases hr : w.submissions s.jobID with
        | none => rfl
        | some _ => simp [hr] at hnew
      obtain ⟨hrow, hentries, hevents⟩ := h.insertRow hnone .outbox
      refine ⟨hrow, hentries, fun e he hj => ?_⟩
      rcases List.mem_append.mp he with he | he
      · exact hevents e he hj
      · -- the new event is for the new row
        obtain ⟨hid, _, htrim⟩ := hs
        rw [List.mem_singleton.mp he] at hj
        simp only [requiredStreamField, hid, htrim] at hj
        split at hj
        · cases hj
        · exact absurd (Option.some.inj hj) (ne_of_new h hnone)
  | claimOutbox limit baseMs maxMs => exact h.setOutbox _ fun _ _ => ⟨rfl, fun h => h⟩
  | markDispatched eventID entryID =>
    refine h.setOutbox _ fun _ _ => ⟨rfl, fun _ hd => ?_⟩
    cases hd
  | markDispatchError eventID err =>
    refine h.setOutbox _ fun _ e => ⟨markOutboxDispatchError_jobID err e, fun hd => ?_⟩
    unfold markOutboxDispatchError
    rw [if_neg hd]
    exact hd
  | setNX k v =>
    simp only [Cluster.serve]
    cases w.redis k with
    | none => exact h.setKey k (some v)
    | some _ => exact h
  | get reader k => exact h.of_same (sameData_recordGet w reader k)
  | set k v => exact h.setKey k (some v)
  | del k => exact h.setKey k none
  | xadd values =>
    refine ⟨h.row, fun e he hj => ?_, h.events⟩
    rcases List.mem_append.mp he with he | he
    · exact h.entries e he hj
    · rw [List.mem_singleton.mp he] at hj
      exact absurd hj hs
  | xack i site =>
    show Left j r (w.xack i)
    unfold World.xack
    split
    · exact h.setDelivery i .acked (.inl rfl)
    · exact h
  | countActive => exact h
  | getProblem id => exact h

theorem Left.perform {e : Effect} {c : Fate} {a : e.Reply} (h : Left j r w) (hs : Spares j e)
    (hp : perform w e c = some (w', a)) : Left j r w' := by
  cases e with
  | request q =>
    obtain ⟨ch, rfl, _⟩ | ⟨rfl, _⟩ := perform_request hp
    · exact h.serve hs ch
    · exact h.of_same (sameData_drop w q)
  | act x =>
    obtain ⟨ch, ha⟩ := perform_act hp
    exact h.of_same (quiet_actLocally ha).data

/-- No move of the environment turns to the job. -/
theorem Left.envStep {v : Env} {ps : List (Program Unit)} (h : Left j r w) (hv : envStep w v = some (w', ps)) :
    Left j r w' := by
  cases change_envStep hv with
  | same hd _ => exact h.of_same hd
  | asked _ _ hd _ => exact h.of_same hd
  | dbTick => exact ⟨h.row, h.entries, h.events⟩
  | give he hd =>
    refine h.setDelivery _ _ (.inr fun e he' hj => hd ?_)
    rw [he] at he'
    cases he'
    exact h.entries _ (List.mem_of_getElem? he) hj
  | expire => exact h.setKey _ _
  | fillCache => exact h.setKey _ _

end Step

/-! ## Programs for other jobs -/

section Programs

variable {j : String}

theorem spares_of_passive {e : Effect} (h : Passive e) : Spares j e := by
  cases e with
  | request q => cases q <;> trivial
  | act a => cases a <;> trivial

theorem spares_call {α : Type} {e : Effect} {f : e.Reply → Program α} (h : Spares j e)
    (hf : ∀ r, (f r).Confined (Spares j)) : (Prog.perform e >>= f).Confined (Spares j) :=
  .call h hf

theorem spares_ackThen (msg : StreamMessage) (site : AckSite) (res : StreamProcessResult) :
    (ackThen msg site res).Confined (Spares j) := by
  have hack : (xackWithRetry msg.id site).Confined (Spares j) := by
    refine spares_call trivial fun r => ?_
    cases r with
    | ok u => exact .ret _
    | error err => exact spares_call trivial fun r => by cases r <;> exact .ret _
  exact hack.bind fun r => by cases r <;> exact .ret _

theorem spares_rejectPoison (msg : StreamMessage) {j' : String} (hne : j' ≠ j) (code err : String)
    (reason : StreamReason) : (rejectPoison msg j' code err reason).Confined (Spares j) := by
  have hmark : (markPoisonBeforeAck msg.id j' code err).Confined (Spares j) := by
    unfold markPoisonBeforeAck
    split
    · exact .ret _
    · exact spares_call hne fun r => by cases r <;> exact .ret _
  refine hmark.bind fun r => ?_
  cases r with
  | error err => exact .ret _
  | ok u => exact spares_ackThen msg _ _

theorem spares_getWithLegacy (reader : Reader) (k l : RedisKey) :
    (getWithLegacy reader k l).Confined (Spares j) :=
  (passive_getWithLegacy reader k l).mono fun _ => spares_of_passive

/-- A task that was loaded is for another job. -/
def ForOther (j : String) (loaded : Loaded) : Prop := ∀ j' task tr, loaded = .ok (j', task, tr) → j' ≠ j

/-- The program leaves the job alone, and does not return a task of it. -/
abbrev LoadsOther (j : String) (p : Program Loaded) : Prop := p.Yields (Spares j) (ForOther j)

theorem loadsOther_poisoned (msg : StreamMessage) {j' : String} (hne : j' ≠ j) (code err : String)
    (reason : StreamReason) : LoadsOther j (poisoned msg j' code err reason) :=
  (spares_rejectPoison msg hne code err reason).yields.bind fun _ _ => .ret fun _ _ _ heq => by cases heq

theorem loadsOther_checkTask (msg : StreamMessage) {j' : String} (hne : j' ≠ j) (freshTrace : String)
    (task : TaskRequest) : LoadsOther j (checkTask msg j' freshTrace task) := by
  unfold checkTask
  split
  · exact loadsOther_poisoned msg hne _ _ _
  · split
    · refine .ret fun _ _ _ heq => ?_
      cases heq
      exact hne
    · refine .ret fun _ _ _ heq => ?_
      cases heq
      exact hne

theorem loadsOther_loadTask (msg : StreamMessage) (hne : (requiredStreamField msg.values.jobID).getD "" ≠ j) :
    LoadsOther j (loadTask msg) := by
  unfold loadTask
  refine .call trivial fun freshTrace => ?_
  split
  · unfold loadPayload
    refine (spares_getWithLegacy .worker _ _).yields.bind fun raw _ => ?_
    cases raw with
    | none => exact loadsOther_poisoned msg hne _ _ _
    | some raw =>
      dsimp only
      split
      · exact loadsOther_poisoned msg hne _ _ _
      · cases decodeStreamTaskPayload raw with
        | error err => exact loadsOther_poisoned msg hne _ _ _
        | ok decoded => exact loadsOther_checkTask msg hne freshTrace _
  · exact loadsOther_poisoned msg hne _ _ _

theorem spares_runLeaseHeartbeat (cell : Nat) {j' : String} (hne : j' ≠ j) (a : Nat) (o : String)
    (l : Int) (n : Nat) :
    (runLeaseHeartbeat cell j' a o l n).Confined (Spares j) := by
  have hstop : ∀ res,
      (do act (.cancelRun cell); act (.sendHeartbeat cell res) : Program Unit).Confined (Spares j) :=
    fun res => spares_call trivial fun _ => .perform trivial
  refine spares_call trivial fun tick => ?_
  cases tick with
  | false => exact .perform trivial
  | true =>
    refine spares_call hne fun r => ?_
    cases r with
    | error err =>
      dsimp only
      split
      · exact hstop _
      · exact .perform hne
    | ok v =>
      cases v with
      | none => exact hstop _
      | some v => exact .perform hne

theorem spares_runClaimedExecution (cfg : WorkerConfig) (msg : StreamMessage) (task : TaskRequest) {j' : String}
    (hne : j' ≠ j) (tr : String) (a : Nat) :
    (runClaimedExecution cfg msg task j' tr a).Confined (Spares j) := by
  unfold runClaimedExecution
  refine spares_call trivial fun cell => spares_call hne fun _ => ?_
  refine ((passive_executeTask task a).mono fun _ => spares_of_passive).bind fun res => ?_
  refine spares_call trivial fun _ => spares_call trivial fun hbRes => ?_
  split
  · exact .ret _
  · refine ((passive_resolveFinalResult task j' a tr _ _).mono fun _ => spares_of_passive).bind fun final => ?_
    have hfinalize : ∀ st m,
        (finalizeSubmissionWithFence msg.id j' a cfg.jobStreamConsumer st m).Confined (Spares j) := by
      intro st m
      refine spares_call hne fun r => ?_
      cases r with
      | error err => exact .ret _
      | ok v =>
        cases v with
        | some v => exact .ret _
        | none =>
          refine spares_call trivial fun row => ?_
          cases row with
          | error err => exact .ret _
          | ok row => exact spares_call trivial fun _ => .ret _
    refine (hfinalize _ _).bind fun r => ?_
    cases r with
    | error err => exact .ret _
    | ok res =>
      dsimp only
      split
      · exact spares_ackThen msg _ _
      · split
        · exact spares_ackThen msg _ _
        · exact .ret _

theorem spares_handleMessage (cfg : WorkerConfig) (msg : StreamMessage)
    (hne : (requiredStreamField msg.values.jobID).getD "" ≠ j) :
    (handleMessage cfg msg).Confined (Spares j) := by
  refine (loadsOther_loadTask msg hne).bind_confined fun loaded hloaded => ?_
  cases loaded with
  | error res => exact .ret _
  | ok t =>
    obtain ⟨j', task, tr⟩ := t
    have hne' : j' ≠ j := hloaded j' task tr rfl
    refine spares_call hne' fun r => ?_
    cases r with
    | error err => exact .ret _
    | ok v =>
      cases v with
      | none => exact spares_ackThen msg _ _
      | some a => exact spares_runClaimedExecution cfg msg task hne' tr a

theorem spares_handleReclaimedMessage (cfg : WorkerConfig) (msg : StreamMessage)
    (hne : (requiredStreamField msg.values.jobID).getD "" ≠ j) :
    (handleReclaimedMessage cfg msg).Confined (Spares j) := by
  refine (loadsOther_loadTask msg hne).bind_confined fun loaded hloaded => ?_
  cases loaded with
  | error res => exact .ret _
  | ok t =>
    obtain ⟨j', task, tr⟩ := t
    have hne' : j' ≠ j := hloaded j' task tr rfl
    have hreclaim : (reclaimForRun cfg msg.id j').Confined (Spares j) := by
      refine spares_call hne' fun r => ?_
      cases r with
      | error err => exact .ret _
      | ok v =>
        cases v with
        | some a => exact .ret _
        | none =>
          refine spares_call trivial fun row => ?_
          cases row with
          | error err => exact .ret _
          | ok row => exact spares_call trivial fun _ => .ret _
    refine hreclaim.bind fun r => ?_
    cases r with
    | error err => exact .ret _
    | ok p =>
      obtain ⟨a, decision⟩ := p
      cases decision with
      | claimed => exact spares_runClaimedExecution cfg msg task hne' tr a
      | leaseStillValid => exact .ret _
      | doneOrStale => exact spares_ackThen msg _ _
      | notFound => exact spares_ackThen msg _ _

theorem spares_dispatchAll (l : List (Nat × OutboxEvent))
    (hl : ∀ p ∈ l, requiredStreamField (some p.2.jobID) ≠ some j) : (dispatchAll l).Confined (Spares j) := by
  have hmark : ∀ i err, (markDispatchError i err).Confined (Spares j) := fun _ _ =>
    spares_call trivial fun _ => .ret _
  induction l with
  | nil => exact .ret _
  | cons p rest ih =>
    obtain ⟨i, evt⟩ := p
    refine .bind ?_ fun _ => ih fun p hp => hl p (List.mem_cons_of_mem _ hp)
    refine spares_call trivial fun r => ?_
    cases r with
    | error err => exact hmark i err
    | ok u =>
      refine spares_call (hl (i, evt) List.mem_cons_self) fun r => ?_
      cases r with
      | error err => exact spares_call trivial fun _ => hmark i err
      | ok entryID => exact spares_call trivial fun _ => .ret _

theorem spares_runRepairCycle (l : List RepairCandidate) (seen : List String)
    (hl : ∀ c ∈ l, requiredStreamField (some c.jobID) ≠ some j) :
    (runRepairCycle l seen).Confined (Spares j) := by
  induction l generalizing seen with
  | nil => exact .ret _
  | cons c rest ih =>
    have hrest : ∀ c' ∈ rest, requiredStreamField (some c'.jobID) ≠ some j :=
      fun c' hc' => hl c' (List.mem_cons_of_mem _ hc')
    unfold runRepairCycle
    split
    · exact ih seen hrest
    · refine .bind ?_ fun _ => ih _ hrest
      refine spares_call trivial fun r => ?_
      cases r with
      | error err => exact .ret _
      | ok u => exact spares_call trivial fun ts => spares_call (hl c List.mem_cons_self) fun _ => .ret _

theorem spares_handleStatus (caller : Caller) (j' : String) : (handleStatus caller j').Confined (Spares j) := by
  have hreply : ∀ r, (reply caller r).Confined (Spares j) := fun r => .perform trivial
  unfold handleStatus
  split
  · exact hreply _
  · refine spares_call trivial fun r => ?_
    cases r with
    | error err => exact hreply _
    | ok row =>
      cases row with
      | none => exact hreply _
      | some submission =>
        dsimp only
        cases caller.userID with
        | none => exact hreply _
        | some u =>
          dsimp only
          split
          · exact hreply _
          · refine (spares_getWithLegacy .api _ _).bind fun raw => ?_
            cases raw with
            | none => exact hreply _
            | some v =>
              dsimp only
              split
              · exact hreply _
              · cases v.asMap with
                | some m => exact hreply _
                | none => exact spares_call trivial fun _ => hreply _

end Programs

/-! ## Programs that learn which job they are for -/

/-- The contract of leaving the job alone. -/
def leaving (j : String) (r : Submission) : Discipline World Effect where
  Inv := Left j r
  Allowed e _ := Spares j e
  Rely _ _ _ := True
  rely_refl _ _ := trivial
  rely_trans _ _ _ _ _ _ := trivial

section Leaving

variable {j : String} {r : Submission}

theorem meets_of_spares {α : Type} {p : Program α} (h : p.Confined (Spares j)) : Meets (leaving j r) p :=
  .of_confined (h.mono fun _ he _ => he)

theorem preparatory_leaving : AllowsPreparatory (leaving j r) := by
  intro e h w
  show Spares j e
  cases e with
  | request q => cases q <;> trivial
  | act a => cases a <;> trivial

/-- A row that is inserted is not the row of the job. -/
theorem meets_insert {s : Submission} {origin : Origin} {f : Except String Unit → Program Unit}
    (hf : ∀ a, (a = .ok () → s.jobID ≠ j) → Meets (leaving j r) (f a)) :
    Meets (leaving j r) (request (.insert s origin) >>= f) := by
  refine .call (fun a _ => a = .ok () → s.jobID ≠ j) (fun _ _ _ h => h) (fun _ _ _ => trivial) ?_
    fun a => ⟨fun w ha => (hf a ha).wp w trivial⟩
  intro w c w' a hleft _ hp _ hok
  obtain ⟨ch, _, rfl | ⟨msg, rfl⟩⟩ | ⟨_, msg, rfl⟩ := perform_request hp
  · simp only [serve] at hok
    cases hr : w.submissions s.jobID with
    | none => exact ne_of_new hleft hr
    | some _ => rw [hr] at hok; cases hok
  · cases hok
  · cases hok

theorem meets_submitCached (caller : Caller) (req : SubmitRequest) (m : ResultMap) :
    Meets (leaving j r) (submitCached caller req m) := by
  unfold submitCached
  refine meets_uuid (fun _ => trivial) fun j' _ => meets_insert fun a ha => ?_
  cases a with
  | error err => exact meets_reply preparatory_leaving _
  | ok u => exact meets_step (fun _ => ha rfl) fun _ => meets_reply preparatory_leaving _

theorem meets_persistSubmission (cfg : ApiConfig) (caller : Caller) (req : SubmitRequest) (fingerprint : String)
    {j' : String} (hu : UUIDText j') :
    Meets (leaving j r) (persistSubmission cfg caller req fingerprint j') := by
  have hfail : ∀ k code, Meets (leaving j r) (do let _ ← request (.del k); reply caller (.error code)) :=
    fun k code => meets_step (fun _ => trivial) fun _ => meets_reply preparatory_leaving _
  unfold persistSubmission
  refine meets_step (fun _ => trivial) fun ts => ?_
  dsimp only
  split
  · refine meets_step (fun _ => ⟨rfl, hu⟩) fun a => ?_
    cases a with
    | error err => exact hfail _ _
    | ok i => exact meets_reply preparatory_leaving _
  · refine meets_insert fun a ha => ?_
    cases a with
    | error err => exact hfail _ _
    | ok u =>
      have hne : requiredStreamField (some j') ≠ some j := by
        simp only [requiredStreamField, hu.2, if_neg hu.1]
        exact fun heq => ha rfl (Option.some.inj heq)
      refine .bind (Q := fun _ _ => True) ?_ fun a => ?_
      · unfold enqueueJobToStream
        refine meets_step (fun _ => trivial) fun ts => meets_step (fun _ => trivial) fun a => ?_
        cases a with
        | error err => exact .ret fun _ _ => trivial
        | ok u =>
          refine meets_step (fun _ => hne) fun a => ?_
          cases a with
          | error err => exact meets_step (fun _ => trivial) fun _ => .ret fun _ _ => trivial
          | ok i => exact .ret fun _ _ => trivial
      · cases a with
        | error err => exact hfail _ _
        | ok i => exact meets_reply preparatory_leaving _

/-- An event that is claimed waits to be delivered, so it is not for the job. -/
theorem meets_dispatchOnce (cfg : DispatcherConfig) : Meets (leaving j r) (dispatchOnce cfg) := by
  unfold dispatchOnce
  refine .call (fun a _ => ∀ l, a = .ok l → ∀ p ∈ l, requiredStreamField (some p.2.jobID) ≠ some j)
    (fun _ _ _ h => h) (fun _ _ _ => trivial) ?_ fun a => ?_
  · intro w c w' a hleft _ hp _ l hl p hmem hj
    obtain ⟨ch, rfl, rfl | ⟨msg, rfl⟩⟩ | ⟨_, msg, rfl⟩ := perform_request hp
    · cases hl
      obtain ⟨i, hi, heq⟩ := List.mem_filterMap.mp hmem
      obtain ⟨e, he, rfl⟩ := Option.map_eq_some_iff.mp heq
      obtain ⟨_, e₀, he₀, hclaimable⟩ := of_mem_pickOutbox hi
      simp only [World.claimOutbox, World.setOutbox, List.getElem?_mapIdx, he₀, Option.map_some,
        if_pos hi] at he
      cases he
      exact hleft.events e₀ (List.mem_of_getElem? he₀) hj hclaimable.1.2
    · cases hl
    · cases hl
  · refine ⟨fun w hne => ?_⟩
    cases a with
    | error err => trivial
    | ok l => exact (meets_of_spares (spares_dispatchAll l (hne l rfl))).wp w trivial

end Leaving

/-! ## Every run -/

section Run

variable {j : String} {r : Submission}

/-- The programs that a move of the environment starts leave the job alone. -/
theorem meets_envStep {w w' : World} {v : Env} {ps : List (Program Unit)} (hj : j ≠ "") (hleft : Left j r w)
    (hv : envStep w v = some (w', ps)) : ∀ p ∈ ps, Meets (leaving j r) p := by
  have hhandler : ∀ {p : Program StreamProcessResult}, p.Confined (Spares j) →
      Meets (leaving j r) (handler p) :=
    fun h => meets_of_spares (h.bind fun _ => .ret _)
  have hother : ∀ {values : StreamValues} {d : Delivery} {i : Nat},
      w.stream[i]? = some ⟨values, d⟩ → d ≠ .acked →
      (requiredStreamField values.jobID).getD "" ≠ j := by
    intro values d i he hd heq
    cases hf : requiredStreamField values.jobID with
    | none => exact hj (by rw [← heq, hf]; rfl)
    | some j' =>
      rw [hf] at heq
      exact hd (hleft.entries _ (List.mem_of_getElem? he) (by rw [hf]; exact congrArg some heq))
  intro p hp
  cases v with
  | dbTick d => cases hv; exact absurd hp List.not_mem_nil
  | redisTick d => cases hv; exact absurd hp List.not_mem_nil
  | deliver cfg i =>
    simp only [envStep] at hv
    split at hv
    · rename_i values he
      cases hv
      rw [List.mem_singleton.mp hp]
      exact hhandler (spares_handleMessage cfg ⟨i, values⟩ (hother he (fun h => by cases h)))
    · cases hv
  | autoclaim cfg i =>
    simp only [envStep] at hv
    split at hv
    · rename_i values c t he
      split at hv
      · cases hv
        rw [List.mem_singleton.mp hp]
        exact hhandler (spares_handleReclaimedMessage cfg ⟨i, values⟩ (hother he (fun h => by cases h)))
      · cases hv
    · cases hv
  | dispatch cfg =>
    cases hv
    rw [List.mem_singleton.mp hp]
    exact meets_dispatchOnce cfg
  | submit cfg requestID userID body =>
    cases hv
    rw [List.mem_singleton.mp hp]
    exact meets_handleSubmit preparatory_leaving cfg _ body (meets_submitCached _)
      fun req fp j' hu => meets_persistSubmission cfg _ req fp hu
  | status userID admin j' =>
    cases hv
    rw [List.mem_singleton.mp hp]
    exact meets_of_spares (spares_handleStatus _ j')
  | expire k => cases hv; exact absurd hp List.not_mem_nil
  | fillCache fp v => cases hv; exact absurd hp List.not_mem_nil

/-- A candidate of a repair cycle waits, so it is not the job that is processing. -/
theorem spares_fetched {w : World} (hf : Faithful w) (hleft : Left j r w)
    (hr : r.state = "processing") (now : Nat)
    (minAgeSec limit : Int) :
    ∀ c ∈ fetchRepairCandidates now minAgeSec limit (w.jobs.filterMap w.submissions),
      requiredStreamField (some c.jobID) ≠ some j := by
  intro c hc heq
  obtain ⟨row, hrow, hdue, rfl⟩ := mem_fetchRepairCandidates hc
  obtain ⟨j', _, hj'⟩ := List.mem_filterMap.mp hrow
  obtain ⟨hid, hu, _⟩ := (hf.rows j' row hj').1
  have hcand : (Scheduler.repairCandidate row).jobID = j' := hid
  simp only [requiredStreamField, hcand, hu.2, if_neg hu.1, Option.some.injEq] at heq
  subst heq
  rw [hleft.row] at hj'
  cases hj'
  have hpending : r.state = "pending" := hdue.1
  rw [hr] at hpending
  exact absurd hpending (by decide)

/-- The contract covers every move of a run in which every copy of a task is faithful. -/
theorem sound_leaving (hj : j ≠ "") (hr : r.state = "processing") :
    repairSystem.Sound (leaving j r) fun s _ => Faithful s.world where
  call_inv := fun _ _ _ _ _ _ _ hleft hs _ _ hp => hleft.perform hs hp
  call_rely := fun _ _ _ _ _ _ _ _ _ _ _ _ _ _ _ _ => trivial
  fork_wp := by
    intro w e c w' _ _ hs _ _ p hp
    cases e with
    | request q => exact absurd hp List.not_mem_nil
    | act x =>
      cases x with
      | go g =>
        rw [List.mem_singleton.mp hp]
        cases g with
        | heartbeat cell j' a o l n =>
            exact (meets_of_spares (spares_runLeaseHeartbeat cell hs a o l n)).wp w' trivial
      | _ => exact absurd hp List.not_mem_nil
  env_inv := by
    intro s v w ps hleft _ hv
    cases v with
    | base v => exact hleft.envStep hv
    | repair cfg now => cases hv; exact hleft
  env_rely := fun _ _ _ _ _ _ _ _ _ _ => trivial
  env_wp := by
    intro s v w ps hleft hf hv _ p hp
    cases v with
    | base v => exact (meets_envStep hj hleft hv p hp).wp w trivial
    | repair cfg now =>
      cases hv
      rw [List.mem_singleton.mp hp]
      exact (meets_of_spares (spares_runRepairCycle _ [] (spares_fetched hf hleft hr now _ _))).wp _ trivial

/-- Nothing is at work on the job: its event is delivered, and no thread turns to it. -/
structure AtRest (s : State) (j : String) : Prop where
  events : ∀ e ∈ s.world.outbox, e.jobID = j → e.dispatchedAt ≠ none
  threads : ∀ p ∈ s.threads, p.Confined (Spares j)

theorem left_of_atRest {s : State} (hf : Faithful s.world) (hrow : s.world.submissions j = some r)
    (hrest : AtRest s j) (hnone : ¬ Held s.world j) : Left j r s.world where
  row := hrow
  entries := by
    intro e he hj
    by_contra hd
    obtain ⟨i, hi⟩ := List.getElem?_of_mem he
    exact hnone ⟨i, e, hi, hj, hd⟩
  events := by
    intro e he hj
    obtain ⟨i, hi⟩ := List.getElem?_of_mem he
    obtain ⟨_, row, hrow', _⟩ := hf.events i e hi
    obtain ⟨_, hu, _⟩ := (hf.rows e.jobID row hrow').1
    simp only [requiredStreamField, hu.2, if_neg hu.1, Option.some.injEq] at hj
    exact hrest.events e he hj

/-- What is left behind stays as it is, whatever happens. -/
theorem left_forever {s s' : State} (h : repairSystem.Reach Machine.anyMove start s)
    (hrow : s.world.submissions j = some r) (hr : r.state = "processing") (hrest : AtRest s j)
    (hnone : ¬ Held s.world j) (hrun : repairSystem.Reach Machine.anyMove s s') : Left j r s'.world := by
  have hf := faithful_reach h
  have hj : j ≠ "" := (hf.rows j r hrow).1.uuid.1
  have hgood : repairSystem.Good (leaving j r) s :=
    ⟨left_of_atRest hf hrow hrest hnone, fun p hp => (meets_of_spares (hrest.threads p hp)).wp _ trivial⟩
  have hfaithful : repairSystem.Reach (fun s _ => Faithful s.world) s s' ∧
      repairSystem.Reach Machine.anyMove start s' := by
    induction hrun with
    | init => exact ⟨.init, h⟩
    | step m _ hok hstep ih => exact ⟨.step m ih.1 (faithful_reach ih.2) hstep, .step m ih.2 hok hstep⟩
  exact ((sound_leaving hj hr).reach hgood hfaithful.1).inv

end Run

/-- Attempt 1 has come back after its lease, and its entry is acknowledged. -/
def leftBehind : List Step := leaseRanOut ++ calls 2 1

end DeepOj.Cluster
