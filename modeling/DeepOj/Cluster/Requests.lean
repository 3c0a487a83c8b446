import DeepOj.Cluster.Moves
import DeepOj.Conc.Record

/-!
# What a request has done

The record of a request: who sent it, the job ids it has generated, the rows it has
created or seen, the ids it was given from an in-flight key, and the ids it has
answered with. An id in an answer comes from one of these.
-/

namespace DeepOj.Cluster

open Repository Worker Api Conc Go

/-- What a thread has done and learnt. -/
structure Record where
  /-- It handles a submit request. -/
  submits : Bool := false
  userID : Option Nat := none
  drawn : List String := []
  /-- The jobs whose row its own insert created. -/
  persisted : List String := []
  /-- The jobs whose row it has read. -/
  found : List String := []
  /-- The job ids it has read from an in-flight key. -/
  given : List String := []
  answered : List String := []

/-- The job id a successful response carries. -/
def ApiReply.jobID : ApiReply → Option String
  | .error _ => none
  | .queuing jobID => some jobID
  | .status jobID _ _ _ => some jobID

/-- The text of an in-flight key. -/
def inflightText : RedisKey → Option RedisValue → Option String
  | ⟨_, .inflight _⟩, some (.text jobID) => some jobID
  | _, _ => none

/-- What an effect and its reply add to a record. -/
def Record.next (g : Record) : (e : Effect) → e.Reply → Record
  | .act .uuid, jobID => { g with drawn := jobID :: g.drawn }
  | .act (.reply _ a), _ => { g with answered := a.jobID.toList ++ g.answered }
  | .request (.insert s _), .ok _ => { g with persisted := s.jobID :: g.persisted }
  | .request (.insertWithOutbox s _), .ok _ => { g with persisted := s.jobID :: g.persisted }
  | .request (.select jobID _), .ok (some _) => { g with found := jobID :: g.found }
  | .request (.get _ k), .ok v => { g with given := (inflightText k v).toList ++ g.given }
  | _, _ => g

/-- The recorder of the system. -/
def recorder : Recorder Effect Effect.Reply Env Record where
  start
    | .submit _ _ userID _ => { submits := true, userID := userID }
    | _ => {}
  fork _ := {}
  next := Record.next

/-- A recorded configuration of the system. -/
abbrev RecordedState := RecordedConfig World Effect Effect.Reply Record

/-- One recorded move of the system. -/
abbrev recordStep (s : RecordedState) (m : Step) : Option RecordedState := system.record recorder s m

/-- The system before anything has happened. -/
def recordedStart : RecordedState := ⟨World.empty, []⟩

/-! ## The rules the programs follow -/

/-- An answer names a job whose row the thread has created or read, or an id it was
given; a row is only created for an id the thread has generated, for the user of
the request. -/
def Follows (g : Record) : Effect → Prop
  | .act (.reply _ a) => ∀ jobID ∈ a.jobID,
      jobID ∈ g.persisted ∨ jobID ∈ g.given ∨ (g.submits = false ∧ jobID ∈ g.found)
  | .request (.insert s _) =>
      g.submits = true ∧ ∃ jobID ∈ g.drawn, ∃ req, s = newSubmission jobID g.userID req
  | .request (.insertWithOutbox s event) =>
      g.submits = true ∧ event.jobID = s.jobID ∧
        ∃ jobID ∈ g.drawn, ∃ req, s = newSubmission jobID g.userID req
  | _ => True

/-- The rules of the threads; nothing is expected of the replies. -/
def requestRules : Rules Effect Effect.Reply Record where
  allowed := Follows
  promised _ _ _ := True
  ended _ := True

/-- Effects that every thread may perform. -/
def Effect.Plain : Effect → Prop
  | .act (.reply _ a) => a.jobID = none
  | .request (.insert ..) => False
  | .request (.insertWithOutbox ..) => False
  | _ => True

theorem follows_of_plain {g : Record} {e : Effect} (h : e.Plain) : Follows g e := by
  cases e with
  | act a =>
    cases a with
    | reply rid a =>
      intro jobID hj
      rw [show a.jobID = none from h] at hj
      cases hj
    | _ => trivial
  | request q =>
    cases q with
    | insert s origin => exact h.elim
    | insertWithOutbox s event => exact h.elim
    | _ => trivial

/-- A program of a thread that answers nothing and creates no row. -/
structure Plain {α : Type} (p : Program α) : Prop where
  uses : p.Uses Effect.Plain

/-- `g'` is a later state of the record `g`. -/
structure Record.Extends (g g' : Record) : Prop where
  submits : g'.submits = g.submits
  userID : g'.userID = g.userID
  drawn : g.drawn ⊆ g'.drawn
  persisted : g.persisted ⊆ g'.persisted
  found : g.found ⊆ g'.found
  given : g.given ⊆ g'.given
  answered : g.answered ⊆ g'.answered

theorem Record.Extends.refl (g : Record) : g.Extends g :=
  ⟨rfl, rfl, fun _ h => h, fun _ h => h, fun _ h => h, fun _ h => h, fun _ h => h⟩

theorem Record.Extends.trans {g₁ g₂ g₃ : Record} (h : g₁.Extends g₂) (h' : g₂.Extends g₃) :
    g₁.Extends g₃ :=
  ⟨h'.submits.trans h.submits, h'.userID.trans h.userID, fun _ hj => h'.drawn (h.drawn hj),
    fun _ hj => h'.persisted (h.persisted hj), fun _ hj => h'.found (h.found hj),
    fun _ hj => h'.given (h.given hj), fun _ hj => h'.answered (h.answered hj)⟩

/-- An effect only adds to a record. -/
theorem extends_next (g : Record) (e : Effect) (r : e.Reply) : g.Extends (g.next e r) := by
  have hself : g.Extends g := .refl g
  cases e with
  | act a =>
    cases a with
    | uuid => exact { hself with drawn := List.subset_cons_self r g.drawn }
    | reply rid a =>
      exact { hself with answered := List.subset_append_right a.jobID.toList g.answered }
    | _ => exact hself
  | request q =>
    cases q with
    | insert s origin =>
      cases r with
      | error err => exact hself
      | ok u => exact { hself with persisted := List.subset_cons_self s.jobID g.persisted }
    | insertWithOutbox s event =>
      cases r with
      | error err => exact hself
      | ok u => exact { hself with persisted := List.subset_cons_self s.jobID g.persisted }
    | select j purpose =>
      cases r with
      | error err => exact hself
      | ok row =>
        cases row with
        | none => exact hself
        | some row => exact { hself with found := List.subset_cons_self j g.found }
    | get reader k =>
      cases r with
      | error err => exact hself
      | ok v =>
        exact { hself with given := List.subset_append_right (inflightText k v).toList g.given }
    | _ => exact hself

/-- The program heeds the rules from a record `g`. -/
abbrev Obeys {α : Type} (g : Record) (p : Program α) (Q : Record → α → Prop) : Prop :=
  Conc.Obeys recorder requestRules g p Q

section Rules

variable {α β : Type} {g : Record}

theorem obeys_effect {e : Effect} {f : e.Reply → Program β} {Q : Record → β → Prop}
    (h : Follows g e) (hf : ∀ r, Obeys (g.next e r) (f r) Q) : Obeys g (Prog.perform e >>= f) Q :=
  .effect h fun r _ => hf r

/-- A plain program before another leaves a record that extends the one it found. -/
theorem obeys_plain_bind {p : Program α} {f : α → Program β} {Q : Record → β → Prop}
    (hp : Plain p) (hf : ∀ g' a, g.Extends g' → Obeys g' (f a) Q) : Obeys g (p >>= f) Q := by
  have hg : Heeds recorder requestRules g p fun g' _ => g.Extends g' :=
    heeds_of_uses (L := requestRules) (I := g.Extends) (fun _ _ _ he => follows_of_plain he)
      (fun g' e r hg _ => hg.trans (extends_next g' e r)) hp.uses (.refl g)
  exact .bind ⟨hg⟩ hf

theorem obeys_of_plain {p : Program α} (h : Plain p) : Obeys g p fun _ _ => True :=
  ⟨heeds_of_uses (L := requestRules) (I := fun _ => True) (fun _ _ _ he => follows_of_plain he)
    (fun _ _ _ _ _ => trivial) h.uses trivial⟩

theorem obeys_reply {caller : Caller} {a : ApiReply}
    (h : ∀ j ∈ a.jobID, j ∈ g.persisted ∨ j ∈ g.given ∨ (g.submits = false ∧ j ∈ g.found)) :
    Obeys g (reply caller a) fun _ _ => True :=
  .perform h fun _ _ => trivial

/-- An error names no job. -/
theorem obeys_replyError (caller : Caller) (code : String) :
    Obeys g (reply caller (.error code)) fun _ _ => True :=
  obeys_reply fun j hj => by cases hj

end Rules

/-! ## Workers and dispatchers -/

theorem plain_effect {β : Type} {e : Effect} {f : e.Reply → Program β} (h : e.Plain)
    (hf : ∀ r, Plain (f r)) : Plain (Prog.perform e >>= f) :=
  ⟨h, fun r => (hf r).uses⟩

theorem plain_perform {e : Effect} (h : e.Plain) : Plain (Prog.perform e) :=
  ⟨h, fun _ => trivial⟩

theorem plain_pure {α : Type} (a : α) : Plain (pure a : Program α) := ⟨trivial⟩

theorem plain_bind {α β : Type} {p : Program α} {f : α → Program β} (hp : Plain p)
    (hf : ∀ a, Plain (f a)) : Plain (p >>= f) :=
  ⟨Prog.Uses.bind hp.uses fun a => (hf a).uses⟩

theorem plain_getWithLegacy (reader : Reader) (k l : RedisKey) :
    Plain (getWithLegacy reader k l) := by
  unfold getWithLegacy
  refine plain_effect trivial fun r => ?_
  dsimp only
  split
  · exact plain_effect trivial fun r => plain_pure _
  · exact plain_pure _

theorem plain_xackWithRetry (i : Nat) (site : AckSite) : Plain (xackWithRetry i site) := by
  unfold xackWithRetry
  refine plain_effect trivial fun r => ?_
  cases r with
  | ok u => exact plain_pure _
  | error err =>
    refine plain_effect trivial fun r => ?_
    cases r <;> exact plain_pure _

theorem plain_ackThen (msg : StreamMessage) (site : AckSite) (res : StreamProcessResult) :
    Plain (ackThen msg site res) := by
  refine plain_bind (plain_xackWithRetry msg.id site) fun r => ?_
  cases r <;> exact plain_pure _

theorem plain_poisoned (msg : StreamMessage) (j code err : String) (reason : StreamReason) :
    Plain (poisoned msg j code err reason) := by
  refine plain_bind (plain_bind ?_ fun r => ?_) fun _ => plain_pure _
  · unfold markPoisonBeforeAck
    by_cases hj : trimSpace j = ""
    · rw [if_pos hj]
      exact plain_pure _
    · rw [if_neg hj]
      refine plain_effect trivial fun r => ?_
      cases r <;> exact plain_pure _
  · cases r with
    | error err => exact plain_pure _
    | ok u => exact plain_ackThen msg .poison _

theorem plain_checkTask (msg : StreamMessage) (j trace : String) (task : TaskRequest) :
    Plain (checkTask msg j trace task) := by
  unfold checkTask
  by_cases hj : task.jobID ≠ j
  · rw [if_pos hj]
    exact plain_poisoned ..
  · rw [if_neg hj]
    split <;> exact plain_pure _

theorem plain_loadPayload (msg : StreamMessage) (j trace : String) (ref : RedisKey) :
    Plain (loadPayload msg j trace ref) := by
  unfold loadPayload
  refine plain_bind (plain_getWithLegacy .worker _ _) fun raw => ?_
  cases raw with
  | none =>
    dsimp only
    exact plain_poisoned ..
  | some raw =>
    dsimp only
    by_cases hb : raw.isBlank = true
    · rw [if_pos hb]
      exact plain_poisoned ..
    · rw [if_neg hb]
      split
      · exact plain_poisoned ..
      · exact plain_checkTask msg j trace _

theorem plain_loadTask (msg : StreamMessage) : Plain (loadTask msg) := by
  unfold loadTask
  refine plain_effect trivial fun trace => ?_
  split
  · exact plain_loadPayload ..
  · exact plain_poisoned ..

theorem plain_runLeaseHeartbeat (cell : Nat) (j : String) (a : Nat) (o : String) (l : Int)
    (n : Nat) : Plain (runLeaseHeartbeat cell j a o l n) := by
  unfold runLeaseHeartbeat
  refine plain_effect trivial fun tick => ?_
  have hgive : ∀ r, Plain (do act (.cancelRun cell); act (.sendHeartbeat cell r)) :=
    fun r => plain_effect trivial fun _ => plain_perform trivial
  cases tick with
  | false => exact plain_perform trivial
  | true =>
    refine plain_effect trivial fun r => ?_
    cases r with
    | error err =>
      dsimp only
      split
      · exact hgive _
      · exact plain_perform trivial
    | ok v =>
      cases v with
      | none => exact hgive _
      | some n => exact plain_perform trivial

theorem plain_executeTask (task : TaskRequest) (a : Nat) : Plain (executeTask task a) := by
  unfold executeTask taskTraceID
  refine plain_bind ?_ fun trace => plain_effect trivial fun outcome => ?_
  · split
    · exact plain_perform trivial
    · exact plain_pure _
  · have hreport : Plain (reportOutcome task a trace outcome) := by
      unfold reportOutcome
      by_cases hs : isSafeJobID task.jobID = false
      · rw [if_pos hs]
        exact plain_pure _
      · rw [if_neg hs]
        cases reportedResult task a trace outcome with
        | none => exact plain_pure _
        | some m =>
          refine plain_bind (plain_effect trivial fun r => ?_) fun r => ?_
          · cases r <;> exact plain_pure _
          · cases r <;> exact plain_pure _
    cases outcome with
    | busy err => exact plain_pure _
    | _ => exact hreport

theorem plain_finalizeSubmissionWithFence (i : Nat) (j : String) (a : Nat) (o st : String)
    (m : ResultMap) : Plain (finalizeSubmissionWithFence i j a o st m) := by
  unfold finalizeSubmissionWithFence
  refine plain_effect trivial fun r => ?_
  cases r with
  | error err => exact plain_pure _
  | ok v =>
    cases v with
    | some n => exact plain_pure _
    | none =>
      refine plain_effect trivial fun r => ?_
      cases r with
      | error err => exact plain_pure _
      | ok row => exact plain_effect trivial fun now => plain_pure _

theorem plain_resolveFinalResult (task : TaskRequest) (j : String) (a : Nat) (trace : String)
    (resp : Option TaskResponse) (err : Option String) :
    Plain (resolveFinalResult task j a trace resp err) := by
  unfold resolveFinalResult
  refine plain_bind (plain_getWithLegacy .worker _ _) fun raw => ?_
  cases raw.bind RedisValue.asMap <;> exact plain_pure _

theorem plain_runClaimedExecution (cfg : WorkerConfig) (msg : StreamMessage) (task : TaskRequest)
    (j trace : String) (a : Nat) : Plain (runClaimedExecution cfg msg task j trace a) := by
  unfold runClaimedExecution
  refine plain_effect trivial fun cell => plain_effect trivial fun _ => ?_
  refine plain_bind (plain_executeTask task a) fun answer => plain_effect trivial fun _ => ?_
  refine plain_effect trivial fun hb => ?_
  by_cases hl : hb.leaseLost = true
  · rw [if_pos hl]
    exact plain_pure _
  · rw [if_neg hl]
    refine plain_bind (plain_resolveFinalResult task j a trace _ _) fun final => ?_
    refine plain_bind (plain_finalizeSubmissionWithFence ..) fun r => ?_
    cases r with
    | error err => exact plain_pure _
    | ok res =>
      dsimp only
      split
      · exact plain_ackThen ..
      · split
        · exact plain_ackThen ..
        · exact plain_pure _

theorem plain_handleMessage (cfg : WorkerConfig) (msg : StreamMessage) :
    Plain (handleMessage cfg msg) := by
  unfold handleMessage
  refine plain_bind (plain_loadTask msg) fun loaded => ?_
  cases loaded with
  | error res => exact plain_pure _
  | ok t =>
    refine plain_effect trivial fun r => ?_
    cases r with
    | error err => exact plain_pure _
    | ok v =>
      cases v with
      | none => exact plain_ackThen ..
      | some a => exact plain_runClaimedExecution ..

theorem plain_handleReclaimedMessage (cfg : WorkerConfig) (msg : StreamMessage) :
    Plain (handleReclaimedMessage cfg msg) := by
  unfold handleReclaimedMessage
  refine plain_bind (plain_loadTask msg) fun loaded => ?_
  cases loaded with
  | error res => exact plain_pure _
  | ok t =>
    have hreclaim : Plain (reclaimForRun cfg msg.id t.1) := by
      unfold reclaimForRun
      refine plain_effect trivial fun r => ?_
      cases r with
      | error err => exact plain_pure _
      | ok v =>
        cases v with
        | some a => exact plain_pure _
        | none =>
          refine plain_effect trivial fun r => ?_
          cases r with
          | error err => exact plain_pure _
          | ok row => exact plain_effect trivial fun now => plain_pure _
    refine plain_bind hreclaim fun r => ?_
    cases r with
    | error err => exact plain_pure _
    | ok d =>
      obtain ⟨a, d⟩ := d
      cases d with
      | claimed => exact plain_runClaimedExecution ..
      | leaseStillValid => exact plain_pure _
      | doneOrStale => exact plain_ackThen ..
      | notFound => exact plain_ackThen ..

theorem plain_enqueueJobToStream (j : String) (task : TaskRequest) :
    Plain (enqueueJobToStream j task) := by
  unfold enqueueJobToStream
  refine plain_effect trivial fun ts => plain_effect trivial fun r => ?_
  cases r with
  | error err => exact plain_pure _
  | ok u =>
    refine plain_effect trivial fun r => ?_
    cases r with
    | error err => exact plain_effect trivial fun _ => plain_pure _
    | ok i => exact plain_pure _

theorem plain_markDispatchError (i : Nat) (err : String) : Plain (markDispatchError i err) :=
  plain_effect trivial fun _ => plain_pure _

theorem plain_dispatchOne (i : Nat) (evt : OutboxEvent) : Plain (dispatchOne i evt) := by
  unfold dispatchOne
  refine plain_effect trivial fun r => ?_
  cases r with
  | error err => exact plain_markDispatchError i err
  | ok u =>
    refine plain_effect trivial fun r => ?_
    cases r with
    | error err => exact plain_effect trivial fun _ => plain_markDispatchError i err
    | ok entryID => exact plain_effect trivial fun _ => plain_pure _

theorem plain_dispatchAll (l : List (Nat × OutboxEvent)) : Plain (dispatchAll l) := by
  induction l with
  | nil => exact plain_pure _
  | cons p rest ih => exact plain_bind (plain_dispatchOne p.1 p.2) fun _ => ih

theorem plain_dispatchOnce (cfg : DispatcherConfig) : Plain (dispatchOnce cfg) := by
  unfold dispatchOnce
  refine plain_effect trivial fun r => ?_
  cases r with
  | error err => exact plain_pure _
  | ok l => exact plain_dispatchAll l

theorem plain_handler {p : Program StreamProcessResult} (h : Plain p) : Plain (handler p) :=
  plain_bind h fun _ => plain_pure _

/-! ## Submitting and reading -/

section Submit

variable {g : Record} {caller : Caller}

theorem obeys_delThenError (k : RedisKey) (code : String) :
    Obeys g (do let _ ← request (.del k); reply caller (.error code)) fun _ _ => True :=
  obeys_effect trivial fun _ => obeys_replyError caller code

/-- The id of a row the thread has just created may be answered. -/
theorem obeys_replyQueuing {j : String} (h : j ∈ g.persisted ∨ j ∈ g.given) :
    Obeys g (reply caller (.queuing j)) fun _ _ => True := by
  refine obeys_reply fun j' hj => ?_
  cases hj
  exact h.imp_right .inl

theorem obeys_persistSubmission (cfg : ApiConfig) (req : SubmitRequest) (fp : String) {j : String}
    (hs : g.submits = true) (hu : g.userID = caller.userID) (hj : j ∈ g.drawn) :
    Obeys g (persistSubmission cfg caller req fp j) fun _ _ => True := by
  unfold persistSubmission
  refine obeys_effect trivial fun ts => ?_
  dsimp only
  have hrow : ∃ j' ∈ g.drawn, ∃ req', newSubmission j caller.userID req =
      newSubmission j' g.userID req' := ⟨j, hj, req, by rw [hu]⟩
  by_cases hout : cfg.outboxEnabled = true
  · rw [if_pos hout]
    refine obeys_effect ⟨hs, rfl, hrow⟩ fun r => ?_
    cases r with
    | error err => exact obeys_delThenError _ _
    | ok i => exact obeys_replyQueuing (.inl List.mem_cons_self)
  · rw [if_neg hout]
    refine obeys_effect ⟨hs, hrow⟩ fun r => ?_
    cases r with
    | error err => exact obeys_delThenError _ _
    | ok u =>
      refine obeys_plain_bind (plain_enqueueJobToStream j _) fun g' r hg => ?_
      cases r with
      | error err => exact obeys_delThenError _ _
      | ok i => exact obeys_replyQueuing (.inl (hg.persisted List.mem_cons_self))

theorem obeys_submitCached (req : SubmitRequest) (m : ResultMap) (hs : g.submits = true)
    (hu : g.userID = caller.userID) : Obeys g (submitCached caller req m) fun _ _ => True := by
  unfold submitCached
  refine obeys_effect trivial fun j => ?_
  refine obeys_effect ⟨hs, j, List.mem_cons_self, req, ?_⟩ fun r => ?_
  · show newSubmission j caller.userID req = newSubmission j g.userID req
    rw [hu]
  · cases r with
    | error err => exact obeys_replyError caller _
    | ok u =>
      refine obeys_effect trivial fun _ => obeys_reply fun j' hj => ?_
      cases hj
      exact .inl List.mem_cons_self

theorem obeys_submitFresh (cfg : ApiConfig) (req : SubmitRequest) (fp : String)
    (hs : g.submits = true) (hu : g.userID = caller.userID) :
    Obeys g (submitFresh cfg caller req fp) fun _ _ => True := by
  unfold submitFresh
  refine obeys_effect trivial fun j => ?_
  dsimp only
  have hpersist : ∀ g' : Record, Record.Extends { g with drawn := j :: g.drawn } g' →
      Obeys g' (persistSubmission cfg caller req fp j) fun _ _ => True := fun g' h =>
    obeys_persistSubmission cfg req fp (h.submits.trans hs) (h.userID.trans hu)
      (h.drawn List.mem_cons_self)
  have hnext := hpersist _ (.refl _)
  refine obeys_effect trivial fun r => ?_
  cases r with
  | error err => exact hnext
  | ok fresh =>
    cases fresh with
    | true => exact hnext
    | false =>
      refine obeys_effect trivial fun r => ?_
      -- the id is read from the in-flight key, or the key has gone
      cases r with
      | error err => exact hnext
      | ok v =>
        have hkey := hpersist _ (extends_next { g with drawn := j :: g.drawn }
          (.request (.get .api (namespacedRedisKey ⟨false, .inflight fp⟩))) (.ok v))
        cases v with
        | none => exact hkey
        | some v =>
          cases v with
          | text existing =>
            show Obeys _ (if existing = "" then _ else _) _
            by_cases he : existing = ""
            · rw [if_pos he]
              exact hkey
            · rw [if_neg he]
              exact obeys_replyQueuing (.inr List.mem_cons_self)
          | envelope p => exact hkey
          | result m => exact hkey

theorem obeys_submitUncached (cfg : ApiConfig) (req : SubmitRequest) (fp : String)
    (hs : g.submits = true) (hu : g.userID = caller.userID) :
    Obeys g (submitUncached cfg caller req fp) fun _ _ => True := by
  unfold submitUncached
  by_cases hcap : cfg.submitMaxInflight > 0
  · rw [if_pos hcap]
    refine obeys_effect trivial fun r => ?_
    cases r with
    | error err => exact obeys_submitFresh cfg req fp hs hu
    | ok active =>
      dsimp only
      by_cases ha : active ≥ cfg.submitMaxInflight
      · rw [if_pos ha]
        exact obeys_replyError caller _
      · rw [if_neg ha]
        exact obeys_submitFresh cfg req fp hs hu
  · rw [if_neg hcap]
    exact obeys_submitFresh cfg req fp hs hu

theorem plain_testcaseHashOf (id : Int) : Plain (testcaseHashOf id) := by
  unfold testcaseHashOf
  by_cases hid : id > 0
  · rw [if_pos hid]
    refine plain_effect trivial fun r => ?_
    cases r <;> exact plain_pure _
  · rw [if_neg hid]
    exact plain_pure _

theorem obeys_handleSubmit (cfg : ApiConfig) (body : SubmitRequest) (hs : g.submits = true)
    (hu : g.userID = caller.userID) :
    Obeys g (handleSubmit cfg caller body) fun _ _ => True := by
  unfold handleSubmit
  refine obeys_effect trivial fun allowed => ?_
  split_ifs
  any_goals exact obeys_replyError caller _
  refine obeys_plain_bind (plain_testcaseHashOf _) fun g₁ hash h₁ => ?_
  cases hash with
  | none => exact obeys_replyError caller _
  | some hash =>
    dsimp only
    refine obeys_effect trivial fun r => ?_
    have h₂ : g.Extends _ := h₁.trans (extends_next g₁
      (.request (.get .api (namespacedRedisKey ⟨false, .cache
        (generateCacheKey (normalizeRequest cfg body) hash)⟩))) r)
    have hmiss := @obeys_submitUncached _ caller cfg (normalizeRequest cfg body)
      (generateCacheKey (normalizeRequest cfg body) hash) (h₂.submits.trans hs)
      (h₂.userID.trans hu)
    split
    · exact hmiss
    · split
      · exact hmiss
      · split
        · exact obeys_submitCached _ _ (h₂.submits.trans hs) (h₂.userID.trans hu)
        · exact obeys_effect trivial fun _ => hmiss

/-- A status request answers about a row it has read. -/
theorem obeys_handleStatus (j : String) (hs : g.submits = false) :
    Obeys g (handleStatus caller j) fun _ _ => True := by
  unfold handleStatus
  by_cases hj : j = ""
  · rw [if_pos hj]
    exact obeys_replyError caller _
  · rw [if_neg hj]
    refine obeys_effect trivial fun r => ?_
    cases r with
    | error err => exact obeys_replyError caller _
    | ok row =>
      cases row with
      | none => exact obeys_replyError caller _
      | some row =>
        have hanswer : ∀ g' : Record, Record.Extends { g with found := j :: g.found } g' →
            ∀ st state data, Obeys g' (reply caller (.status j st state data)) fun _ _ => True := by
          intro g' h st state data
          refine obeys_reply fun j' hj' => ?_
          cases hj'
          exact .inr (.inr ⟨h.submits.trans hs, h.found List.mem_cons_self⟩)
        cases hu : caller.userID with
        | none =>
          dsimp only
          exact obeys_replyError caller _
        | some u =>
          dsimp only
          split
          · exact obeys_replyError caller _
          · refine obeys_plain_bind (plain_getWithLegacy .api _ _) fun g' r hg => ?_
            split
            · exact hanswer g' hg _ _ _
            · split
              · exact hanswer g' hg _ _ _
              · split
                · exact hanswer g' hg _ _ _
                · exact obeys_effect trivial fun _ => hanswer g' hg _ _ _

end Submit

/-! ## Runs -/

/-- Every program of the system follows the rules. -/
theorem disciplined : system.Disciplined recorder requestRules where
  env := by
    intro w v w' ps hv p hp
    have hplain : ∀ {q : Program Unit}, Plain q → p ∈ [q] →
        Heeds recorder requestRules (recorder.start v) p fun _ _ => True := by
      intro q hq hm
      rw [List.mem_singleton.mp hm]
      exact (obeys_of_plain hq).heeds
    cases v with
    | dbTick d => cases hv; cases hp
    | redisTick d => cases hv; cases hp
    | deliver cfg i =>
      simp only [system, envStep] at hv
      split at hv
      · cases hv
        exact hplain (plain_handler (plain_handleMessage ..)) hp
      · cases hv
    | autoclaim cfg i =>
      simp only [system, envStep] at hv
      split at hv
      · split at hv
        · cases hv
          exact hplain (plain_handler (plain_handleReclaimedMessage ..)) hp
        · cases hv
      · cases hv
    | dispatch cfg =>
      cases hv
      exact hplain (plain_dispatchOnce cfg) hp
    | submit cfg requestID userID body =>
      cases hv
      rw [List.mem_singleton.mp hp]
      exact (obeys_handleSubmit (g := { submits := true, userID := userID }) cfg body rfl rfl).heeds
    | status userID admin j =>
      cases hv
      rw [List.mem_singleton.mp hp]
      exact (obeys_handleStatus (g := {}) j rfl).heeds
    | expire k => cases hv; cases hp
    | fillCache fp v => cases hv; cases hp
  forks := by
    intro e p hp
    cases e with
    | request q => cases hp
    | act a =>
      cases a with
      | go g =>
        rw [List.mem_singleton.mp hp]
        cases g with
        | heartbeat cell j a o l n =>
          exact (obeys_of_plain (plain_runLeaseHeartbeat cell j a o l n)).heeds
      | _ => cases hp

/-- A run of the system with its records. -/
abbrev RecordedRun (ok : RecordedState → Step → Prop) (s : RecordedState) : Prop :=
  Run recordStep ok recordedStart s

variable {ok : RecordedState → Step → Prop} {s s' : RecordedState} {m : Step}

theorem allHeed_of_run (h : RecordedRun ok s) : Machine.AllHeed recorder requestRules s := by
  induction h with
  | init => exact fun t ht => by cases ht
  | step m hrun hok hstep ih =>
    exact disciplined.record ih (fun _ _ _ _ _ _ _ _ _ _ => trivial) (fun _ _ _ _ => trivial) hstep

theorem follows_of_run (h : RecordedRun ok s) {i : Nat} {g : Record} {e : Effect}
    {k : e.Reply → Program Unit} (ht : s.threads[i]? = some (g, .call e k)) : Follows g e :=
  (allHeed_of_run h).allowed ht

theorem sane_of_run (h : RecordedRun ok s) : Sane s.world :=
  ((sound_contract Machine.anyMove).reach good_start (Machine.reach_of_run h)).inv

theorem grows_recordStep (h : recordStep s m = some s') : Grows s.world s'.world := by
  obtain ⟨i, c, g, e, k, w, r, rfl, ht, hs, rfl⟩ | ⟨i, rfl, rfl⟩ | ⟨v, w, ps, rfl, hv, rfl⟩ :=
    Machine.record_cases h
  · exact grows_perform hs
  · exact .refl s.world
  · exact grows_envStep hv

/-- The job an effect creates the row of. -/
def Effect.creates : Effect → Option String
  | .request (.insert sub _) => some sub.jobID
  | .request (.insertWithOutbox sub _) => some sub.jobID
  | _ => none

/-- An insert that is served leaves a row of its job. -/
theorem hasRow_of_serve {w : World} (hw : Sane w) {g : Record} {q : Request} {j : String}
    (hf : Follows g (.request q)) (hq : (Effect.request q).creates = some j) (ch : Chance) :
    HasRow (serve w ch q).1 j := by
  cases q with
  | insert sub origin =>
    cases hq
    simp only [serve]
    cases hr : w.submissions sub.jobID with
    | some row => exact ⟨row, hr⟩
    | none => exact ⟨_, w.setRow_self _ _⟩
  | insertWithOutbox sub event =>
    cases hq
    simp only [serve]
    split
    · rename_i hdup
      rcases hdup with hrow | hevent
      · exact Option.isSome_iff_exists.mp hrow
      · -- an event of the job is there, so its row is there too
        obtain ⟨evt, hm, heq⟩ := List.any_eq_true.mp hevent
        obtain ⟨n, hn⟩ := List.getElem?_of_mem hm
        have hrow : HasRow w evt.jobID := hw.hasRow (hw.events n evt hn).2
        rw [of_decide_eq_true heq, hf.2.1] at hrow
        exact hrow
    · exact ⟨_, w.setRow_self _ _⟩
  | _ => cases hq

theorem hasRow_of_perform {w w' : World} (hw : Sane w) {g : Record} {e : Effect} {j : String}
    (hf : Follows g e) (he : e.creates = some j) {c : Fate} (hc : c.served = true) {r : e.Reply}
    (h : perform w e c = some (w', r)) : HasRow w' j := by
  cases e with
  | act a => cases he
  | request q =>
    cases c with
    | ok ch =>
      have hw' : w' = (serve w ch q).1 := by rw [Option.some.inj h]
      rw [hw']
      exact hasRow_of_serve hw hf he ch
    | failed msg => cases hc
    | lost ch msg =>
      obtain ⟨rfl, _⟩ := Prod.mk.inj (Option.some.inj h)
      exact hasRow_of_serve hw hf he ch

/-- A request that succeeds has been served, and has not lost its answer. -/
theorem served_of_ok {w w' : World} {q : Request} {c : Fate} {v : q.Response}
    (h : perform w (.request q) c = some (w', .ok v)) :
    c.served = true ∧ ∃ ch, serve w ch q = (w', .ok v) := by
  cases c with
  | ok ch => exact ⟨rfl, ch, Option.some.inj h⟩
  | failed msg => exact absurd (Prod.mk.inj (Option.some.inj h)).2 (by simp)
  | lost ch msg => exact absurd (Prod.mk.inj (Option.some.inj h)).2 (by simp)

/-- A row that was read is there. -/
theorem hasRow_of_select {w w' : World} {j : String} {purpose : Purpose} {c : Fate}
    {row : Submission} (h : perform w (.request (.select j purpose)) c = some (w', .ok (some row))) :
    HasRow w' j := by
  obtain ⟨_, ch, hs⟩ := served_of_ok h
  have hrow : w.submissions j = some row := by
    cases purpose <;> exact Except.ok.inj (Prod.mk.inj hs).2
  exact HasRow.grows (grows_perform h) ⟨row, hrow⟩

/-- What a thread has persisted or found has a row. -/
def RowsKnown (s : RecordedState) : Prop :=
  ∀ t ∈ s.threads, ∀ j, j ∈ t.1.persisted ∨ j ∈ t.1.found → HasRow s.world j

/-- A job that becomes known with an effect has a row afterwards. -/
theorem hasRow_of_next {w w' : World} (hw : Sane w) {g : Record} {e : Effect} {c : Fate}
    {r : e.Reply} (hf : Follows g e) (h : perform w e c = some (w', r)) {j : String}
    (hj : j ∈ (g.next e r).persisted ∨ j ∈ (g.next e r).found) :
    (j ∈ g.persisted ∨ j ∈ g.found) ∨ HasRow w' j := by
  cases e with
  | act a => cases a <;> exact .inl hj
  | request q =>
    have hcreated : ∀ v, (Effect.request q).creates = some j → r = .ok v → HasRow w' j := by
      intro v hq hr
      rw [hr] at h
      exact hasRow_of_perform hw hf hq (served_of_ok h).1 h
    cases q with
    | insert sub origin =>
      cases r with
      | error err => exact .inl hj
      | ok u =>
        rcases hj with hj | hj
        · rcases List.mem_cons.mp hj with rfl | hj
          · exact .inr (hcreated u rfl rfl)
          · exact .inl (.inl hj)
        · exact .inl (.inr hj)
    | insertWithOutbox sub event =>
      cases r with
      | error err => exact .inl hj
      | ok u =>
        rcases hj with hj | hj
        · rcases List.mem_cons.mp hj with rfl | hj
          · exact .inr (hcreated u rfl rfl)
          · exact .inl (.inl hj)
        · exact .inl (.inr hj)
    | select j' purpose =>
      cases r with
      | error err => exact .inl hj
      | ok row =>
        cases row with
        | none => exact .inl hj
        | some row =>
          rcases hj with hj | hj
          · exact .inl (.inl hj)
          · rcases List.mem_cons.mp hj with rfl | hj
            · exact .inr (hasRow_of_select h)
            · exact .inl (.inr hj)
    | get reader k => cases r <;> exact .inl hj
    | _ => exact .inl hj

theorem rowsKnown_of_run (h : RecordedRun ok s) : RowsKnown s := by
  induction h with
  | init => exact fun t ht => by cases ht
  | step m hrun hok hstep ih =>
    rename_i s s'
    intro t ht j hj
    have hgrow : Grows s.world s'.world := grows_recordStep hstep
    obtain ht | ⟨i, c, g, e, k, r, rfl, hi, hsem, rfl⟩ | ⟨_, t₀, ht₀, rfl, rfl⟩ |
      ⟨i, c, g, e, k, r, rfl, hi, hsem, hg, _⟩ | ⟨v, ps, rfl, hv, hg, _⟩ :=
      Machine.mem_record hstep ht
    · exact (ih t ht j hj).grows hgrow
    · rcases hasRow_of_next (sane_of_run hrun) (follows_of_run hrun hi) hsem hj with hj | hrow
      · exact (ih _ (List.mem_of_getElem? hi) j hj).grows hgrow
      · exact hrow
    · exact (ih t₀ ht₀ j hj).grows hgrow
    · rw [hg] at hj
      rcases hj with hj | hj <;> cases hj
    · rw [hg] at hj
      cases v <;> rcases hj with hj | hj <;> cases hj

/-- An answer names a job with a row, or an id that was read from an in-flight key. -/
def AnswersKnown (s : RecordedState) : Prop :=
  ∀ t ∈ s.threads, ∀ j ∈ t.1.answered,
    j ∈ t.1.persisted ∨ j ∈ t.1.given ∨ (t.1.submits = false ∧ j ∈ t.1.found)

theorem answersKnown_of_run (h : RecordedRun ok s) : AnswersKnown s := by
  induction h with
  | init => exact fun t ht => by cases ht
  | step m hrun hok hstep ih =>
    rename_i s s'
    intro t ht j hj
    obtain ht | ⟨i, c, g, e, k, r, rfl, hi, hsem, rfl⟩ | ⟨_, t₀, ht₀, rfl, rfl⟩ |
      ⟨i, c, g, e, k, r, rfl, hi, hsem, hg, _⟩ | ⟨v, ps, rfl, hv, hg, _⟩ :=
      Machine.mem_record hstep ht
    · exact ih t ht j hj
    · have hx : g.Extends (g.next e r) := extends_next g e r
      have hold : j ∈ g.answered → _ := fun hj => ih _ (List.mem_of_getElem? hi) j hj
      have hkept : j ∈ g.persisted ∨ j ∈ g.given ∨ (g.submits = false ∧ j ∈ g.found) →
          j ∈ (g.next e r).persisted ∨ j ∈ (g.next e r).given ∨
            ((g.next e r).submits = false ∧ j ∈ (g.next e r).found) := fun h =>
        h.imp (fun h => hx.persisted h) fun h =>
          h.imp (fun h => hx.given h) fun h => ⟨hx.submits.trans h.1, hx.found h.2⟩
      by_cases hj' : j ∈ g.answered
      · exact hkept (hold hj')
      · -- the answer is given now, by the rules
        have hf : Follows g e := follows_of_run hrun hi
        cases e with
        | request q =>
          have hsame : (g.next (.request q) r).answered = g.answered := by
            cases q with
            | insert sub origin => cases r <;> rfl
            | insertWithOutbox sub event => cases r <;> rfl
            | select j' purpose =>
              cases r with
              | error err => rfl
              | ok row => cases row <;> rfl
            | get reader k => cases r <;> rfl
            | _ => rfl
          exact absurd (hsame ▸ hj) hj'
        | act a =>
          cases a with
          | reply rid a =>
            rcases List.mem_append.mp hj with hj | hj
            · exact hf j (Option.mem_toList.mp hj)
            · exact absurd hj hj'
          | _ => exact absurd hj hj'
    · exact ih t₀ ht₀ j hj
    · rw [hg] at hj
      cases hj
    · rw [hg] at hj
      cases v <;> cases hj

end DeepOj.Cluster
