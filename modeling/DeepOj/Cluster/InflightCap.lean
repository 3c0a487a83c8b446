import DeepOj.Cluster.Requests

/-!
# The cap on active submissions

`HandleSubmit` counts the active submissions and inserts its row some effects later. The
cap is therefore soft: what it guarantees depends on how many requests stand between the
two at a time.
-/

namespace DeepOj.Cluster

open Repository Worker Api Conc Go

/-! ## Active submissions -/

/-- The row of the job is active, as `CountActiveSubmissions` has it. -/
def isActive (w : World) (j : String) : Bool :=
  match w.submissions j with
  | some row => row.state = "pending" || row.state = "processing"
  | none => false

/-- The job an event creates to be judged. -/
def LogEvent.enqueuable : LogEvent → Option String
  | .created _ .cached => none
  | .created j _ => some j
  | _ => none

/-- The active submissions that were not answered from the cache. -/
def World.activeUncached (w : World) : Nat := (w.log.filterMap LogEvent.enqueuable).countP (isActive w)

theorem activeSubmissions_eq (w : World) : w.activeSubmissions = w.jobs.countP (isActive w) := by
  rw [List.countP_eq_length_filter]
  rfl

/-- The handler counts every submission that it is meant to count. -/
theorem activeUncached_le (w : World) : w.activeUncached ≤ w.activeSubmissions := by
  rw [activeSubmissions_eq]
  unfold World.activeUncached World.jobs
  generalize w.log = log
  induction log with
  | nil => exact Nat.le_refl 0
  | cons ev log ih =>
    cases ev with
    | created j o =>
      cases o with
      | cached => exact ih.trans (List.sublist_cons_self _ _).countP_le
      | _ =>
        simp only [List.filterMap_cons, LogEvent.enqueuable, List.countP_cons]
        exact Nat.add_le_add_right ih _
    | _ => exact ih

/-- The effect creates a row that is to be judged. -/
def Effect.enqueues : Effect → Bool
  | .request (.insert _ origin) => origin ≠ .cached
  | .request (.insertWithOutbox _ _) => true
  | _ => false

/-- No submission that is to be judged is added, and none becomes active. -/
structure Calm (w w' : World) : Prop where
  log : w'.log.filterMap LogEvent.enqueuable = w.log.filterMap LogEvent.enqueuable
  rows : ∀ j ∈ w.log.filterMap LogEvent.enqueuable, isActive w' j = true → isActive w j = true

theorem Calm.activeUncached_le {w w' : World} (h : Calm w w') : w'.activeUncached ≤ w.activeUncached := by
  unfold World.activeUncached
  rw [h.log]
  exact List.countP_mono_left h.rows

section Calm

variable {w w' : World}

theorem Calm.of_rows (hr : w'.submissions = w.submissions)
    (hl : w'.log = w.log ∨ ∃ ev : LogEvent, w'.log = ev :: w.log ∧ ev.enqueuable = none) : Calm w w' where
  log := by
    obtain hl | ⟨ev, hl, hev⟩ := hl
    · rw [hl]
    · rw [hl, List.filterMap_cons, hev]
  rows := fun j _ h => by
    unfold isActive at h ⊢
    rwa [hr] at h

theorem calm_recordSkip (j : String) (op : RowOp) : Calm w (w.recordSkip j op) := by
  refine .of_rows (sameData_recordSkip w j op).rows ?_
  cases op with
  | updateResult st m => exact .inr ⟨_, rfl, rfl⟩
  | _ => exact .inl rfl

/-- An update ends a submission, or leaves it as active as it was. -/
theorem calm_update (hs : Sane w) {j : String} {op : RowOp} {via : Option Nat} {r r' : Submission} {v : Nat}
    (hr : w.submissions j = some r) (hx : op.exec w.dbNow r = some (r', v)) :
    Calm w ((w.setRow j r').recordUpdate j op via v) where
  log := by cases op <;> rfl
  rows := fun j' _ h => by
    unfold isActive at h ⊢
    rw [(recordUpdate_eq (w.setRow j r') j op via v).1] at h
    by_cases hj : j' = j
    · subst hj
      have hactive : r.state = "pending" ∨ r.state = "processing" :=
        (hs.states j' r hr).imp_right fun h => h.resolve_right (not_done_of_exec hx)
      rw [hr]
      simpa using hactive
    · rwa [w.setRow_of_ne hj] at h

/-- What is counted has a row, so it is not the job of a first row. -/
theorem ne_of_counted (hs : Sane w) {s : Submission} (hnone : w.submissions s.jobID = none) {j : String}
    (hj : j ∈ w.log.filterMap LogEvent.enqueuable) : j ≠ s.jobID := by
  rintro rfl
  obtain ⟨ev, hev, heq⟩ := List.mem_filterMap.mp hj
  cases ev with
  | created j' o =>
    have hj' : j' = s.jobID := by
      cases o with
      | cached => cases heq
      | _ => exact Option.some.inj heq
    obtain ⟨r, hr⟩ := hs.created j' o hev
    rw [hj', hnone] at hr
    cases hr
  | _ => cases heq

/-- A first row leaves the others as they are. -/
theorem isActive_insertRow (hs : Sane w) {s : Submission} (origin : Origin)
    (hnone : w.submissions s.jobID = none) {j : String} (hj : j ∈ w.log.filterMap LogEvent.enqueuable) :
    isActive (w.insertRow s origin) j = isActive w j := by
  have hrow : (w.insertRow s origin).submissions j = w.submissions j :=
    w.setRow_of_ne (ne_of_counted hs hnone hj) _
  unfold isActive
  rw [hrow]

theorem calm_change (hs : Sane w) {q : Request} (h : Change w q w')
    (hq : (Effect.request q).enqueues = false) : Calm w w' := by
  cases h with
  | same => exact .of_rows rfl (.inl rfl)
  | inspect => exact .of_rows rfl (.inr ⟨_, rfl, rfl⟩)
  | get =>
    refine .of_rows (sameData_recordGet w _ _).rows ?_
    unfold World.recordGet
    split
    · exact .inr ⟨_, rfl, rfl⟩
    · exact .inl rfl
  | skip _ => exact calm_recordSkip _ _
  | update hr hx => exact calm_update hs hr hx
  | insert hnone =>
    rename_i s origin
    cases origin with
    | cached => exact ⟨rfl, fun j hj h => by rwa [isActive_insertRow hs .cached hnone hj] at h⟩
    | outbox => cases hq
    | direct => cases hq
  | insertWithOutbox _ _ => cases hq
  | outbox _ => exact .of_rows rfl (.inl rfl)
  | dispatched => exact .of_rows rfl (.inl rfl)
  | set _ => exact .of_rows rfl (.inl rfl)
  | del => exact .of_rows rfl (.inl rfl)
  | xadd => exact .of_rows rfl (.inl rfl)
  | xack =>
    unfold World.xack
    split <;> exact .of_rows rfl (.inl rfl)

theorem calm_drop (q : Request) : Calm w (w.drop q) := by
  cases q with
  | update j op via => exact calm_recordSkip j op
  | _ => exact .of_rows rfl (.inl rfl)

theorem calm_perform (hs : Sane w) {e : Effect} {c : Fate} {r : e.Reply} (he : e.enqueues = false)
    (h : perform w e c = some (w', r)) : Calm w w' := by
  cases e with
  | request q =>
    obtain ⟨ch, rfl, _⟩ | ⟨rfl, _⟩ := perform_request h
    · exact calm_change hs (change_serve w ch q) he
    · exact calm_drop q
  | act a =>
    obtain ⟨ch, ha⟩ := perform_act h
    have hq := quiet_actLocally ha
    refine .of_rows hq.data.rows (hq.log.imp_right ?_)
    rintro ⟨ev, hev, hl⟩
    refine ⟨ev, hl, ?_⟩
    cases ev with
    | created j o => exact hev.elim
    | _ => rfl

theorem calm_envStep {v : Env} {ps : List (Program Unit)} (h : envStep w v = some (w', ps)) : Calm w w' := by
  cases change_envStep h with
  | same hd hl => exact .of_rows hd.rows (.inl hl)
  | asked rid j hd hl => exact .of_rows hd.rows (.inr ⟨_, hl, rfl⟩)
  | dbTick => exact .of_rows rfl (.inl rfl)
  | give _ _ => exact .of_rows rfl (.inl rfl)
  | expire => exact .of_rows rfl (.inl rfl)
  | fillCache => exact .of_rows rfl (.inl rfl)

/-- A new row adds one active submission at most. -/
theorem activeUncached_insertRow (hs : Sane w) {s : Submission} (origin : Origin)
    (hnone : w.submissions s.jobID = none) :
    (w.insertRow s origin).activeUncached ≤ w.activeUncached + 1 := by
  have hold : (w.log.filterMap LogEvent.enqueuable).countP (isActive (w.insertRow s origin))
      ≤ w.activeUncached :=
    List.countP_mono_left fun j hj h => by rwa [isActive_insertRow hs origin hnone hj] at h
  unfold World.activeUncached at hold ⊢
  show ((LogEvent.created s.jobID origin :: w.log).filterMap LogEvent.enqueuable).countP _ ≤ _
  cases origin with
  | cached => exact Nat.le_succ_of_le hold
  | _ =>
    simp only [List.filterMap_cons, LogEvent.enqueuable, List.countP_cons]
    split <;> omega

theorem activeUncached_perform (hs : Sane w) {e : Effect} {c : Fate} {r : e.Reply}
    (h : perform w e c = some (w', r)) :
    w'.activeUncached ≤ w.activeUncached + if e.enqueues then 1 else 0 := by
  cases he : e.enqueues with
  | false => exact (calm_perform hs he h).activeUncached_le
  | true =>
    have hdrop : ∀ q, e = .request q → (w.drop q).activeUncached ≤ w.activeUncached + 1 := fun q _ =>
      Nat.le_succ_of_le (calm_drop q).activeUncached_le
    cases e with
    | act a => cases he
    | request q =>
      obtain ⟨ch, rfl, _⟩ | ⟨rfl, _⟩ := perform_request h
      · cases q with
        | insert s origin =>
          simp only [serve]
          cases hr : w.submissions s.jobID with
          | some row => exact Nat.le_succ _
          | none => exact activeUncached_insertRow hs origin hr
        | insertWithOutbox s event =>
          simp only [serve]
          split
          · exact Nat.le_succ _
          · rename_i hne
            have hnone : w.submissions s.jobID = none := by
              cases hr : w.submissions s.jobID with
              | none => rfl
              | some r => simp [hr] at hne
            exact activeUncached_insertRow hs .outbox hnone
        | _ => cases he
      · exact hdrop q rfl

end Calm

/-! ## The record of the check -/

/-- What a request knows of the cap. -/
structure CapRecord where
  /-- The cap a submit request is handled under. -/
  cap : Option Nat := none
  /-- It has counted fewer active submissions than the cap, and has not inserted its row. -/
  passed : Bool := false

def CapRecord.next (g : CapRecord) : (e : Effect) → e.Reply → CapRecord
  | .request .countActive, .ok active => { g with passed := active < g.cap.getD 0 }
  | e, _ => if e.enqueues then { g with passed := false } else g

/-- The recorder of the check. -/
def capRecorder : Recorder Effect Effect.Reply Env CapRecord where
  start
    | .submit cfg _ _ _ => { cap := some cfg.submitMaxInflight }
    | _ => {}
  fork _ := {}
  next := CapRecord.next

/-- A row that is to be judged is only inserted after the check, unless there is no cap;
the rules are about runs in which every count is answered. -/
def capRules : Rules Effect Effect.Reply CapRecord where
  allowed g e := e.enqueues = true → ∃ cap, g.cap = some cap ∧ (0 < cap → g.passed = true)
  promised _
    | .request .countActive, .error _ => False
    | _, _ => True
  ended _ := True

theorem CapRecord.next_cap (g : CapRecord) (e : Effect) (r : e.Reply) : (g.next e r).cap = g.cap := by
  unfold CapRecord.next
  split
  · rfl
  · split <;> rfl

theorem CapRecord.next_of_idle (g : CapRecord) {e : Effect} (he : e.enqueues = false)
    (hc : e ≠ .request .countActive) (r : e.Reply) : g.next e r = g := by
  unfold CapRecord.next
  split
  · exact absurd rfl hc
  · rw [he]
    rfl

abbrev CapObeys {α : Type} (g : CapRecord) (p : Program α) (Q : CapRecord → α → Prop) : Prop :=
  Conc.Obeys capRecorder capRules g p Q

section Rules

variable {g : CapRecord} {α β : Type}

/-- A program that inserts no row to be judged keeps the cap on record. -/
theorem capObeys_idle {p : Program α} (h : p.Confined fun e => e.enqueues = false) :
    CapObeys g p fun g' _ => g'.cap = g.cap :=
  ⟨heeds_of_uses (K := capRecorder) (L := capRules) (I := fun g' : CapRecord => g'.cap = g.cap)
    (fun _ _ _ he hc => by rw [he] at hc; cases hc)
    (fun g' e r hg _ => (g'.next_cap e r).trans hg) h.uses rfl⟩

theorem capObeys_any {p : Program α} (h : p.Confined fun e => e.enqueues = false) :
    CapObeys g p fun _ _ => True :=
  (capObeys_idle h).mono fun _ _ _ => trivial

/-- An effect that inserts no row to be judged and counts nothing. -/
theorem capObeys_effect {e : Effect} {f : e.Reply → Program β} {Q : CapRecord → β → Prop}
    (he : e.enqueues = false) (hc : e ≠ .request .countActive) (hf : ∀ r, CapObeys g (f r) Q) :
    CapObeys g (Prog.perform e >>= f) Q := by
  refine .effect (fun h => by rw [he] at h; cases h) fun r _ => ?_
  rw [show capRecorder.next g e r = g from g.next_of_idle he hc r]
  exact hf r

/-- Programs that answer nothing and create no row. -/
theorem idle_of_plain {p : Program α} (h : Plain p) : p.Confined fun e => e.enqueues = false := by
  refine ⟨h.uses.mono fun e he => ?_⟩
  cases e with
  | act a => rfl
  | request q =>
    cases q with
    | insert s origin => exact he.elim
    | insertWithOutbox s event => exact he.elim
    | _ => rfl

theorem idle_call {e : Effect} {f : e.Reply → Program β} (he : e.enqueues = false)
    (hf : ∀ r, (f r).Confined fun e => e.enqueues = false) :
    (Prog.perform e >>= f).Confined fun e => e.enqueues = false :=
  .call he hf

theorem idle_reply (caller : Caller) (a : ApiReply) :
    (reply caller a).Confined fun e => e.enqueues = false := .perform rfl

theorem idle_delThenError (k : RedisKey) (caller : Caller) (code : String) :
    (do let _ ← request (.del k); reply caller (.error code) : Program Unit).Confined
      fun e => e.enqueues = false :=
  idle_call rfl fun _ => idle_reply caller _

theorem idle_handleStatus (caller : Caller) (j : String) :
    (handleStatus caller j).Confined fun e => e.enqueues = false := by
  unfold handleStatus
  by_cases hj : j = ""
  · rw [if_pos hj]
    exact idle_reply caller _
  rw [if_neg hj]
  refine idle_call rfl fun r => ?_
  cases r with
  | error err => exact idle_reply caller _
  | ok row =>
    cases row with
    | none => exact idle_reply caller _
    | some row =>
      dsimp only
      cases caller.userID with
      | none => exact idle_reply caller _
      | some u =>
        dsimp only
        split
        · exact idle_reply caller _
        · refine (idle_of_plain (plain_getWithLegacy .api _ _)).bind fun raw => ?_
          cases raw with
          | none => exact idle_reply caller _
          | some v =>
            dsimp only
            split
            · exact idle_reply caller _
            · cases v.asMap with
              | some m => exact idle_reply caller _
              | none => exact idle_call rfl fun _ => idle_reply caller _

/-! ## The submit path -/

variable {caller : Caller}

theorem capObeys_persistSubmission (cfg : ApiConfig) (req : SubmitRequest) (fp j : String)
    (hg : ∃ cap, g.cap = some cap ∧ (0 < cap → g.passed = true)) :
    CapObeys g (persistSubmission cfg caller req fp j) fun _ _ => True := by
  unfold persistSubmission
  refine capObeys_effect rfl (by simp) fun ts => ?_
  dsimp only
  by_cases hout : cfg.outboxEnabled = true
  · rw [if_pos hout]
    refine .effect (fun _ => hg) fun r _ => capObeys_any ?_
    cases r with
    | error err => exact idle_delThenError _ caller _
    | ok i => exact idle_reply caller _
  · rw [if_neg hout]
    refine .effect (fun _ => hg) fun r _ => capObeys_any ?_
    cases r with
    | error err => exact idle_delThenError _ caller _
    | ok u =>
      refine (idle_of_plain (plain_enqueueJobToStream j _)).bind fun r => ?_
      cases r with
      | error err => exact idle_delThenError _ caller _
      | ok i => exact idle_reply caller _

theorem idle_submitCached (req : SubmitRequest) (m : ResultMap) :
    (submitCached caller req m).Confined fun e => e.enqueues = false := by
  unfold submitCached
  refine idle_call rfl fun j => idle_call rfl fun r => ?_
  cases r with
  | error err => exact idle_reply caller _
  | ok u => exact idle_call rfl fun _ => idle_reply caller _

theorem capObeys_submitFresh (cfg : ApiConfig) (req : SubmitRequest) (fp : String)
    (hg : ∃ cap, g.cap = some cap ∧ (0 < cap → g.passed = true)) :
    CapObeys g (submitFresh cfg caller req fp) fun _ _ => True := by
  unfold submitFresh
  refine capObeys_effect rfl (by simp) fun j => ?_
  have hpersist : CapObeys g (persistSubmission cfg caller req fp j) _ :=
      capObeys_persistSubmission cfg req fp j hg
  refine capObeys_effect rfl (by simp) fun r => ?_
  cases r with
  | error err => exact hpersist
  | ok fresh =>
    cases fresh with
    | true => exact hpersist
    | false =>
      refine capObeys_effect rfl (by simp) fun r => ?_
      cases okValue r with
      | none => exact hpersist
      | some v =>
        cases v with
        | text existing =>
          dsimp only
          split
          · exact hpersist
          · exact capObeys_any (idle_reply caller _)
        | envelope p => exact hpersist
        | result m => exact hpersist

theorem capObeys_submitUncached (cfg : ApiConfig) (req : SubmitRequest) (fp : String)
    (hg : g.cap = some cfg.submitMaxInflight) :
    CapObeys g (submitUncached cfg caller req fp) fun _ _ => True := by
  unfold submitUncached
  by_cases hcap : cfg.submitMaxInflight > 0
  · rw [if_pos hcap]
    refine .effect (fun h => by cases h) fun r hr => ?_
    cases r with
    | error err => exact hr.elim
    | ok active =>
      dsimp only
      by_cases ha : active ≥ cfg.submitMaxInflight
      · rw [if_pos ha]
        exact capObeys_any (idle_reply caller _)
      · rw [if_neg ha]
        refine capObeys_submitFresh cfg req fp ⟨_, hg, fun _ => ?_⟩
        show decide (active < g.cap.getD 0) = true
        rw [hg]
        exact decide_eq_true (Nat.lt_of_not_le ha)
  · rw [if_neg hcap]
    exact capObeys_submitFresh cfg req fp ⟨_, hg, fun h => absurd h hcap⟩

theorem capObeys_handleSubmit (cfg : ApiConfig) (body : SubmitRequest)
    (hg : g.cap = some cfg.submitMaxInflight) :
    CapObeys g (handleSubmit cfg caller body) fun _ _ => True := by
  unfold handleSubmit
  refine capObeys_effect rfl (by simp) fun allowed => ?_
  have herror : ∀ code, CapObeys g (reply caller (.error code)) fun _ _ => True :=
    fun code => capObeys_any (idle_reply caller _)
  split_ifs
  any_goals exact herror _
  refine .bind (capObeys_idle (idle_of_plain (plain_testcaseHashOf _))) fun g₁ hash h₁ => ?_
  have hmiss : ∀ req fp, CapObeys g₁ (submitUncached cfg caller req fp) fun _ _ => True :=
    fun req fp => capObeys_submitUncached cfg req fp (h₁.trans hg)
  cases hash with
  | none => exact capObeys_any (idle_reply caller _)
  | some hash =>
    dsimp only
    refine capObeys_effect rfl (by simp) fun r => ?_
    split
    · exact hmiss _ _
    · split
      · exact hmiss _ _
      · split
        · exact capObeys_any (idle_submitCached _ _)
        · exact capObeys_effect rfl (by simp) fun _ => hmiss _ _

end Rules

/-- Every program keeps the rules. -/
theorem disciplined_cap : system.Disciplined capRecorder capRules where
  env := by
    intro w v w' ps hv p hp
    have hidle : ∀ {q : Program Unit}, q.Confined (fun e => e.enqueues = false) → p ∈ [q] →
        Heeds capRecorder capRules (capRecorder.start v) p fun _ _ => True := by
      intro q hq hm
      rw [List.mem_singleton.mp hm]
      exact (capObeys_any hq).heeds
    cases v with
    | dbTick d => cases hv; cases hp
    | redisTick d => cases hv; cases hp
    | deliver cfg i =>
      simp only [system, envStep] at hv
      split at hv
      · cases hv
        exact hidle (idle_of_plain (plain_handler (plain_handleMessage ..))) hp
      · cases hv
    | autoclaim cfg i =>
      simp only [system, envStep] at hv
      split at hv
      · split at hv
        · cases hv
          exact hidle (idle_of_plain (plain_handler (plain_handleReclaimedMessage ..))) hp
        · cases hv
      · cases hv
    | dispatch cfg =>
      cases hv
      exact hidle (idle_of_plain (plain_dispatchOnce cfg)) hp
    | submit cfg requestID userID body =>
      cases hv
      rw [List.mem_singleton.mp hp]
      exact (capObeys_handleSubmit (g := { cap := some cfg.submitMaxInflight }) cfg body rfl).heeds
    | status userID admin j =>
      cases hv
      exact hidle (idle_handleStatus _ j) hp
    | expire k => cases hv; cases hp
    | fillCache fp v => cases hv; cases hp
  forks := by
    intro e p hp
    cases e with
    | request q => cases hp
    | act a =>
      cases a with
      | go g =>
        rw [List.mem_singleton.mp hp]
        cases g with
        | heartbeat cell j a o l n =>
          exact (capObeys_any (idle_of_plain (plain_runLeaseHeartbeat cell j a o l n))).heeds
      | _ => cases hp

/-! ## Runs -/

abbrev CapState := RecordedConfig World Effect Effect.Reply CapRecord

/-- One recorded move of the system. -/
abbrev capStep (s : CapState) (m : Step) : Option CapState := system.record capRecorder s m

/-- The thread stands between its check and the insert of its row. -/
def inWindow (t : CapRecord × Program Unit) : Bool := t.1.passed && t.2.next.isSome

/-- The requests between the check and the insert. -/
def window (s : CapState) : Nat := s.threads.countP inWindow

/-- Submit requests are handled under the cap `cap`. -/
def handlesUnder (cap : Nat) : Step → Bool
  | .env (.submit cfg _ _ _) => cfg.submitMaxInflight = cap
  | _ => true

/-- The count of active submissions is answered. -/
def answersCount (s : CapState) : Step → Bool
  | .call _ (.ok _) => true
  | .call i _ => s.nextAt i ≠ some (.request .countActive)
  | _ => true

/-- The condition of a run under the cap `cap` in which every count is answered, and at
most `n` requests stand between the check and the insert at a time. -/
def Capped (cap n : Nat) (s : CapState) (m : Step) : Prop :=
  handlesUnder cap m = true ∧ answersCount s m = true ∧
    ((capStep s m).map window).getD 0 ≤ n

instance (cap n : Nat) (s : CapState) (m : Step) : Decidable (Capped cap n s m) :=
  inferInstanceAs (Decidable (_ ∧ _ ∧ _))

/-- The system before anything has happened. -/
def capStart : CapState := ⟨World.empty, []⟩

section Run

variable {cap n : Nat} {s s' : CapState} {m : Step}

/-- What a recorded run under the cap keeps. -/
structure CapInv (cap n : Nat) (s : CapState) : Prop where
  sane : Sane s.world
  heed : Machine.AllHeed capRecorder capRules s
  caps : ∀ t ∈ s.threads, ∀ c, t.1.cap = some c → c = cap
  bound : s.world.activeUncached + window s ≤ cap - 1 + n

/-- The reply to an effect of a run under the cap is as promised. -/
theorem promised_of_answers {i : Nat} {c : Fate} {g : CapRecord} {e : Effect} {k : e.Reply → Program Unit}
    {w : World} {r : e.Reply} (ha : answersCount s (.call i c) = true)
    (ht : s.threads[i]? = some (g, .call e k)) (hp : perform s.world e c = some (w, r)) :
    capRules.promised g e r := by
  by_cases hc : e = .request .countActive
  · subst hc
    cases c with
    | ok ch =>
      cases hp
      trivial
    | failed msg => simp [answersCount, RecordedConfig.nextAt_of_thread ht] at ha
    | lost ch msg => simp [answersCount, RecordedConfig.nextAt_of_thread ht] at ha
  · unfold capRules
    dsimp only
    split
    · exact absurd rfl hc
    · trivial

/-- The programs a move starts stand before their check. -/
theorem countP_inWindow_start (g : CapRecord) (hg : g.passed = false) (ps : List (Program Unit)) :
    (ps.map fun p => (g, p)).countP inWindow = 0 := by
  rw [List.countP_eq_zero]
  intro t ht
  obtain ⟨p, _, rfl⟩ := List.mem_map.mp ht
  simp [inWindow, hg]

/-- An effect moves one thread in or out of the window. -/
theorem window_call {i : Nat} {g : CapRecord} {e : Effect} {k : e.Reply → Program Unit} {w : World}
    {r : e.Reply} (ht : s.threads[i]? = some (g, .call e k)) :
    window ⟨w, s.threads.set i (g.next e r, k r) ++ (forks e).map fun p => (capRecorder.fork e, p)⟩ +
      (if g.passed then 1 else 0) ≤ window s + if (g.next e r).passed then 1 else 0 := by
  have hset := Machine.countP_set_add (P := inWindow) (b := (g.next e r, k r)) ht
  have hbefore : inWindow (g, .call e k) = g.passed := by simp [inWindow]
  have hafter : inWindow (g.next e r, k r) = true → (g.next e r).passed = true := fun h =>
    (Bool.and_eq_true_iff.mp h).1
  rw [hbefore] at hset
  unfold window
  rw [List.countP_append, countP_inWindow_start _ rfl]
  by_cases hp : inWindow (g.next e r, k r) = true
  · rw [if_pos (hafter hp)]
    rw [if_pos hp] at hset
    exact hset.le
  · rw [if_neg hp] at hset
    exact hset.le.trans (Nat.le_add_right _ _)

/-- A thread that is killed leaves the window. -/
theorem window_crash (i : Nat) :
    window ⟨s.world, s.threads.modify i fun t => (t.1, .ret ())⟩ ≤ window s := by
  exact Machine.countP_modify_le (fun t h => by simp [inWindow, Prog.next] at h) s.threads i

/-- An effect of a run under the cap keeps the bound. -/
theorem bound_call (hcap : 0 < cap) (h : CapInv cap n s) {i : Nat} {c : Fate} {g : CapRecord}
    {e : Effect} {k : e.Reply → Program Unit} {w : World} {r : e.Reply}
    (ht : s.threads[i]? = some (g, .call e k)) (hp : perform s.world e c = some (w, r))
    (hr : capRules.promised g e r) {s' : CapState}
    (hs' : s' = ⟨w, s.threads.set i (g.next e r, k r) ++ (forks e).map fun p => (capRecorder.fork e, p)⟩)
    (hn : window s' ≤ n) : s'.world.activeUncached + window s' ≤ cap - 1 + n := by
  have hactive := activeUncached_perform h.sane hp
  have hwindow := window_call (w := w) (r := r) ht
  rw [← hs'] at hwindow
  have hworld : s'.world = w := by rw [hs']
  rw [hworld]
  have hbound := h.bound
  by_cases he : e.enqueues = true
  · -- the row is inserted by a request that has passed its check
    obtain ⟨c', hc', hpassed⟩ := h.heed.allowed ht he
    rw [h.caps _ (List.mem_of_getElem? ht) c' hc'] at hpassed
    have hnext : (g.next e r).passed = false := by
      unfold CapRecord.next
      split
      · cases he
      · rw [if_pos he]
    rw [if_pos he] at hactive
    rw [hpassed hcap, hnext] at hwindow
    simp only [if_true, Bool.false_eq_true, if_false] at hwindow
    omega
  · rw [if_neg he] at hactive
    by_cases hc : e = .request .countActive
    · subst hc
      cases r with
      | error err => exact hr.elim
      | ok active =>
        -- the check counts what is active now
        obtain ⟨_, ch, hserve⟩ := served_of_ok hp
        obtain ⟨_, hcount⟩ := Prod.mk.inj hserve
        have hle : s.world.activeUncached ≤ active := by
          rw [← Except.ok.inj hcount]
          exact activeUncached_le s.world
        by_cases hlt : active < g.cap.getD 0
        · have hactivelt : s.world.activeUncached < cap := by
            refine Nat.lt_of_le_of_lt hle ?_
            cases hg : g.cap with
            | none => simp [hg] at hlt
            | some c' =>
              rw [← h.caps _ (List.mem_of_getElem? ht) c' hg]
              simpa [hg] using hlt
          omega
        · have hnext : (g.next (.request .countActive) (Except.ok active)).passed = false :=
            decide_eq_false hlt
          rw [hnext] at hwindow
          simp only [Bool.false_eq_true, if_false] at hwindow
          omega
    · have hnext : g.next e r = g := g.next_of_idle (by simpa using he) hc r
      rw [hnext] at hwindow
      omega

theorem capInv_step (hcap : 0 < cap) (h : CapInv cap n s) (hok : Capped cap n s m)
    (hstep : capStep s m = some s') (hsane : Sane s'.world) : CapInv cap n s' := by
  obtain ⟨hunder, hanswers, hn⟩ := hok
  rw [hstep, Option.map_some, Option.getD_some] at hn
  have hheed : Machine.AllHeed capRecorder capRules s' := by
    refine disciplined_cap.record h.heed ?_ (fun _ _ _ _ => trivial) hstep
    intro i c g e k w r hm ht hp
    subst hm
    exact promised_of_answers hanswers ht hp
  refine ⟨hsane, hheed, ?_, ?_⟩
  · intro t ht c hc
    obtain ht | ⟨i, _, g, e, k, r, rfl, hi, _, rfl⟩ | ⟨_, t₀, ht₀, rfl, rfl⟩ |
      ⟨_, _, _, e, _, _, rfl, _, _, hg, _⟩ | ⟨v, ps, rfl, _, hg, _⟩ := Machine.mem_record hstep ht
    · exact h.caps t ht c hc
    · exact h.caps _ (List.mem_of_getElem? hi) c ((g.next_cap e r).symm.trans hc)
    · exact h.caps t₀ ht₀ c hc
    · rw [hg] at hc
      cases hc
    · rw [hg] at hc
      cases v with
      | submit cfg _ _ _ =>
        cases hc
        exact of_decide_eq_true hunder
      | _ => cases hc
  · obtain ⟨i, c, g, e, k, w, r, rfl, ht, hp, hs'⟩ | ⟨i, rfl, rfl⟩ | ⟨v, w, ps, rfl, hv, rfl⟩ :=
      Machine.record_cases hstep
    · exact bound_call hcap h ht hp (promised_of_answers hanswers ht hp) hs' hn
    · exact (Nat.add_le_add_left (window_crash i) _).trans h.bound
    · have hactive := (calm_envStep hv).activeUncached_le
      have hwindow : window ⟨w, s.threads ++ ps.map fun p => (capRecorder.start v, p)⟩ = window s := by
        unfold window
        have hstart : (capRecorder.start v).passed = false := by cases v <;> rfl
        rw [List.countP_append, countP_inWindow_start _ hstart, Nat.add_zero]
      rw [hwindow]
      exact (Nat.add_le_add_right hactive _).trans h.bound

/-- While at most `n` requests stand between counting the active submissions and inserting
their own, the active submissions exceed the cap by less than `n`. -/
theorem active_le_cap (hcap : 0 < cap) (h : Run capStep (Capped cap n) capStart s) :
    s.world.activeUncached ≤ cap - 1 + n := by
  have hinv : CapInv cap n s := by
    induction h with
    | init =>
      exact ⟨sane_empty, fun t ht => absurd ht List.not_mem_nil, fun t ht => absurd ht List.not_mem_nil,
        Nat.zero_le _⟩
    | step m hrun hok hstep ih =>
      have hreach := Machine.reach_of_run (.step m hrun hok hstep)
      exact capInv_step hcap ih hok hstep ((sound_contract Machine.anyMove).reach good_start hreach).inv
  exact (Nat.le_add_right _ _).trans hinv.bound

end Run

/-- A request that is handled under a cap of one. -/
def capped (requestID : String) : Step :=
  .env (.submit ⟨65536, 1000, 10000, 65536, 524288, 1, true⟩ requestID (some 7)
    ⟨"int main()\x7b\x7d", 1, 1000, 65536, 0⟩)

/-- Two requests count before either inserts its row. -/
def bothCount : List Step :=
  [capped "r1", capped "r2"] ++ calls 0 3 ++ calls 1 3 ++ [.call 0 (.ok { uuid := "job-1" })] ++ calls 0 3 ++
    [.call 1 (.ok { uuid := "job-2" }), .call 1 (.failed "timeout")] ++ calls 1 2

/-- Both are active then, under a cap of one. -/
theorem active_le_cap_two :
    let s := playAll capStep (Capped 1 2) capStart bothCount
    s.world.activeUncached = 2 ∧ s.world.activeUncached ≤ 1 - 1 + 2 := by
  intro s
  exact ⟨by decide +kernel, active_le_cap (by decide) (Run.init.playAll bothCount)⟩

end DeepOj.Cluster
