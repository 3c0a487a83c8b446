import DeepOj.Cluster.Soundness

/-!
# What one move does

Each move changes at most one part of the shared data. An invariant of the world
is proved by cases on that change, under a condition on the requests the moves of
the run send.
-/

namespace DeepOj.Cluster

open Repository Worker Api

/-! ## Effects -/

/-- The databases hold the same data; the history may have grown. -/
structure SameData (w w' : World) : Prop where
  rows : w'.submissions = w.submissions
  outbox : w'.outbox = w.outbox
  stream : w'.stream = w.stream
  redis : w'.redis = w.redis
  dbNow : w'.dbNow = w.dbNow

theorem SameData.refl (w : World) : SameData w w := ⟨rfl, rfl, rfl, rfl, rfl⟩

/-- What serving a request changes. -/
inductive Change (w : World) : Request → World → Prop where
  | same {q : Request} : Change w q w
  | inspect {j : String} :
      Change w (.select j .reclaimInspect) (w.record (.inspected j (w.submissions j)))
  | get {reader : Reader} {k : RedisKey} : Change w (.get reader k) (w.recordGet reader k)
  | skip {j : String} {op : RowOp} {via : Option Nat}
      (h : ∀ r, w.submissions j = some r → op.exec w.dbNow r = none) :
      Change w (.update j op via) (w.recordSkip j op)
  | update {j : String} {op : RowOp} {via : Option Nat} {r r' : Submission} {v : Nat}
      (hr : w.submissions j = some r) (hx : op.exec w.dbNow r = some (r', v)) :
      Change w (.update j op via) ((w.setRow j r').recordUpdate j op via v)
  | insert {s : Submission} {origin : Origin} (h : w.submissions s.jobID = none) :
      Change w (.insert s origin) (w.insertRow s origin)
  | insertWithOutbox {s : Submission} {event : OutboxEvent} {w' : World}
      (h : w.submissions s.jobID = none)
      (hw : w' = { w.insertRow s .outbox with
        outbox := w.outbox ++ [{ event with attempts := 0, nextAttemptAt := w.dbNow }] }) :
      Change w (.insertWithOutbox s event) w'
  /-- Events are claimed again or keep an error; none is delivered. -/
  | outbox {q : Request} {ids : List Nat} {f : Nat → OutboxEvent → OutboxEvent}
      (hf : ∀ i e, (f i e).jobID = e.jobID ∧ (e.Undelivered → (f i e).Undelivered)) :
      Change w q (w.setOutbox ids f)
  | dispatched {eventID entryID : Nat} :
      Change w (.markDispatched eventID entryID)
        (w.setOutbox [eventID] fun _ => markOutboxDispatched w.dbNow entryID)
  | set {q : Request} {k : RedisKey} {v : RedisValue}
      (hq : q = .set k v ∨ q = .setNX k v ∧ w.redis k = none) : Change w q (w.setKey k (some v))
  | del {k : RedisKey} : Change w (.del k) (w.setKey k none)
  | xadd {values : StreamValues} :
      Change w (.xadd values) { w with stream := w.stream ++ [⟨values, .fresh⟩] }
  | xack {i : Nat} {site : AckSite} : Change w (.xack i site) (w.xack i)

theorem sameData_recordSkip (w : World) (j : String) (op : RowOp) :
    SameData w (w.recordSkip j op) := by
  cases op <;> exact ⟨rfl, rfl, rfl, rfl, rfl⟩

theorem sameData_recordGet (w : World) (reader : Reader) (k : RedisKey) :
    SameData w (w.recordGet reader k) := by
  unfold World.recordGet
  split <;> exact ⟨rfl, rfl, rfl, rfl, rfl⟩

theorem undelivered_markOutboxDispatchError (err : String) {e : OutboxEvent}
    (h : e.Undelivered) : (markOutboxDispatchError err e).Undelivered := by
  unfold markOutboxDispatchError
  rw [if_pos h.2]
  exact ⟨rfl, h.2⟩

theorem change_serve (w : World) (ch : Chance) (q : Request) : Change w q (serve w ch q).1 := by
  cases q with
  | update j op via =>
    obtain ⟨r, r', v, hr, hx, hs⟩ | ⟨hn, hs⟩ := serve_update w ch j op via
    · rw [hs]
      exact .update hr hx
    · rw [hs]
      exact .skip hn
  | select j purpose =>
    cases purpose with
    | reclaimInspect => exact .inspect
    | status => exact .same
    | finalizeReject => exact .same
  | insert s origin =>
    simp only [serve]
    cases hr : w.submissions s.jobID with
    | none => exact .insert hr
    | some r => exact .same
  | insertWithOutbox s event =>
    simp only [serve]
    split
    · exact .same
    · rename_i hne
      refine .insertWithOutbox ?_ rfl
      cases hr : w.submissions s.jobID with
      | none => rfl
      | some r => simp [hr] at hne
  | countActive => exact .same
  | getProblem id => exact .same
  | claimOutbox limit baseMs maxMs => exact .outbox fun _ _ => ⟨rfl, fun h => h⟩
  | markDispatched eventID entryID => exact .dispatched
  | markDispatchError eventID err =>
    exact .outbox fun _ e =>
      ⟨markOutboxDispatchError_jobID err e, undelivered_markOutboxDispatchError err⟩
  | get reader k => exact .get
  | set k v => exact .set (.inl rfl)
  | setNX k v =>
    simp only [serve]
    cases hk : w.redis k with
    | none => exact .set (.inr ⟨rfl, hk⟩)
    | some v' => exact .same
  | del k => exact .del
  | xadd values => exact .xadd
  | xack entryID site => exact .xack

/-- The events that come from an action of the own process. -/
def LogEvent.Quiet : LogEvent → Prop
  | .executed .. => True
  | .replied .. => True
  | _ => False

/-- The data stays, and the history grows by a quiet event at most. -/
structure QuietStep (w w' : World) : Prop where
  data : SameData w w'
  log : w'.log = w.log ∨ ∃ ev : LogEvent, ev.Quiet ∧ w'.log = ev :: w.log

theorem QuietStep.refl (w : World) : QuietStep w w := ⟨.refl w, .inl rfl⟩

theorem sameData_drop (w : World) (q : Request) : SameData w (w.drop q) := by
  cases q with
  | update j op via => exact sameData_recordSkip w j op
  | _ => exact .refl w

theorem quiet_actLocally {w w' : World} {ch : Chance} {a : Action} {r : a.Response}
    (h : actLocally w ch a = some (w', r)) : QuietStep w w' := by
  cases a with
  | now => cases h; exact .refl w
  | uuid =>
    simp only [actLocally] at h
    split at h
    · cases h; exact .refl w
    · cases h
  | judge task attemptID =>
    cases h
    exact ⟨⟨rfl, rfl, rfl, rfl, rfl⟩, .inr ⟨.executed task attemptID ch.outcome, trivial, rfl⟩⟩
  | newRun => cases h; exact ⟨⟨rfl, rfl, rfl, rfl, rfl⟩, .inl rfl⟩
  | cancelRun cell => cases h; exact ⟨⟨rfl, rfl, rfl, rfl, rfl⟩, .inl rfl⟩
  | go g => cases h; exact .refl w
  | selectTick cell =>
    simp only [actLocally] at h
    split at h
    · cases h; exact .refl w
    · split at h
      · split at h
        · cases h; exact .refl w
        · cases h
      · cases h
  | sendHeartbeat cell r => cases h; exact ⟨⟨rfl, rfl, rfl, rfl, rfl⟩, .inl rfl⟩
  | recvHeartbeat cell =>
    simp only [actLocally] at h
    split at h
    · cases h; exact .refl w
    · cases h
  | rateLimit => cases h; exact .refl w
  | reply rid r =>
    cases h
    exact ⟨⟨rfl, rfl, rfl, rfl, rfl⟩, .inr ⟨.replied rid r, trivial, rfl⟩⟩

/-- The request reaches the server. -/
def Fate.served : Fate → Bool
  | .failed _ => false
  | _ => true

/-- Only `DEL` removes a key. -/
theorem Change.redis {w w' : World} {q : Request} (h : Change w q w') {k : RedisKey}
    (hk : (w.redis k).isSome) : (w'.redis k).isSome ∨ q = .del k := by
  have hkeep : w'.redis = w.redis → (w'.redis k).isSome ∨ q = .del k := by
    intro heq
    rw [heq]
    exact .inl hk
  cases h with
  | set _ =>
    rename_i k' v _
    by_cases hkk : k = k'
    · subst hkk
      rw [w.setKey_self]
      exact .inl rfl
    · rw [w.setKey_of_ne hkk]
      exact .inl hk
  | del =>
    rename_i k'
    by_cases hkk : k = k'
    · exact .inr (by rw [hkk])
    · rw [w.setKey_of_ne hkk]
      exact .inl hk
  | get => exact hkeep (sameData_recordGet w _ _).redis
  | skip _ => exact hkeep (sameData_recordSkip w _ _).redis
  | update hr hx =>
    rename_i j op via r r' v
    exact hkeep (recordUpdate_eq (w.setRow j r') j op via v).2.2.2.1
  | insertWithOutbox _ hw => exact hkeep (by rw [hw]; rfl)
  | xack =>
    refine hkeep ?_
    unfold World.xack
    split <;> rfl
  | same => exact hkeep rfl
  | inspect => exact hkeep rfl
  | insert _ => exact hkeep rfl
  | outbox _ => exact hkeep rfl
  | dispatched => exact hkeep rfl
  | xadd => exact hkeep rfl

theorem Change.dbNow {w w' : World} {q : Request} (h : Change w q w') : w'.dbNow = w.dbNow := by
  cases h with
  | same => rfl
  | inspect => rfl
  | get => exact (sameData_recordGet w _ _).dbNow
  | skip _ => exact (sameData_recordSkip w _ _).dbNow
  | update hr hx =>
    rename_i j op via r r' v
    cases op <;> rfl
  | insert _ => rfl
  | insertWithOutbox _ hw => rw [hw]; rfl
  | outbox _ => rfl
  | dispatched => rfl
  | set _ => rfl
  | del => rfl
  | xadd => rfl
  | xack =>
    unfold World.xack
    split <;> rfl

/-- The database clock moves on its own. -/
theorem dbNow_perform {w w' : World} {e : Effect} {c : Fate} {r : e.Reply}
    (h : perform w e c = some (w', r)) : w'.dbNow = w.dbNow := by
  cases e with
  | request q =>
    obtain ⟨ch, rfl, _⟩ | ⟨rfl, _⟩ := perform_request h
    · exact (change_serve w ch q).dbNow
    · exact (sameData_drop w q).dbNow
  | act a =>
    obtain ⟨ch, ha⟩ := perform_act h
    exact (quiet_actLocally ha).data.dbNow

/-! ## Environment moves -/

/-- What an environment move changes. -/
inductive EnvChange (w : World) : Env → World → Prop where
  | same {v : Env} {w' : World} (h : SameData w w') (hl : w'.log = w.log) : EnvChange w v w'
  | asked {v : Env} {w' : World} (rid : Nat) (j : String) (h : SameData w w')
      (hl : w'.log = .asked rid j (w.submissions j) :: w.log) : EnvChange w v w'
  | dbTick {d : Nat} : EnvChange w (.dbTick d) { w with dbNow := w.dbNow + d }
  /-- An entry that is not acknowledged goes to a consumer. -/
  | give {v : Env} {i : Nat} {e : StreamEntry} {consumer : String}
      (he : w.stream[i]? = some e) (hd : e.delivery ≠ .acked) : EnvChange w v (w.give i consumer)
  | expire {k : RedisKey} : EnvChange w (.expire k) (w.setKey k none)
  | fillCache {fp : String} {v : RedisValue} :
      EnvChange w (.fillCache fp v) (w.setKey (namespacedRedisKey ⟨false, .cache fp⟩) (some v))

theorem change_envStep {w w' : World} {v : Env} {ps : List (Program Unit)}
    (h : envStep w v = some (w', ps)) : EnvChange w v w' := by
  cases v with
  | dbTick d => cases h; exact .dbTick
  | redisTick d => cases h; exact .same ⟨rfl, rfl, rfl, rfl, rfl⟩ rfl
  | deliver cfg i =>
    simp only [envStep] at h
    split at h
    · rename_i he
      cases h
      exact .give he (fun h => by cases h)
    · cases h
  | autoclaim cfg i =>
    simp only [envStep] at h
    split at h
    · rename_i he
      split at h
      · cases h
        exact .give he (fun h => by cases h)
      · cases h
    · cases h
  | dispatch cfg => cases h; exact .same (.refl w) rfl
  | submit cfg requestID userID body => cases h; exact .same ⟨rfl, rfl, rfl, rfl, rfl⟩ rfl
  | status userID admin j => cases h; exact .asked w.requests j ⟨rfl, rfl, rfl, rfl, rfl⟩ rfl
  | expire k => cases h; exact .expire
  | fillCache fp v => cases h; exact .fillCache

/-! ## Conditions on the moves of a run -/

/-- The request a move sends, and whether it reaches the server. -/
def sent (s : State) : Step → Option (Request × Bool)
  | .call i c =>
    match s.nextAt i with
    | some (.request q) => some (q, c.served)
    | _ => none
  | _ => none

/-- A condition on requests: on the world they are sent in and on whether they
are served. -/
abbrev Guard := World → Request → Bool → Bool

/-- Every request is sent under the condition `P`. -/
def OnSent (P : Guard) (s : State) (m : Step) : Prop :=
  ∀ p ∈ sent s m, P s.world p.1 p.2 = true

instance (P : Guard) (s : State) (m : Step) : Decidable (OnSent P s m) :=
  inferInstanceAs (Decidable (∀ p ∈ sent s m, P s.world p.1 p.2 = true))

theorem nextAt_of_thread {s : State} {i : Nat} {e : Effect} {k : e.Reply → Program Unit}
    (ht : s.threads[i]? = some (.call e k)) : s.nextAt i = some e := by
  simp only [Conc.Config.nextAt, ht, Option.bind_some, Conc.Prog.next_call]

theorem OnSent.guard {P : Guard} {s : State} {i : Nat} {c : Fate} {q : Request}
    (h : OnSent P s (.call i c)) (hn : s.nextAt i = some (.request q)) :
    P s.world q c.served = true :=
  h (q, c.served) (by simp only [sent, hn, Option.mem_def])

/-- What a move of an admissible run does to the world. -/
inductive Moved (P : Guard) (w : World) : World → Prop where
  | served {q : Request} {w' : World} (hj : RequestJustified false w q) (hP : P w q true = true)
      (hc : Change w q w') : Moved P w w'
  | dropped {q : Request} (hj : RequestJustified false w q) (hP : P w q false = true) : Moved P w (w.drop q)
  | acted {a : Action} {ch : Chance} {w' : World} {r : a.Response} (hj : ActionJustified w a)
      (ha : actLocally w ch a = some (w', r)) : Moved P w w'
  | env {v : Env} {w' : World} (h : EnvChange w v w') : Moved P w w'

theorem moved_perform {P : Guard} {w w' : World} {e : Effect} {c : Fate} {r : e.Reply}
    (hj : Justified false e w) (hP : ∀ q, e = .request q → P w q c.served = true)
    (h : perform w e c = some (w', r)) : Moved P w w' := by
  cases e with
  | request q =>
    have hq : P w q c.served = true := hP q rfl
    cases c with
    | ok ch =>
      have hw : w' = (serve w ch q).1 := by rw [Option.some.inj h]
      rw [hw]
      exact .served hj hq (change_serve w ch q)
    | failed msg =>
      obtain ⟨rfl, rfl⟩ := Prod.mk.inj (Option.some.inj h)
      exact .dropped hj hq
    | lost ch msg =>
      obtain ⟨rfl, rfl⟩ := Prod.mk.inj (Option.some.inj h)
      exact .served hj hq (change_serve w ch q)
  | act a =>
    obtain ⟨ch, ha⟩ := perform_act h
    exact .acted hj ha

/-- The move an event of the history comes from. -/
def Cause (P : Guard) (w w' : World) : LogEvent → Prop
  | .created j origin => origin = .outbox →
      ∃ (i : Nat) (e : OutboxEvent), w'.outbox[i]? = some e ∧ e.jobID = j ∧ e.Undelivered
  | .inspected j row =>
      row = w.submissions j ∧ P w (.select j .reclaimInspect) true = true
  | .skipped j => ∃ st m via served, P w (.update j (.updateResult st m) via) served = true ∧
      (served = true →
        ∀ r, w.submissions j = some r → (RowOp.updateResult st m).exec w.dbNow r = none)
  | .served j m => ∃ ns, w.redis ⟨ns, .result j⟩ = some (.result m) ∧
      P w (.get .api ⟨ns, .result j⟩) true = true
  | .asked _ j row => row = w.submissions j
  | .started .. => True
  | .executed .. => True
  | .finalized .. => True
  | .replied .. => True

section Inversion

variable {P : Guard} {w w' : World}

theorem cause_skip {j : String} {op : RowOp} {via : Option Nat} {served : Bool}
    (hP : P w (.update j op via) served = true)
    (hnone : served = true → ∀ r, w.submissions j = some r → op.exec w.dbNow r = none) :
    (w.recordSkip j op).log = w.log ∨
      ∃ ev, (w.recordSkip j op).log = ev :: w.log ∧ Cause P w (w.recordSkip j op) ev := by
  cases op with
  | updateResult st m => exact .inr ⟨.skipped j, rfl, st, m, via, served, hP, hnone⟩
  | _ => exact .inl rfl

/-- A request that is served adds one event at most, with its cause. -/
theorem cause_change {q : Request} (hj : RequestJustified false w q) (hP : P w q true = true)
    (hc : Change w q w') :
    w'.log = w.log ∨ ∃ ev, w'.log = ev :: w.log ∧ Cause P w w' ev := by
  cases hc with
  | same => exact .inl rfl
  | inspect => exact .inr ⟨_, rfl, rfl, hP⟩
  | get =>
    rename_i reader k
    unfold World.recordGet
    split
    · rename_i j m hname hval
      obtain ⟨ns, name⟩ := k
      cases hname
      exact .inr ⟨.served j m, rfl, ns, hval, hP⟩
    · exact .inl rfl
  | skip hnone => exact cause_skip hP fun _ => hnone
  | update hr hx =>
    rename_i op _ _ _ _
    cases op with
    | claim o l => exact .inr ⟨_, rfl, trivial⟩
    | reclaim o l => exact .inr ⟨_, rfl, trivial⟩
    | finalize a o st m => exact .inr ⟨_, rfl, trivial⟩
    | refresh a o l => exact .inl rfl
    | poison code msg => exact .inl rfl
    | updateResult st m => exact .inl rfl
  | insert _ =>
    rename_i s origin _
    exact .inr ⟨.created s.jobID origin, rfl, fun ho => absurd ho hj.2⟩
  | insertWithOutbox _ hw =>
    rename_i s event _
    subst hw
    refine .inr ⟨.created s.jobID .outbox, rfl, fun _ => ?_⟩
    exact ⟨w.outbox.length, _, List.getElem?_concat_length, hj.2.1, hj.2.2.2⟩
  | outbox _ => exact .inl rfl
  | dispatched => exact .inl rfl
  | set _ => exact .inl rfl
  | del => exact .inl rfl
  | xadd => exact .inl rfl
  | xack =>
    unfold World.xack
    split <;> exact .inl rfl

/-- A move adds one event at most, with its cause. -/
theorem Moved.log (h : Moved P w w') :
    w'.log = w.log ∨ ∃ ev, w'.log = ev :: w.log ∧ Cause P w w' ev := by
  cases h with
  | served hj hP hc => exact cause_change hj hP hc
  | dropped hj hP =>
    rename_i q
    cases q with
    | update j op via => exact cause_skip hP fun h => by cases h
    | _ => exact .inl rfl
  | acted hj ha =>
    obtain hl | ⟨ev, hev, hl⟩ := (quiet_actLocally ha).log
    · exact .inl hl
    · refine .inr ⟨ev, hl, ?_⟩
      cases ev with
      | executed task b outcome => trivial
      | replied rid r => trivial
      | _ => exact hev.elim
  | env hv =>
    cases hv with
    | same _ hl => exact .inl hl
    | asked rid j _ hl => exact .inr ⟨_, hl, rfl⟩
    | dbTick => exact .inl rfl
    | give _ _ => exact .inl rfl
    | expire => exact .inl rfl
    | fillCache => exact .inl rfl

/-- An event of the new history is an old one or has its cause in the move. -/
theorem Moved.mem_log (h : Moved P w w') {ev : LogEvent} (hm : ev ∈ w'.log) :
    ev ∈ w.log ∨ (Cause P w w' ev ∧ w'.log = ev :: w.log) := by
  obtain hl | ⟨ev', hl, hc⟩ := h.log
  · exact .inl (hl ▸ hm)
  · rw [hl] at hm
    rcases List.mem_cons.mp hm with rfl | hm
    · exact .inr ⟨hc, hl⟩
    · exact .inl hm

/-- A new version of a row is written by an update, or is a first one. -/
theorem Moved.row (h : Moved P w w') {j : String} {r' : Submission}
    (hr' : w'.submissions j = some r') :
    w.submissions j = some r' ∨ r'.state = "pending" ∨
      ∃ op via r v, w.submissions j = some r ∧ op.exec w.dbNow r = some (r', v) ∧
        RequestJustified false w (.update j op via) ∧ P w (.update j op via) true = true ∧
        w' = (w.setRow j r').recordUpdate j op via v := by
  have hinsert : ∀ s origin, Unstarted s → (w.insertRow s origin).submissions j = some r' →
      w.submissions j = some r' ∨ r'.state = "pending" := by
    intro s origin hu hr
    by_cases hj : j = s.jobID
    · subst hj
      rw [show (w.insertRow s origin).submissions s.jobID = _ from w.setRow_self s.jobID _] at hr
      rw [← Option.some.inj hr]
      exact .inr hu
    · exact .inl ((w.setRow_of_ne hj _).symm.trans hr)
  have hsame : SameData w w' → w.submissions j = some r' := fun hd => hd.rows ▸ hr'
  cases h with
  | served hj hP hc =>
    cases hc with
    | update hr hx =>
      rename_i j' op via r r₁ v
      obtain ⟨hrows, _⟩ := recordUpdate_eq (w.setRow j' r₁) j' op via v
      rw [hrows] at hr'
      by_cases hjj : j = j'
      · subst hjj
        obtain rfl := Option.some.inj ((w.setRow_self j r₁).symm.trans hr')
        exact .inr (.inr ⟨op, via, r, v, hr, hx, hj, hP, rfl⟩)
      · exact .inl ((w.setRow_of_ne hjj r₁).symm.trans hr')
    | insert _ => exact (hinsert _ _ hj.1 hr').imp_right .inl
    | insertWithOutbox _ hw =>
      subst hw
      exact (hinsert _ .outbox hj.1 hr').imp_right .inl
    | get => exact .inl (hsame (sameData_recordGet w _ _))
    | skip _ => exact .inl (hsame (sameData_recordSkip w _ _))
    | xack =>
      unfold World.xack at hr'
      split at hr' <;> exact .inl hr'
    | same => exact .inl hr'
    | inspect => exact .inl hr'
    | outbox _ => exact .inl hr'
    | dispatched => exact .inl hr'
    | set _ => exact .inl hr'
    | del => exact .inl hr'
    | xadd => exact .inl hr'
  | dropped _ _ => exact .inl (hsame (sameData_drop w _))
  | acted _ ha => exact .inl (hsame (quiet_actLocally ha).data)
  | env hv =>
    cases hv with
    | same hd _ => exact .inl (hsame hd)
    | asked _ _ hd _ => exact .inl (hsame hd)
    | dbTick => exact .inl hr'
    | give _ _ => exact .inl hr'
    | expire => exact .inl hr'
    | fillCache => exact .inl hr'

/-- The stream stays, gets an entry, or has one entry given or acknowledged. -/
theorem Moved.stream (h : Moved P w w') :
    w'.stream = w.stream ∨
      (∃ values, P w (.xadd values) true = true ∧
        w' = { w with stream := w.stream ++ [⟨values, .fresh⟩] }) ∨
      (∃ i e c t, w.stream[i]? = some e ∧ e.delivery ≠ .acked ∧
        w'.stream = (w.setDelivery i (.pending c t)).stream) ∨
      ∃ i site, RequestJustified false w (.xack i site) ∧ P w (.xack i site) true = true ∧
        w' = w.xack i := by
  cases h with
  | served hj hP hc =>
    cases hc with
    | update hr hx =>
      rename_i j op via r r' v
      exact .inl (recordUpdate_eq (w.setRow j r') j op via v).2.1
    | insertWithOutbox _ hw =>
      subst hw
      exact .inl rfl
    | get => exact .inl (sameData_recordGet w _ _).stream
    | skip _ => exact .inl (sameData_recordSkip w _ _).stream
    | xadd => exact .inr (.inl ⟨_, hP, rfl⟩)
    | xack => exact .inr (.inr (.inr ⟨_, _, hj, hP, rfl⟩))
    | same => exact .inl rfl
    | inspect => exact .inl rfl
    | insert _ => exact .inl rfl
    | outbox _ => exact .inl rfl
    | dispatched => exact .inl rfl
    | set _ => exact .inl rfl
    | del => exact .inl rfl
  | dropped _ _ => exact .inl (sameData_drop w _).stream
  | acted _ ha => exact .inl (quiet_actLocally ha).data.stream
  | env hv =>
    cases hv with
    | same hd _ => exact .inl hd.stream
    | asked _ _ hd _ => exact .inl hd.stream
    | give he hd => exact .inr (.inr (.inl ⟨_, _, _, _, he, hd, rfl⟩))
    | dbTick => exact .inl rfl
    | expire => exact .inl rfl
    | fillCache => exact .inl rfl

theorem getElem?_setDelivery {i₀ i : Nat} {d₀ : Delivery} {e' : StreamEntry}
    (h : (w.setDelivery i₀ d₀).stream[i]? = some e') :
    ∃ e, w.stream[i]? = some e ∧ e.values = e'.values ∧
      (e.delivery = e'.delivery ∨ (i₀ = i ∧ e'.delivery = d₀)) := by
  simp only [World.setDelivery, List.getElem?_modify] at h
  obtain ⟨e, he, heq⟩ := Option.map_eq_some_iff.mp h
  refine ⟨e, he, ?_⟩
  by_cases hi : i₀ = i
  · rw [if_pos hi] at heq
    subst heq
    exact ⟨rfl, .inr ⟨hi, rfl⟩⟩
  · rw [if_neg hi] at heq
    subst heq
    exact ⟨rfl, .inl rfl⟩

/-- An entry was there before, unacknowledged if it is now, or is appended by the move. -/
theorem Moved.entry (h : Moved P w w') {i : Nat} {e' : StreamEntry}
    (he' : w'.stream[i]? = some e') :
    (∃ e, w.stream[i]? = some e ∧ e.values = e'.values ∧
        (e'.delivery = .acked → e.delivery = .acked ∨
          ∃ site, RequestJustified false w (.xack i site) ∧ P w (.xack i site) true = true ∧
            w' = w.xack i)) ∨
      (P w (.xadd e'.values) true = true ∧ e'.delivery = .fresh ∧
        w' = { w with stream := w.stream ++ [e'] }) := by
  obtain hs | ⟨values, hP, hw⟩ | ⟨i₀, e₀, c, t, _, _, hs⟩ | ⟨i₀, site, hj, hP, hw⟩ := h.stream
  · exact .inl ⟨e', hs ▸ he', rfl, .inl⟩
  · have hx : (w.stream ++ [⟨values, .fresh⟩])[i]? = some e' := by
      rw [hw] at he'
      exact he'
    rcases Nat.lt_or_ge i w.stream.length with hi | hi
    · rw [List.getElem?_append_left hi] at hx
      exact .inl ⟨e', hx, rfl, .inl⟩
    · rw [List.getElem?_append_right hi] at hx
      obtain rfl := List.mem_singleton.mp (List.mem_of_getElem? hx)
      exact .inr ⟨hP, rfl, hw⟩
  · rw [hs] at he'
    obtain ⟨e, he, hv, hd⟩ := getElem?_setDelivery he'
    refine .inl ⟨e, he, hv, fun ha => ?_⟩
    obtain hd | ⟨_, hd⟩ := hd
    · exact .inl (hd.trans ha)
    · rw [ha] at hd
      cases hd
  · have hx := he'
    rw [hw] at hx
    unfold World.xack at hx
    split at hx
    · obtain ⟨e, he, hv, hd⟩ := getElem?_setDelivery hx
      refine .inl ⟨e, he, hv, fun ha => ?_⟩
      obtain hd | ⟨rfl, _⟩ := hd
      · exact .inl (hd.trans ha)
      · exact .inr ⟨site, hj, hP, hw⟩
    · exact .inl ⟨e', hx, rfl, .inl⟩

/-- An acknowledged entry was so before, or is acknowledged by the move. -/
theorem Moved.acked (h : Moved P w w') {i : Nat} {e' : StreamEntry}
    (he' : w'.stream[i]? = some e') (hd' : e'.delivery = .acked) :
    ∃ e, w.stream[i]? = some e ∧ e.values = e'.values ∧ (e.delivery = .acked ∨
      ∃ site, RequestJustified false w (.xack i site) ∧ P w (.xack i site) true = true ∧
        w' = w.xack i) := by
  obtain ⟨e, he, hv, ha⟩ | ⟨_, hd, _⟩ := h.entry he'
  · exact ⟨e, he, hv, ha hd'⟩
  · rw [hd'] at hd
    cases hd

/-- An undelivered event stays so, or its job has an entry in the stream. -/
theorem Moved.undelivered (h : Moved P w w') {i : Nat} {e : OutboxEvent}
    (he : w.outbox[i]? = some e) (hu : e.Undelivered) :
    (∃ e', w'.outbox[i]? = some e' ∧ e'.jobID = e.jobID ∧ e'.Undelivered) ∨
      ∃ n, EntryFor w n e.jobID := by
  have hsame : w'.outbox = w.outbox →
      ∃ e', w'.outbox[i]? = some e' ∧ e'.jobID = e.jobID ∧ e'.Undelivered :=
    fun ho => ⟨e, ho ▸ he, rfl, hu⟩
  cases h with
  | served hj hP hc =>
    cases hc with
    | update hr hx =>
      rename_i j op via r r' v
      exact .inl (hsame (recordUpdate_eq (w.setRow j r') j op via v).2.2.1)
    | insertWithOutbox _ hw =>
      subst hw
      have hi : i < w.outbox.length := (List.getElem?_eq_some_iff.mp he).1
      refine .inl ⟨e, ?_, rfl, hu⟩
      rw [List.getElem?_append_left hi]
      exact he
    | outbox hf =>
      rename_i ids f
      refine .inl ⟨if i ∈ ids then f i e else e, ?_, ?_⟩
      · simp only [World.setOutbox, List.getElem?_mapIdx, he, Option.map_some]
      · by_cases hi : i ∈ ids
        · rw [if_pos hi]
          exact ⟨(hf i e).1, (hf i e).2 hu⟩
        · rw [if_neg hi]
          exact ⟨rfl, hu⟩
    | dispatched =>
      rename_i eventID entryID
      by_cases hi : i = eventID
      · subst hi
        exact .inr ⟨entryID, hj e he⟩
      · refine .inl ⟨e, ?_, rfl, hu⟩
        simp only [World.setOutbox, List.getElem?_mapIdx, he, Option.map_some,
          List.mem_singleton, if_neg hi]
    | get => exact .inl (hsame (sameData_recordGet w _ _).outbox)
    | skip _ => exact .inl (hsame (sameData_recordSkip w _ _).outbox)
    | xack =>
      refine .inl (hsame ?_)
      unfold World.xack
      split <;> rfl
    | same => exact .inl (hsame rfl)
    | inspect => exact .inl (hsame rfl)
    | insert _ => exact .inl (hsame rfl)
    | set _ => exact .inl (hsame rfl)
    | del => exact .inl (hsame rfl)
    | xadd => exact .inl (hsame rfl)
  | dropped _ _ => exact .inl (hsame (sameData_drop w _).outbox)
  | acted _ ha => exact .inl (hsame (quiet_actLocally ha).data.outbox)
  | env hv =>
    cases hv with
    | same hd _ => exact .inl (hsame hd.outbox)
    | asked _ _ hd _ => exact .inl (hsame hd.outbox)
    | dbTick => exact .inl (hsame rfl)
    | give _ _ => exact .inl (hsame rfl)
    | expire => exact .inl (hsame rfl)
    | fillCache => exact .inl (hsame rfl)

end Inversion

/-- Run induction for invariants of the world. -/
theorem world_invariant {P : Guard} {J : World → Prop} (h₀ : J World.empty)
    (hstep : ∀ w w', Sane w → Sane w' → Extends w w' → Moved P w w' → J w → J w')
    {s : State} (h : system.Reach (OnSent P) start s) : Sane s.world ∧ J s.world := by
  have hsound := sound_contract (OnSent P)
  refine ⟨(hsound.reach good_start h).inv,
    hsound.world_invariant good_start h₀ ?_ ?_ h⟩
  · intro s i c e k w r hg hJ hj ht hok hp hs'
    refine hstep s.world w hg.inv hs' (extends_perform hg.inv hj hp) ?_ hJ
    exact moved_perform hj (fun q hq => hok.guard (hq ▸ nextAt_of_thread ht)) hp
  · intro s v w ps hg hJ _ hv hs'
    exact hstep s.world w hg.inv hs' (extends_envStep hv) (.env (change_envStep hv)) hJ

/-! ## A submission on its way -/

/-- The effect ends without failure. -/
def done : Fate := .ok {}

/-- The next `n` effects of thread `i`, none of which fails. -/
def calls (i n : Nat) : List Step := List.replicate n (.call i done)

/-- A worker with the shipped lease and grace period. -/
def worker (name : String) : WorkerConfig := ⟨name, 60, 5⟩

/-- Thread 0 submits `job-1` through the outbox. -/
def submission : List Step :=
  [.env (.submit ⟨65536, 1000, 10000, 65536, 524288, 0, true⟩ "r1" (some 7)
      ⟨"int main(){}", 1, 1000, 65536, 0⟩)] ++
    calls 0 2 ++ [.call 0 (.ok { uuid := "job-1" })] ++ calls 0 4

/-- A dispatcher starts. -/
def dispatch : Step := .env (.dispatch ⟨32, 500, 30000⟩)

/-- Thread 0 submits `job-1`, thread 1 dispatches it as entry 0. -/
def submitted : List Step := submission ++ [dispatch] ++ calls 1 4

end DeepOj.Cluster
