import DeepOj.Cluster.Invariant

/-!
# The contract of the programs

What a program must know when it performs an effect, and the proof that effects
performed so keep the invariant of the world.
-/

namespace DeepOj.Cluster

open Repository Worker Api

/-! ## Justifications -/

/-- Why the entry `i` of job `j` may be acknowledged. -/
def AckJustified (w : World) (i : Nat) (j : String) : AckSite → Prop
  | .poison => ∃ r, w.submissions j = some r ∧ r.state = "done"
  | .claimRejected => ∃ r, w.submissions j = some r ∧ r.state ≠ "pending"
  | .doneOrStale => ∃ r, LogEvent.inspected j (some r) ∈ w.log
  | .notFound => ∃ r, LogEvent.inspected j (some r) ∈ w.log
  | .finalizeRejected a => ∃ o, Started w j a o i
  | .finalized a => (∃ o, Started w j a o i) ∧ ∃ r, w.submissions j = some r ∧ r.state = "done"

/-- A row as it is inserted. -/
def Unstarted (s : Submission) : Prop := s.state = "pending"

/-- The payload a new entry refers to is there, or no longer needed. -/
def PayloadReady (w : World) (v : StreamValues) : Prop :=
  ∃ j, v.jobID = some j ∧ v.payloadRef = some (payloadKey j) ∧
    ((w.redis (payloadKey j)).isSome ∨ RowDone w j)

/-- What a program must know when it sends a request. With `kept`, an entry is only
appended while its payload is there. -/
def RequestJustified (kept : Bool) (w : World) : Request → Prop
  | .update j op via =>
    match op with
    | .claim _ _ => ∃ i, via = some i ∧ EntryFor w i j
    | .reclaim _ _ => ∃ i, via = some i ∧ EntryFor w i j
    | .refresh a o _ => ∃ i, Started w j a o i
    | .finalize a o st m => ∃ i, via = some i ∧ Started w j a o i ∧ Resolved w j a st m
    | .poison _ _ => ∃ i, via = some i ∧ EntryFor w i j
    | .updateResult _ _ => LogEvent.created j .cached ∈ w.log
  | .select j purpose => purpose = .reclaimInspect → HasRow w j
  | .insert s origin => Unstarted s ∧ origin ≠ .outbox
  | .insertWithOutbox s event => Unstarted s ∧ event.jobID = s.jobID ∧ UUIDText s.jobID ∧
      event.Undelivered
  | .markDispatched eventID entryID =>
    ∀ evt, w.outbox[eventID]? = some evt → EntryFor w entryID evt.jobID
  | .set k _ => ∃ j, k = payloadKey j
  | .setNX k v => (∃ fp, k.name = .inflight fp) ∨
      ∃ j b m, k = resultKey j ∧ v = .result m ∧ Computed w j b m
  | .xadd values =>
    (∃ j, Complete j values ∧ Enqueuable w j) ∧ (kept = true → PayloadReady w values)
  | .xack i site => ∃ j, EntryFor w i j ∧ AckJustified w i j site
  | .countActive => True
  | .getProblem _ => True
  | .claimOutbox _ _ _ => True
  | .markDispatchError _ _ => True
  | .get _ _ => True
  | .del _ => True

/-- What a program must know when it acts on its own process. -/
def ActionJustified (w : World) : Action → Prop
  | .judge task b => ∃ o i, Started w task.jobID b o i
  | .go (.heartbeat _ j a o _ _) => ∃ i, Started w j a o i
  | .reply rid (.status j status state data) => ReplyJustified w rid j status state data
  | .reply _ (.error _) => True
  | .reply _ (.queuing _) => True
  | .now => True
  | .uuid => True
  | .newRun => True
  | .cancelRun _ => True
  | .selectTick _ => True
  | .sendHeartbeat _ _ => True
  | .recvHeartbeat _ => True
  | .rateLimit => True

/-- What a program must know when it performs an effect. -/
def Justified (kept : Bool) : Effect → World → Prop
  | .request q, w => RequestJustified kept w q
  | .act a, w => ActionJustified w a

/-- What a thread about to perform an effect relies on: the system only grows, and
with `kept` the payload of an entry about to be appended stays. -/
structure Rely (kept : Bool) (e : Effect) (w w' : World) : Prop where
  grows : Grows w w'
  payload : kept = true → ∀ v, e = .request (.xadd v) → PayloadReady w v → PayloadReady w' v

/-- The contract all programs of the system keep. -/
def contract (kept : Bool) : Conc.Discipline World Effect where
  Inv := Sane
  Allowed := Justified kept
  Rely := Rely kept
  rely_refl := fun _ w => ⟨.refl w, fun _ _ _ h => h⟩
  rely_trans := fun _ _ _ _ h₁ h₂ =>
    ⟨h₁.grows.trans h₂.grows, fun hk v he h => h₂.payload hk v he (h₁.payload hk v he h)⟩

/-- Without `kept` less is asked of a program. -/
theorem Justified.forget {kept : Bool} {e : Effect} {w : World} (h : Justified kept e w) :
    Justified false e w := by
  cases e with
  | act a => exact h
  | request q =>
    cases q with
    | xadd values => exact ⟨h.1, fun h => by cases h⟩
    | _ => exact h

/-! ## Effects keep the invariant -/

section Extends

variable {w : World} {kept : Bool}

theorem Extends.of_eq {w' : World} (hr : w'.submissions = w.submissions) (hl : w'.log = w.log)
    (hs : w'.stream = w.stream) (ho : w'.outbox = w.outbox)
    (hk : ∀ ns j v, w'.redis ⟨ns, .result j⟩ = some v →
      w.redis ⟨ns, .result j⟩ = some v ∨ ∃ b m, v = .result m ∧ Computed w j b m)
    (hq : w.requests ≤ w'.requests) : Extends w w' where
  grows := .of_eq hr hl hs ho
  entries := fun _ e he => .inl ⟨e, by rw [← hs]; exact he, rfl⟩
  events := fun _ e he => .inl ⟨e, by rw [← ho]; exact he, rfl⟩
  log := .inl hl
  rows := fun _ _ h => .inl (by rw [← hr]; exact h)
  redis := hk
  requests := hq

theorem Extends.refl (w : World) : Extends w w :=
  .of_eq rfl rfl rfl rfl (fun _ _ _ h => .inl h) (Nat.le_refl _)

theorem extends_record {ev : LogEvent} (h : NewEvent w (w.record ev) ev) :
    Extends w (w.record ev) where
  grows := grows_record w ev
  entries := fun _ e he => .inl ⟨e, he, rfl⟩
  events := fun _ e he => .inl ⟨e, he, rfl⟩
  log := .inr ⟨ev, rfl, h⟩
  rows := fun _ _ h => .inl h
  redis := fun _ _ _ h => .inl h
  requests := Nat.le_refl _

theorem extends_setKey {k : RedisKey} {v : Option RedisValue}
    (h : ∀ j, k.name = .result j → ∀ x, v = some x → ∃ b m, x = .result m ∧ Computed w j b m) :
    Extends w (w.setKey k v) := by
  refine .of_eq rfl rfl rfl rfl (fun ns j x hx => ?_) (Nat.le_refl _)
  by_cases hk : (⟨ns, .result j⟩ : RedisKey) = k
  · subst hk
    rw [w.setKey_self] at hx
    exact .inr (h j rfl x hx)
  · rw [w.setKey_of_ne hk] at hx
    exact .inl hx

theorem extends_setDelivery (i : Nat) (d : Delivery) : Extends w (w.setDelivery i d) where
  grows := grows_setDelivery w i d
  entries := fun i' e he => by
    simp only [World.setDelivery, List.getElem?_modify] at he
    obtain ⟨e₀, he₀, rfl⟩ := Option.map_eq_some_iff.mp he
    refine .inl ⟨e₀, he₀, ?_⟩
    split <;> rfl
  events := fun _ e he => .inl ⟨e, he, rfl⟩
  log := .inl rfl
  rows := fun _ _ h => .inl h
  redis := fun _ _ _ h => .inl h
  requests := Nat.le_refl _

theorem extends_setOutbox (ids : List Nat) {f : Nat → OutboxEvent → OutboxEvent}
    (hf : ∀ i e, (f i e).jobID = e.jobID) : Extends w (w.setOutbox ids f) where
  grows := grows_setOutbox w ids hf
  entries := fun _ e he => .inl ⟨e, he, rfl⟩
  events := fun i e he => by
    simp only [World.setOutbox, List.getElem?_mapIdx] at he
    obtain ⟨e₀, he₀, rfl⟩ := Option.map_eq_some_iff.mp he
    refine .inl ⟨e₀, he₀, ?_⟩
    split
    · exact hf i e₀
    · rfl
  log := .inl rfl
  rows := fun _ _ h => .inl h
  redis := fun _ _ _ h => .inl h
  requests := Nat.le_refl _

theorem extends_xadd {values : StreamValues} {j : String} (hc : Complete j values)
    (he : Enqueuable w j) :
    Extends w { w with stream := w.stream ++ [⟨values, .fresh⟩] } where
  grows := grows_xadd w _
  entries := fun i e h => by
    rcases Nat.lt_or_ge i w.stream.length with hi | hi
    · exact .inl ⟨e, by simpa only [List.getElem?_append_left hi] using h, rfl⟩
    · have hm : e ∈ [(⟨values, .fresh⟩ : StreamEntry)] := by
        rw [List.getElem?_append_right hi] at h
        exact List.mem_of_getElem? h
      rw [List.mem_singleton.mp hm]
      exact .inr ⟨j, hc, he⟩
  events := fun _ e he => .inl ⟨e, he, rfl⟩
  log := .inl rfl
  rows := fun _ _ h => .inl h
  redis := fun _ _ _ h => .inl h
  requests := Nat.le_refl _

/-- A first row is pending, and its creation is recorded. -/
theorem extends_insertRow {s : Submission} {origin : Origin} (hu : Unstarted s)
    (hnone : w.submissions s.jobID = none) : Extends w (w.insertRow s origin) where
  grows := grows_insertRow w origin hnone
  entries := fun _ e he => .inl ⟨e, he, rfl⟩
  events := fun _ e he => .inl ⟨e, he, rfl⟩
  log := .inr ⟨_, rfl, hnone, _, w.setRow_self s.jobID _⟩
  rows := fun j r hr => by
    by_cases hj : j = s.jobID
    · subst hj
      obtain rfl := Option.some.inj ((w.setRow_self s.jobID _).symm.trans hr)
      refine .inr ⟨.inl hu, fun hp => ?_⟩
      have hs : s.state = "processing" := hp
      rw [hu] at hs
      simp at hs
    · exact .inl ((w.setRow_of_ne hj _).symm.trans hr)
  redis := fun _ _ _ h => .inl h
  requests := Nat.le_refl _

/-- The version of the row an update leaves is justified. -/
theorem newRow_of_exec (h : Sane w) {j : String} {op : RowOp} {r r' : Submission} {v : Nat}
    {via : Option Nat} (hr : w.submissions j = some r) (hx : op.exec w.dbNow r = some (r', v))
    (hvia : ∀ o, op.starts = some o → ∃ i, via = some i) :
    NewRow ((w.setRow j r').recordUpdate j op via v) j r' := by
  have g : Grows w ((w.setRow j r').recordUpdate j op via v) := by
    refine (grows_setRow w fun r₁ hr₁ => ?_).trans (grows_recordUpdate _ j op via v)
    rw [hr] at hr₁
    cases hr₁
    exact later_of_exec hx
  cases ho : op.starts with
  | some o =>
    obtain ⟨_, ha, hl, hp, hst⟩ := starts_of_exec ho hx
    obtain ⟨i, rfl⟩ := hvia o ho
    refine ⟨.inr (.inl hp), fun _ => ⟨hst, o, i, hl, ?_⟩⟩
    rw [ha]
    cases op with
    | claim o' l => cases ho; exact List.mem_cons_self
    | reclaim o' l => cases ho; exact List.mem_cons_self
    | refresh a o' l => cases ho
    | finalize a o' st m => cases ho
    | poison code msg => cases ho
    | updateResult st m => cases ho
  | none =>
    obtain ⟨ha, hd | ⟨hs, hl, hst⟩⟩ := keeps_of_exec ho hx
    · exact ⟨.inr (.inr hd), fun hp => absurd (hp.symm.trans hd) (by decide)⟩
    · refine ⟨by rw [hs]; exact h.states j r hr, fun hp => ?_⟩
      obtain ⟨hrun, o, i, ho', hstarted⟩ := h.running j r hr (hs ▸ hp)
      refine ⟨hst.trans hrun, o, i, by rw [hl]; exact ho', ?_⟩
      rw [ha]
      exact hstarted.grows g

/-- The history entry of an update is justified. -/
theorem newEvent_of_exec (h : Sane w) {j : String} {op : RowOp} {r r' : Submission} {v : Nat}
    {via : Option Nat} (hj : RequestJustified kept w (.update j op via))
    (hr : w.submissions j = some r) (hx : op.exec w.dbNow r = some (r', v)) :
    let w' := (w.setRow j r').recordUpdate j op via v
    w'.log = w.log ∨ ∃ ev, w'.log = ev :: w.log ∧ NewEvent w w' ev := by
  -- a new attempt is numbered above the row's, and only jobs in the stream get one
  have hstart : ∀ o, op.starts = some o → EntryFor w (via.getD 0) j →
      NewEvent w ((w.setRow j r').recordUpdate j op via v) (.started j v o via) := by
    intro o ho he
    obtain ⟨hv, ha, _, hp, _⟩ := starts_of_exec ho hx
    refine ⟨h.entry_enqueuable he, fun r₁ hr₁ => ?_, r', ?_, ha.ge, by simp [hp]⟩
    · rw [hr] at hr₁
      cases hr₁
      omega
    · cases op with
      | claim o' l => exact w.setRow_self j r'
      | reclaim o' l => exact w.setRow_self j r'
      | refresh a o' l => cases ho
      | finalize a o' st m => cases ho
      | poison code msg => cases ho
      | updateResult st m => cases ho
  cases op with
  | claim o l =>
    obtain ⟨i, rfl, he⟩ := hj
    exact .inr ⟨_, rfl, hstart o rfl he⟩
  | reclaim o l =>
    obtain ⟨i, rfl, he⟩ := hj
    exact .inr ⟨_, rfl, hstart o rfl he⟩
  | finalize a o st m =>
    obtain ⟨i, rfl, _, hres⟩ := hj
    obtain ⟨⟨ha, _⟩, _, rfl⟩ := finalizeSubmission_eq_some.mp hx
    exact .inr ⟨_, rfl, hres, _, w.setRow_self j _, rfl, ha, rfl, rfl⟩
  | refresh a o l => exact .inl rfl
  | poison code msg => exact .inl rfl
  | updateResult st m => exact .inl rfl

theorem extends_recordSkip (j : String) (op : RowOp) : Extends w (w.recordSkip j op) := by
  cases op with
  | updateResult st m => exact extends_record trivial
  | claim o l => exact .refl w
  | reclaim o l => exact .refl w
  | finalize a o st m => exact .refl w
  | refresh a o l => exact .refl w
  | poison code msg => exact .refl w

theorem recordUpdate_eq (w : World) (j : String) (op : RowOp) (via : Option Nat) (v : Nat) :
    let w' := w.recordUpdate j op via v
    w'.submissions = w.submissions ∧ w'.stream = w.stream ∧ w'.outbox = w.outbox ∧
      w'.redis = w.redis ∧ w'.requests = w.requests := by
  cases op <;> exact ⟨rfl, rfl, rfl, rfl, rfl⟩

theorem extends_update (h : Sane w) {ch : Chance} {j : String} {op : RowOp} {via : Option Nat}
    (hj : RequestJustified kept w (.update j op via)) :
    Extends w (serve w ch (.update j op via)).1 := by
  obtain ⟨r, r', v, hr, hx, hs⟩ | ⟨_, hs⟩ := serve_update w ch j op via
  · have g := grows_serve w ch (.update j op via)
    have hvia : ∀ o, op.starts = some o → ∃ i, via = some i := by
      intro o ho
      cases op with
      | claim o' l => exact hj.imp fun _ hi => hi.1
      | reclaim o' l => exact hj.imp fun _ hi => hi.1
      | refresh a o' l => cases ho
      | finalize a o' st m => cases ho
      | poison code msg => cases ho
      | updateResult st m => cases ho
    rw [hs] at g ⊢
    obtain ⟨hrows, hstream, houtbox, hredis, hreq⟩ := recordUpdate_eq (w.setRow j r') j op via v
    refine
      { grows := g
        entries := fun i e he => .inl ⟨e, by rw [hstream] at he; exact he, rfl⟩
        events := fun i e he => .inl ⟨e, by rw [houtbox] at he; exact he, rfl⟩
        log := newEvent_of_exec h hj hr hx
        rows := fun j' r₁ hr₁ => ?_
        redis := fun ns j' x hx' => .inl (by rw [hredis] at hx'; exact hx')
        requests := Nat.le_of_eq hreq.symm }
    rw [hrows] at hr₁
    by_cases hjj : j' = j
    · subst hjj
      obtain rfl := Option.some.inj ((w.setRow_self j' r').symm.trans hr₁)
      exact .inr (newRow_of_exec h hr hx hvia)
    · exact .inl ((w.setRow_of_ne hjj r').symm.trans hr₁)
  · rw [hs]
    exact extends_recordSkip j op

/-- A row inserted with its outbox event. -/
theorem extends_insertWithOutbox {ch : Chance} {s : Submission} {event : OutboxEvent}
    (hj : RequestJustified kept w (.insertWithOutbox s event)) :
    Extends w (serve w ch (.insertWithOutbox s event)).1 := by
  have g := grows_serve w ch (.insertWithOutbox s event)
  obtain ⟨hu, heq, huuid, _⟩ := hj
  simp only [serve] at g ⊢
  split
  · exact .refl w
  · rename_i hne
    rw [if_neg hne] at g
    have hnone : w.submissions s.jobID = none := by
      cases hr : w.submissions s.jobID with
      | none => rfl
      | some r => simp [hr] at hne
    have hx : Extends w (w.insertRow s .outbox) := extends_insertRow hu hnone
    have hgl : LogEvent.created s.jobID .outbox ∈ (w.insertRow s .outbox).log :=
      List.mem_cons_self
    refine
      { grows := g
        entries := hx.entries
        events := fun i e he => ?_
        log := .inr ⟨_, rfl, hnone, _, w.setRow_self s.jobID _⟩
        rows := hx.rows
        redis := hx.redis
        requests := hx.requests }
    -- the new event is the last one
    replace he : (w.outbox ++ [{ event with attempts := 0, nextAttemptAt := w.dbNow }])[i]? =
      some e := he
    rcases Nat.lt_or_ge i w.outbox.length with hi | hi
    · exact .inl ⟨e, by rw [List.getElem?_append_left hi] at he; exact he, rfl⟩
    · rw [List.getElem?_append_right hi] at he
      rw [List.mem_singleton.mp (List.mem_of_getElem? he)]
      refine .inr ⟨by rw [heq]; exact huuid, .outbox, by decide, ?_⟩
      rw [heq]
      exact hgl

/-- Serving a justified request. -/
theorem extends_serve (h : Sane w) (ch : Chance) {q : Request} (hj : RequestJustified kept w q) :
    Extends w (serve w ch q).1 := by
  cases q with
  | update j op via => exact extends_update h hj
  | select j purpose =>
    cases purpose with
    | reclaimInspect => exact extends_record fun r hr => hr
    | status => exact .refl w
    | finalizeReject => exact .refl w
  | insert s origin =>
    simp only [serve]
    cases hr : w.submissions s.jobID with
    | none => exact extends_insertRow hj.1 hr
    | some r => exact .refl w
  | insertWithOutbox s event => exact extends_insertWithOutbox hj
  | countActive => exact .refl w
  | getProblem id => exact .refl w
  | claimOutbox limit baseMs maxMs => exact extends_setOutbox _ fun _ _ => rfl
  | markDispatched eventID entryID => exact extends_setOutbox _ fun _ _ => rfl
  | markDispatchError eventID err =>
    exact extends_setOutbox _ fun _ e => markOutboxDispatchError_jobID err e
  | get reader k =>
    simp only [serve]
    unfold World.recordGet
    split
    · exact extends_record trivial
    · exact .refl w
  | set k v =>
    obtain ⟨j, rfl⟩ := hj
    exact extends_setKey fun j' hk => by cases hk
  | setNX k v =>
    simp only [serve]
    cases w.redis k with
    | some v' => exact .refl w
    | none =>
      refine extends_setKey fun j' hk x hx => ?_
      obtain ⟨fp, hfp⟩ | ⟨j, b, m, rfl, rfl, hc⟩ := hj
      · rw [hfp] at hk
        cases hk
      · cases hk
        cases hx
        exact ⟨b, m, rfl, hc⟩
  | del k => exact extends_setKey fun j' hk x hx => by cases hx
  | xadd values =>
    obtain ⟨⟨j, hc, he⟩, _⟩ := hj
    exact extends_xadd hc he
  | xack i site =>
    simp only [serve]
    unfold World.xack
    split
    · exact extends_setDelivery i .acked
    · exact .refl w

theorem extends_drop (q : Request) : Extends w (w.drop q) := by
  cases q with
  | update j op via => exact extends_recordSkip j op
  | _ => exact .refl w

theorem extends_actLocally {w' : World} {ch : Chance} {a : Action}
    {r : a.Response} (hj : ActionJustified w a) (ha : actLocally w ch a = some (w', r)) :
    Extends w w' := by
  cases a with
  | now => cases ha; exact .refl w
  | uuid =>
    simp only [actLocally] at ha
    split at ha
    · cases ha; exact .refl w
    · cases ha
  | judge task attemptID => cases ha; exact extends_record hj
  | newRun => cases ha; exact .of_eq rfl rfl rfl rfl (fun _ _ _ h => .inl h) (Nat.le_refl _)
  | cancelRun cell => cases ha; exact .of_eq rfl rfl rfl rfl (fun _ _ _ h => .inl h) (Nat.le_refl _)
  | go g => cases ha; exact .refl w
  | selectTick cell =>
    simp only [actLocally] at ha
    split at ha
    · cases ha; exact .refl w
    · split at ha
      · split at ha
        · cases ha; exact .refl w
        · cases ha
      · cases ha
  | sendHeartbeat cell r =>
    cases ha; exact .of_eq rfl rfl rfl rfl (fun _ _ _ h => .inl h) (Nat.le_refl _)
  | recvHeartbeat cell =>
    simp only [actLocally] at ha
    split at ha
    · cases ha; exact .refl w
    · cases ha
  | rateLimit => cases ha; exact .refl w
  | reply rid r =>
    cases ha
    refine extends_record ?_
    cases r with
    | status j st state data => exact hj
    | error code => trivial
    | queuing j => trivial

/-- Every justified effect, however it ends. -/
theorem extends_perform (h : Sane w) {w' : World} {e : Effect} {c : Fate} {r : e.Reply}
    (hj : Justified kept e w) (hp : perform w e c = some (w', r)) : Extends w w' := by
  cases e with
  | request q =>
    obtain ⟨ch, rfl, _⟩ | ⟨rfl, _⟩ := perform_request hp
    · exact extends_serve h ch hj
    · exact extends_drop q
  | act a =>
    obtain ⟨ch, ha⟩ := perform_act hp
    exact extends_actLocally hj ha

/-- Every move of the environment. -/
theorem extends_envStep {w' : World} {v : Env} {ps : List (Program Unit)}
    (hv : envStep w v = some (w', ps)) : Extends w w' := by
  cases v with
  | dbTick d => cases hv; exact .of_eq rfl rfl rfl rfl (fun _ _ _ h => .inl h) (Nat.le_refl _)
  | redisTick d => cases hv; exact .of_eq rfl rfl rfl rfl (fun _ _ _ h => .inl h) (Nat.le_refl _)
  | deliver cfg i =>
    simp only [envStep] at hv
    split at hv
    · cases hv; exact extends_setDelivery i _
    · cases hv
  | autoclaim cfg i =>
    simp only [envStep] at hv
    split at hv
    · split at hv
      · cases hv; exact extends_setDelivery i _
      · cases hv
    · cases hv
  | dispatch cfg => cases hv; exact .refl w
  | submit cfg requestID userID body =>
    cases hv
    exact .of_eq rfl rfl rfl rfl (fun _ _ _ h => .inl h) (Nat.le_succ _)
  | status userID admin jobID =>
    have g := grows_envStep hv
    cases hv
    exact
      { grows := g
        entries := fun _ e he => .inl ⟨e, he, rfl⟩
        events := fun _ e he => .inl ⟨e, he, rfl⟩
        log := .inr ⟨_, rfl, rfl, Nat.lt_succ_self _⟩
        rows := fun _ _ h => .inl h
        redis := fun _ _ _ h => .inl h
        requests := Nat.le_succ _ }
  | expire k => cases hv; exact extends_setKey fun j' hk x hx => by cases hx
  | fillCache fp v => cases hv; exact extends_setKey fun j' hk => by cases hk

end Extends

end DeepOj.Cluster
