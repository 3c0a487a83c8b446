import DeepOj.Worker.StreamConsumerSpec

/-!
# The API and the dispatchers keep the contract
-/

namespace DeepOj.Api

open Repository Cluster Worker Go

variable {kept : Bool}

/-! ## Dispatching -/

theorem requiredStreamField_uuid {j : String} (h : UUIDText j) :
    requiredStreamField (some j) = some j := by
  obtain ⟨hne, ht⟩ := h
  simp only [requiredStreamField, ht]
  rw [if_neg hne]

/-- An entry with all its fields is complete. -/
theorem complete_of_uuid {j : String} (h : UUIDText j) {v : StreamValues} (hj : v.jobID = some j)
    (hts : v.enqueueTS.isNone = false) (href : v.payloadRef.isNone = false)
    (hprio : v.priority.isNone = false) : Complete j v := by
  have hreq : requiredStreamField v.jobID = some j := by
    rw [hj]
    exact requiredStreamField_uuid h
  refine ⟨hreq, ?_⟩
  simp [missingFields, hreq, hts, href, hprio]

/-- The outbox event `i` is one of job `j`. -/
def EventFor (w : World) (i : Nat) (j : String) : Prop :=
  ∃ e, w.outbox[i]? = some e ∧ e.jobID = j

theorem stable_eventFor (i : Nat) (j : String) : Stable fun w => EventFor w i j := by
  rintro w w' g ⟨e, he, hj⟩
  obtain ⟨e', he', hj'⟩ := g.outbox i e he
  exact ⟨e', he', hj'.trans hj⟩

theorem stable_enqueuable (j : String) : Stable fun w => Enqueuable w j :=
  fun _ _ g h => h.grows g

/-- A payload that was stored is there. -/
theorem keeps_setPayload {P : World → Prop} (hst : Stable P) (j : String) (v : RedisValue) :
    Keeps kept P (request (.set (payloadKey j) v)) fun r w =>
      P w ∧ (r = .ok () → (w.redis (payloadKey j)).isSome) := by
  refine keeps_request hst (fun _ _ _ => ⟨j, rfl⟩) ?_ ?_ ?_
  · intro w ch _ _ hP' _
    refine ⟨hP', fun _ => ?_⟩
    rw [show (serve w ch (.set (payloadKey j) v)).1.redis (payloadKey j) = some v from
      w.setKey_self _ _]
    rfl
  · exact fun w ch msg _ _ hP' => ⟨hP', fun h => by cases h⟩
  · exact fun w msg _ hP' => ⟨hP', fun h => by cases h⟩

/-- An entry appended while its payload is there. -/
theorem keeps_xadd {P : World → Prop} (hst : Stable P) {j : String} {values : StreamValues}
    (hc : Complete j values) (he : ∀ w, Sane w → P w → Enqueuable w j) :
    Keeps kept (fun w => P w ∧ (kept = true → PayloadReady w values)) (request (.xadd values))
      fun r w => P w ∧ ∀ i, r = .ok i → EntryFor w i j := by
  refine Conc.Machine.Triple.call (D := contract kept)
    (fun r w => P w ∧ ∀ i, r = .ok i → EntryFor w i j) ?_ ?_ ?_
    fun r => Conc.Machine.Triple.ret fun w h => h
  · exact fun w w' g h => ⟨hst w w' g.grows h.1, fun hk => g.payload hk values rfl (h.2 hk)⟩
  · exact fun w hs h => ⟨⟨j, hc, he w hs h.1⟩, h.2⟩
  · intro w c w' r _ hP hp _
    refine ⟨hst w w' (grows_perform hp) hP.1, fun i hi => ?_⟩
    obtain ⟨ch, rfl, rfl | ⟨msg, rfl⟩⟩ | ⟨rfl, msg, rfl⟩ := perform_request hp
    · cases hi
      exact ⟨⟨values, .fresh⟩, by simp [serve], hc.1⟩
    · cases hi
    · cases hi

/-- What a dispatcher knows of a claimed event. -/
def Claimed (i : Nat) (evt : OutboxEvent) (w : World) : Prop :=
  EventFor w i evt.jobID ∧ Enqueuable w evt.jobID

theorem stable_claimed (i : Nat) (evt : OutboxEvent) : Stable (Claimed i evt) :=
  (stable_eventFor i evt.jobID).and (stable_enqueuable evt.jobID)

theorem keeps_markDispatchError {P : World → Prop} (hst : Stable P) (i : Nat) (err : String) :
    Keeps kept P (markDispatchError i err) anyOutcome :=
  keeps_bind (keeps_request_any hst fun _ _ _ => trivial) fun _ => keeps_pure fun _ _ => trivial

theorem keeps_dispatchOne (i : Nat) (evt : OutboxEvent) (hu : UUIDText evt.jobID) :
    Keeps kept (Claimed i evt) (dispatchOne i evt) anyOutcome := by
  have hst := stable_claimed i evt
  have hc : Complete evt.jobID (dispatchValues i evt) := complete_of_uuid hu rfl rfl rfl rfl
  unfold dispatchOne
  refine keeps_bind (keeps_setPayload hst evt.jobID _) fun r => ?_
  cases r with
  | error err =>
    exact keeps_weaken (keeps_markDispatchError hst i err) (fun w h => h.1) fun _ _ h => h
  | ok u =>
    refine keeps_bind (keeps_weaken (keeps_xadd hst hc fun w _ h => h.2)
      (fun w h => ⟨h.1, fun _ => ⟨evt.jobID, rfl, rfl, .inl (h.2 rfl)⟩⟩) fun _ _ h => h)
      fun r => ?_
    cases r with
    | error err =>
      refine keeps_weaken (keeps_bind (keeps_request_any hst fun _ _ _ => trivial) fun _ =>
        keeps_markDispatchError hst i err) (fun w h => h.1) fun _ _ h => h
    | ok entryID =>
      have hst' : Stable fun w => Claimed i evt w ∧ EntryFor w entryID evt.jobID :=
        hst.and (stable_entryFor entryID evt.jobID)
      refine keeps_weaken (keeps_bind (keeps_request_any hst' fun w _ h evt' he => ?_) fun _ =>
        keeps_pure fun _ _ => trivial) (fun w h => ⟨h.1, h.2 entryID rfl⟩) fun _ _ h => h
      -- the event still is one of the same job
      obtain ⟨⟨⟨e, he', hj⟩, _⟩, hentry⟩ := h
      rw [he'] at he
      cases he
      rw [hj]
      exact hentry

/-- What a dispatcher knows of the events it has claimed. -/
def AllClaimed (l : List (Nat × OutboxEvent)) (w : World) : Prop := ∀ p ∈ l, Claimed p.1 p.2 w

theorem stable_allClaimed (l : List (Nat × OutboxEvent)) : Stable (AllClaimed l) :=
  fun w w' g h p hp => stable_claimed p.1 p.2 w w' g (h p hp)

theorem keeps_dispatchAll (l : List (Nat × OutboxEvent)) (hu : ∀ p ∈ l, UUIDText p.2.jobID) :
    Keeps kept (AllClaimed l) (dispatchAll l) anyOutcome := by
  induction l with
  | nil => exact keeps_pure fun _ _ => trivial
  | cons p rest ih =>
    obtain ⟨i, evt⟩ := p
    have hone : Keeps kept _ (dispatchOne i evt) _ :=
      keeps_frame (stable_allClaimed rest)
        (keeps_dispatchOne i evt (hu (i, evt) List.mem_cons_self))
    refine keeps_bind (keeps_weaken hone
      (fun w h => ⟨h (i, evt) List.mem_cons_self, fun p hp => h p (List.mem_cons_of_mem _ hp)⟩)
      fun _ _ h => h) fun _ => ?_
    exact keeps_weaken (ih fun p hp => hu p (List.mem_cons_of_mem _ hp)) (fun w h => h.2)
      fun _ _ h => h

theorem keeps_dispatchOnce (cfg : DispatcherConfig) :
    Keeps kept (fun _ => True) (dispatchOnce cfg) anyOutcome := by
  have hclaim : Keeps kept (fun _ => True)
      (request (.claimOutbox cfg.batch cfg.retryBaseMs cfg.retryMaxMs))
      fun r w => ∀ l, r = .ok l → AllClaimed l w ∧ ∀ p ∈ l, UUIDText p.2.jobID := by
    refine keeps_request stable_true (fun _ _ _ => trivial) ?_ ?_ ?_
    · intro w ch _ _ _ hs' l hl
      cases hl
      have hmem : ∀ p ∈ ((pickOutbox w.dbNow (claimLimit cfg.batch) ch.locked w.outbox).filterMap
          fun i => ((serve w ch (.claimOutbox cfg.batch cfg.retryBaseMs cfg.retryMaxMs)).1.outbox[i]?
            ).map fun e => (i, e)),
          (serve w ch (.claimOutbox cfg.batch cfg.retryBaseMs cfg.retryMaxMs)).1.outbox[p.1]? =
            some p.2 := by
        intro p hp
        obtain ⟨i, _, hi⟩ := List.mem_filterMap.mp hp
        obtain ⟨e, he, rfl⟩ := Option.map_eq_some_iff.mp hi
        exact he
      refine ⟨fun p hp => ⟨⟨p.2, hmem p hp, rfl⟩, (hs'.events p.1 p.2 (hmem p hp)).2⟩,
        fun p hp => (hs'.events p.1 p.2 (hmem p hp)).1⟩
    · exact fun w ch msg _ _ _ l h => by cases h
    · exact fun w msg _ _ l h => by cases h
  refine keeps_bind hclaim fun r => ?_
  cases r with
  | error err => exact keeps_pure fun _ _ => trivial
  | ok l =>
    refine keeps_of_imp (fun w h => (h l rfl).2) fun hu => ?_
    exact keeps_weaken (keeps_dispatchAll l hu) (fun w h => (h l rfl).1) fun _ _ h => h

theorem keeps_enqueueJobToStream (j : String) (task : TaskRequest) (hu : UUIDText j) :
    Keeps kept (fun w => Enqueuable w j) (enqueueJobToStream j task) anyOutcome := by
  have hst := stable_enqueuable j
  unfold enqueueJobToStream
  refine keeps_bind (keeps_act_any hst fun _ _ _ => trivial) fun ts => ?_
  refine keeps_bind (keeps_setPayload hst j _) fun r => ?_
  cases r with
  | error err => exact keeps_pure fun _ _ => trivial
  | ok u =>
    refine keeps_bind (keeps_weaken
      (keeps_xadd hst (complete_of_uuid hu rfl rfl rfl rfl) fun w _ h => h)
      (fun w h => ⟨h.1, fun _ => ⟨j, rfl, rfl, .inl (h.2 rfl)⟩⟩) fun _ _ h => h) fun r => ?_
    cases r with
    | error err =>
      exact keeps_weaken (keeps_bind (keeps_request_any hst fun _ _ _ => trivial) fun _ =>
        keeps_pure fun _ _ => trivial) (fun w h => h.1) fun _ _ h => h
    | ok i => exact keeps_pure fun _ _ => trivial

/-! ## Submitting -/

/-- A reply that reports no state needs no justification. -/
theorem keeps_reply_plain {P : World → Prop} (hst : Stable P) (caller : Caller) (r : ApiReply)
    (hr : ∀ j st state data, r ≠ .status j st state data) :
    Keeps kept P (reply caller r) anyOutcome := by
  refine keeps_weaken (keeps_act_any hst fun w _ _ => ?_) (fun _ h => h) fun _ _ _ => trivial
  cases r with
  | error code => trivial
  | queuing j => trivial
  | status j st state data => exact absurd rfl (hr j st state data)

theorem keeps_replyError (caller : Caller) (code : String) :
    Keeps kept (fun _ => True) (reply caller (.error code)) anyOutcome :=
  keeps_reply_plain stable_true caller _ fun _ _ _ _ h => by cases h

theorem keeps_replyQueuing (caller : Caller) (j : String) :
    Keeps kept (fun _ => True) (reply caller (.queuing j)) anyOutcome :=
  keeps_reply_plain stable_true caller _ fun _ _ _ _ h => by cases h

/-- Delete a key and reply with an error. -/
theorem keeps_delThenError (k : RedisKey) (caller : Caller) (code : String) :
    Keeps kept (fun _ => True) (do let _ ← request (.del k); reply caller (.error code))
      anyOutcome :=
  keeps_bind (keeps_request_any stable_true fun _ _ _ => trivial) fun _ =>
    keeps_replyError caller code

/-- A cached result is stored in the row, or the update is on record as skipped. -/
theorem keeps_updateCached (j : String) (m : ResultMap) :
    Keeps kept (fun w => LogEvent.created j .cached ∈ w.log)
      (request (.update j (.updateResult (cachedStatus m) m) none))
      fun _ w => CacheStored w j m ∨ LogEvent.skipped j ∈ w.log := by
  have hserved : ∀ w ch, CacheStored
      (serve w ch (.update j (.updateResult (cachedStatus m) m) none)).1 j m ∨
      LogEvent.skipped j ∈ (serve w ch (.update j (.updateResult (cachedStatus m) m) none)).1.log := by
    intro w ch
    obtain ⟨s, s', v, hs, hx, hw⟩ | ⟨_, hw⟩ :=
      serve_update w ch j (.updateResult (cachedStatus m) m) none
    · obtain ⟨_, _, rfl⟩ := updateSubmissionResultIfNotDone_eq_some.mp hx
      rw [hw]
      exact .inl ⟨_, w.setRow_self j _, rfl, rfl, rfl⟩
    · rw [hw]
      exact .inr List.mem_cons_self
  refine keeps_request (stable_logged _) (fun w _ h => h) ?_ ?_ ?_
  · exact fun w ch _ _ _ _ => hserved w ch
  · exact fun w ch msg _ _ _ => hserved w ch
  · exact fun w msg _ _ => .inr List.mem_cons_self

theorem keeps_submitCached (caller : Caller) (req : SubmitRequest) (m : ResultMap) :
    Keeps kept (fun _ => True) (submitCached caller req m) anyOutcome := by
  refine keeps_bind (keeps_act_any stable_true fun _ _ _ => trivial) fun j => ?_
  have hinsert : Keeps kept (fun _ => True)
      (request (.insert (newSubmission j caller.userID req) .cached))
      fun r w => ∀ u, r = .ok u → LogEvent.created j .cached ∈ w.log := by
    refine keeps_request stable_true (fun _ _ _ => ⟨rfl, by decide⟩) ?_ ?_ ?_
    · intro w ch _ _ _ _ u hu
      simp only [serve] at hu ⊢
      cases hr : w.submissions (newSubmission j caller.userID req).jobID with
      | some r => rw [hr] at hu; cases hu
      | none => exact List.mem_cons_self
    · exact fun w ch msg _ _ _ u h => by cases h
    · exact fun w msg _ _ u h => by cases h
  refine keeps_bind hinsert fun r => ?_
  cases r with
  | error err => exact keeps_weaken (keeps_replyError caller _) (fun _ _ => trivial) fun _ _ h => h
  | ok u =>
    refine keeps_weaken (keeps_bind (keeps_updateCached j m) fun r => ?_) (fun w h => h u rfl)
      fun _ _ h => h
    have hst : Stable fun w => CacheStored w j m ∨ LogEvent.skipped j ∈ w.log :=
      fun w w' g h => h.imp (stable_cacheStored j m w w' g) g.mem
    exact keeps_weaken (keeps_act_any hst fun w _ h => .cached m h rfl rfl rfl) (fun _ h => h)
      fun _ _ _ => trivial

theorem keeps_persistSubmission (cfg : ApiConfig) (caller : Caller) (req : SubmitRequest)
    (fingerprint j : String) (hu : UUIDText j) :
    Keeps kept (fun _ => True) (persistSubmission cfg caller req fingerprint j) anyOutcome := by
  unfold persistSubmission
  refine keeps_bind (keeps_act_any stable_true fun _ _ _ => trivial) fun ts => ?_
  dsimp only
  by_cases hout : cfg.outboxEnabled = true
  · rw [if_pos hout]
    refine keeps_bind (keeps_request_any stable_true fun w _ _ =>
      ⟨rfl, rfl, hu, rfl, rfl⟩) fun r => ?_
    cases r with
    | error err => exact keeps_delThenError _ caller _
    | ok u => exact keeps_replyQueuing caller j
  · rw [if_neg hout]
    have hinsert : Keeps kept (fun _ => True)
        (request (.insert (newSubmission j caller.userID req) .direct))
        fun r w => ∀ u, r = .ok u → Enqueuable w j := by
      refine keeps_request stable_true (fun _ _ _ => ⟨rfl, by decide⟩) ?_ ?_ ?_
      · intro w ch _ _ _ _ u hu'
        simp only [serve] at hu' ⊢
        cases hr : w.submissions (newSubmission j caller.userID req).jobID with
        | some r => rw [hr] at hu'; cases hu'
        | none => exact ⟨.direct, by decide, List.mem_cons_self⟩
      · exact fun w ch msg _ _ _ u h => by cases h
      · exact fun w msg _ _ u h => by cases h
    refine keeps_bind hinsert fun r => ?_
    cases r with
    | error err =>
      exact keeps_weaken (keeps_delThenError _ caller _) (fun _ _ => trivial) fun _ _ h => h
    | ok u =>
      refine keeps_weaken (keeps_bind (keeps_enqueueJobToStream j _ hu) fun r => ?_)
        (fun w h => h u rfl) fun _ _ h => h
      cases r with
      | error err =>
        exact keeps_weaken (keeps_delThenError _ caller _) (fun _ _ => trivial) fun _ _ h => h
      | ok i => exact keeps_replyQueuing caller j

theorem keeps_submitFresh (cfg : ApiConfig) (caller : Caller) (req : SubmitRequest)
    (fingerprint : String) :
    Keeps kept (fun _ => True) (submitFresh cfg caller req fingerprint) anyOutcome := by
  have huuid : Keeps kept (fun _ => True) (act .uuid) fun j _ => UUIDText j := by
    refine keeps_act stable_true (fun _ _ _ => trivial) ?_
    intro w ch w' j _ _ ha _
    simp only [actLocally] at ha
    split at ha
    · rename_i hu
      cases ha
      exact hu
    · cases ha
  unfold submitFresh
  refine keeps_bind huuid fun j => ?_
  refine keeps_of_imp (fun _ h => h) fun hu => ?_
  have hpersist : Keeps kept _ (persistSubmission cfg caller req fingerprint j) _ :=
    keeps_persistSubmission cfg caller req fingerprint j hu
  refine keeps_weaken (P := fun _ => True) ?_ (fun _ _ => trivial) fun _ _ h => h
  dsimp only
  refine keeps_bind (keeps_request_any stable_true fun w _ _ => .inl ⟨fingerprint, rfl⟩) fun r => ?_
  cases r with
  | error err => exact hpersist
  | ok fresh =>
    cases fresh with
    | true => exact hpersist
    | false =>
      refine keeps_bind (keeps_request_any stable_true fun _ _ _ => trivial) fun r => ?_
      cases okValue r with
      | none => exact hpersist
      | some v =>
        cases v with
        | text existing =>
          dsimp only
          split
          · exact hpersist
          · exact keeps_replyQueuing caller existing
        | envelope p => exact hpersist
        | result m => exact hpersist

theorem keeps_submitUncached (cfg : ApiConfig) (caller : Caller) (req : SubmitRequest)
    (fingerprint : String) :
    Keeps kept (fun _ => True) (submitUncached cfg caller req fingerprint) anyOutcome := by
  have hfresh : Keeps kept _ (submitFresh cfg caller req fingerprint) _ :=
    keeps_submitFresh cfg caller req fingerprint
  unfold submitUncached
  split
  · refine keeps_bind (keeps_request_any stable_true fun _ _ _ => trivial) fun r => ?_
    cases r with
    | error err => exact hfresh
    | ok active =>
      dsimp only
      split
      · exact keeps_replyError caller _
      · exact hfresh
  · exact hfresh

theorem keeps_handleSubmit (cfg : ApiConfig) (caller : Caller) (body : SubmitRequest) :
    Keeps kept (fun _ => True) (handleSubmit cfg caller body) anyOutcome := by
  unfold handleSubmit
  refine keeps_bind (keeps_act_any stable_true fun _ _ _ => trivial) fun allowed => ?_
  by_cases h₁ : allowed = false
  · rw [if_pos h₁]; exact keeps_replyError caller _
  rw [if_neg h₁]
  by_cases h₂ : body.code = "" ∨ body.language = 0
  · rw [if_pos h₂]; exact keeps_replyError caller _
  rw [if_neg h₂]
  by_cases h₃ : body.code.utf8ByteSize > cfg.submitCodeMaxBytes
  · rw [if_pos h₃]; exact keeps_replyError caller _
  rw [if_neg h₃]
  by_cases h₄ : body.language ≠ 1
  · rw [if_pos h₄]; exact keeps_replyError caller _
  rw [if_neg h₄]
  dsimp only
  have hhash : Keeps kept (fun _ => True) (testcaseHashOf (normalizeRequest cfg body).problemID)
      fun _ _ => True := by
    unfold testcaseHashOf
    split
    · refine keeps_bind (keeps_request_any stable_true fun _ _ _ => trivial) fun r => ?_
      cases r <;> exact keeps_pure fun _ _ => trivial
    · exact keeps_pure fun _ _ => trivial
  refine keeps_bind hhash fun hash => ?_
  cases hash with
  | none => exact keeps_replyError caller _
  | some hash =>
    refine keeps_bind (keeps_request_any stable_true fun _ _ _ => trivial) fun r => ?_
    cases okValue r with
    | none => exact keeps_submitUncached cfg caller _ _
    | some cached =>
      dsimp only
      split
      · exact keeps_submitUncached cfg caller _ _
      · cases cached.asMap with
        | some m => exact keeps_submitCached caller _ m
        | none =>
          exact keeps_bind (keeps_request_any stable_true fun _ _ _ => trivial) fun _ =>
            keeps_submitUncached cfg caller _ _

/-! ## Reading the status -/

/-- The request is on record, with the row as it was then. -/
def Asked (rid : Nat) (j : String) (row : Option Submission) (w : World) : Prop :=
  LogEvent.asked rid j row ∈ w.log ∧ ∀ r₀, row = some r₀ → Reached w j r₀

theorem stable_asked (rid : Nat) (j : String) (row : Option Submission) :
    Stable (Asked rid j row) :=
  fun _ _ g h => ⟨g.mem h.1, fun r₀ hr => (h.2 r₀ hr).grows g⟩

/-- A row read since the request arrived. -/
def ReadSince (rid : Nat) (j : String) (row : Option Submission) (r : Submission) (w : World) :
    Prop :=
  LogEvent.asked rid j row ∈ w.log ∧ (∀ r₀, row = some r₀ → Later r₀ r) ∧ Reached w j r

theorem stable_readSince (rid : Nat) (j : String) (row : Option Submission) (r : Submission) :
    Stable (ReadSince rid j row r) :=
  fun _ _ g h => ⟨g.mem h.1, h.2.1, h.2.2.grows g⟩

theorem keeps_rowReply (caller : Caller) (j : String) (row : Option Submission)
    (r : Submission) :
    Keeps kept (ReadSince caller.request j row r) (reply caller (rowReply j r)) anyOutcome :=
  keeps_weaken (keeps_act_any (stable_readSince _ j row r)
    fun _ _ h => .row row r h.1 h.2.1 h.2.2 rfl rfl rfl) (fun _ h => h) fun _ _ _ => trivial

theorem keeps_handleStatus (caller : Caller) (j : String) (row : Option Submission) :
    Keeps kept (Asked caller.request j row) (handleStatus caller j) anyOutcome := by
  have herror : ∀ {P : World → Prop} code, Keeps kept P (reply caller (.error code)) anyOutcome :=
    fun code => keeps_weaken (keeps_replyError caller code) (fun _ _ => trivial) fun _ _ h => h
  have hselect : Keeps kept (Asked caller.request j row) (request (.select j .status))
      fun res w => ∀ r, res = .ok (some r) → ReadSince caller.request j row r w := by
    refine keeps_request (stable_asked _ j row) (fun _ _ _ h => by cases h) ?_ ?_ ?_
    · intro w ch _ h _ _ r hr
      have hrow : w.submissions j = some r := Except.ok.inj hr
      refine ⟨h.1, fun r₀ hr₀ => ?_, r, hrow, .refl r⟩
      obtain ⟨r', hr', hl⟩ := h.2 r₀ hr₀
      rw [hrow] at hr'
      cases hr'
      exact hl
    · exact fun w ch msg _ _ _ r h => by cases h
    · exact fun w msg _ _ r h => by cases h
  unfold handleStatus
  by_cases hj : j = ""
  · rw [if_pos hj]; exact herror _
  rw [if_neg hj]
  refine keeps_bind hselect fun res => ?_
  cases res with
  | error err => exact herror _
  | ok found =>
    cases found with
    | none => exact herror _
    | some r =>
      refine keeps_weaken (P := ReadSince caller.request j row r) ?_ (fun w h => h r rfl)
        fun _ _ h => h
      cases caller.userID with
      | none => exact herror _
      | some userID =>
        dsimp only
        split
        · exact herror _
        · have hst := stable_readSince caller.request j row r
          -- a result read from the result key is on record as served
          have hget : ∀ (w : World) (ch : Chance) (ns : Bool) (v : RedisValue), Sane w →
              w.redis ⟨ns, .result j⟩ = some v → ∀ m, v.asMap = some m →
              LogEvent.served j m ∈ (serve w ch (.get .api ⟨ns, .result j⟩)).1.log := by
            intro w ch ns v _ hv m hm
            cases v with
            | text s => cases hm
            | envelope p => cases hm
            | result m' =>
              cases hm
              simp only [serve, World.recordGet, hv]
              exact List.mem_cons_self
          refine keeps_bind (keeps_getWithLegacy
            (S := fun v w => ∀ m, v.asMap = some m → LogEvent.served j m ∈ w.log) hst
            (fun v w w' g h m hm => g.mem (h m hm))
            (fun w ch v hs _ hv => hget w ch true v hs hv)
            fun w ch v hs _ hv => hget w ch false v hs hv) fun raw => ?_
          have hrow : ∀ {Q : World → Prop}, Keeps kept (fun w => ReadSince caller.request j row r w ∧ Q w)
              (reply caller (rowReply j r)) anyOutcome := fun {Q} =>
            keeps_weaken (keeps_rowReply caller j row r) (fun w h => h.1) fun _ _ h => h
          cases raw with
          | none => exact hrow
          | some v =>
            dsimp only
            split
            · exact hrow
            · cases hm : v.asMap with
              | none =>
                refine keeps_weaken (keeps_bind (keeps_request_any hst fun _ _ _ => trivial)
                  fun _ => keeps_rowReply caller j row r) (fun w h => h.1) fun _ _ h => h
              | some m =>
                have hst' : Stable fun w => ReadSince caller.request j row r w ∧
                    LogEvent.served j m ∈ w.log := hst.and (stable_logged _)
                exact keeps_weaken (keeps_act_any hst' fun w _ h =>
                  .served row m h.1.1 h.2 rfl rfl rfl)
                  (fun w h => ⟨h.1, h.2 v rfl m hm⟩) fun _ _ _ => trivial

end DeepOj.Api
