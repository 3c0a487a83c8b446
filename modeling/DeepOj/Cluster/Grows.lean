import DeepOj.Cluster.System

/-!
# What every step keeps

Rows only advance to later versions, entries and events stay, the history is
only added to. This is what a thread can rely on while others run.
-/

namespace DeepOj.Cluster

open Repository

/-- `w'` is a later state of the system `w`. -/
structure Grows (w w' : World) : Prop where
  rows : ∀ j r, w.submissions j = some r → ∃ r', w'.submissions j = some r' ∧ Later r r'
  log : w.log <:+ w'.log
  stream : ∀ (i : Nat) (e : StreamEntry), w.stream[i]? = some e →
    ∃ e', w'.stream[i]? = some e' ∧ e'.values = e.values
  outbox : ∀ (i : Nat) (e : OutboxEvent), w.outbox[i]? = some e →
    ∃ e', w'.outbox[i]? = some e' ∧ e'.jobID = e.jobID

theorem Grows.refl (w : World) : Grows w w where
  rows := fun _ r h => ⟨r, h, .refl r⟩
  log := List.suffix_refl _
  stream := fun _ e h => ⟨e, h, rfl⟩
  outbox := fun _ e h => ⟨e, h, rfl⟩

theorem Grows.trans {w₁ w₂ w₃ : World} (h₁ : Grows w₁ w₂) (h₂ : Grows w₂ w₃) : Grows w₁ w₃ where
  rows := fun j r h => by
    obtain ⟨r', h', hl⟩ := h₁.rows j r h
    obtain ⟨r'', h'', hl'⟩ := h₂.rows j r' h'
    exact ⟨r'', h'', hl.trans hl'⟩
  log := h₁.log.trans h₂.log
  stream := fun i e h => by
    obtain ⟨e', h', hv⟩ := h₁.stream i e h
    obtain ⟨e'', h'', hv'⟩ := h₂.stream i e' h'
    exact ⟨e'', h'', hv'.trans hv⟩
  outbox := fun i e h => by
    obtain ⟨e', h', hv⟩ := h₁.outbox i e h
    obtain ⟨e'', h'', hv'⟩ := h₂.outbox i e' h'
    exact ⟨e'', h'', hv'.trans hv⟩

/-- An event of the history stays there. -/
theorem Grows.mem {w w' : World} (h : Grows w w') {ev : LogEvent} (hm : ev ∈ w.log) :
    ev ∈ w'.log :=
  h.log.subset hm

/-- A state that differs in nothing a thread relies on. -/
theorem Grows.of_eq {w w' : World} (hr : w'.submissions = w.submissions) (hl : w'.log = w.log)
    (hs : w'.stream = w.stream) (ho : w'.outbox = w.outbox) : Grows w w' where
  rows := fun _ r h => ⟨r, by rw [hr]; exact h, .refl r⟩
  log := hl ▸ List.suffix_refl _
  stream := fun _ e h => ⟨e, by rw [hs]; exact h, rfl⟩
  outbox := fun _ e h => ⟨e, by rw [ho]; exact h, rfl⟩

/-! ## The updates of the world -/

section Updates

variable (w : World)

theorem grows_record (ev : LogEvent) : Grows w (w.record ev) where
  rows := fun _ r h => ⟨r, h, .refl r⟩
  log := List.suffix_cons ev w.log
  stream := fun _ e h => ⟨e, h, rfl⟩
  outbox := fun _ e h => ⟨e, h, rfl⟩

theorem grows_setKey (k : RedisKey) (v : Option RedisValue) : Grows w (w.setKey k v) :=
  .of_eq rfl rfl rfl rfl

theorem grows_setCell (i : Nat) (f : RunCell → RunCell) : Grows w (w.setCell i f) :=
  .of_eq rfl rfl rfl rfl

/-- Writing a later version of a row, or a first one. -/
theorem grows_setRow {j : String} {s : Submission}
    (h : ∀ r, w.submissions j = some r → Later r s) : Grows w (w.setRow j s) where
  rows := fun j' r hr => by
    by_cases hj : j' = j
    · subst hj
      exact ⟨s, w.setRow_self j' s, h r hr⟩
    · exact ⟨r, (w.setRow_of_ne hj s).trans hr, .refl r⟩
  log := List.suffix_refl _
  stream := fun _ e h => ⟨e, h, rfl⟩
  outbox := fun _ e h => ⟨e, h, rfl⟩

theorem grows_setDelivery (i : Nat) (d : Delivery) : Grows w (w.setDelivery i d) where
  rows := fun _ r h => ⟨r, h, .refl r⟩
  log := List.suffix_refl _
  stream := fun i' e h => by
    simp only [World.setDelivery, List.getElem?_modify, h]
    split <;> exact ⟨_, rfl, rfl⟩
  outbox := fun _ e h => ⟨e, h, rfl⟩

theorem grows_setOutbox (ids : List Nat) {f : Nat → OutboxEvent → OutboxEvent}
    (hf : ∀ i e, (f i e).jobID = e.jobID) : Grows w (w.setOutbox ids f) where
  rows := fun _ r h => ⟨r, h, .refl r⟩
  log := List.suffix_refl _
  stream := fun _ e h => ⟨e, h, rfl⟩
  outbox := fun i e h => by
    simp only [World.setOutbox, List.getElem?_mapIdx, h, Option.map_some]
    refine ⟨_, rfl, ?_⟩
    split
    · exact hf i e
    · rfl

theorem grows_xadd (e : StreamEntry) : Grows w { w with stream := w.stream ++ [e] } where
  rows := fun _ r h => ⟨r, h, .refl r⟩
  log := List.suffix_refl _
  stream := fun i e' h => by
    have hi : i < w.stream.length := (List.getElem?_eq_some_iff.mp h).1
    exact ⟨e', by simpa only [List.getElem?_append_left hi] using h, rfl⟩
  outbox := fun _ e h => ⟨e, h, rfl⟩

theorem grows_addOutbox (ev : OutboxEvent) : Grows w { w with outbox := w.outbox ++ [ev] } where
  rows := fun _ r h => ⟨r, h, .refl r⟩
  log := List.suffix_refl _
  stream := fun _ e h => ⟨e, h, rfl⟩
  outbox := fun i e h => by
    have hi : i < w.outbox.length := (List.getElem?_eq_some_iff.mp h).1
    exact ⟨e, by simpa only [List.getElem?_append_left hi] using h, rfl⟩

theorem grows_xack (i : Nat) : Grows w (w.xack i) := by
  unfold World.xack
  split
  · exact grows_setDelivery w i .acked
  · exact .refl w

theorem grows_recordUpdate (j : String) (op : RowOp) (via : Option Nat) (v : Nat) :
    Grows w (w.recordUpdate j op via v) := by
  cases op with
  | claim o l => exact grows_record w _
  | reclaim o l => exact grows_record w _
  | finalize a o st m => exact grows_record w _
  | refresh a o l => exact .refl w
  | poison code msg => exact .refl w
  | updateResult st m => exact .refl w

theorem grows_recordSkip (j : String) (op : RowOp) : Grows w (w.recordSkip j op) := by
  cases op with
  | updateResult st m => exact grows_record w _
  | claim o l => exact .refl w
  | reclaim o l => exact .refl w
  | finalize a o st m => exact .refl w
  | refresh a o l => exact .refl w
  | poison code msg => exact .refl w

theorem grows_recordGet (reader : Reader) (k : RedisKey) : Grows w (w.recordGet reader k) := by
  unfold World.recordGet
  split
  · exact grows_record w _
  · exact .refl w

theorem grows_insertRow {s : Submission} (origin : Origin) (h : w.submissions s.jobID = none) :
    Grows w (w.insertRow s origin) := by
  refine (grows_setRow w fun r hr => ?_).trans (grows_record _ _)
  rw [h] at hr
  cases hr

end Updates

/-! ## Steps -/

/-- Serving a request. -/
theorem grows_serve (w : World) (ch : Chance) (q : Request) : Grows w (serve w ch q).1 := by
  cases q with
  | update j op via =>
    obtain ⟨r, r', v, hr, hx, hs⟩ | ⟨_, hs⟩ := serve_update w ch j op via
    · rw [hs]
      refine (grows_setRow w fun r₁ hr₁ => ?_).trans (grows_recordUpdate _ j op via v)
      rw [hr] at hr₁
      cases hr₁
      exact later_of_exec hx
    · rw [hs]
      exact grows_recordSkip w j op
  | select j purpose =>
    cases purpose with
    | reclaimInspect => exact grows_record w _
    | status => exact .refl w
    | finalizeReject => exact .refl w
  | insert s origin =>
    simp only [serve]
    cases hr : w.submissions s.jobID with
    | none => exact grows_insertRow w origin hr
    | some r => exact .refl w
  | insertWithOutbox s event =>
    simp only [serve]
    split
    · exact .refl w
    · rename_i hne
      have hr : w.submissions s.jobID = none := by
        cases hr : w.submissions s.jobID with
        | none => rfl
        | some r => simp [hr] at hne
      exact (grows_insertRow w .outbox hr).trans (grows_addOutbox _ _)
  | countActive => exact .refl w
  | getProblem id => exact .refl w
  | claimOutbox limit baseMs maxMs => exact grows_setOutbox w _ fun _ _ => rfl
  | markDispatched eventID entryID => exact grows_setOutbox w _ fun _ _ => rfl
  | markDispatchError eventID err =>
    exact grows_setOutbox w _ fun _ e => markOutboxDispatchError_jobID err e
  | get reader k => exact grows_recordGet w reader k
  | set k v => exact grows_setKey w k _
  | setNX k v =>
    simp only [serve]
    cases w.redis k with
    | none => exact grows_setKey w k _
    | some v' => exact .refl w
  | del k => exact grows_setKey w k none
  | xadd values => exact grows_xadd w _
  | xack entryID site => exact grows_xack w entryID

theorem grows_drop (w : World) (q : Request) : Grows w (w.drop q) := by
  cases q with
  | update j op via => exact grows_recordSkip w j op
  | _ => exact .refl w

theorem grows_actLocally {w w' : World} {ch : Chance} {a : Action} {r : a.Response}
    (h : actLocally w ch a = some (w', r)) : Grows w w' := by
  cases a with
  | now => cases h; exact .refl w
  | uuid =>
    simp only [actLocally] at h
    split at h
    · cases h; exact .refl w
    · cases h
  | judge task attemptID => cases h; exact grows_record w _
  | newRun => cases h; exact .of_eq rfl rfl rfl rfl
  | cancelRun cell => cases h; exact grows_setCell w _ _
  | go g => cases h; exact .refl w
  | selectTick cell =>
    simp only [actLocally] at h
    split at h
    · cases h; exact .refl w
    · split at h
      · split at h
        · cases h; exact .refl w
        · cases h
      · cases h
  | sendHeartbeat cell r => cases h; exact grows_setCell w _ _
  | recvHeartbeat cell =>
    simp only [actLocally] at h
    split at h
    · cases h; exact .refl w
    · cases h
  | rateLimit => cases h; exact .refl w
  | reply rid r => cases h; exact grows_record w _

/-- Every effect, however it ends. -/
theorem grows_perform {w w' : World} {e : Effect} {c : Fate} {r : e.Reply}
    (h : perform w e c = some (w', r)) : Grows w w' := by
  cases e with
  | request q =>
    obtain ⟨ch, rfl, _⟩ | ⟨rfl, _⟩ := perform_request h
    · exact grows_serve w ch q
    · exact grows_drop w q
  | act a =>
    obtain ⟨ch, h⟩ := perform_act h
    exact grows_actLocally h

/-- Every move of the environment. -/
theorem grows_envStep {w w' : World} {v : Env} {ps : List (Program Unit)}
    (h : envStep w v = some (w', ps)) : Grows w w' := by
  cases v with
  | dbTick d => cases h; exact .of_eq rfl rfl rfl rfl
  | redisTick d => cases h; exact .of_eq rfl rfl rfl rfl
  | deliver cfg i =>
    simp only [envStep] at h
    split at h
    · cases h; exact grows_setDelivery w i _
    · cases h
  | autoclaim cfg i =>
    simp only [envStep] at h
    split at h
    · split at h
      · cases h; exact grows_setDelivery w i _
      · cases h
    · cases h
  | dispatch cfg => cases h; exact .refl w
  | submit cfg requestID userID body => cases h; exact .of_eq rfl rfl rfl rfl
  | status userID admin jobID =>
    cases h
    exact (grows_record w _).trans (.of_eq rfl rfl rfl rfl)
  | expire k => cases h; exact grows_setKey w k none
  | fillCache fp v => cases h; exact grows_setKey w _ _

end DeepOj.Cluster
