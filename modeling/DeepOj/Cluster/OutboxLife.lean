import DeepOj.Cluster.Moves

/-!
# The life of an outbox event

An event waits until it has been delivered. What any move does to an event is said once, as
`EventStep`; what holds of an event between two states of a run follows from it.
-/

namespace DeepOj.Cluster

open Repository

/-- What a move does to an outbox event. -/
inductive EventStep (w : World) (e : OutboxEvent) : OutboxEvent → Prop where
  | same : EventStep w e e
  | claim {base cap : Nat} {r : ℚ} (h : e.Claimable w.dbNow) :
      EventStep w e (claimOutboxEvent w.dbNow base cap r e)
  | dispatched {entryID : Nat} (h : EntryFor w entryID e.jobID) :
      EventStep w e (markOutboxDispatched w.dbNow entryID e)
  | error {lastError : String} : EventStep w e (markOutboxDispatchError lastError e)

/-- What a move does to the outbox and to the clock of the database. -/
structure OutboxStep (w w' : World) : Prop where
  old : ∀ (i : Nat) (e : OutboxEvent), w.outbox[i]? = some e →
    ∃ e', w'.outbox[i]? = some e' ∧ EventStep w e e'
  new : ∀ (i : Nat) (e' : OutboxEvent), w'.outbox[i]? = some e' →
    (∃ e, w.outbox[i]? = some e) ∨ e'.Undelivered
  clock : w.dbNow ≤ w'.dbNow

section Step

variable {w w' : World}

theorem outboxStep_of_eq (ho : w'.outbox = w.outbox) (hd : w.dbNow ≤ w'.dbNow) : OutboxStep w w' where
  old := fun _ e he => ⟨e, ho ▸ he, .same⟩
  new := fun _ e' he' => .inl ⟨e', ho ▸ he'⟩
  clock := hd

theorem OutboxStep.of_sameData (h : SameData w w') : OutboxStep w w' :=
  outboxStep_of_eq h.outbox (Nat.le_of_eq h.dbNow.symm)

/-- Some of the events are updated in place. -/
theorem outboxStep_setOutbox {ids : List Nat} {f : Nat → OutboxEvent → OutboxEvent}
    (hf : ∀ i ∈ ids, ∀ e, w.outbox[i]? = some e → EventStep w e (f i e)) : OutboxStep w (w.setOutbox ids f) where
  old := by
    intro i e he
    refine ⟨if i ∈ ids then f i e else e, ?_, ?_⟩
    · simp only [World.setOutbox, List.getElem?_mapIdx, he, Option.map_some]
    · by_cases hi : i ∈ ids
      · rw [if_pos hi]
        exact hf i hi e he
      · rw [if_neg hi]
        exact .same
  new := by
    intro i e' he'
    simp only [World.setOutbox, List.getElem?_mapIdx] at he'
    obtain ⟨e, he, _⟩ := Option.map_eq_some_iff.mp he'
    exact .inl ⟨e, he⟩
  clock := Nat.le_refl _

theorem outboxStep_insertWithOutbox {s : Submission} {event : OutboxEvent} (hu : event.Undelivered) :
    OutboxStep w { w.insertRow s .outbox with
      outbox := w.outbox ++ [{ event with attempts := 0, nextAttemptAt := w.dbNow }] } where
  old := fun i e he =>
    ⟨e, (List.getElem?_append_left (List.getElem?_eq_some_iff.mp he).1).trans he, .same⟩
  new := by
    intro i e' he'
    replace he' : (w.outbox ++ [_])[i]? = some e' := he'
    rw [List.getElem?_append] at he'
    split at he'
    · exact .inl ⟨e', he'⟩
    · rw [List.mem_singleton.mp (List.mem_of_getElem? he')]
      exact .inr hu
  clock := Nat.le_refl _

theorem outboxStep_serve (ch : Chance) {q : Request} (hj : RequestJustified false w q) :
    OutboxStep w (serve w ch q).1 := by
  cases q with
  | claimOutbox limit baseMs maxMs =>
    refine outboxStep_setOutbox fun i hi e he => .claim ?_
    obtain ⟨_, e', he', hclaimable⟩ := of_mem_pickOutbox hi
    rw [he] at he'
    exact Option.some.inj he' ▸ hclaimable
  | markDispatched eventID entryID =>
    refine outboxStep_setOutbox fun i hi e he => .dispatched ?_
    rw [List.mem_singleton.mp hi] at he
    exact hj e he
  | markDispatchError eventID err => exact outboxStep_setOutbox fun _ _ _ _ => .error
  | insertWithOutbox s event =>
    obtain ⟨_, _, _, hu⟩ := hj
    simp only [serve]
    split
    · exact outboxStep_of_eq rfl (Nat.le_refl _)
    · exact outboxStep_insertWithOutbox hu
  | update j op via =>
    obtain ⟨r, r', v, _, _, hs⟩ | ⟨_, hs⟩ := serve_update w ch j op via
    · have hsame := recordUpdate_eq (w.setRow j r') j op via v
      rw [hs]
      exact outboxStep_of_eq hsame.2.2.1 (Nat.le_of_eq (by cases op <;> rfl))
    · rw [hs]
      exact .of_sameData (sameData_recordSkip w j op)
  | select j purpose => cases purpose <;> exact outboxStep_of_eq rfl (Nat.le_refl _)
  | insert s origin =>
    simp only [serve]
    cases w.submissions s.jobID <;> exact outboxStep_of_eq rfl (Nat.le_refl _)
  | get reader k => exact .of_sameData (sameData_recordGet w reader k)
  | setNX k v =>
    simp only [serve]
    cases w.redis k <;> exact outboxStep_of_eq rfl (Nat.le_refl _)
  | xack entryID site =>
    refine outboxStep_of_eq ?_ (Nat.le_of_eq ?_)
    · show (w.xack entryID).outbox = w.outbox
      unfold World.xack
      split <;> rfl
    · show w.dbNow = (w.xack entryID).dbNow
      unfold World.xack
      split <;> rfl
  | countActive | getProblem _ | set _ _ | del _ | xadd _ => exact outboxStep_of_eq rfl (Nat.le_refl _)

theorem outboxStep_perform {e : Effect} {c : Fate} {r : e.Reply} (hj : Justified false e w)
    (h : perform w e c = some (w', r)) : OutboxStep w w' := by
  cases e with
  | request q =>
    obtain ⟨ch, rfl, _⟩ | ⟨rfl, _⟩ := perform_request h
    · exact outboxStep_serve ch hj
    · exact .of_sameData (sameData_drop w q)
  | act a =>
    obtain ⟨ch, ha⟩ := perform_act h
    exact .of_sameData (quiet_actLocally ha).data

theorem outboxStep_envStep {v : Env} {ps : List (Program Unit)} (h : envStep w v = some (w', ps)) :
    OutboxStep w w' := by
  cases change_envStep h with
  | same hd _ => exact .of_sameData hd
  | asked _ _ hd _ => exact .of_sameData hd
  | dbTick => exact outboxStep_of_eq rfl (Nat.le_add_right ..)
  | give _ _ => exact outboxStep_of_eq rfl (Nat.le_refl _)
  | expire => exact outboxStep_of_eq rfl (Nat.le_refl _)
  | fillCache => exact outboxStep_of_eq rfl (Nat.le_refl _)

end Step

/-! ## One event in time -/

/-- The event waits, or it has been delivered and there is an entry for its job in the stream. -/
def EventSound (w : World) (e : OutboxEvent) : Prop :=
  e.Undelivered ∨ e.Delivered ∧ ∃ entryID, EntryFor w entryID e.jobID

/-- Every outbox event is sound. -/
def OutboxSound (w : World) : Prop :=
  ∀ (i : Nat) (e : OutboxEvent), w.outbox[i]? = some e → EventSound w e

/-- What can be said of an event at a later state: a delivery stands, and the time of the next
attempt is moved only once it has come. -/
structure EventLater (e : OutboxEvent) (w' : World) (e' : OutboxEvent) : Prop where
  delivered : e.Delivered → e'.Delivered
  waits : e'.nextAttemptAt = e.nextAttemptAt ∨ e.nextAttemptAt ≤ w'.dbNow

/-- Every event of `w` is there in `w'`. -/
def OutboxLater (w w' : World) : Prop :=
  ∀ (i : Nat) (e : OutboxEvent), w.outbox[i]? = some e → ∃ e', w'.outbox[i]? = some e' ∧ EventLater e w' e'

section Event

variable {w w' : World} {e e' : OutboxEvent}

theorem EventStep.sound (h : EventStep w e e') (hs : EventSound w e) : EventSound w e' := by
  rcases hs with hu | ⟨hd, hentry⟩
  · cases h with
    | same => exact .inl hu
    | claim _ => exact .inl hu
    | dispatched hfor => exact .inr ⟨delivered_markOutboxDispatched .., _, hfor⟩
    | error => exact .inl (undelivered_markOutboxDispatchError _ hu)
  · cases h with
    | same => exact .inr ⟨hd, hentry⟩
    | claim hc => exact absurd hc (not_claimable_of_delivered hd _)
    | dispatched hfor => exact .inr ⟨delivered_markOutboxDispatched .., _, hfor⟩
    | error =>
      rw [markOutboxDispatchError_delivered hd]
      exact .inr ⟨hd, hentry⟩

theorem EventStep.later (h : EventStep w e e') : EventLater e w e' := by
  cases h with
  | same => exact ⟨id, .inl rfl⟩
  | claim hc => exact ⟨fun hd => absurd hc (not_claimable_of_delivered hd _), .inr hc.2⟩
  | dispatched _ => exact ⟨fun _ => delivered_markOutboxDispatched .., .inl rfl⟩
  | error =>
    refine ⟨fun hd => ?_, .inl (markOutboxDispatchError_nextAttemptAt _ e)⟩
    rw [markOutboxDispatchError_delivered hd]
    exact hd

theorem outboxLater_refl (w : World) : OutboxLater w w := fun _ e he => ⟨e, he, id, .inl rfl⟩

theorem OutboxLater.step {w₀ : World} (h : OutboxLater w₀ w) (hs : OutboxStep w w') : OutboxLater w₀ w' := by
  intro i e he
  obtain ⟨e₁, he₁, hdelivered₁, hwaits₁⟩ := h i e he
  obtain ⟨e₂, he₂, hstep⟩ := hs.old i e₁ he₁
  obtain ⟨hdelivered₂, hwaits₂⟩ := hstep.later
  refine ⟨e₂, he₂, fun hd => hdelivered₂ (hdelivered₁ hd), ?_⟩
  have hclock : w.dbNow ≤ w'.dbNow := hs.clock
  rcases hwaits₁ with heq | hcome
  · rcases hwaits₂ with heq' | hcome'
    · exact .inl (heq'.trans heq)
    · exact .inr (by omega)
  · exact .inr (by omega)

theorem OutboxSound.step (h : OutboxSound w) (hg : Grows w w') (hs : OutboxStep w w') : OutboxSound w' := by
  intro i e' he'
  have hgrow : ∀ {e}, EventSound w e → EventSound w' e :=
    Or.imp_right fun ⟨hd, n, hn⟩ => ⟨hd, n, hn.grows hg⟩
  rcases hs.new i e' he' with ⟨e, he⟩ | hu
  · obtain ⟨e'', he'', hstep⟩ := hs.old i e he
    rw [he'] at he''
    cases he''
    exact hgrow (hstep.sound (h i e he))
  · exact .inl hu

end Event

/-! ## Runs -/

section Run

variable {ok : State → Step → Prop} {s s' : State}

theorem good_of_reach (h : system.Reach ok start s) : system.Good (contract false) s :=
  (sound_contract ok).reach good_start h

/-- Every outbox event of a run waits or has been dispatched. -/
theorem outboxSound_reach (h : system.Reach ok start s) : OutboxSound s.world := by
  refine (sound_contract ok).world_invariant good_start ?_ ?_ ?_ h
  · intro i e he
    simp [start, World.empty] at he
  · intro s i c e k w r _ hJ hj _ _ hp _
    exact hJ.step (grows_perform hp) (outboxStep_perform hj hp)
  · intro s v w ps _ hJ _ hv _
    exact hJ.step (grows_envStep hv) (outboxStep_envStep hv)

/-- Between two states of a run. -/
theorem outboxLater_reach (hgood : system.Good (contract false) s) (h : system.Reach ok s s') :
    OutboxLater s.world s'.world := by
  refine (sound_contract ok).world_invariant (J := fun w => OutboxLater s.world w) hgood
    (outboxLater_refl s.world) ?_ ?_ h
  · intro s₁ i c e k w r _ hJ hj _ _ hp _
    exact hJ.step (outboxStep_perform hj hp)
  · intro s₁ v w ps _ hJ _ hv _
    exact hJ.step (outboxStep_envStep hv)

end Run

/-! ## The life cycle -/

/-- What the server of a request that reaches it chooses. -/
def Fate.chance : Fate → Option Chance
  | .ok ch => some ch
  | .failed _ => none
  | .lost ch _ => some ch

/-- The outbox events that a move claims. -/
def claimedBy (s : State) : Step → List Nat
  | .call k c =>
    match s.nextAt k, c.chance with
    | some (.request (.claimOutbox limit _ _)), some ch =>
      pickOutbox s.world.dbNow (claimLimit limit) ch.locked s.world.outbox
    | _, _ => []
  | _ => []

/-- A claim takes what is claimable. -/
theorem claimable_of_claimedBy {s : State} {m : Step} {i : Nat} (h : i ∈ claimedBy s m) :
    ∃ e, s.world.outbox[i]? = some e ∧ e.Claimable s.world.dbNow := by
  cases m with
  | call k c =>
    simp only [claimedBy] at h
    split at h
    · exact (of_mem_pickOutbox h).2
    · exact absurd h List.not_mem_nil
  | crash k => exact absurd h List.not_mem_nil
  | env v => exact absurd h List.not_mem_nil

/-- In every run, an event is delivered only once its job has an entry in the stream, a delivered
event is never claimable again, an undelivered one is claimable from the time of its next attempt
on, and it is not claimed before that time. -/
theorem outbox_life_cycle :
    (∀ s, system.Reach Conc.Machine.anyMove start s → ∀ (i : Nat) (e : OutboxEvent),
      s.world.outbox[i]? = some e → (e.status = outboxStatusDelivered ∨ e.dispatchedAt ≠ none) →
        ∃ entryID, EntryFor s.world entryID e.jobID) ∧
    (∀ s s', system.Reach Conc.Machine.anyMove start s → system.Reach Conc.Machine.anyMove s s' →
      ∀ (i : Nat) (e : OutboxEvent), s.world.outbox[i]? = some e → e.dispatchedAt ≠ none →
        ∃ e', s'.world.outbox[i]? = some e' ∧ e'.Delivered ∧ ∀ now, ¬e'.Claimable now) ∧
    (∀ s, system.Reach Conc.Machine.anyMove start s → ∀ (i : Nat) (e : OutboxEvent),
      s.world.outbox[i]? = some e → e.status ≠ outboxStatusDelivered →
        ∀ now, e.nextAttemptAt ≤ now → e.Claimable now ∧
          ∀ limit, s.world.outbox.length ≤ limit → i ∈ pickOutbox now limit [] s.world.outbox) ∧
    ∀ s m s₁ s₂ m₂ i, system.Reach Conc.Machine.anyMove start s → i ∈ claimedBy s m →
      system.step s m = some s₁ → system.Reach Conc.Machine.anyMove s₁ s₂ → i ∈ claimedBy s₂ m₂ →
        ∃ e, s₁.world.outbox[i]? = some e ∧ e.nextAttemptAt ≤ s₂.world.dbNow := by
  refine ⟨?_, ?_, ?_, ?_⟩
  · intro s h i e he hmarked
    rcases outboxSound_reach h i e he with hu | ⟨_, hentry⟩
    · rcases hmarked with hstatus | hat
      · rw [hu.1] at hstatus
        exact absurd hstatus (by decide)
      · exact absurd hu.2 hat
    · exact hentry
  · intro s s' h h' i e he hat
    have hd : e.Delivered := by
      rcases outboxSound_reach h i e he with hu | ⟨hd, _⟩
      · exact absurd hu.2 hat
      · exact hd
    obtain ⟨e', he', hlater⟩ := outboxLater_reach (good_of_reach h) h' i e he
    exact ⟨e', he', hlater.delivered hd, not_claimable_of_delivered (hlater.delivered hd)⟩
  · intro s h i e he hstatus now hnow
    rcases outboxSound_reach h i e he with hu | ⟨hd, _⟩
    · exact ⟨⟨hu, hnow⟩, fun limit hroom => mem_pickOutbox he ⟨hu, hnow⟩ List.not_mem_nil hroom⟩
    · exact absurd hd.1 hstatus
  · intro s m s₁ s₂ m₂ i h hclaim hstep h₂ hclaim₂
    have h₁ : system.Reach Conc.Machine.anyMove start s₁ := .step m h trivial hstep
    obtain ⟨e, he, _⟩ := claimable_of_claimedBy hclaim
    have hnext : system.Reach Conc.Machine.anyMove s s₁ := .step m .init trivial hstep
    obtain ⟨e₁, he₁, _⟩ := outboxLater_reach (good_of_reach h) hnext i e he
    obtain ⟨e₂, he₂, hlater⟩ := outboxLater_reach (good_of_reach h₁) h₂ i e₁ he₁
    obtain ⟨e₃, he₃, hclaimable⟩ := claimable_of_claimedBy hclaim₂
    rw [he₂] at he₃
    cases he₃
    refine ⟨e₁, he₁, ?_⟩
    -- Either nobody has claimed it in between, or whoever did had waited.
    rcases hlater.waits with heq | hcome
    · exact heq ▸ hclaimable.2
    · exact hcome

/-- What follows after the first dispatcher has claimed the event: it dies, and a minute later another
one starts. -/
def secondDispatch : List Step := [.crash 1, .env (.dbTick 60000000), dispatch]

theorem outbox_life_cycle_reclaimed :
    ∃ s₁ s₂ : State, system.Reach Conc.Machine.anyMove s₁ s₂ ∧ s₂.world.dbNow = 60000000 ∧
      ∃ e, s₁.world.outbox[0]? = some e ∧ e.nextAttemptAt ≤ s₂.world.dbNow := by
  let s := system.play Conc.Machine.anyMove start (submission ++ [dispatch])
  have hs : system.Reach Conc.Machine.anyMove start s := system.reach_play Conc.Machine.anyMove .init _
  have hplayed : (system.step s (.call 1 done)).map (fun s₁ =>
      (claimedBy (system.play Conc.Machine.anyMove s₁ secondDispatch) (.call 2 done),
        (system.play Conc.Machine.anyMove s₁ secondDispatch).world.dbNow)) = some ([0], 60000000) := by
    decide +kernel
  have hclaim : claimedBy s (.call 1 done) = [0] := by decide +kernel
  obtain ⟨s₁, hstep, hagain⟩ := Option.map_eq_some_iff.mp hplayed
  obtain ⟨hclaim₂, hnow⟩ := Prod.mk.inj hagain
  have hs₂ : system.Reach Conc.Machine.anyMove s₁ _ :=
    system.reach_play Conc.Machine.anyMove .init secondDispatch
  exact ⟨s₁, _, hs₂, hnow, outbox_life_cycle.2.2.2 s _ s₁ _ _ 0 hs (hclaim ▸ List.mem_singleton_self 0) hstep hs₂
    (hclaim₂ ▸ List.mem_singleton_self 0)⟩

end DeepOj.Cluster
