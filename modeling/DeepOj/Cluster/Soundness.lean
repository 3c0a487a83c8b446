import DeepOj.Api.HandlerSpec

/-!
# The system keeps its contract

Every program of the system meets the contract from the moment it is started, so
the invariant of the world and the justification of every effect hold in every
run, whatever the interleaving and the crashes.
-/

namespace DeepOj.Cluster

open Repository Worker Api

variable {kept : Bool}

theorem keeps_handler {P : World → Prop} {p : Program StreamProcessResult}
    (h : Keeps kept P p anyOutcome) : Keeps kept P (handler p) anyOutcome :=
  keeps_bind h fun _ => keeps_pure fun _ _ => trivial

/-- The message a consumer is given is an entry of the stream. -/
theorem delivered_give {w : World} {i : Nat} {values : StreamValues} {d : Delivery} {c : String}
    (h : w.stream[i]? = some ⟨values, d⟩) : Delivered ⟨i, values⟩ (w.give i c) := by
  obtain ⟨e', he', hv⟩ := (grows_setDelivery w i (.pending c w.redisNow)).stream i _ h
  exact ⟨e', he', hv⟩

/-- The programs an environment move starts meet the contract. -/
theorem wp_envStep {w w' : World} {v : Env} {ps : List (Program Unit)}
    (hv : envStep w v = some (w', ps)) :
    ∀ p ∈ ps, system.wp (contract kept) p (fun _ _ => True) w' := by
  cases v with
  | dbTick d => cases hv; exact fun p hp => absurd hp List.not_mem_nil
  | redisTick d => cases hv; exact fun p hp => absurd hp List.not_mem_nil
  | deliver cfg i =>
    simp only [envStep] at hv
    split at hv
    · rename_i values he
      cases hv
      intro p hp
      rw [List.mem_singleton.mp hp]
      exact (keeps_handler (keeps_handleMessage cfg ⟨i, values⟩)).wp _ (delivered_give he)
    · cases hv
  | autoclaim cfg i =>
    simp only [envStep] at hv
    split at hv
    · rename_i values c t he
      split at hv
      · cases hv
        intro p hp
        rw [List.mem_singleton.mp hp]
        exact (keeps_handler (keeps_handleReclaimedMessage cfg ⟨i, values⟩)).wp _
          (delivered_give he)
      · cases hv
    · cases hv
  | dispatch cfg =>
    cases hv
    intro p hp
    rw [List.mem_singleton.mp hp]
    exact (keeps_dispatchOnce cfg).wp _ trivial
  | submit cfg requestID userID body =>
    cases hv
    intro p hp
    rw [List.mem_singleton.mp hp]
    exact (keeps_handleSubmit cfg _ body).wp _ trivial
  | status userID admin j =>
    cases hv
    intro p hp
    rw [List.mem_singleton.mp hp]
    refine (keeps_handleStatus ⟨w.requests, "", userID, admin⟩ j (w.submissions j)).wp _ ?_
    exact ⟨List.mem_cons_self, fun r hr => ⟨r, hr, .refl r⟩⟩
  | expire k => cases hv; exact fun p hp => absurd hp List.not_mem_nil
  | fillCache fp v => cases hv; exact fun p hp => absurd hp List.not_mem_nil

/-- The goroutine an effect starts meets the contract. -/
theorem wp_forks {w w' : World} {e : Effect} {c : Fate} {r : e.Reply} (hj : Justified kept e w)
    (hp : perform w e c = some (w', r)) :
    ∀ p ∈ forks e, system.wp (contract kept) p (fun _ _ => True) w' := by
  intro p hf
  cases e with
  | request q => exact absurd hf List.not_mem_nil
  | act a =>
    cases a with
    | go g =>
      rw [List.mem_singleton.mp hf]
      cases g with
      | heartbeat cell j a o l n =>
        obtain ⟨i, hi⟩ := hj
        exact (keeps_runLeaseHeartbeat cell j a o l n i).wp _ (hi.grows (grows_perform hp))
    | _ => exact absurd hf List.not_mem_nil

/-- The contract covers every move of the system. -/
theorem sound_contract (ok : State → Step → Prop) : system.Sound (contract false) ok where
  call_inv := fun _ _ _ _ _ _ _ hs hj _ _ hp => hs.extend (extends_perform hs hj hp)
  call_rely := fun _ _ _ _ _ _ _ _ _ _ _ hp _ _ _ _ =>
    ⟨grows_perform hp, fun h => by cases h⟩
  fork_wp := fun _ _ _ _ _ _ hj hp _ => wp_forks hj hp
  env_inv := fun _ _ _ _ hs _ hv => hs.extend (extends_envStep hv)
  env_rely := fun _ _ _ _ _ _ hv _ _ _ => ⟨grows_envStep hv, fun h => by cases h⟩
  env_wp := fun _ _ _ _ _ _ hv _ => wp_envStep hv

theorem good_start : system.Good (contract kept) start where
  inv := sane_empty
  threads := fun _ hp => absurd hp List.not_mem_nil

end DeepOj.Cluster
