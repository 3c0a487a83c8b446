import DeepOj.Cluster.StatusReads

/-!
# Poisoning and live attempts

A handler that cannot read a message fails its job before it looks at the lease.
An attempt with a live lease is spared as long as no handler turns to the poison
branch during the lease, and no lease begins while a handler is about to poison.
-/

namespace DeepOj.Cluster

open Repository Worker Api

/-- The job thread `i` is about to mark as poison. -/
def poisons (s : State) (i : Nat) : Option String :=
  match s.nextAt i with
  | some (.request (.update j (.poison _ _) _)) => some j
  | _ => none

/-- A worker holds the current attempt of the job with a live lease. -/
def leased (w : World) (j : String) : Bool :=
  match w.submissions j with
  | some r => decide (r.Leased w.dbNow)
  | none => false

/-- The updates that give a lease or extend one. -/
def leases : RowOp → Bool
  | .claim .. => true
  | .refresh .. => true
  | .reclaim .. => true
  | .finalize .. => false
  | .poison .. => false
  | .updateResult .. => false

/-- The move does not bring its thread to the poison update of a leased job. -/
def turnsUnleased (s : State) (m : Step) : Bool :=
  match m, system.step s m with
  | .call i _, some s' =>
    match poisons s' i with
    | some j => !leased s'.world j
    | none => true
  | _, _ => true

/-- The move does not give or extend the lease of a job about to be poisoned. -/
def leasesUnpoisoned (s : State) (m : Step) : Bool :=
  match sent s m with
  | some (.update j op _, served) =>
    !served || !leases op || !takesEffect s.world j op ||
      (List.range s.threads.length).all fun i => decide (poisons s i ≠ some j)
  | _ => true

/-- The condition on the moves of a run. -/
def SparesLeases (s : State) (m : Step) : Prop :=
  turnsUnleased s m = true ∧ leasesUnpoisoned s m = true

instance (s : State) (m : Step) : Decidable (SparesLeases s m) :=
  inferInstanceAs (Decidable (_ ∧ _))

/-- No handler is about to poison a leased job. -/
def PoisonsUnleased (s : State) : Prop :=
  ∀ i j, poisons s i = some j → leased s.world j = false

theorem leased_eq_true {w : World} {j : String} :
    leased w j = true ↔ ∃ r, w.submissions j = some r ∧ r.Leased w.dbNow := by
  unfold leased
  cases hr : w.submissions j with
  | none => simp
  | some r => simp

theorem poisons_eq_some {s : State} {i : Nat} {j : String} :
    poisons s i = some j ↔
      ∃ code msg via, s.nextAt i = some (.request (.update j (.poison code msg) via)) := by
  unfold poisons
  constructor
  · intro h
    split at h
    · rename_i j' code msg via hn
      cases h
      exact ⟨code, msg, via, hn⟩
    · cases h
  · rintro ⟨code, msg, via, hn⟩
    rw [hn]

/-- The environment writes no row. -/
theorem EnvChange.rows {w w' : World} {v : Env} (h : EnvChange w v w') :
    w'.submissions = w.submissions := by
  cases h with
  | same hd _ => exact hd.rows
  | asked _ _ hd _ => exact hd.rows
  | dbTick => rfl
  | give _ _ => rfl
  | expire => rfl
  | fillCache => rfl

/-- The database clock does not go back. -/
theorem EnvChange.dbNow {w w' : World} {v : Env} (h : EnvChange w v w') :
    w.dbNow ≤ w'.dbNow := by
  cases h with
  | same hd _ => exact hd.dbNow.ge
  | asked _ _ hd _ => exact hd.dbNow.ge
  | dbTick => exact Nat.le_add_right _ _
  | give _ _ => exact Nat.le_refl _
  | expire => exact Nat.le_refl _
  | fillCache => exact Nat.le_refl _

/-- A lease that is not live does not come to life by time passing. -/
theorem leased_of_env {w w' : World} {v : Env} {j : String} (hv : EnvChange w v w')
    (h : leased w' j = true) : leased w j = true := by
  obtain ⟨r, hr, hp, t, ht, hlt⟩ := leased_eq_true.mp h
  rw [hv.rows] at hr
  exact leased_eq_true.mpr ⟨r, hr, hp, t, ht, lt_of_le_of_lt hv.dbNow hlt⟩

/-- An update that neither gives nor extends a lease ends the job. -/
theorem done_of_exec {now v : Nat} {op : RowOp} {r r' : Submission} (hop : leases op = false)
    (hx : op.exec now r = some (r', v)) : r'.state = "done" := by
  cases op with
  | claim o l => cases hop
  | refresh a o l => cases hop
  | reclaim o l => cases hop
  | finalize a o st m =>
    obtain ⟨_, _, rfl⟩ := finalizeSubmission_eq_some.mp hx
    rfl
  | poison code msg =>
    obtain ⟨_, _, rfl⟩ := markSubmissionPoison_eq_some.mp hx
    rfl
  | updateResult st m =>
    obtain ⟨_, _, rfl⟩ := updateSubmissionResultIfNotDone_eq_some.mp hx
    rfl

/-- What an effect does, under the guard that tells which request it sent. -/
theorem moved_of_perform {w w' : World} {e : Effect} {c : Fate} {r : e.Reply}
    (hj : Justified false e w) (hp : perform w e c = some (w', r)) :
    Moved (fun _ q served => decide (e = .request q ∧ c.served = served)) w w' :=
  moved_perform hj (fun _ hq => decide_eq_true ⟨hq, rfl⟩) hp

/-- A job is leased after an effect only if it was before, or if the effect gave or
extended the lease. -/
theorem leased_of_perform {s : State} {i : Nat} {c : Fate} {e : Effect} {w : World} {r : e.Reply}
    {j : String} (hj : Justified false e s.world) (hn : s.nextAt i = some e)
    (hp : perform s.world e c = some (w, r)) (hl : leased w j = true) :
    leased s.world j = true ∨
      ∃ op via, sent s (.call i c) = some (.update j op via, true) ∧ leases op = true ∧
        takesEffect s.world j op = true := by
  obtain ⟨r', hr', hlive⟩ := leased_eq_true.mp hl
  rw [dbNow_perform hp] at hlive
  obtain hr | hpend | ⟨op, via, r₀, v, hr, hx, _, hP, _⟩ := (moved_of_perform hj hp).row hr'
  · exact .inl (leased_eq_true.mpr ⟨r', hr, hlive⟩)
  · have hproc : r'.state = "processing" := hlive.1
    rw [hpend] at hproc
    simp at hproc
  · obtain ⟨rfl, hserved⟩ := of_decide_eq_true hP
    refine .inr ⟨op, via, ?_, ?_, ?_⟩
    · simp only [sent, hn, hserved]
    · by_contra hop
      have hd : r'.state = "done" := done_of_exec (Bool.eq_false_iff.mpr hop) hx
      have hproc : r'.state = "processing" := hlive.1
      rw [hd] at hproc
      simp at hproc
    · simp only [takesEffect, hr, hx, Option.isSome_some]

theorem turnsUnleased_call {s s' : State} {i : Nat} {c : Fate} {j : String}
    (h : turnsUnleased s (.call i c) = true) (hstep : system.step s (.call i c) = some s')
    (hp : poisons s' i = some j) : leased s'.world j = false := by
  simpa [turnsUnleased, hstep, hp] using h

theorem leasesUnpoisoned_call {s : State} {m : Step} {j : String} {op : RowOp}
    {via : Option Nat} (h : leasesUnpoisoned s m = true)
    (hs : sent s m = some (.update j op via, true)) (hop : leases op = true)
    (he : takesEffect s.world j op = true) (i : Nat) : poisons s i ≠ some j := by
  intro hp
  have hi : i < s.threads.length := by
    obtain ⟨code, msg, via', hn⟩ := poisons_eq_some.mp hp
    obtain ⟨p, hp', _⟩ := Option.bind_eq_some_iff.mp hn
    exact (List.getElem?_eq_some_iff.mp hp').1
  have hall : ∀ k < s.threads.length, poisons s k ≠ some j := by
    simpa [leasesUnpoisoned, hs, hop, he] using h
  exact hall i hi hp

/-- A program that starts does not start with a poison update. -/
def Harmless (p : Program Unit) : Prop :=
  ∀ j code msg via, p.next ≠ some (.request (.update j (.poison code msg) via))

theorem harmless_forks (e : Effect) : ∀ p ∈ forks e, Harmless p := by
  intro p hp
  cases e with
  | request q => exact absurd hp List.not_mem_nil
  | act a =>
    cases a with
    | go g =>
      rw [List.mem_singleton.mp hp]
      cases g with
      | heartbeat cell j a o l n => exact fun _ _ _ _ h => by cases h
    | _ => exact absurd hp List.not_mem_nil

theorem harmless_envStep {w w' : World} {v : Env} {ps : List (Program Unit)}
    (h : envStep w v = some (w', ps)) : ∀ p ∈ ps, Harmless p := by
  intro p hp
  cases v with
  | dbTick d => cases h; exact absurd hp List.not_mem_nil
  | redisTick d => cases h; exact absurd hp List.not_mem_nil
  | deliver cfg i =>
    simp only [envStep] at h
    split at h
    · cases h
      rw [List.mem_singleton.mp hp]
      exact fun _ _ _ _ h => by cases h
    · cases h
  | autoclaim cfg i =>
    simp only [envStep] at h
    split at h
    · split at h
      · cases h
        rw [List.mem_singleton.mp hp]
        exact fun _ _ _ _ h => by cases h
      · cases h
    · cases h
  | dispatch cfg =>
    cases h
    rw [List.mem_singleton.mp hp]
    exact fun _ _ _ _ h => by cases h
  | submit cfg requestID userID body =>
    cases h
    rw [List.mem_singleton.mp hp]
    exact fun _ _ _ _ h => by cases h
  | status userID admin j =>
    cases h
    rw [List.mem_singleton.mp hp]
    intro j' code msg via hn
    unfold handleStatus at hn
    by_cases hj : j = ""
    · rw [if_pos hj] at hn
      cases hn
    · rw [if_neg hj] at hn
      cases hn
  | expire k => cases h; exact absurd hp List.not_mem_nil
  | fillCache fp v => cases h; exact absurd hp List.not_mem_nil

/-- One move. -/
theorem PoisonsUnleased.step {s s' : State} {m : Step} (hi : PoisonsUnleased s)
    (hg : system.Good (contract false) s) (hok : SparesLeases s m) (hstep : system.step s m = some s') :
    PoisonsUnleased s' := by
  have hstep₀ := hstep
  obtain ⟨i, c, e, k, w, r, rfl, ht, hp, rfl⟩ | ⟨i, rfl, rfl⟩ | ⟨v, w, ps, rfl, hv, rfl⟩ :=
    system.step_cases hstep
  · intro n j hn
    obtain ⟨code, msg, via, hnext⟩ := poisons_eq_some.mp hn
    obtain ⟨rfl, _⟩ | ⟨_, hold⟩ | ⟨p, hps, hnew⟩ := Conc.Config.nextAt_set_append hnext
    · exact turnsUnleased_call hok.1 hstep₀ hn
    · -- another thread still waits; only a new lease could hurt
      have hpoison : poisons s n = some j := poisons_eq_some.mpr ⟨code, msg, via, hold⟩
      have hun : leased s.world j = false := hi n j hpoison
      by_contra hl
      obtain hl' | ⟨op, via', hsent, hop, he⟩ :=
        leased_of_perform (hg.allowed ht) (nextAt_of_thread ht) hp (Bool.not_eq_false _ ▸ hl)
      · rw [hun] at hl'
        cases hl'
      · exact leasesUnpoisoned_call hok.2 hsent hop he n hpoison
    · exact absurd hnew (harmless_forks e p hps j code msg via)
  · intro n j hn
    obtain ⟨code, msg, via, hnext⟩ := poisons_eq_some.mp hn
    rw [← List.append_nil (s.threads.set i (.ret ()))] at hnext
    obtain ⟨_, hnone⟩ | ⟨_, hold⟩ | ⟨p, hps, _⟩ := Conc.Config.nextAt_set_append hnext
    · cases hnone
    · exact hi n j (poisons_eq_some.mpr ⟨code, msg, via, hold⟩)
    · exact absurd hps List.not_mem_nil
  · intro n j hn
    obtain ⟨code, msg, via, hnext⟩ := poisons_eq_some.mp hn
    have hun : poisons s n = some j → leased w j = false := by
      intro hpoison
      by_contra hl
      have hl' := leased_of_env (change_envStep hv) (Bool.not_eq_false _ ▸ hl)
      rw [hi n j hpoison] at hl'
      cases hl'
    obtain ⟨q, hq, he⟩ := Option.bind_eq_some_iff.mp hnext
    rw [List.getElem?_append] at hq
    split at hq
    · refine hun (poisons_eq_some.mpr ⟨code, msg, via, ?_⟩)
      simp only [Conc.Config.nextAt, hq, Option.bind_some, he]
    · exact absurd he (harmless_envStep hv q (List.mem_of_getElem? hq) j code msg via)

/-- An update that gives or extends a lease leaves the row running. -/
theorem not_done_of_leases {now v : Nat} {op : RowOp} {r r' : Submission}
    (hop : leases op = true) (hx : op.exec now r = some (r', v)) : r'.state ≠ "done" := by
  have hproc : r'.state = "processing" := by
    cases op with
    | claim o l => exact (starts_of_exec (o := o) rfl hx).2.2.2.1
    | reclaim o l => exact (starts_of_exec (o := o) rfl hx).2.2.2.1
    | refresh a o l =>
      obtain ⟨⟨_, _, _, hp⟩, _, rfl⟩ := refreshSubmissionLease_eq_some.mp hx
      exact hp
    | finalize a o st m => cases hop
    | poison code msg => cases hop
    | updateResult st m => cases hop
  rw [hproc]
  decide

/-- A leased job that is not about to be poisoned ends only by its attempt's finalize. -/
theorem ends_by_finalize {s s' : State} {m : Step} (hi : PoisonsUnleased s)
    (hg : system.Good (contract false) s) (hstep : system.step s m = some s') {j : String}
    {r r' : Submission} (hr : s.world.submissions j = some r) (hl : r.Leased s.world.dbNow)
    (hr' : s'.world.submissions j = some r') (hd : r'.state = "done") :
    ∃ o st res via, sent s m = some (.update j (.finalize r.attemptID o st res) via, true) ∧
      r.leaseOwner = some o := by
  have hsame : s'.world.submissions j = s.world.submissions j → False := by
    intro heq
    rw [heq, hr] at hr'
    cases hr'
    have hp : r.state = "processing" := hl.1
    rw [hd] at hp
    simp at hp
  obtain ⟨i, c, e, k, w, reply, rfl, ht, hp, rfl⟩ | ⟨i, rfl, rfl⟩ | ⟨v, w, ps, rfl, hv, rfl⟩ :=
    system.step_cases hstep
  · obtain hold | hpend | ⟨op, via, r₀, v, hr₀, hx, hj, hP, _⟩ :=
      (moved_of_perform (hg.allowed ht) hp).row hr'
    · exact (hsame (hr'.trans hold.symm)).elim
    · rw [hpend] at hd
      simp at hd
    · rw [hr] at hr₀
      cases hr₀
      obtain ⟨rfl, hserved⟩ := of_decide_eq_true hP
      have hn := nextAt_of_thread ht
      cases op with
      | claim o l => exact absurd hd (not_done_of_leases rfl hx)
      | refresh a o l => exact absurd hd (not_done_of_leases rfl hx)
      | reclaim o l => exact absurd hd (not_done_of_leases rfl hx)
      | finalize a o st res =>
        obtain ⟨⟨rfl, ho, _⟩, _⟩ := finalizeSubmission_eq_some.mp hx
        exact ⟨o, st, res, via, by simp only [sent, hn, hserved], ho⟩
      | poison code msg =>
        have hun := hi i j (poisons_eq_some.mpr ⟨code, msg, via, hn⟩)
        rw [leased_eq_true.mpr ⟨r, hr, hl⟩] at hun
        cases hun
      | updateResult st res =>
        -- a cached submission is never started
        obtain ⟨_, o, i', _, hst⟩ := hg.inv.running j r hr hl.1
        exact absurd hj (hg.inv.not_cached (hg.inv.started j _ o _ hst).1)
  · exact (hsame rfl).elim
  · exact (hsame (by rw [(change_envStep hv).rows])).elim

/-- Attempt 1 runs and keeps its lease; the payload expires, and another worker
takes the idle entry over. -/
def idleEntry : List Step :=
  submitted ++ judged "Accepted" ++
    [.env (.dbTick 40000000), .env (.redisTick 40000000), .call 3 (.ok { tick := true })] ++
    calls 3 2 ++
    [.env (.dbTick 30000000), .env (.redisTick 30000000),
      .env (.expire (payloadKey "job-1")), .env (.autoclaim (worker "w2") 0),
      .call 5 (.ok { uuid := "t2" })] ++ calls 5 1

end DeepOj.Cluster
