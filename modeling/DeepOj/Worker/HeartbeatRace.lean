import DeepOj.Conc.Log
import DeepOj.Worker.CancelledExecution

/-!
# A completed execution and its heartbeat

When `ExecuteTask` has returned, the execution cancels the run and waits for the heartbeat. A
refresh that is under way at that moment still counts: its answer, or the failure the cancellation
brings about, comes after those of the refreshes before it. An answer that arrives after the
cancellation has the effect of one that arrives between the return and the cancellation.
-/

namespace DeepOj.Worker.Execution

open Conc Repository Cluster Machine

/-- What comes of a call of `RefreshSubmissionLease`. -/
inductive Refresh where
  | renewed
  | lost
  | failed
  deriving DecidableEq, Repr

def refreshed : Except String (Option Nat) → Refresh
  | .error _ => .failed
  | .ok none => .lost
  | .ok (some _) => .renewed

/-- The refreshes are logged. -/
def noteRefresh : (o : Op) → o.Reply → List Refresh
  | .request _ (.update _ (.refresh ..) _), r => [refreshed r]
  | _, _ => []

/-- The execution and its heartbeat, under observation. -/
def watched : Machine (World × List Refresh) Op Op.Reply Pick Event := machine.logged noteRefresh

abbrev Watched : Type := Config (World × List Refresh) Op Op.Reply

/-- Some refresh has reported the lease lost, or too many in a row have failed. -/
def Lost (log : List Refresh) : Prop :=
  .lost ∈ log ∨ List.replicate maxHeartbeatErrorRetries .failed <:+: log

instance (log : List Refresh) : Decidable (Lost log) := inferInstanceAs (Decidable (_ ∨ _))

/-- How many of the last refreshes have failed in a row. -/
def failures : List Refresh → Nat
  | .failed :: log => failures log + 1
  | _ => 0

/-! ## The log -/

section Log

variable {log : List Refresh}

theorem replicate_prefix (n : Nat) : List.replicate n .failed <+: log ↔ n ≤ failures log := by
  induction log generalizing n with
  | nil =>
    rw [List.prefix_nil]
    show _ ↔ n ≤ 0
    cases n with
    | zero => simp
    | succ n => simp [List.replicate_succ]
  | cons a log ih =>
    cases n with
    | zero => simp
    | succ n =>
      rw [List.replicate_succ, List.cons_prefix_cons, ih]
      cases a <;> simp [failures]

/-- A failure adds to those before it. -/
theorem lost_failed : Lost (.failed :: log) ↔ Lost log ∨ maxHeartbeatErrorRetries ≤ failures log + 1 := by
  unfold Lost
  rw [List.infix_cons_iff, replicate_prefix]
  simp only [List.mem_cons, reduceCtorEq, false_or, failures]
  tauto

theorem lost_renewed : Lost (.renewed :: log) ↔ Lost log := by
  unfold Lost
  rw [List.infix_cons_iff, replicate_prefix]
  simp [failures, maxHeartbeatErrorRetries]

theorem lost_lost : Lost (.lost :: log) := .inl List.mem_cons_self

end Log

/-! ## The heartbeat -/

/-- Where a heartbeat stands. -/
inductive Beat where
  | select (errors : Nat)
  | ask (errors : Nat)
  | again (errors : Nat)
  | lose (reason : StreamReason)
  | report (r : HeartbeatResult)
  | ended

/-- What follows a refresh. -/
def Beat.answered (errors : Nat) : Except String (Option Nat) → Beat
  | .error _ => if errors + 1 ≥ maxHeartbeatErrorRetries then .lose .dbErrorHeartbeat else .again (errors + 1)
  | .ok none => .lose .leaseLost
  | .ok (some _) => .again 0

section Heartbeat

variable (cfg : WorkerConfig) (jobID : String) (attemptID : Nat)

/-- One turn of the heartbeat of the execution. -/
abbrev beat (errors : Nat) : ExecProgram Unit :=
  inContext .run (runLeaseHeartbeat 0 jobID attemptID cfg.jobStreamConsumer cfg.jobLeaseSec errors)

/-- The program is what is left of the heartbeat there. -/
inductive Follows : ExecProgram Unit → Beat → Prop where
  | ended : Follows (.ret ()) .ended
  | report {r : HeartbeatResult} {k : Unit → ExecProgram Unit} (h : Follows (k ()) .ended) :
      Follows (.call (.act (.sendHeartbeat 0 r)) k) (.report r)
  | lose {reason : StreamReason} {k : Unit → ExecProgram Unit} (h : Follows (k ()) (.report ⟨true, reason⟩)) :
      Follows (.call (.act (.cancelRun 0)) k) (.lose reason)
  | again {errors : Nat} {k : Unit → ExecProgram Unit} (h : Follows (k ()) .ended) :
      Follows (.call (.act (.go (.heartbeat 0 jobID attemptID cfg.jobStreamConsumer cfg.jobLeaseSec errors))) k)
        (.again errors)
  | ask {errors : Nat} {k : Except String (Option Nat) → ExecProgram Unit}
      (h : ∀ r, Follows (k r) (.answered errors r)) :
      Follows (.call (.request .run
        (.update jobID (.refresh attemptID cfg.jobStreamConsumer cfg.jobLeaseSec) none)) k) (.ask errors)
  | select {errors : Nat} {k : Bool → ExecProgram Unit} (ht : Follows (k true) (.ask errors))
      (hf : Follows (k false) (.report {})) :
      Follows (.call (.act (.selectTick 0)) k) (.select errors)

theorem follows_beat (errors : Nat) :
    Follows cfg jobID attemptID (beat cfg jobID attemptID errors) (.select errors) := by
  have hlose : ∀ reason, Follows cfg jobID attemptID (inContext .run (do
      act (.cancelRun 0)
      act (.sendHeartbeat 0 { leaseLost := true, reason }))) (.lose reason) :=
    fun reason => .lose (.report .ended)
  refine .select (.ask fun r => ?_) (.report .ended)
  cases r with
  | error err =>
    show Follows cfg jobID attemptID (inContext .run (if _ then _ else _)) (if _ then _ else _)
    by_cases hmany : errors + 1 ≥ maxHeartbeatErrorRetries
    · rw [if_pos hmany, if_pos hmany]
      exact hlose _
    · rw [if_neg hmany, if_neg hmany]
      exact .again .ended
  | ok refreshed =>
    cases refreshed with
    | none => exact hlose _
    | some n => exact .again .ended

end Heartbeat

/-- The heartbeat has drawn its conclusion from the refreshes so far. -/
def Tells (heartbeat : Option HeartbeatResult) (log : List Refresh) : Beat → Prop
  | .select errors => heartbeat = none ∧ ¬Lost log ∧ errors = failures log
  | .ask errors => heartbeat = none ∧ ¬Lost log ∧ errors = failures log
  | .again errors => heartbeat = none ∧ ¬Lost log ∧ errors = failures log
  | .lose _ => heartbeat = none ∧ Lost log
  | .report r => heartbeat = none ∧ (r.leaseLost = true ↔ Lost log)
  | .ended => ∀ r, heartbeat = some r → (r.leaseLost = true ↔ Lost log)

theorem Tells.over_of_ne {heartbeat : Option HeartbeatResult} {log : List Refresh} {beat : Beat}
    (h : Tells heartbeat log beat) (hne : heartbeat ≠ none) : beat = .ended := by
  cases beat with
  | ended => rfl
  | _ => exact absurd h.1 hne

/-- The answer to a refresh. -/
theorem tells_answered {log : List Refresh} {errors : Nat} (hlog : ¬Lost log) (herrors : errors = failures log)
    (r : Except String (Option Nat)) : Tells none (refreshed r :: log) (.answered errors r) := by
  cases r with
  | error err =>
    show Tells none (.failed :: log) (if _ then _ else _)
    have hfailed : Lost (.failed :: log) ↔ _ := lost_failed
    by_cases hmany : errors + 1 ≥ maxHeartbeatErrorRetries
    · rw [if_pos hmany]
      exact ⟨rfl, hfailed.mpr (.inr (by omega))⟩
    · rw [if_neg hmany]
      refine ⟨rfl, fun hl => ?_, ?_⟩
      · rcases hfailed.mp hl with hl | hl
        · exact hlog hl
        · omega
      · show errors + 1 = failures log + 1
        omega
  | ok refreshed =>
    cases refreshed with
    | none => exact ⟨rfl, lost_lost⟩
    | some n => exact ⟨rfl, fun hl => hlog (lost_renewed.mp hl), rfl⟩

/-! ## The execution -/

section Claimed

variable (cfg : WorkerConfig) (msg : StreamMessage) (task : TaskRequest) (jobID traceID : String)
  (attemptID : Nat)

/-- What is left of the execution when it finalizes. -/
def finalizing (resp : TaskResponse) (execErr : Option String) : ExecProgram Unit := do
  let _ ← finalize cfg msg task jobID traceID attemptID resp execErr
  pure ()

/-- What is left when it has the heartbeat's result. -/
def received (resp : TaskResponse) (execErr : Option String) (hbRes : HeartbeatResult) : ExecProgram Unit :=
  if hbRes.leaseLost then pure () else finalizing cfg msg task jobID traceID attemptID resp execErr

def taking (resp : TaskResponse) (execErr : Option String) : ExecProgram Unit := do
  let hbRes ← op (.act (.recvHeartbeat 0))
  received cfg msg task jobID traceID attemptID resp execErr hbRes

def cancelling (resp : TaskResponse) (execErr : Option String) : ExecProgram Unit := do
  op (.act (.cancelRun 0))
  taking cfg msg task jobID traceID attemptID resp execErr

/-- What is left when `ExecuteTask` has returned this. -/
def returned (resp : TaskResponse) (execErr : Option String) : ExecProgram Unit := do
  op .leave
  cancelling cfg msg task jobID traceID attemptID resp execErr

def entering : ExecProgram Unit := do
  op .enter
  let (resp, execErr) ← executeTask task attemptID
  returned cfg msg task jobID traceID attemptID resp execErr

/-- What is left once the context of the run is there. -/
def forking : ExecProgram Unit := do
  op (.act (.go (.heartbeat 0 jobID attemptID cfg.jobStreamConsumer cfg.jobLeaseSec 0)))
  entering cfg msg task jobID traceID attemptID

theorem execution_eq : ∃ k, execution cfg msg task jobID traceID attemptID = .call (.act .newRun) k ∧
    k 0 = forking cfg msg task jobID traceID attemptID := by
  refine ⟨_, rfl, ?_⟩
  refine congrArg (Prog.call _) (funext fun _ => congrArg (Prog.call _) (funext fun _ => ?_))
  show (executeTask task attemptID >>= _) >>= _ = executeTask task attemptID >>= _
  rw [Prog.bind_assoc]
  refine congrArg (executeTask task attemptID >>= ·) (funext fun res => ?_)
  refine congrArg (Prog.call _) (funext fun _ => congrArg (Prog.call _) (funext fun _ => ?_))
  refine congrArg (Prog.call _) (funext fun hbRes => ?_)
  show (if hbRes.leaseLost = true then pure _ else _) >>= _ = received _ _ _ _ _ _ _ _ hbRes
  unfold received
  cases hbRes.leaseLost <;> rfl

/-- `ExecuteTask` has returned this, and the heartbeat's result has not been taken yet; once it is waited
for, the run is cancelled. -/
inductive Waits (resp : TaskResponse) (execErr : Option String) : Bool → ExecProgram Unit → Prop where
  | taking {k : HeartbeatResult → ExecProgram Unit}
      (h : ∀ r, k r = received cfg msg task jobID traceID attemptID resp execErr r) :
      Waits resp execErr true (.call (.act (.recvHeartbeat 0)) k)
  | cancelling {done : Bool} {k : Unit → ExecProgram Unit}
      (h : ∀ u, k u = taking cfg msg task jobID traceID attemptID resp execErr) :
      Waits resp execErr done (.call (.act (.cancelRun 0)) k)
  | leaving {done : Bool} {k : Unit → ExecProgram Unit}
      (h : ∀ u, k u = cancelling cfg msg task jobID traceID attemptID resp execErr) :
      Waits resp execErr done (.call .leave k)

/-- The heartbeat's result has not been taken yet. -/
inductive Undecided : Bool → ExecProgram Unit → Prop where
  | waits {resp : TaskResponse} {execErr : Option String} {done : Bool} {p : ExecProgram Unit}
      (h : Waits cfg msg task jobID traceID attemptID resp execErr done p) : Undecided done p
  | task {done : Bool} {o : Op} {k : o.Reply → ExecProgram Unit} (ho : TaskOp o)
      (h : ∀ done r, Undecided done (k r)) : Undecided done (.call o k)
  | entering {done : Bool} {k : Unit → ExecProgram Unit} (h : ∀ done, Undecided done (k ())) :
      Undecided done (.call .enter k)

/-- The two goroutines side by side; before the last heartbeat there may be others that have ended. -/
inductive Stands : Watched → Prop where
  | fresh {w : World} (h : w.heartbeat = none) :
      Stands ⟨(w, []), [execution cfg msg task jobID traceID attemptID]⟩
  | forking {w : World} (h : w.heartbeat = none) :
      Stands ⟨(w, []), [forking cfg msg task jobID traceID attemptID]⟩
  | racing {w : World} {log : List Refresh} {p b : ExecProgram Unit} {beat : Beat} (dead : Nat)
      (hp : Undecided cfg msg task jobID traceID attemptID w.runDone p) (hb : Follows cfg jobID attemptID b beat)
      (ht : Tells w.heartbeat log beat) (hover : beat = .ended → w.heartbeat ≠ none) :
      Stands ⟨(w, log), p :: (List.replicate dead (.ret ()) ++ [b])⟩
  | decided {w : World} {log : List Refresh} {p : ExecProgram Unit} (dead : Nat)
      (hp : p.Confined (Stays .settled)) (h : w.heartbeat = none) :
      Stands ⟨(w, log), p :: List.replicate dead (.ret ())⟩

end Claimed

/-! ## Steps -/

section Steps

variable {cfg : WorkerConfig} {msg : StreamMessage} {task : TaskRequest} {jobID traceID : String}
  {attemptID : Nat} {w w' : World} {log : List Refresh} {c : Pick} {o : Op} {r : o.Reply}

theorem Undecided.of_done {p : ExecProgram Unit} {done : Bool}
    (h : Undecided cfg msg task jobID traceID attemptID done p) :
    Undecided cfg msg task jobID traceID attemptID true p := by
  cases h with
  | waits h =>
    cases h with
    | taking h => exact .waits (.taking h)
    | cancelling h => exact .waits (.cancelling h)
    | leaving h => exact .waits (.leaving h)
  | task ho h => exact .task ho h
  | entering h => exact .entering h

theorem undecided_of_uses {q : ExecProgram (TaskResponse × Option String)} (hq : q.Uses TaskOp) (done : Bool) :
    Undecided cfg msg task jobID traceID attemptID done
      (q >>= fun res => returned cfg msg task jobID traceID attemptID res.1 res.2) := by
  induction q generalizing done with
  | ret res => exact .waits (.leaving fun _ => rfl)
  | call o k ih => exact .task hq.1 fun done r => ih r (hq.2 r) done

/-- What `ExecuteTask` does concerns the heartbeat in nothing. -/
theorem perform_taskOp (ho : TaskOp o) (h : perform w o c = some (w', r)) :
    w'.heartbeat = w.heartbeat ∧ w'.runDone = w.runDone ∧ forks o = [] ∧ noteRefresh o r = [] := by
  cases o with
  | request ctx q =>
    obtain ⟨rfl, k, v, rfl⟩ := ho
    simp only [perform] at h
    split at h <;> cases h <;> exact ⟨rfl, rfl, rfl, rfl⟩
  | act a =>
    obtain rfl : a = .uuid := ho
    cases h
    exact ⟨rfl, rfl, rfl, rfl⟩
  | enter => exact ho.elim
  | leave => exact ho.elim
  | acquire ctx =>
    simp only [perform] at h
    split at h
    · cases h
      exact ⟨rfl, rfl, rfl, rfl⟩
    · split at h <;> cases h
      exact ⟨rfl, rfl, rfl, rfl⟩
  | _ =>
    cases h
    exact ⟨rfl, rfl, rfl, rfl⟩

/-- A completed execution waits on, or it takes the result of the heartbeat. -/
theorem waits_step {resp : TaskResponse} {execErr : Option String} {done : Bool} {k : o.Reply → ExecProgram Unit}
    (hp : Waits cfg msg task jobID traceID attemptID resp execErr done (.call o k))
    (h : perform w o c = some (w', r)) :
    forks o = [] ∧ noteRefresh o r = [] ∧
      ((Waits cfg msg task jobID traceID attemptID resp execErr w'.runDone (k r) ∧ w'.heartbeat = w.heartbeat) ∨
        ∃ hbRes, o = .act (.recvHeartbeat 0) ∧ w.heartbeat = some hbRes ∧ w'.heartbeat = none ∧
          k r = received cfg msg task jobID traceID attemptID resp execErr hbRes) := by
  cases hp with
  | taking hk =>
    obtain ⟨hbRes, hsome, heq⟩ := Option.map_eq_some_iff.mp h
    cases heq
    exact ⟨rfl, rfl, .inr ⟨_, rfl, hsome, rfl, hk _⟩⟩
  | cancelling hk =>
    cases h
    refine ⟨rfl, rfl, .inl ⟨?_, rfl⟩⟩
    rw [hk]
    exact .taking fun _ => rfl
  | leaving hk =>
    cases h
    refine ⟨rfl, rfl, .inl ⟨?_, rfl⟩⟩
    rw [hk]
    exact .cancelling fun _ => rfl

theorem confined_received (resp : TaskResponse) (execErr : Option String) (hbRes : HeartbeatResult) :
    (received cfg msg task jobID traceID attemptID resp execErr hbRes).Confined (Stays .settled) := by
  unfold received
  split
  · exact ⟨trivial⟩
  · exact (confined_finalize _ _ _ _ _ _ _ _).bind fun _ => ⟨trivial⟩

/-- The execution goes on, or it takes the result of the heartbeat. -/
theorem undecided_step {k : o.Reply → ExecProgram Unit}
    (hp : Undecided cfg msg task jobID traceID attemptID w.runDone (.call o k))
    (h : perform w o c = some (w', r)) :
    forks o = [] ∧ noteRefresh o r = [] ∧
      ((Undecided cfg msg task jobID traceID attemptID w'.runDone (k r) ∧ w'.heartbeat = w.heartbeat) ∨
        ((k r).Confined (Stays .settled) ∧ w'.heartbeat = none ∧ w.heartbeat ≠ none)) := by
  generalize w.runDone = done at hp
  cases hp with
  | waits hp =>
    obtain ⟨hforks, hnote, ⟨hnext, hheartbeat⟩ | ⟨hbRes, _, hsome, hnone, hreceived⟩⟩ := waits_step hp h
    · exact ⟨hforks, hnote, .inl ⟨.waits hnext, hheartbeat⟩⟩
    · refine ⟨hforks, hnote, .inr ⟨?_, hnone, by rw [hsome]; simp⟩⟩
      rw [hreceived]
      exact confined_received _ _ _
  | task ho hk =>
    obtain ⟨hheartbeat, _, hforks, hnote⟩ := perform_taskOp ho h
    exact ⟨hforks, hnote, .inl ⟨hk _ r, hheartbeat⟩⟩
  | entering hk =>
    cases h
    exact ⟨rfl, rfl, .inl ⟨hk _, rfl⟩⟩

theorem Follows.eq_ret {b : ExecProgram Unit} (h : Follows cfg jobID attemptID b .ended) : b = .ret () := by
  cases h
  rfl

/-- The heartbeat goes on, or the next turn takes its place. -/
theorem beat_step {k : o.Reply → ExecProgram Unit} {beat : Beat}
    (hb : Follows cfg jobID attemptID (.call o k) beat) (ht : Tells w.heartbeat log beat)
    (h : perform w o c = some (w', r)) :
    (w'.runDone = w.runDone ∨ w'.runDone = true) ∧
    ((forks o = [] ∧ ∃ beat', Follows cfg jobID attemptID (k r) beat' ∧
        Tells w'.heartbeat (noteRefresh o r ++ log) beat' ∧ (beat' = .ended → w'.heartbeat ≠ none)) ∨
      ∃ errors, beat = .again errors ∧ k r = .ret () ∧ w' = w ∧ noteRefresh o r = [] ∧
        forks o = [Execution.beat cfg jobID attemptID errors]) := by
  cases hb with
  | report hk =>
    obtain ⟨hnone, hlost⟩ := ht
    obtain ⟨rfl, _⟩ := Prod.mk.inj (Option.some.inj ((if_pos hnone).symm.trans h))
    refine ⟨.inl rfl, .inl ⟨rfl, _, hk, ?_, fun _ => Option.some_ne_none _⟩⟩
    intro r hr
    cases hr
    exact hlost
  | lose hk =>
    obtain ⟨hnone, hlost⟩ := ht
    cases h
    refine ⟨.inr rfl, .inl ⟨rfl, _, hk, ⟨hnone, fun _ => hlost, fun _ => rfl⟩, ?_⟩⟩
    intro hended
    cases hended
  | again hk =>
    cases h
    exact ⟨.inl rfl, .inr ⟨_, rfl, hk.eq_ret, rfl, rfl, rfl⟩⟩
  | ask hk =>
    obtain ⟨hnone, hlog, herrors⟩ := ht
    have hsame : w'.heartbeat = none ∧ w'.runDone = w.runDone := by
      simp only [perform] at h
      split at h <;> cases h <;> exact ⟨hnone, rfl⟩
    refine ⟨.inl hsame.2, .inl ⟨rfl, _, hk r, ?_, ?_⟩⟩
    · rw [hsame.1]
      exact tells_answered hlog herrors r
    · intro hover
      cases r with
      | error err =>
        revert hover
        show (if _ then _ else _) = Beat.ended → _
        split <;> intro hended <;> cases hended
      | ok refreshed => cases refreshed <;> cases hover
  | select hyes hno =>
    obtain ⟨hnone, hlog, herrors⟩ := ht
    simp only [perform, performAct] at h
    split at h
    · cases h
      refine ⟨.inl rfl, .inl ⟨rfl, _, hyes, ⟨hnone, hlog, herrors⟩, ?_⟩⟩
      intro hended
      cases hended
    · split at h <;> cases h
      refine ⟨.inl rfl, .inl ⟨rfl, _, hno, ⟨hnone, ?_, ?_⟩, ?_⟩⟩
      · intro hlost
        cases hlost
      · intro hl
        exact absurd hl hlog
      · intro hended
        cases hended

/-- What the execution does once it has the result concerns the heartbeat in nothing, either. -/
theorem perform_settled (ho : Stays .settled o) (h : perform w o c = some (w', r)) :
    w'.heartbeat = w.heartbeat ∧ forks o = [] := by
  cases o with
  | request ctx q =>
    simp only [perform] at h
    split at h <;> cases h <;> exact ⟨rfl, rfl⟩
  | act a =>
    cases a with
    | now =>
      cases h
      exact ⟨rfl, rfl⟩
    | _ => exact ho.1.elim
  | _ => exact ho.1.elim

/-- A thread is the execution, the heartbeat, or has ended. -/
theorem thread_cases {p b q : ExecProgram Unit} {dead i : Nat}
    (h : (p :: (List.replicate dead (.ret ()) ++ [b]))[i]? = some q) :
    (i = 0 ∧ q = p) ∨ (i = dead + 1 ∧ q = b) ∨ q = .ret () := by
  cases i with
  | zero => exact .inl ⟨rfl, (Option.some.inj h).symm⟩
  | succ i =>
    rw [List.getElem?_cons_succ, List.getElem?_append, List.length_replicate] at h
    split at h
    · exact .inr (.inr (List.eq_of_mem_replicate (List.mem_of_getElem? h)))
    · obtain ⟨hlt, hget⟩ := List.getElem?_eq_some_iff.mp h
      have hi : i - dead = 0 := by simpa using hlt
      refine .inr (.inl ⟨by omega, ?_⟩)
      rw [hi] at h
      exact (Option.some.inj h).symm

theorem set_heartbeat (p b b' : ExecProgram Unit) (dead : Nat) :
    (p :: (List.replicate dead (.ret ()) ++ [b])).set (dead + 1) b' =
      p :: (List.replicate dead (.ret ()) ++ [b']) := by
  rw [List.set_cons_succ, List.set_append_right _ _ (by simp)]
  simp

theorem undecided_entering (done : Bool) :
    Undecided cfg msg task jobID traceID attemptID done (entering cfg msg task jobID traceID attemptID) :=
  .entering fun done => undecided_of_uses (confined_executeTask task attemptID).uses done

/-- The two goroutines stay side by side as long as none is killed. -/
theorem Stands.step {s s' : Watched} {m : Move Pick Event}
    (h : Stands cfg msg task jobID traceID attemptID s) (hok : uncrashed s m)
    (hstep : watched.step s m = some s') : Stands cfg msg task jobID traceID attemptID s' := by
  obtain ⟨i, c, o, k, ⟨w', log'⟩, r, rfl, hi, hsem, rfl⟩ | ⟨i, rfl, rfl⟩ | ⟨v, ⟨w', log'⟩, ps, rfl, henv, rfl⟩ :=
    watched.step_cases hstep
  · obtain ⟨hperform, hlog⟩ := sem_logged hsem
    dsimp only at hperform hlog
    subst hlog
    cases h with
    | fresh hnone =>
      obtain ⟨k₀, heq, hforking⟩ := execution_eq cfg msg task jobID traceID attemptID
      rw [heq] at hi
      cases i with
      | zero =>
        cases hi
        cases hperform
        show Stands _ _ _ _ _ _ ⟨(_, []), [k₀ 0]⟩
        rw [hforking]
        exact .forking hnone
      | succ i => cases hi
    | forking hnone =>
      obtain ⟨k₀, heq, hentering⟩ : ∃ k₀, Execution.forking cfg msg task jobID traceID attemptID = .call _ k₀ ∧
        k₀ () = entering cfg msg task jobID traceID attemptID := ⟨_, rfl, rfl⟩
      rw [heq] at hi
      cases i with
      | zero =>
        cases hi
        cases hperform
        show Stands _ _ _ _ _ _ ⟨(_, []), k₀ () :: (List.replicate 0 (.ret ()) ++ [beat cfg jobID attemptID 0])⟩
        rw [hentering]
        exact .racing 0 (undecided_entering _) (follows_beat _ _ _ 0) ⟨hnone, by decide, rfl⟩ nofun
      | succ i => cases hi
    | racing dead hp hb ht hover =>
      obtain ⟨rfl, hp'⟩ | ⟨rfl, hb'⟩ | hret := thread_cases hi
      · subst hp'
        obtain ⟨hforks, hnote, ⟨hnext, hheartbeat⟩ | ⟨hnext, hnone, hsome⟩⟩ := undecided_step hp hperform
        · show Stands _ _ _ _ _ _ ⟨(w', noteRefresh o r ++ _), (k r :: _) ++ forks o⟩
          rw [hforks, hnote, List.append_nil, List.nil_append]
          exact .racing dead hnext hb (hheartbeat ▸ ht) (hheartbeat ▸ hover)
        · obtain rfl := ht.over_of_ne hsome
          show Stands _ _ _ _ _ _ ⟨(w', noteRefresh o r ++ _), (k r :: _) ++ forks o⟩
          rw [hforks, List.append_nil, hb.eq_ret, ← List.replicate_succ']
          exact .decided (dead + 1) hnext hnone
      · subst hb'
        obtain ⟨hdone, ⟨hforks, beat', hnext, htold, hsome⟩ | ⟨errors, rfl, hret, rfl, hnote, hforks⟩⟩ :=
          beat_step hb ht hperform
        · show Stands _ _ _ _ _ _ ⟨(w', noteRefresh o r ++ _), _ ++ forks o⟩
          rw [hforks, List.append_nil, set_heartbeat]
          refine .racing dead ?_ hnext htold hsome
          rcases hdone with hdone | hdone
          · rw [hdone]
            exact hp
          · rw [hdone]
            exact hp.of_done
        · -- the next turn is a goroutine of its own
          show Stands _ _ _ _ _ _ ⟨(w', noteRefresh o r ++ _), _ ++ forks o⟩
          rw [hforks, hnote, set_heartbeat, hret, ← List.replicate_succ', List.nil_append, List.cons_append]
          exact .racing (dead + 1) hp (follows_beat _ _ _ errors) ht nofun
      · cases hret
    | decided dead hp hnone =>
      cases i with
      | zero =>
        obtain rfl := Option.some.inj hi
        obtain ⟨hheartbeat, hforks⟩ := perform_settled hp.uses.1 hperform
        show Stands _ _ _ _ _ _ ⟨(w', noteRefresh o r ++ _), (k r :: _) ++ forks o⟩
        rw [hforks, List.append_nil]
        exact .decided dead ⟨hp.uses.2 r⟩ (hheartbeat.trans hnone)
      | succ i =>
        rw [List.getElem?_cons_succ] at hi
        have hret := List.eq_of_mem_replicate (List.mem_of_getElem? hi)
        cases hret
  · exact hok.elim
  · obtain ⟨henv', hlog⟩ := env_logged henv
    cases henv'
    dsimp only at hlog
    subst hlog
    rw [List.append_nil]
    cases h with
    | fresh hnone => exact .fresh hnone
    | forking hnone => exact .forking hnone
    | racing dead hp hb ht hover => exact .racing dead hp.of_done hb ht hover
    | decided dead hp hnone => exact .decided dead hp hnone

end Steps

/-! ## Runs -/

/-- The execution under observation, at its beginning. -/
def watchedStart (cfg : WorkerConfig) (msg : StreamMessage) (task : TaskRequest) (jobID traceID : String)
    (attemptID : Nat) : Watched :=
  ⟨({}, []), [execution cfg msg task jobID traceID attemptID]⟩

section Runs

variable {cfg : WorkerConfig} {msg : StreamMessage} {task : TaskRequest} {jobID traceID : String}
  {attemptID : Nat} {resp : TaskResponse} {execErr : Option String} {s s' s₁ : Watched}

theorem stands_of_reach (h : watched.Reach uncrashed (watchedStart cfg msg task jobID traceID attemptID) s) :
    Stands cfg msg task jobID traceID attemptID s := by
  refine Reach.invariant (J := Stands cfg msg task jobID traceID attemptID) (.fresh rfl) ?_ h
  intro s s' m hs hok hstep
  exact hs.step hok hstep

/-- The execution holds the response and the error until it decides. -/
def Holds (cfg : WorkerConfig) (msg : StreamMessage) (task : TaskRequest) (jobID traceID : String)
    (attemptID : Nat) (resp : TaskResponse) (execErr : Option String) (s : Watched) : Prop :=
  ∃ p, s.threads[0]? = some p ∧
    ((∃ done, Waits cfg msg task jobID traceID attemptID resp execErr done p) ∨ p.Confined (Stays .settled))

theorem Holds.step {m : Move Pick Event} (h : Holds cfg msg task jobID traceID attemptID resp execErr s)
    (hok : uncrashed s m) (hstep : watched.step s m = some s') :
    Holds cfg msg task jobID traceID attemptID resp execErr s' := by
  obtain ⟨p, hp, hcases⟩ := h
  obtain ⟨i, c, o, k, w', r, rfl, hi, hsem, rfl⟩ | ⟨i, rfl, rfl⟩ | ⟨v, w', ps, rfl, henv, rfl⟩ :=
    watched.step_cases hstep
  · obtain ⟨hperform, _⟩ := sem_logged hsem
    obtain ⟨hlt, _⟩ := List.getElem?_eq_some_iff.mp hp
    cases i with
    | zero =>
      obtain rfl : p = .call o k := Option.some.inj (hp.symm.trans hi)
      refine ⟨k r, ?_, ?_⟩
      · rw [List.getElem?_append_left (by simpa using hlt), List.getElem?_set_self hlt]
      · rcases hcases with ⟨done, hwaits⟩ | hsettled
        · obtain ⟨_, _, ⟨hnext, _⟩ | ⟨hbRes, _, _, _, hreceived⟩⟩ := waits_step hwaits hperform
          · exact .inl ⟨_, hnext⟩
          · rw [hreceived]
            exact .inr (confined_received _ _ _)
        · exact .inr ⟨hsettled.uses.2 r⟩
    | succ i =>
      refine ⟨p, ?_, hcases⟩
      rw [List.getElem?_append_left (by simpa using hlt), List.getElem?_set_ne (by simp)]
      exact hp
  · exact hok.elim
  · refine ⟨p, ?_, hcases⟩
    rw [List.getElem?_append_left (List.getElem?_eq_some_iff.mp hp).1]
    exact hp

/-- Where the execution stands when its next operation is this one. -/
theorem next_cases (h : Stands cfg msg task jobID traceID attemptID s) {o : Op} (hnext : s.nextAt 0 = some o)
    (ho : o = .leave ∨ o = .act (.recvHeartbeat 0)) :
    ∃ dead b beat k resp execErr done, s.threads = .call o k :: (List.replicate dead (.ret ()) ++ [b]) ∧
      (Waits cfg msg task jobID traceID attemptID resp execErr done (.call o k) ∧ s.world.1.runDone = done) ∧
      Follows cfg jobID attemptID b beat ∧ Tells s.world.1.heartbeat s.world.2 beat ∧
      (beat = .ended → s.world.1.heartbeat ≠ none) := by
  have hcall : ∀ p : ExecProgram Unit, p.next = some o → ∃ k, p = .call o k := by
    intro p hp
    cases p with
    | ret u => cases hp
    | call o' k =>
      obtain rfl := Option.some.inj hp
      exact ⟨k, rfl⟩
  cases h with
  | fresh hnone =>
    obtain ⟨k₀, heq, _⟩ := execution_eq cfg msg task jobID traceID attemptID
    have hfirst : (execution cfg msg task jobID traceID attemptID).next = some o := hnext
    rw [heq] at hfirst
    cases hfirst
    rcases ho with ho | ho <;> cases ho
  | forking hnone =>
    cases hnext
    rcases ho with ho | ho <;> cases ho
  | @racing w log p b beat dead hp hb ht hover =>
    obtain ⟨k, rfl⟩ := hcall p hnext
    generalize w.runDone = done at hp
    cases hp with
    | waits hp => exact ⟨dead, b, beat, k, _, _, done, rfl, ⟨hp, rfl⟩, hb, ht, hover⟩
    | task htask hk =>
      rcases ho with rfl | rfl
      · exact htask.elim
      · cases htask
    | entering hk => rcases ho with ho | ho <;> cases ho
  | decided dead hp hnone =>
    obtain ⟨k, rfl⟩ := hcall _ hnext
    rcases ho with rfl | rfl
    · exact hp.uses.1.1.elim
    · exact hp.uses.1.1.elim

/-- The response and the error that `ExecuteTask` has returned. -/
theorem exists_returned (h : Stands cfg msg task jobID traceID attemptID s) (hnext : s.nextAt 0 = some .leave) :
    ∃ resp execErr, s.threads[0]? = some (returned cfg msg task jobID traceID attemptID resp execErr) := by
  obtain ⟨dead, b, beat, k, resp, execErr, done, hthreads, ⟨hwaits, _⟩, _⟩ := next_cases h hnext (.inl rfl)
  refine ⟨resp, execErr, ?_⟩
  cases hwaits with
  | leaving hk =>
    rw [hthreads]
    exact congrArg (fun k => some (Prog.call Op.leave k)) (funext hk)

theorem holds_of_returned
    (h : s.threads[0]? = some (returned cfg msg task jobID traceID attemptID resp execErr)) :
    Holds cfg msg task jobID traceID attemptID resp execErr s :=
  ⟨_, h, .inl ⟨false, .leaving fun _ => rfl⟩⟩

/-- What the execution does with the heartbeat's result. -/
theorem received_of_step {c : Pick} (h : Stands cfg msg task jobID traceID attemptID s)
    (hholds : Holds cfg msg task jobID traceID attemptID resp execErr s)
    (hnext : s.nextAt 0 = some (.act (.recvHeartbeat 0))) (hstep : watched.step s (.call 0 c) = some s') :
    ∃ hbRes, s'.threads[0]? = some (received cfg msg task jobID traceID attemptID resp execErr hbRes) ∧
      (hbRes.leaseLost = true ↔ Lost s'.world.2) := by
  obtain ⟨dead, b, beat, k, _, _, _, hthreads, _, _, htells, _⟩ := next_cases h hnext (.inr rfl)
  obtain ⟨p, hp, hcases⟩ := hholds
  rw [hthreads] at hp
  obtain rfl : .call (.act (.recvHeartbeat 0)) k = p := Option.some.inj hp
  obtain ⟨done, hwaits⟩ : ∃ done, Waits cfg msg task jobID traceID attemptID resp execErr done
      (.call (.act (.recvHeartbeat 0)) k) := by
    rcases hcases with hwaits | hsettled
    · exact hwaits
    · exact hsettled.uses.1.1.elim
  obtain ⟨i, c', o, k', ⟨w', log'⟩, r, heq, hi, hsem, rfl⟩ | ⟨i, heq, _⟩ | ⟨v, w', ps, heq, _⟩ :=
    watched.step_cases hstep
  · cases heq
    rw [hthreads] at hi
    cases hi
    obtain ⟨hperform, hlog⟩ := sem_logged hsem
    have htake : perform s.world.1 (.act (.recvHeartbeat 0)) c = some (w', r) := hperform
    cases hwaits with
    | taking hk =>
      obtain ⟨hbRes, hsome, heq⟩ := Option.map_eq_some_iff.mp htake
      cases heq
      have hlost : r.leaseLost = true ↔ Lost s.world.2 := by
        obtain rfl := htells.over_of_ne (by rw [hsome]; simp)
        exact htells r hsome
      refine ⟨r, ?_, ?_⟩
      · rw [hthreads, hk]
        rfl
      · rw [hlost, show log' = s.world.2 from hlog]
  · cases heq
  · cases heq

/-! ## The heartbeat ends -/

/-- The goroutines can go on until the execution takes the heartbeat's result. -/
inductive CanTake : Watched → Prop where
  | now {s s' : Watched} {c : Pick} (hnext : s.nextAt 0 = some (.act (.recvHeartbeat 0)))
      (hstep : watched.step s (.call 0 c) = some s') : CanTake s
  | later {s s' : Watched} {m : Move Pick Event} (hm : uncrashed s m) (hstep : watched.step s m = some s')
      (h : CanTake s') : CanTake s

/-- The execution waits for this heartbeat. -/
structure Awaits (s : Watched) (b : ExecProgram Unit) : Prop where
  threads : ∃ p dead, p.next = some (.act (.recvHeartbeat 0)) ∧
    s.threads = p :: (List.replicate dead (.ret ()) ++ [b])
  done : s.world.1.runDone = true

/-- The heartbeat performs an operation. -/
theorem step_heartbeat {p : ExecProgram Unit} {dead : Nat} {o : Op} {k : o.Reply → ExecProgram Unit} {c : Pick}
    {w : World} {r : o.Reply} (hthreads : s.threads = p :: (List.replicate dead (.ret ()) ++ [.call o k]))
    (hperform : perform s.world.1 o c = some (w, r)) :
    watched.step s (.call (dead + 1) c) = some ⟨(w, noteRefresh o r ++ s.world.2),
      p :: (List.replicate dead (.ret ()) ++ [k r]) ++ forks o⟩ := by
  have hget : s.threads[dead + 1]? = some (.call o k) := by
    rw [hthreads]
    simp
  have hsem : watched.sem s.world o c = some ((w, noteRefresh o r ++ s.world.2), r) :=
    congrArg (Option.map _) hperform
  simp only [Machine.step, hget, hsem]
  rw [hthreads, set_heartbeat]
  rfl

/-- The heartbeat performs an operation that starts no other. -/
theorem Awaits.move {o : Op} {k : o.Reply → ExecProgram Unit} {c : Pick} {w : World} {r : o.Reply}
    (h : Awaits s (.call o k)) (hforks : forks o = []) (hdone : w.runDone = true)
    (hperform : perform s.world.1 o c = some (w, r))
    (hnext : ∀ s', Awaits s' (k r) → s'.world.1 = w → CanTake s') : CanTake s := by
  obtain ⟨p, dead, hp, hthreads⟩ := h.threads
  have hstep := step_heartbeat hthreads hperform
  rw [hforks, List.append_nil] at hstep
  exact .later (m := .call (dead + 1) c) trivial hstep (hnext _ ⟨⟨p, dead, hp, rfl⟩, hdone⟩ rfl)

/-- The result is there. -/
theorem canTake_over (h : Awaits s (.ret ())) (hsome : s.world.1.heartbeat ≠ none) : CanTake s := by
  obtain ⟨p, dead, hp, hthreads⟩ := h.threads
  obtain ⟨r, hr⟩ := Option.ne_none_iff_exists'.mp hsome
  have hnext : s.nextAt 0 = some (.act (.recvHeartbeat 0)) := by
    unfold Config.nextAt
    rw [hthreads]
    exact hp
  cases p with
  | ret u => cases hp
  | call o k =>
    obtain rfl := Option.some.inj hp
    have hget : s.threads[0]? = some (.call (.act (.recvHeartbeat 0)) k) := by
      rw [hthreads]
      rfl
    have hsem : watched.sem s.world (.act (.recvHeartbeat 0)) {} =
        some (({ s.world.1 with heartbeat := none }, s.world.2), r) := by
      show ((s.world.1.heartbeat.map _).map _) = _
      rw [hr]
      rfl
    have hstep : ∃ s', watched.step s (.call 0 {}) = some s' := by
      simp only [Machine.step, hget, hsem]
      exact ⟨_, rfl⟩
    obtain ⟨s', hstep⟩ := hstep
    exact .now hnext hstep

section Ends

variable {b : ExecProgram Unit}

theorem canTake_report {hbRes : HeartbeatResult} (h : Awaits s b)
    (hb : Follows cfg jobID attemptID b (.report hbRes)) (hnone : s.world.1.heartbeat = none) : CanTake s := by
  cases hb with
  | report hk =>
    refine h.move (c := {}) (w := { s.world.1 with heartbeat := some hbRes }) (r := ()) rfl h.done ?_ ?_
    · exact if_pos hnone
    · intro s' h' hw
      rw [hk.eq_ret] at h'
      exact canTake_over h' (by rw [hw]; nofun)

theorem canTake_lose {reason : StreamReason} (h : Awaits s b)
    (hb : Follows cfg jobID attemptID b (.lose reason)) (hnone : s.world.1.heartbeat = none) : CanTake s := by
  cases hb with
  | lose hk =>
    refine h.move (c := {}) (w := s.world.1.cancelRun) (r := ()) rfl rfl rfl ?_
    intro s' h' hw
    exact canTake_report h' hk (by rw [hw]; exact hnone)

theorem canTake_select {errors : Nat} (h : Awaits s b)
    (hb : Follows cfg jobID attemptID b (.select errors)) (hnone : s.world.1.heartbeat = none) : CanTake s := by
  cases hb with
  | select hyes hno =>
    have hdone : perform s.world.1 (.act (.selectTick 0)) { first := false } = some (s.world.1, false) :=
      if_pos h.done
    refine h.move rfl h.done hdone ?_
    intro s' h' hw
    exact canTake_report h' hno (by rw [hw]; exact hnone)

theorem canTake_again {errors : Nat} (h : Awaits s b)
    (hb : Follows cfg jobID attemptID b (.again errors)) (hnone : s.world.1.heartbeat = none) : CanTake s := by
  cases hb with
  | again hk =>
    obtain ⟨p, dead, hp, hthreads⟩ := h.threads
    have hstep := step_heartbeat (c := {}) (w := s.world.1) (r := ()) hthreads rfl
    rw [hk.eq_ret, ← List.replicate_succ'] at hstep
    refine .later (m := .call (dead + 1) {}) trivial hstep ?_
    refine canTake_select ⟨⟨p, dead + 1, hp, rfl⟩, h.done⟩ (follows_beat cfg jobID attemptID errors) hnone

theorem canTake_ask {errors : Nat} (h : Awaits s b)
    (hb : Follows cfg jobID attemptID b (.ask errors)) (hnone : s.world.1.heartbeat = none) : CanTake s := by
  cases hb with
  | ask hk =>
    have hfail : ∀ q, perform s.world.1 (.request .run q) {} = some (s.world.1, .error "context canceled") :=
      fun q => if_pos h.done
    refine h.move rfl h.done (hfail _) ?_
    intro s' h' hw
    have hfree : s'.world.1.heartbeat = none := by
      rw [hw]
      exact hnone
    have hnext := hk (.error "context canceled")
    unfold Beat.answered at hnext
    dsimp only at hnext
    split at hnext
    · exact canTake_lose h' hnext hfree
    · exact canTake_again h' hnext hfree

end Ends

/-- The execution never waits for nothing. -/
theorem canTake (h : Stands cfg msg task jobID traceID attemptID s)
    (hnext : s.nextAt 0 = some (.act (.recvHeartbeat 0))) : CanTake s := by
  obtain ⟨dead, b, beat, k, _, _, done, hthreads, ⟨hwaits, hdone⟩, hb, ht, hover⟩ := next_cases h hnext (.inr rfl)
  have hcancelled : s.world.1.runDone = true := by
    cases hwaits
    exact hdone
  have hawaits : Awaits s b := ⟨⟨_, dead, rfl, hthreads⟩, hcancelled⟩
  cases beat with
  | select errors => exact canTake_select hawaits hb ht.1
  | ask errors => exact canTake_ask hawaits hb ht.1
  | again errors => exact canTake_again hawaits hb ht.1
  | lose reason => exact canTake_lose hawaits hb ht.1
  | report r => exact canTake_report hawaits hb ht.1
  | ended =>
    rw [hb.eq_ret] at hawaits
    exact canTake_over hawaits (hover rfl)

end Runs

/-! ## The finalize -/

section Finalize

variable (cfg : WorkerConfig) (msg : StreamMessage) (task : TaskRequest) (jobID traceID : String)
  (attemptID : Nat) (resp : TaskResponse) (execErr : Option String)

/-- The request of `FinalizeSubmissionWithFence` with a result that comes of the response and the error. -/
def WritesResult (o : Op) : Prop :=
  ∃ res : String × ResultMap,
    (res = fallbackResult task jobID attemptID traceID (some resp) execErr ∨
      ∃ read, res = resultFromReport jobID attemptID traceID (some resp) execErr read) ∧
    o = .request .worker (.update jobID (.finalize attemptID cfg.jobStreamConsumer res.1
      (res.2.set "attempt_id" (.num attemptID))) (some msg.id))

theorem inContext_bind {α β : Type} (ctx : Context) (p : Program α) (f : α → Program β) :
    inContext ctx (p >>= f) = inContext ctx p >>= fun a => inContext ctx (f a) := by
  induction p with
  | ret a => rfl
  | call e k ih =>
    cases e with
    | request q => exact congrArg (Prog.call _) (funext ih)
    | act a => exact congrArg (Prog.call _) (funext ih)

/-- An execution that finalizes writes what `ExecuteTask` has returned. -/
theorem performs_finalizing :
    (finalizing cfg msg task jobID traceID attemptID resp execErr).Performs
      (WritesResult cfg msg task jobID traceID attemptID resp execErr) := by
  refine Prog.Performs.bind_left ?_ _
  unfold finalize resolveFinalResult
  rw [inContext_bind, Prog.bind_assoc]
  refine Prog.Performs.bind_right _ fun raw => ?_
  cases raw.bind RedisValue.asMap with
  | none =>
    dsimp only
    -- a variable, so that the unifier does not compute the result
    generalize hres : fallbackResult task jobID attemptID traceID (some resp) execErr = res
    exact .inl ⟨res, .inl hres.symm, rfl⟩
  | some read =>
    dsimp only
    generalize hres : resultFromReport jobID attemptID traceID (some resp) execErr read = res
    exact .inl ⟨res, .inr ⟨read, hres.symm⟩, rfl⟩

theorem received_eq_finalizing (hbRes : HeartbeatResult) :
    received cfg msg task jobID traceID attemptID resp execErr hbRes =
      finalizing cfg msg task jobID traceID attemptID resp execErr ↔ hbRes.leaseLost = false := by
  unfold received
  cases hbRes.leaseLost with
  | true => exact ⟨fun h => (nomatch h), nofun⟩
  | false => exact ⟨fun _ => rfl, fun _ => rfl⟩

end Finalize

/-- When `ExecuteTask` has returned, the execution gets the heartbeat's result in the end. It goes on
to finalize just when no refresh has reported the lease lost and no three in a row have failed, those
that are answered after the return included. -/
theorem completed_result_kept_iff (cfg : WorkerConfig) (msg : StreamMessage) (task : TaskRequest)
    (jobID traceID : String) (attemptID : Nat) {s₁ : Watched}
    (h₁ : watched.Reach uncrashed (watchedStart cfg msg task jobID traceID attemptID) s₁)
    (hleave : s₁.nextAt 0 = some .leave) :
    ∃ resp execErr, s₁.threads[0]? = some (returned cfg msg task jobID traceID attemptID resp execErr) ∧
      (finalizing cfg msg task jobID traceID attemptID resp execErr).Performs
        (WritesResult cfg msg task jobID traceID attemptID resp execErr) ∧
      ∀ s, watched.Reach uncrashed s₁ s → s.nextAt 0 = some (.act (.recvHeartbeat 0)) →
        CanTake s ∧ ∀ c s', watched.step s (.call 0 c) = some s' →
          (s'.threads[0]? = some (finalizing cfg msg task jobID traceID attemptID resp execErr) ↔
            ¬Lost s'.world.2) := by
  have hstands₁ := stands_of_reach h₁
  obtain ⟨resp, execErr, hreturned⟩ := exists_returned hstands₁ hleave
  refine ⟨resp, execErr, hreturned, performs_finalizing _ _ _ _ _ _ _ _, fun s hs hnext => ?_⟩
  have hinv : Stands cfg msg task jobID traceID attemptID s ∧
      Holds cfg msg task jobID traceID attemptID resp execErr s := by
    refine Reach.invariant (J := fun s => Stands cfg msg task jobID traceID attemptID s ∧
      Holds cfg msg task jobID traceID attemptID resp execErr s) ⟨hstands₁, holds_of_returned hreturned⟩ ?_ hs
    intro s s' m hJ hok hstep
    exact ⟨hJ.1.step hok hstep, hJ.2.step hok hstep⟩
  refine ⟨canTake hinv.1 hnext, fun c s' hstep => ?_⟩
  obtain ⟨hbRes, hthread, hlost⟩ := received_of_step hinv.1 hinv.2 hnext hstep
  rw [hthread, Option.some.injEq, received_eq_finalizing, ← hlost]
  simp

/-- The execution of a C++ program. -/
def smallWatched : Watched :=
  watchedStart ⟨"w", 30, 5⟩ ⟨1, ⟨some "j", some 0, none, some 0, none⟩⟩
    ⟨"j", "c", 1, 1000, 256, "", 0, 1, "t"⟩ "j" "t" 1

def stored : Pick where
  reply
    | .setNX .. => .ok true
    | _ => .error "timeout"

/-- Two refreshes fail while `ExecuteTask` runs; the third is called if `third` says so. Then
`ExecuteTask` has judged the program and stored its report. -/
def completing (third : Bool) : List (Move Pick Event) :=
  List.replicate 3 (.call 0 {}) ++ List.replicate 3 (.call 1 {}) ++ List.replicate 3 (.call 2 {}) ++
  (if third then [.call 3 {}] else []) ++ List.replicate 7 (.call 0 stored)

def completed (third : Bool) : Watched := watched.play uncrashed smallWatched (completing third)

/-- The run is cancelled; the heartbeat sees it. -/
def stopping : List (Move Pick Event) :=
  List.replicate 2 (.call 0 {}) ++ List.replicate 2 (.call 3 { first := false })

theorem reach_completed (third : Bool) : watched.Reach uncrashed smallWatched (completed third) :=
  watched.reach_play uncrashed .init _

set_option maxRecDepth 8000 in
/-- Two failures do no harm when no refresh is under way at the return. -/
theorem completed_result_kept : ∃ resp execErr s',
    watched.step (watched.play uncrashed (completed false) stopping) (.call 0 {}) = some s' ∧
      s'.threads[0]? = some (finalizing ⟨"w", 30, 5⟩ ⟨1, ⟨some "j", some 0, none, some 0, none⟩⟩
        ⟨"j", "c", 1, 1000, 256, "", 0, 1, "t"⟩ "j" "t" 1 resp execErr) := by
  obtain ⟨resp, execErr, _, _, hkept⟩ := completed_result_kept_iff ⟨"w", 30, 5⟩
    ⟨1, ⟨some "j", some 0, none, some 0, none⟩⟩ ⟨"j", "c", 1, 1000, 256, "", 0, 1, "t"⟩ "j" "t" 1
    (reach_completed false) (by decide +kernel)
  obtain ⟨_, hiff⟩ := hkept _ (watched.reach_play uncrashed .init stopping) (by decide +kernel)
  have hlog : (watched.step (watched.play uncrashed (completed false) stopping) (.call 0 {})).map
      (fun s => s.world.2) = some [.failed, .failed] := by decide +kernel
  obtain ⟨s', hstep, hlog⟩ := Option.map_eq_some_iff.mp hlog
  refine ⟨resp, execErr, s', hstep, (hiff {} s' hstep).mpr ?_⟩
  rw [hlog]
  decide

set_option maxRecDepth 8000 in
/-- The third refresh is under way when `ExecuteTask` returns, and the cancellation fails it. -/
theorem completed_result_discarded : ¬∀ (cfg : WorkerConfig) (msg : StreamMessage) (task : TaskRequest)
    (jobID traceID : String) (attemptID : Nat) (resp : TaskResponse) (execErr : Option String) (s₁ s s' : Watched)
    (c : Pick), watched.Reach uncrashed (watchedStart cfg msg task jobID traceID attemptID) s₁ →
      s₁.threads[0]? = some (returned cfg msg task jobID traceID attemptID resp execErr) → ¬Lost s₁.world.2 →
      watched.Reach uncrashed s₁ s → s.nextAt 0 = some (.act (.recvHeartbeat 0)) →
      watched.step s (.call 0 c) = some s' →
      s'.threads[0]? = some (finalizing cfg msg task jobID traceID attemptID resp execErr) := by
  intro hall
  have hstands := stands_of_reach (reach_completed true)
  obtain ⟨resp, execErr, hreturned⟩ := exists_returned hstands (by decide +kernel)
  have hreach : watched.Reach uncrashed (completed true)
      (watched.play uncrashed (completed true) (stopping ++ [.call 3 {}])) := watched.reach_play uncrashed .init _
  have hnext : (watched.play uncrashed (completed true) (stopping ++ [.call 3 {}])).nextAt 0 =
      some (.act (.recvHeartbeat 0)) := by decide +kernel
  have hlog : (watched.step (watched.play uncrashed (completed true) (stopping ++ [.call 3 {}])) (.call 0 {})).map
      (fun s => s.world.2) = some [.failed, .failed, .failed] := by decide +kernel
  obtain ⟨s', hstep, hlog⟩ := Option.map_eq_some_iff.mp hlog
  have hkept := hall _ _ _ _ _ _ resp execErr _ _ s' {} (reach_completed true) hreturned (by decide +kernel)
    hreach hnext hstep
  have hinv := Reach.invariant (J := fun s => Stands _ _ _ _ _ _ s ∧ Holds _ _ _ _ _ _ resp execErr s)
    ⟨hstands, holds_of_returned hreturned⟩
    (fun _ _ _ hJ hok hmove => ⟨hJ.1.step hok hmove, hJ.2.step hok hmove⟩) hreach
  obtain ⟨hbRes, hthread, hlost⟩ := received_of_step hinv.1 hinv.2 hnext hstep
  have hnot : hbRes.leaseLost = false :=
    (received_eq_finalizing _ _ _ _ _ _ _ _ _).mp (Option.some.inj (hthread.symm.trans hkept))
  have hyes : hbRes.leaseLost = true := hlost.mpr (by rw [hlog]; decide)
  rw [hnot] at hyes
  cases hyes

end DeepOj.Worker.Execution
