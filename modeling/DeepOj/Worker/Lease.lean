import DeepOj.Conc.Run
import DeepOj.Repository.Fencing
import Mathlib.Algebra.Ring.Nat
import Mathlib.Algebra.Ring.Int.Defs

/-!
# The lease of a healthy worker

A worker that runs a job refreshes its lease at every tick of a ticker, and finalizes when the
task has returned. The period of the ticker and the length of the lease are configured apart from
each other. Times are nanoseconds; the database rounds them down to microseconds.
-/

namespace DeepOj.Worker.Lease

open Repository Conc

/-- The part of the worker configuration that concerns the lease. -/
structure LeaseConfig where
  jobStreamConsumer : String
  jobLeaseSec : Int
  jobHeartbeatSec : Int
  deriving DecidableEq, Repr

/-- The length of a lease, in seconds, that the statements use. -/
def leaseSec (cfg : LeaseConfig) : Int := if cfg.jobLeaseSec ≤ 0 then 60 else cfg.jobLeaseSec

/-- `heartbeatSec` of `runLeaseHeartbeat`. -/
def heartbeatSec (cfg : LeaseConfig) : Int := if cfg.jobHeartbeatSec ≤ 0 then 10 else cfg.jobHeartbeatSec

/-- The period of the ticker, a `time.Duration`. `time.NewTicker` panics unless it is positive. -/
def heartbeatPeriod (cfg : LeaseConfig) : Option Nat :=
  let d := (heartbeatSec cfg * 1000000000).bmod (2 ^ 64)
  if 0 < d then some d.toNat else none

/-- The next tick of a ticker after `now`. A tick that finds the one before still unread is dropped. -/
def nextTick (due period now : Nat) : Nat := due + ((now - due) / period + 1) * period

/-- What `NOW()` is. -/
def dbClock (now : Nat) : Nat := now / 1000

/-- Where `runClaimedExecution` is. -/
inductive Phase where
  /-- In `ExecuteTask`; the next refresh is that of the tick at `due`. The panic of `time.NewTicker`,
  if there is one, has ended the process. -/
  | executing (due : Option Nat)
  | returned (since : Nat)
  | finalized (applied : Bool)
  deriving DecidableEq, Repr

structure State where
  now : Nat
  row : Submission
  attemptID : Nat
  phase : Phase
  deriving DecidableEq, Repr

inductive Move where
  | pass (d : Nat)
  | refresh
  | taskReturns
  | finalize (status : String) (result : ResultMap)
  deriving DecidableEq, Repr

/-- How long the clock may run: the worker takes `latency` at most for each of its steps. -/
def Phase.deadline (latency : Nat) : Phase → Option Nat
  | .executing due => due.map (· + latency)
  | .returned since => some (since + latency)
  | .finalized _ => none

/-- One step of the worker, or of time. -/
def step (cfg : LeaseConfig) (latency : Nat) (s : State) : Move → Option State
  | .pass d =>
    if ∀ t ∈ s.phase.deadline latency, s.now + d ≤ t then some { s with now := s.now + d } else none
  | .refresh =>
    match s.phase, heartbeatPeriod cfg with
    | .executing (some due), some period =>
      if due ≤ s.now then
        (refreshSubmissionLease (dbClock s.now) s.attemptID cfg.jobStreamConsumer cfg.jobLeaseSec s.row).map
          fun p => { s with row := p.1, phase := .executing (some (nextTick due period s.now)) }
      else none
    | _, _ => none
  | .taskReturns =>
    match s.phase with
    | .executing (some _) => some { s with phase := .returned s.now }
    | _ => none
  | .finalize status result =>
    match s.phase with
    | .returned _ =>
      match finalizeSubmission (dbClock s.now) s.attemptID cfg.jobStreamConsumer status result s.row with
      | some (row, _) => some { s with row, phase := .finalized true }
      | none => some { s with phase := .finalized false }
    | _ => none

/-- The statement that gives the worker its attempt. -/
def attemptOp (cfg : LeaseConfig) (reclaimed : Bool) : RowOp :=
  if reclaimed then .reclaim cfg.jobStreamConsumer cfg.jobLeaseSec
  else .claim cfg.jobStreamConsumer cfg.jobLeaseSec

/-- The worker gets an attempt, and `delay` later the ticker is started. -/
def start (cfg : LeaseConfig) (reclaimed : Bool) (row : Submission) (claimedAt delay : Nat) : Option State :=
  ((attemptOp cfg reclaimed).exec (dbClock claimedAt) row).map fun p =>
    { now := claimedAt, row := p.1, attemptID := p.2
      phase := .executing ((heartbeatPeriod cfg).map (claimedAt + delay + ·)) }

/-- Until the finalize the lease has not ended, and the finalize is not rejected. -/
def KeepsLease (s : State) : Prop :=
  match s.phase with
  | .finalized applied => applied = true
  | _ => leaseAfter s.row (dbClock s.now) = true

/-- The lease is longer than the period of the ticker and what the worker takes for its steps. -/
def Outlasts (cfg : LeaseConfig) (latency : Nat) : Prop :=
  ∃ period, heartbeatPeriod cfg = some period ∧
    period + 3 * latency + 999 < 1000 * leaseInterval cfg.jobLeaseSec

/-! ## A run of a worker -/

/-- The row is the worker's, with the lease that it got at `since`. -/
structure Held (cfg : LeaseConfig) (s : State) (since : Nat) : Prop where
  attempt : s.row.attemptID = s.attemptID
  owner : s.row.leaseOwner = some cfg.jobStreamConsumer
  status : s.row.status = "running"
  state : s.row.state = "processing"
  lease : s.row.leaseUntil = some (dbClock since + leaseInterval cfg.jobLeaseSec)

/-- How far a run is from the last time the lease was extended. -/
def Inv (cfg : LeaseConfig) (latency period : Nat) (s : State) : Prop :=
  match s.phase with
  | .executing due => ∃ since d, Held cfg s since ∧ due = some d ∧ d ≤ since + period + latency ∧
      s.now ≤ d + latency
  | .returned r => ∃ since, Held cfg s since ∧ r ≤ since + period + 2 * latency ∧ s.now ≤ r + latency
  | .finalized applied => applied = true

section Run

variable {cfg : LeaseConfig} {latency period : Nat} {s s' : State} {m : Move}

theorem heartbeatPeriod_pos (h : heartbeatPeriod cfg = some period) : 0 < period := by
  unfold heartbeatPeriod at h
  dsimp only at h
  split at h
  · rename_i hpos
    cases h
    omega
  · cases h

theorem nextTick_le {due now : Nat} (h : due ≤ now) : nextTick due period now ≤ now + period := by
  unfold nextTick
  have hle : (now - due) / period * period ≤ now - due := Nat.div_mul_le_self _ _
  rw [Nat.succ_mul]
  omega

theorem lt_nextTick {due now : Nat} (h : 0 < period) : now < nextTick due period now := by
  unfold nextTick
  have hlt : now - due < ((now - due) / period + 1) * period := by
    rw [Nat.mul_comm]
    exact Nat.lt_mul_div_succ _ h
  omega

/-- A lease that was extended recently enough has not ended. -/
theorem leaseAfter_of_held {since now : Nat} (h : Held cfg s since)
    (hlen : period + 3 * latency + 999 < 1000 * leaseInterval cfg.jobLeaseSec)
    (hnow : now ≤ since + period + 3 * latency) : leaseAfter s.row (dbClock now) = true := by
  rw [leaseAfter_eq_true]
  refine ⟨_, h.lease, ?_⟩
  unfold dbClock
  omega

theorem keepsLease_of_inv (h : Inv cfg latency period s)
    (hlen : period + 3 * latency + 999 < 1000 * leaseInterval cfg.jobLeaseSec) : KeepsLease s := by
  unfold Inv at h
  unfold KeepsLease
  split at h
  · rename_i due hphase
    obtain ⟨since, d, hheld, _, hd, hnow⟩ := h
    rw [hphase]
    exact leaseAfter_of_held hheld hlen (by omega)
  · rename_i r hphase
    obtain ⟨since, hheld, hr, hnow⟩ := h
    rw [hphase]
    exact leaseAfter_of_held hheld hlen (by omega)
  · rename_i applied hphase
    rw [hphase]
    exact h

theorem inv_start {reclaimed : Bool} {row : Submission} {claimedAt delay : Nat}
    (hperiod : heartbeatPeriod cfg = some period) (hdelay : delay ≤ latency)
    (h : start cfg reclaimed row claimedAt delay = some s) : Inv cfg latency period s := by
  obtain ⟨⟨row', attemptID⟩, hexec, rfl⟩ := Option.map_eq_some_iff.mp h
  have hlease : row'.leaseUntil = some (dbClock claimedAt + leaseInterval cfg.jobLeaseSec) := by
    cases reclaimed with
    | true =>
      obtain ⟨_, _, rfl⟩ := reclaimSubmissionForRun_eq_some.mp hexec
      rfl
    | false =>
      obtain ⟨_, _, rfl⟩ := claimSubmissionForRun_eq_some.mp hexec
      rfl
  have hstarts : (attemptOp cfg reclaimed).starts = some cfg.jobStreamConsumer := by cases reclaimed <;> rfl
  obtain ⟨_, hattempt, howner, hstate, hstatus⟩ := starts_of_exec hstarts hexec
  refine ⟨claimedAt, claimedAt + delay + period, ⟨hattempt, howner, hstatus, hstate, hlease⟩, ?_, by omega, ?_⟩
  · rw [hperiod]
    rfl
  · show claimedAt ≤ _
    omega

theorem inv_step (hperiod : heartbeatPeriod cfg = some period)
    (hlen : period + 3 * latency + 999 < 1000 * leaseInterval cfg.jobLeaseSec)
    (h : Inv cfg latency period s) (hstep : step cfg latency s m = some s') : Inv cfg latency period s' := by
  obtain ⟨now, row, attemptID, phase⟩ := s
  cases m with
  | pass d =>
    simp only [step] at hstep
    split at hstep
    · rename_i hdeadline
      cases hstep
      cases phase with
      | executing due =>
        obtain ⟨since, t, ⟨ha, ho, hst, hp, hl⟩, rfl, ht, _⟩ := h
        exact ⟨since, t, ⟨ha, ho, hst, hp, hl⟩, rfl, ht, hdeadline _ rfl⟩
      | returned r =>
        obtain ⟨since, ⟨ha, ho, hst, hp, hl⟩, hr, _⟩ := h
        exact ⟨since, ⟨ha, ho, hst, hp, hl⟩, hr, hdeadline _ rfl⟩
      | finalized applied => exact h
    · cases hstep
  | refresh =>
    simp only [step, hperiod] at hstep
    cases phase with
    | executing due =>
      obtain ⟨since, t, hheld, rfl, _, hnow⟩ := h
      dsimp only at hstep hnow
      split at hstep
      · rename_i hdue
        obtain ⟨⟨row', v⟩, hexec, rfl⟩ := Option.map_eq_some_iff.mp hstep
        obtain ⟨_, _, rfl⟩ := refreshSubmissionLease_eq_some.mp hexec
        have hlate : nextTick t period now ≤ now + period := nextTick_le hdue
        have hafter : now < nextTick t period now := lt_nextTick (heartbeatPeriod_pos hperiod)
        refine ⟨now, nextTick t period now,
          ⟨hheld.attempt, hheld.owner, hheld.status, hheld.state, rfl⟩, rfl, ?_, ?_⟩
        · show nextTick t period now ≤ now + period + latency
          omega
        · show now ≤ nextTick t period now + latency
          omega
      · cases hstep
    | returned r => cases hstep
    | finalized applied => cases hstep
  | taskReturns =>
    simp only [step] at hstep
    cases phase with
    | executing due =>
      obtain ⟨since, t, ⟨ha, ho, hst, hp, hl⟩, rfl, ht, hnow⟩ := h
      dsimp only at hnow
      cases hstep
      refine ⟨since, ⟨ha, ho, hst, hp, hl⟩, by omega, ?_⟩
      show now ≤ now + latency
      omega
    | returned r => cases hstep
    | finalized applied => cases hstep
  | finalize status result =>
    simp only [step] at hstep
    cases phase with
    | executing due => cases hstep
    | returned r =>
      obtain ⟨since, hheld, hr, hnow⟩ := h
      dsimp only at hstep hnow
      have halive : leaseAfter row (dbClock now) = true := leaseAfter_of_held hheld hlen (by omega)
      split at hstep
      · cases hstep
        rfl
      · rename_i hreject
        -- The fence finds the attempt, its owner and its lease as they have to be.
        unfold finalizeSubmission at hreject
        rw [if_pos ⟨hheld.attempt, hheld.owner, halive, hheld.status, hheld.state⟩] at hreject
        cases hreject
    | finalized applied => cases hstep

/-- A worker whose lease outlasts a period and three of its steps keeps it. -/
theorem keepsLease_of_run {reclaimed : Bool} {row : Submission} {claimedAt delay : Nat} {s₀ : State}
    (hout : Outlasts cfg latency) (hstart : start cfg reclaimed row claimedAt delay = some s₀)
    (hdelay : delay ≤ latency) (hrun : Run (step cfg latency) always s₀ s) : KeepsLease s := by
  obtain ⟨period, hperiod, hlen⟩ := hout
  have hinv : Inv cfg latency period s := by
    refine Run.invariant (J := Inv cfg latency period) (inv_start hperiod hdelay hstart) ?_ hrun
    exact fun _ _ _ h _ hstep => inv_step hperiod hlen h hstep
  exact keepsLease_of_inv hinv hlen

end Run

/-! ## A run that loses the lease -/

/-- A submission that waits for a worker. -/
def waitingRow : Submission where
  jobID := "j"
  problemID := some 1
  userID := some 1
  code := "int main() {}"
  language := 1
  timeLimit := 1000
  memoryLimit := 65536
  attemptID := 0
  leaseOwner := none
  leaseUntil := none
  status := "Pending"
  state := "pending"
  errorCode := none
  errorMessage := none
  result := none
  createdAt := 0
  updatedAt := 0

section Slow

variable {cfg : LeaseConfig} {latency : Nat}

/-- The row as the claim leaves it. -/
def claimedRow (cfg : LeaseConfig) : Submission :=
  { waitingRow with
    attemptID := 1, status := "running", state := "processing", leaseOwner := some cfg.jobStreamConsumer
    leaseUntil := some (leaseInterval cfg.jobLeaseSec) }

/-- The claim comes just before the clock of the database advances, and the ticker is started as late
as it may be. -/
def slowStart (cfg : LeaseConfig) (latency : Nat) : State where
  now := 999
  row := claimedRow cfg
  attemptID := 1
  phase := .executing ((heartbeatPeriod cfg).map (999 + latency + ·))

theorem start_waitingRow : start cfg false waitingRow 999 latency = some (slowStart cfg latency) := by
  have hclaim : (attemptOp cfg false).exec (dbClock 999) waitingRow = some (claimedRow cfg, 1) := by
    refine claimSubmissionForRun_eq_some.mpr ⟨rfl, rfl, ?_⟩
    unfold claimedRow
    rw [show dbClock 999 = 0 by rfl, Nat.zero_add]
    rfl
  unfold start
  rw [hclaim]
  rfl

/-- The row keeps the lease of the claim as long as there is no refresh. -/
theorem leaseAfter_claimedRow {now : Nat} :
    leaseAfter (claimedRow cfg) (dbClock now) = true ↔ now < 1000 * leaseInterval cfg.jobLeaseSec := by
  rw [leaseAfter_eq_true]
  unfold dbClock
  constructor
  · rintro ⟨t, ht, hlt⟩
    obtain rfl : leaseInterval cfg.jobLeaseSec = t := Option.some.inj ht
    omega
  · intro hlt
    exact ⟨_, rfl, by omega⟩

/-- Without a ticker nothing extends the lease. -/
theorem run_unticked (hnone : heartbeatPeriod cfg = none) (d : Nat) :
    Run (step cfg latency) always (slowStart cfg latency) { slowStart cfg latency with now := 999 + d } := by
  refine .step (.pass d) .init trivial ?_
  have hdeadline : (slowStart cfg latency).phase.deadline latency = none := by
    unfold slowStart
    rw [hnone]
    rfl
  simp only [step]
  rw [hdeadline]
  exact if_pos fun t ht => by cases ht

/-- The task returns just before the refresh of the first tick, and the finalize is about to come. -/
theorem run_late {period : Nat} (hperiod : heartbeatPeriod cfg = some period) :
    Run (step cfg latency) always (slowStart cfg latency)
      { now := 999 + (period + 2 * latency) + latency, row := claimedRow cfg, attemptID := 1
        phase := .returned (999 + (period + 2 * latency)) } := by
  have hphase : (slowStart cfg latency).phase = .executing (some (999 + latency + period)) := by
    unfold slowStart
    rw [hperiod]
    rfl
  have hwait : step cfg latency (slowStart cfg latency) (.pass (period + 2 * latency)) =
      some { slowStart cfg latency with now := 999 + (period + 2 * latency) } := by
    refine if_pos fun t ht => ?_
    rw [hphase] at ht
    obtain rfl : 999 + latency + period + latency = t := Option.some.inj ht
    show 999 + (period + 2 * latency) ≤ _
    omega
  have hreturn : step cfg latency { slowStart cfg latency with now := 999 + (period + 2 * latency) } .taskReturns =
      some { now := 999 + (period + 2 * latency), row := claimedRow cfg, attemptID := 1
             phase := .returned (999 + (period + 2 * latency)) } := by
    simp only [step, hphase]
    rfl
  refine .step (.pass latency) (.step .taskReturns (.step (.pass _) .init trivial hwait) trivial hreturn) trivial ?_
  refine if_pos fun t ht => ?_
  cases ht
  exact Nat.le_refl _

/-- The lease is kept on no shorter terms. -/
theorem outlasts_of_keepsLease
    (h : ∀ s, Run (step cfg latency) always (slowStart cfg latency) s → KeepsLease s) : Outlasts cfg latency := by
  cases hperiod : heartbeatPeriod cfg with
  | none =>
    have hkept := h _ (run_unticked hperiod (1000 * leaseInterval cfg.jobLeaseSec))
    have halive : leaseAfter (claimedRow cfg) (dbClock (999 + 1000 * leaseInterval cfg.jobLeaseSec)) = true := hkept
    have hlt := leaseAfter_claimedRow.mp halive
    omega
  | some period =>
    refine ⟨period, hperiod, ?_⟩
    have hkept := h _ (run_late hperiod)
    have halive : leaseAfter (claimedRow cfg) (dbClock (999 + (period + 2 * latency) + latency)) = true := hkept
    have hlt := leaseAfter_claimedRow.mp halive
    omega

/-- For a worker that takes no time the two settings decide. -/
theorem outlasts_zero (hsmall : cfg.jobHeartbeatSec ≤ 9223372036) :
    Outlasts cfg 0 ↔ heartbeatSec cfg < leaseSec cfg := by
  have hpos : 0 < heartbeatSec cfg ∧ heartbeatSec cfg ≤ 9223372036 := by
    unfold heartbeatSec
    split <;> omega
  have hmod : (heartbeatSec cfg * 1000000000).bmod (2 ^ 64) = heartbeatSec cfg * 1000000000 := by
    rw [Int.bmod_eq_of_le] <;> omega
  have hperiod : heartbeatPeriod cfg = some (heartbeatSec cfg * 1000000000).toNat := by
    unfold heartbeatPeriod
    dsimp only
    rw [hmod, if_pos (by omega)]
  have hlease : leaseInterval cfg.jobLeaseSec = (leaseSec cfg).toNat * 1000000 := rfl
  unfold Outlasts
  rw [hperiod, hlease]
  constructor
  · rintro ⟨period, heq, hlt⟩
    obtain rfl := Option.some.inj heq
    omega
  · intro hlt
    exact ⟨_, rfl, by omega⟩

end Slow

/-- The lease is kept just when it outlasts a period of the ticker and three steps of the worker; for a
worker that takes no time, just when the heartbeat interval is shorter than the lease. -/
theorem lease_kept_iff (cfg : LeaseConfig) (latency : Nat) :
    ((∀ reclaimed row claimedAt delay s₀ s, start cfg reclaimed row claimedAt delay = some s₀ →
        delay ≤ latency → Run (step cfg latency) always s₀ s → KeepsLease s) ↔ Outlasts cfg latency) ∧
      (cfg.jobHeartbeatSec ≤ 9223372036 → (Outlasts cfg 0 ↔ heartbeatSec cfg < leaseSec cfg)) := by
  refine ⟨⟨fun h => ?_, fun hout => ?_⟩, outlasts_zero⟩
  · exact outlasts_of_keepsLease fun s hrun => h false waitingRow 999 latency _ s start_waitingRow (Nat.le_refl _) hrun
  · intro reclaimed row claimedAt delay s₀ s hstart hdelay hrun
    exact keepsLease_of_run hout hstart hdelay hrun

/-- The settings of `config.yaml`. -/
def defaultLease : LeaseConfig := ⟨"w", 60, 10⟩

/-- With them a worker that takes no time outlives every tick. -/
theorem lease_kept_default : Outlasts defaultLease 0 :=
  ((lease_kept_iff defaultLease 0).2 (by decide)).mpr (by decide)

/-- A heartbeat as long as the lease: the lease ends before the first refresh. -/
def evenLease : LeaseConfig := ⟨"w", 60, 60⟩

theorem lease_lost : ¬∀ (cfg : LeaseConfig) (reclaimed : Bool) (row : Submission) (claimedAt : Nat) (s₀ s : State),
    start cfg reclaimed row claimedAt 0 = some s₀ → Run (step cfg 0) always s₀ s → KeepsLease s := by
  intro hall
  have hout : Outlasts evenLease 0 :=
    outlasts_of_keepsLease fun s hrun => hall _ _ _ _ _ s start_waitingRow hrun
  have hiff : Outlasts evenLease 0 ↔ _ := outlasts_zero (by decide)
  have hlt := hiff.mp hout
  revert hlt
  decide

end DeepOj.Worker.Lease
