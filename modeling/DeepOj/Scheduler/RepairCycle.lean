import DeepOj.Cluster.JobStream
import DeepOj.Scheduler.Repair
import Mathlib.Data.List.Nodup

/-!
# Repair cycles

Any number of schedulers go through the old pending rows and enqueue them again. A cycle
knows what it has enqueued itself, and nothing of the other cycles or of the stream.
-/

namespace DeepOj.Scheduler.RepairCycle

open Cluster Cluster.JobStream Redis Conc
open Repository (Submission Call)

/-- The part of `ControlPlaneConfig` that the repair loop reads. -/
structure RepairConfig extends ControlPlaneConfig where
  repairBatchSize : Int
  repairMinAgeSec : Int
  deriving DecidableEq, Repr

def defaultRepairBatchSize : Int := 200

/-- The row waits, and was created before `minAgeSec` seconds ago. -/
def Due (now : Nat) (minAgeSec : Int) (row : Submission) : Prop :=
  row.state = "pending" ∧ (row.createdAt : Int) < now - minAgeSec * 1000000

instance (now : Nat) (minAgeSec : Int) (row : Submission) : Decidable (Due now minAgeSec row) :=
  inferInstanceAs (Decidable (_ ∧ _))

/-- `fetchRepairCandidates`, on the clock of the scheduler. -/
def fetchRepairCandidates (now : Nat) (minAgeSec limit : Int) (rows : List Submission) :
    List RepairCandidate :=
  let limit := if limit ≤ 0 then defaultRepairBatchSize else limit
  let due := rows.filter (Due now minAgeSec)
  ((due.insertionSort (·.createdAt ≤ ·.createdAt)).take limit.toNat).map repairCandidate

/-- `runRepairCycle`, from its query on. -/
structure Cycle where
  cfg : RepairConfig
  startedAt : Nat
  candidates : List RepairCandidate
  /-- The candidates that the loop has still to go through. -/
  rest : List RepairCandidate
  seen : List String
  deriving DecidableEq, Repr

/-- An entry that a cycle has appended. -/
structure Repaired where
  cycle : Nat
  jobID : String
  entryID : Nat
  deriving DecidableEq, Repr

structure State where
  rows : List Submission := []
  payloads : RedisKey → Option Go.Bytes := fun _ => none
  stream : Jobs := Stream.empty
  cycles : List Cycle := []
  repaired : List Repaired := []

/-- How a call to Redis ends: it may have been carried out although an error is reported. -/
inductive Outcome where
  | ok
  | failed
  | lost
  deriving DecidableEq, Repr

inductive Move where
  /-- A scheduler begins a cycle. -/
  | begin (cfg : RepairConfig) (now : Nat)
  /-- The loop of a cycle takes the next candidate. -/
  | advance (cycle : Nat) (set xadd : Outcome) (now id trimmed : Nat)
  /-- Another process gives a command on the stream. -/
  | stream (m : JobStream.Move)
  | insert (row : Submission)
  | statement (jobID : String) (c : Call)
  deriving DecidableEq

/-- The fields of the stream entry of a repaired job. -/
def repairValues (c : RepairCandidate) (now : Nat) : StreamValues :=
  { jobID := some c.jobID, enqueueTS := some (now / 1000 : Nat), payloadRef := some (Api.payloadKey c.jobID)
    priority := some 0, eventID := none }

/-- `enqueueRepairedJob`, called by the cycle `i`. -/
def State.enqueueRepairedJob (s : State) (i : Nat) (cfg : RepairConfig) (c : RepairCandidate) (set xadd : Outcome)
    (now id trimmed : Nat) : Option State :=
  match Scheduler.enqueueRepairedJob c with
  | none => some s
  | some payload =>
    let stored := if set = .failed then s
      else { s with payloads := Function.update s.payloads (Api.payloadKey c.jobID) (some payload) }
    if set = .ok ∧ xadd ≠ .failed then
      (JobStream.step s.stream (.repair cfg.toControlPlaneConfig (repairValues c now) id trimmed)).map fun stream =>
        { stored with stream, repaired := ⟨i, c.jobID, id⟩ :: s.repaired }
    else some stored

/-- One step of a cycle, or of another process. -/
def step (s : State) : Move → Option State
  | .begin cfg now =>
    let candidates := fetchRepairCandidates now cfg.repairMinAgeSec cfg.repairBatchSize s.rows
    some { s with cycles := s.cycles ++ [⟨cfg, now, candidates, candidates, []⟩] }
  | .advance i set xadd now id trimmed =>
    match s.cycles[i]? with
    | some ⟨cfg, startedAt, candidates, c :: rest, seen⟩ =>
      if c.jobID ∈ seen then some { s with cycles := s.cycles.set i ⟨cfg, startedAt, candidates, rest, seen⟩ }
      else
        { s with cycles := s.cycles.set i ⟨cfg, startedAt, candidates, rest, c.jobID :: seen⟩ }.enqueueRepairedJob
          i cfg c set xadd now id trimmed
    | _ => none
  | .stream m => (JobStream.step s.stream m).map fun stream => { s with stream }
  | .insert row =>
    if row.jobID ∈ s.rows.map (·.jobID) then none else some { s with rows := s.rows ++ [row] }
  | .statement jobID c =>
    some { s with rows := s.rows.map fun row => if row.jobID = jobID then c.apply row else row }

/-! ## What a query returns -/

section Fetch

variable {now : Nat} {minAgeSec limit : Int} {rows : List Submission} {c : RepairCandidate}

/-- A candidate is a row that waits and is old enough. -/
theorem mem_fetchRepairCandidates (h : c ∈ fetchRepairCandidates now minAgeSec limit rows) :
    ∃ row ∈ rows, Due now minAgeSec row ∧ c = repairCandidate row := by
  unfold fetchRepairCandidates at h
  obtain ⟨row, hrow, rfl⟩ := List.mem_map.mp h
  have hdue := (List.perm_insertionSort _ _).mem_iff.mp (List.mem_of_mem_take hrow)
  obtain ⟨hin, hdue⟩ := List.mem_filter.mp hdue
  exact ⟨row, hin, of_decide_eq_true hdue, rfl⟩

end Fetch

/-! ## A cycle enqueues a job once -/

/-- A cycle goes through rows that waited when it asked. -/
structure Cycle.Sound (c : Cycle) : Prop where
  rest : ∀ cand ∈ c.rest, cand ∈ c.candidates
  seen : ∀ j ∈ c.seen, j ∈ c.candidates.map (·.jobID)
  fetched : ∃ rows, c.candidates = fetchRepairCandidates c.startedAt c.cfg.repairMinAgeSec c.cfg.repairBatchSize rows

structure Inv (s : State) : Prop where
  sound : ∀ c ∈ s.cycles, c.Sound
  /-- A cycle has marked every job that it has enqueued. -/
  marked : ∀ r ∈ s.repaired, ∃ c, s.cycles[r.cycle]? = some c ∧ r.jobID ∈ c.seen
  once : (s.repaired.map fun r => (r.cycle, r.jobID)).Nodup

section Step

variable {s s' : State} {m : Move} {i : Nat} {c c' : Cycle}

/-- The state of one cycle is replaced, which forgets no mark. -/
theorem Inv.set (h : Inv s) (hc : s.cycles[i]? = some c) (hsound : c'.Sound) (hseen : ∀ j ∈ c.seen, j ∈ c'.seen) :
    Inv { s with cycles := s.cycles.set i c' } where
  sound := by
    intro d hd
    rcases List.mem_or_eq_of_mem_set hd with hd | rfl
    · exact h.sound d hd
    · exact hsound
  marked := by
    intro r hr
    obtain ⟨d, hd, hj⟩ := h.marked r hr
    have hlt : i < s.cycles.length := (List.getElem?_eq_some_iff.mp hc).1
    by_cases hi : r.cycle = i
    · rw [hi, hc] at hd
      cases hd
      exact ⟨c', by rw [hi]; exact List.getElem?_set_self hlt, hseen _ hj⟩
    · exact ⟨d, by rw [List.getElem?_set_ne (Ne.symm hi)]; exact hd, hj⟩
  once := h.once

/-- A job that its cycle has marked, and that has no entry of this cycle yet, gets at most one. -/
theorem Inv.enqueueRepairedJob {cfg : RepairConfig} {cand : RepairCandidate} {set xadd : Outcome}
    {now id trimmed : Nat} (h : Inv s) (hc : s.cycles[i]? = some c) (hseen : cand.jobID ∈ c.seen)
    (hnew : (i, cand.jobID) ∉ s.repaired.map fun r => (r.cycle, r.jobID))
    (hstep : s.enqueueRepairedJob i cfg cand set xadd now id trimmed = some s') : Inv s' := by
  unfold State.enqueueRepairedJob at hstep
  have hstored : ∀ payloads, Inv { s with payloads } := fun _ => ⟨h.sound, h.marked, h.once⟩
  cases hp : Scheduler.enqueueRepairedJob cand with
  | none =>
    rw [hp] at hstep
    exact Option.some.inj hstep ▸ h
  | some payload =>
    rw [hp] at hstep
    dsimp only at hstep
    split at hstep
    · obtain ⟨stream, _, rfl⟩ := Option.map_eq_some_iff.mp hstep
      have hmarked : ∀ r ∈ (⟨i, cand.jobID, id⟩ : Repaired) :: s.repaired,
          ∃ d, s.cycles[r.cycle]? = some d ∧ r.jobID ∈ d.seen := by
        intro r hr
        rcases List.mem_cons.mp hr with rfl | hr
        · exact ⟨c, hc, hseen⟩
        · exact h.marked r hr
      have honce : (((⟨i, cand.jobID, id⟩ : Repaired) :: s.repaired).map fun r => (r.cycle, r.jobID)).Nodup :=
        List.nodup_cons.mpr ⟨hnew, h.once⟩
      split <;> exact ⟨h.sound, hmarked, honce⟩
    · cases hstep
      split
      · exact h
      · exact hstored _

theorem inv_step (h : Inv s) (hstep : step s m = some s') : Inv s' := by
  cases m with
  | begin cfg now =>
    cases hstep
    refine ⟨?_, ?_, h.once⟩
    · intro d hd
      rcases List.mem_append.mp hd with hd | hd
      · exact h.sound d hd
      · rw [List.mem_singleton.mp hd]
        exact ⟨fun _ hcand => hcand, fun _ hj => absurd hj List.not_mem_nil, _, rfl⟩
    · intro r hr
      obtain ⟨d, hd, hj⟩ := h.marked r hr
      exact ⟨d, List.getElem?_append_left (List.getElem?_eq_some_iff.mp hd).1 ▸ hd, hj⟩
  | advance i set xadd now id trimmed =>
    simp only [step] at hstep
    split at hstep
    · rename_i cfg startedAt candidates cand rest seen hc
      have hsound := h.sound _ (List.mem_of_getElem? hc)
      have hrest : ∀ d ∈ rest, d ∈ candidates := fun d hd => hsound.rest d (List.mem_cons_of_mem _ hd)
      split at hstep
      · cases hstep
        exact h.set hc ⟨hrest, hsound.seen, hsound.fetched⟩ fun _ hj => hj
      · rename_i hnew
        have hmark : ∀ j ∈ cand.jobID :: seen, j ∈ candidates.map (·.jobID) := by
          intro j hj
          rcases List.mem_cons.mp hj with rfl | hj
          · exact List.mem_map_of_mem (hsound.rest cand List.mem_cons_self)
          · exact hsound.seen j hj
        have hset : Inv { s with cycles := s.cycles.set i ⟨cfg, startedAt, candidates, rest, cand.jobID :: seen⟩ } :=
          h.set hc ⟨hrest, hmark, hsound.fetched⟩ fun _ hj => List.mem_cons_of_mem _ hj
        refine hset.enqueueRepairedJob
          (List.getElem?_set_self (List.getElem?_eq_some_iff.mp hc).1) List.mem_cons_self ?_ hstep
        -- What this cycle has enqueued is marked, and the candidate was not.
        intro hmem
        obtain ⟨r, hr, hpair⟩ := List.mem_map.mp hmem
        obtain ⟨d, hd, hj⟩ := h.marked r hr
        obtain ⟨rfl, hjob⟩ := Prod.mk.inj hpair
        rw [hc] at hd
        cases hd
        exact hnew (hjob ▸ hj)
    · cases hstep
  | stream jm =>
    obtain ⟨stream, _, rfl⟩ := Option.map_eq_some_iff.mp hstep
    exact ⟨h.sound, h.marked, h.once⟩
  | insert row =>
    simp only [step] at hstep
    split at hstep
    · cases hstep
    · cases hstep
      exact ⟨h.sound, h.marked, h.once⟩
  | statement jobID call =>
    cases hstep
    exact ⟨h.sound, h.marked, h.once⟩

theorem inv_run (h : Run step always {} s) : Inv s := by
  refine Run.invariant (J := Inv) ?_ (fun _ _ _ hinv _ hstep => inv_step hinv hstep) h
  exact ⟨fun _ hc => absurd hc List.not_mem_nil, fun _ hr => absurd hr List.not_mem_nil, List.nodup_nil⟩

end Step

/-- The entries that cycles have appended for a job. -/
def State.repairedEntries (s : State) (jobID : String) : List Repaired := s.repaired.filter (·.jobID = jobID)

def sampleConfig : RepairConfig :=
  { streamTrimMaxLen := 200000, jobStreamMaxLen := 200000, repairBatchSize := 200, repairMinAgeSec := 60 }

/-- Two cycles, with a row that waits all the time. -/
def twoCycles : List Move :=
  [.stream (.ensureGroup "workers"), .insert sampleRow, .begin sampleConfig 100000000,
    .advance 0 .ok .ok 100000000 1 0, .begin sampleConfig 130000000, .advance 1 .ok .ok 130000000 2 0]

/-- An entry that has been neither trimmed nor delivered. -/
def Outstanding (group : String) (s : State) (r : Repaired) : Prop :=
  r.entryID ∈ s.stream.ids ∧ s.stream.HasGroup group (·.lastDelivered < r.entryID)

instance (group : String) (s : State) (r : Repaired) : Decidable (Outstanding group s r) :=
  inferInstanceAs (Decidable (_ ∧ _))

/-- No worker consumes. -/
def Unconsumed (_ : State) : Move → Prop
  | .stream (.readNew ..) | .stream (.autoClaim ..) | .stream (.ack ..) | .statement .. => False
  | _ => True

instance (s : State) (m : Move) : Decidable (Unconsumed s m) := by
  unfold Unconsumed
  split <;> infer_instance

end DeepOj.Scheduler.RepairCycle
