import DeepOj.Cluster.JobStream

/-!
# What the trims remove

The API, the repair loop and the scheduler bound the stream by its length alone, whatever
stands in it. As long as the jobs that are not over are among the newest entries, they lose
none of them.
-/

namespace DeepOj.Scheduler.StreamTrim

open Cluster Cluster.JobStream Redis Repository Conc

/-- The stream and the rows. -/
structure State where
  stream : Jobs := Stream.empty
  rows : String → Option Submission := fun _ => none
  /-- The entries that have been trimmed. -/
  removed : List (Entry StreamValues) := []

inductive Move where
  | stream (m : JobStream.Move)
  | insert (row : Submission)
  | statement (jobID : String) (c : Call)
  deriving DecidableEq

/-- Write one row. -/
def State.setRow (s : State) (jobID : String) (row : Submission) : State :=
  { s with rows := Function.update s.rows jobID (some row) }

/-- One step of one of the processes. -/
def step (s : State) : Move → Option State
  | .stream m =>
    (JobStream.step s.stream m).map fun stream =>
      { s with
        stream
        removed := s.removed ++ s.stream.entries.filter (·.id ∉ stream.ids) }
  | .insert row =>
    match s.rows row.jobID with
    | none => some (s.setRow row.jobID row)
    | some _ => none
  | .statement jobID c => (s.rows jobID).map fun row => s.setRow jobID (c.apply row)

/-- Nothing is to be done any more for the entry: it has been acknowledged, or its job is done. -/
def Settled (group : String) (s : State) (e : Entry StreamValues) : Prop :=
  s.stream.Acked group e.id ∨ ∃ row ∈ e.values.jobID.bind s.rows, row.IsDone

instance (group : String) (s : State) (e : Entry StreamValues) : Decidable (Settled group s e) :=
  inferInstanceAs (Decidable (_ ∨ _))

/-- How many entries there are beyond the length to which a command trims the stream. -/
def excess (s : Jobs) : JobStream.Move → Nat
  | .enqueue streamMaxLen _ _ _ => if streamMaxLen > 0 then s.entries.length + 1 - streamMaxLen.toNat else 0
  | .repair cfg _ _ _ => if cfg.jobStreamMaxLen > 0 then s.entries.length + 1 - cfg.jobStreamMaxLen.toNat else 0
  | .streamTrim cfg _ => if cfg.streamTrimMaxLen ≤ 0 then 0 else s.entries.length - cfg.streamTrimMaxLen.toNat
  | _ => 0

/-- The entries beyond the length are all settled. -/
def Fits (group : String) (s : State) : Move → Prop
  | .stream m => ∀ e ∈ s.stream.entries.take (excess s.stream m), Settled group s e
  | _ => True

instance (group : String) (s : State) (m : Move) : Decidable (Fits group s m) :=
  match m with
  | .stream m => inferInstanceAs (Decidable (∀ e ∈ s.stream.entries.take (excess s.stream m), _))
  | .insert _ => isTrue trivial
  | .statement _ _ => isTrue trivial

section Step

variable {group : String} {s s' : State} {m : Move} {stream stream' : Jobs} {jm : JobStream.Move}
  {e : Entry StreamValues}

/-- A command on a group removes nothing. -/
theorem mem_ids_keeps {name : String} (h : stream.Keeps stream' name) (he : e ∈ stream.entries) :
    e.id ∈ stream'.ids := by
  obtain ⟨g, g', hg', _, rfl, _⟩ := h
  exact List.mem_map_of_mem he

/-- Only what is in excess is removed. -/
theorem mem_excess (h : JobStream.step stream jm = some stream') (he : e ∈ stream.entries)
    (hgone : e.id ∉ stream'.ids) : e ∈ stream.entries.take (excess stream jm) := by
  have hadd : ∀ {maxLen : Int} {values id trimmed},
      stream.xaddMaxLen id values (if maxLen > 0 then some maxLen.toNat else none) trimmed = some stream' →
      e ∈ stream.entries.take (if maxLen > 0 then stream.entries.length + 1 - maxLen.toNat else 0) := by
    intro maxLen values id trimmed h
    by_cases hpos : maxLen > 0
    · rw [if_pos hpos] at h ⊢
      exact Stream.mem_take_of_xaddMaxLen h (by omega) he hgone
    · rw [if_neg hpos] at h
      have hentries := (Stream.xadd_eq_some h).2.1
      exact absurd (List.mem_map_of_mem (hentries ▸ List.mem_append_left _ he)) hgone
  cases jm with
  | enqueue streamMaxLen values id trimmed => exact hadd h
  | repair cfg values id trimmed => exact hadd h
  | streamTrim cfg trimmed =>
    replace h : runStreamTrim cfg stream trimmed = some stream' := h
    unfold runStreamTrim at h
    by_cases hpos : cfg.streamTrimMaxLen ≤ 0
    · rw [if_pos hpos] at h
      exact absurd (Option.some.inj h ▸ List.mem_map_of_mem he) hgone
    · rw [if_neg hpos] at h
      show e ∈ stream.entries.take (if cfg.streamTrimMaxLen ≤ 0 then 0 else _)
      rw [if_neg hpos]
      exact Stream.mem_take_of_xtrim h he hgone
  | ensureGroup group =>
    refine absurd ?_ hgone
    rw [← Option.some.inj h]
    unfold ensureGroup
    cases hcreate : stream.xgroupCreate group .dollar with
    | none => exact List.mem_map_of_mem he
    | some stream₁ =>
      obtain ⟨_, hnew⟩ := Stream.xgroupCreate_eq_some hcreate
      exact hnew ▸ List.mem_map_of_mem he
  | readNew group consumer count now =>
    obtain ⟨⟨stream₁, es⟩, hread, rfl⟩ := Option.map_eq_some_iff.mp h
    exact absurd (mem_ids_keeps (Stream.keeps_xreadgroup hread) he) hgone
  | autoClaim group consumer minIdle now scanned =>
    exact absurd (mem_ids_keeps (Stream.keeps_xautoclaim h) he) hgone
  | ack group ids => exact absurd (mem_ids_keeps (Stream.keeps_xack h) he) hgone

/-- An acknowledgement is never taken back. -/
theorem acked_step {id : Nat} (ha : stream.Acked group id) (h : JobStream.step stream jm = some stream') :
    stream'.Acked group id :=
  hasGroup_step ha (fun hr => ha.xreadgroup hr) (fun hc => ha.xautoclaim hc) (fun hk => ha.xack hk) h

/-- A job that is done stays done. -/
theorem settled_setRow {jobID : String} {row : Submission} (hs : Settled group s e)
    (hrow : ∀ old, s.rows jobID = some old → old.IsDone → row.IsDone) : Settled group (s.setRow jobID row) e := by
  rcases hs with ha | ⟨old, hold, hdone⟩
  · exact .inl ha
  · obtain ⟨j, hj, hold⟩ := Option.bind_eq_some_iff.mp hold
    refine .inr ?_
    rw [hj, Option.bind_some]
    by_cases hname : j = jobID
    · subst hname
      exact ⟨row, Function.update_self .., hrow old hold hdone⟩
    · exact ⟨old, (Function.update_of_ne hname ..).trans hold, hdone⟩

/-- What is settled stays so. -/
theorem settled_step (hs : Settled group s e) (h : step s m = some s') : Settled group s' e := by
  cases m with
  | stream jm =>
    obtain ⟨stream', hstep, rfl⟩ := Option.map_eq_some_iff.mp h
    exact hs.imp_left fun ha => acked_step ha hstep
  | insert row =>
    simp only [step] at h
    split at h
    · rename_i hnone
      cases h
      exact settled_setRow hs fun old hold => by rw [hnone] at hold; cases hold
    · cases h
  | statement jobID c =>
    obtain ⟨row, hrow, rfl⟩ := Option.map_eq_some_iff.mp h
    refine settled_setRow hs fun old hold hdone => ?_
    rw [hrow] at hold
    cases hold
    rw [(Call.later row c).final hdone]
    exact hdone

theorem removed_step (hm : Fits group s m) (hs : ∀ e ∈ s.removed, Settled group s e)
    (h : step s m = some s') : ∀ e ∈ s'.removed, Settled group s' e := by
  have hold : ∀ e ∈ s.removed, Settled group s' e := fun e he => settled_step (hs e he) h
  cases m with
  | stream jm =>
    obtain ⟨stream', hstep, rfl⟩ := Option.map_eq_some_iff.mp h
    intro e he
    rcases List.mem_append.mp he with he | he
    · exact hold e he
    · obtain ⟨hin, hgone⟩ := List.mem_filter.mp he
      have hexcess := mem_excess hstep hin (of_decide_eq_true hgone)
      exact settled_step (hm e hexcess) h
  | insert row =>
    simp only [step] at h
    split at h
    · cases h
      exact hold
    · cases h
  | statement jobID c =>
    obtain ⟨row, hrow, rfl⟩ := Option.map_eq_some_iff.mp h
    exact hold

end Step

/-- While the backlog fits into the configured lengths, a trim removes nothing but entries that have
been acknowledged and entries of jobs that are done. -/
theorem removed_settled {group : String} {s : State} (h : Run step (Fits group) {} s) :
    ∀ e ∈ s.removed, Settled group s e :=
  h.invariant (J := fun s => ∀ e ∈ s.removed, Settled group s e) (fun _ he => absurd he List.not_mem_nil)
    fun _ _ _ hs hm hstep => removed_step hm hs hstep

/-- The row of a new job. -/
def pendingRow (jobID : String) : Submission where
  jobID := jobID
  problemID := some 1
  userID := some 1
  code := "int main() {}"
  language := 1
  timeLimit := 1000
  memoryLimit := 65536
  attemptID := 0
  leaseOwner := none
  leaseUntil := none
  status := "pending"
  state := "pending"
  errorCode := none
  errorMessage := none
  result := none
  createdAt := 0
  updatedAt := 0

/-- A job is handled before the next one pushes its entry out. -/
def fittingMoves : List Move :=
  [.stream (.ensureGroup "workers"), .insert (pendingRow "a"), .stream (.enqueue 1 (sampleValues "a") 1 0),
    .stream (.readNew "workers" "w" 16 5), .stream (.ack "workers" [1]),
    .stream (.enqueue 1 (sampleValues "b") 2 1)]

theorem removed_settled_sample :
    (playAll step (Fits "workers") {} fittingMoves).removed = [⟨1, sampleValues "a"⟩] ∧
      ∀ e ∈ (playAll step (Fits "workers") {} fittingMoves).removed,
        Settled "workers" (playAll step (Fits "workers") {} fittingMoves) e :=
  ⟨by decide +kernel, removed_settled (Run.init.playAll fittingMoves)⟩

/-- Two jobs wait where the stream is bounded to one. -/
theorem backlog_trimmed :
    ¬∀ group s, Run step always {} s → ∀ e ∈ s.removed, Settled group s e := by
  intro hall
  have hrun : Run step always {} (playAll step always {}
      [.stream (.ensureGroup "workers"), .insert (pendingRow "a"), .stream (.enqueue 1 (sampleValues "a") 1 0),
        .insert (pendingRow "b"), .stream (.enqueue 1 (sampleValues "b") 2 1)]) := Run.init.playAll _
  have hsettled := hall "workers" _ hrun
  revert hsettled
  decide +kernel

end DeepOj.Scheduler.StreamTrim
