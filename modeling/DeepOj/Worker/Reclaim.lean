import DeepOj.Worker.StreamConsumer

/-!
# Reclaim decisions

`ReclaimSubmissionForRun` asks twice: an `UPDATE` compares the lease with the clock of the
database, and if it finds nothing a `SELECT` shows the row, whose lease is then compared with the
clock of the worker. Between the two the row may change and time passes.
-/

namespace DeepOj.Worker.Reclaim

open Repository Cluster Conc Go

/-- The circumstances of one call of `ReclaimSubmissionForRun`. -/
structure Scene where
  row : Submission
  updateAt : Nat
  inspectAt : Nat
  /-- What the others do to the row between the two queries. -/
  between : List Call
  /-- How much the clock of the worker is ahead of the clock of the database. -/
  offset : Int
  ordered : updateAt ≤ inspectAt
  meanwhile : ∀ c ∈ between, updateAt ≤ c.now ∧ c.now ≤ inspectAt

namespace Scene

/-- The row that the `SELECT` shows. -/
def inspected (c : Scene) : Submission := finalRow c.row c.between

/-- What the clock of the worker shows after the `SELECT`. -/
def appNow (c : Scene) : Nat := ((c.inspectAt : Int) + c.offset).toNat

/-- How the effects of the call are answered. -/
def Answers (c : Scene) : (e : Effect) → e.Reply → Prop
  | .request (.update _ op _), r => r = .ok ((op.exec c.updateAt c.row).map (·.2))
  | .request (.select _ _), r => r = .ok (some c.inspected)
  | .act .now, r => r = c.appNow
  | _, _ => False

/-- The decision of a call that no error of the database cuts short. -/
def Decides (c : Scene) (cfg : WorkerConfig) (d : ReclaimDecision) : Prop :=
  ∃ entryID attemptID, (reclaimForRun cfg entryID c.row.jobID).Returns c.Answers (.ok (attemptID, d))

end Scene

/-- Some attempt is running, as the `UPDATE` has it. -/
def Running (s : Submission) : Prop := s.status = "running" ∧ s.state = "processing"

/-- Nothing is to be done any more for the row. -/
def Terminal (s : Submission) : Prop :=
  toLower (trimSpace s.state) = "done" ∨ toLower (trimSpace s.status) = "finished"

/-- The attempt that the row shows has a lease, and by the clock of the worker it has not ended. -/
def ShownAlive (s : Submission) (appNow : Nat) : Prop :=
  toLower (trimSpace s.status) = "running" ∧ toLower (trimSpace s.state) = "processing" ∧
    leaseAfter s appNow = true

/-- A running row is taken over or left alone, and only a row that is over is given up. -/
def Sound (c : Scene) (d : ReclaimDecision) : Prop :=
  (Running c.row → Running c.inspected → d = .claimed ∨ d = .leaseStillValid) ∧
    (d = .doneOrStale → Terminal c.inspected)

/-- The lease of the running row has ended by the clock of the database when the `UPDATE` is made. -/
def Expired (s : Submission) (now : Nat) : Prop := Running s ∧ leaseBefore s now = true

section Decision

variable {c : Scene} {cfg : WorkerConfig} {d : ReclaimDecision}

theorem reclaim_exec (s : Submission) (now : Nat) (leaseOwner : String) (leaseSec : Int) :
    ((reclaimSubmissionForRun now leaseOwner leaseSec s).map (·.2) = some (s.attemptID + 1) ∧ Expired s now) ∨
      ((reclaimSubmissionForRun now leaseOwner leaseSec s).map (·.2) = none ∧ ¬Expired s now) := by
  unfold reclaimSubmissionForRun Expired Running
  by_cases h : s.status = "running" ∧ s.state = "processing" ∧ leaseBefore s now = true
  · rw [if_pos h]
    exact .inl ⟨rfl, ⟨h.1, h.2.1⟩, h.2.2⟩
  · rw [if_neg h]
    exact .inr ⟨rfl, fun ⟨⟨h₁, h₂⟩, h₃⟩ => h ⟨h₁, h₂, h₃⟩⟩

/-- The decision is that of the `UPDATE` if it matches, and else that of the inspection. -/
theorem decides_iff : c.Decides cfg d ↔
    (Expired c.row c.updateAt ∧ d = .claimed) ∨
      (¬Expired c.row c.updateAt ∧ d = reclaimDecision (some c.inspected) c.appNow) := by
  unfold Scene.Decides reclaimForRun
  obtain ⟨hexec, hexpired⟩ | ⟨hexec, hexpired⟩ :=
    reclaim_exec c.row c.updateAt cfg.jobStreamConsumer cfg.jobLeaseSec
  · simp [request, Scene.Answers, RowOp.exec, hexec, hexpired]
    exact eq_comm
  · simp [request, act, Scene.Answers, RowOp.exec, hexec, hexpired]
    exact eq_comm

/-- A row that is shown alive is kept pending, any other is given up. -/
theorem reclaimDecision_some (s : Submission) (appNow : Nat) :
    (reclaimDecision (some s) appNow = .leaseStillValid ∧ ShownAlive s appNow ∧ ¬Terminal s) ∨
      (reclaimDecision (some s) appNow = .doneOrStale ∧ (Terminal s ∨ ¬ShownAlive s appNow)) := by
  unfold reclaimDecision Terminal ShownAlive
  dsimp only
  by_cases hover : toLower (trimSpace s.state) = "done" ∨ toLower (trimSpace s.status) = "finished"
  · rw [if_pos hover]
    exact .inr ⟨rfl, .inl hover⟩
  · rw [if_neg hover]
    by_cases hrun : toLower (trimSpace s.status) = "running" ∧ toLower (trimSpace s.state) = "processing"
    · rw [if_pos hrun]
      cases hlease : leaseAfter s appNow with
      | true => exact .inl ⟨rfl, ⟨hrun.1, hrun.2, rfl⟩, hover⟩
      | false => exact .inr ⟨rfl, .inr fun halive => Bool.noConfusion halive.2.2⟩
    · rw [if_neg hrun]
      exact .inr ⟨rfl, .inr fun halive => hrun ⟨halive.1, halive.2.1⟩⟩

theorem Running.normal {s : Submission} (h : Running s) :
    toLower (trimSpace s.status) = "running" ∧ toLower (trimSpace s.state) = "processing" := by
  rw [h.1, h.2]
  decide +kernel

theorem Running.not_terminal {s : Submission} (h : Running s) : ¬Terminal s := by
  unfold Terminal
  rw [h.normal.1, h.normal.2]
  decide

/-- The `UPDATE` comes after the lease has ended, or the inspection finds the row over or its lease
still running. -/
def InTime (c : Scene) : Prop :=
  Expired c.row c.updateAt ∨ Terminal c.inspected ∨ ShownAlive c.inspected c.appNow

theorem sound_claimed : Sound c .claimed :=
  ⟨fun _ _ => .inl rfl, fun hstale => ReclaimDecision.noConfusion hstale⟩

theorem sound_leaseStillValid : Sound c .leaseStillValid :=
  ⟨fun _ _ => .inr rfl, fun hstale => ReclaimDecision.noConfusion hstale⟩

theorem sound_doneOrStale : Sound c .doneOrStale ↔ Terminal c.inspected :=
  ⟨fun h => h.2 rfl, fun h => ⟨fun _ hrun => absurd h hrun.not_terminal, fun _ => h⟩⟩

theorem sound_iff (h : c.Decides cfg d) : Sound c d ↔ InTime c := by
  rcases decides_iff.mp h with ⟨hexpired, hd⟩ | ⟨hlive, hd⟩
  · rw [hd]
    exact ⟨fun _ => .inl hexpired, fun _ => sound_claimed⟩
  · rcases reclaimDecision_some c.inspected c.appNow with ⟨hshown, halive, _⟩ | ⟨hshown, hover⟩
    · rw [hd, hshown]
      exact ⟨fun _ => .inr (.inr halive), fun _ => sound_leaseStillValid⟩
    · rw [hd, hshown, sound_doneOrStale]
      refine ⟨fun hterminal => .inr (.inl hterminal), fun hin => ?_⟩
      rcases hin with hexpired | hterminal | halive
      · exact absurd hexpired hlive
      · exact hterminal
      · exact hover.resolve_right fun hdead => hdead halive

/-- A running row that nobody touches in between is in time just when its lease has ended on the clock
of the database, or has not ended on the clock of the worker. -/
theorem inTime_untouched (hnone : c.between = []) (hrun : Running c.row) :
    InTime c ↔ ∃ t, c.row.leaseUntil = some t ∧ (t < c.updateAt ∨ c.appNow < t) := by
  have hsame : c.inspected = c.row := by
    unfold Scene.inspected finalRow
    rw [hnone]
    rfl
  unfold InTime Expired ShownAlive
  rw [hsame, leaseBefore_eq_true, leaseAfter_eq_true]
  constructor
  · rintro (⟨_, t, ht, hlt⟩ | hterminal | ⟨_, _, t, ht, hlt⟩)
    · exact ⟨t, ht, .inl hlt⟩
    · exact absurd hterminal hrun.not_terminal
    · exact ⟨t, ht, .inr hlt⟩
  · rintro ⟨t, ht, hlt | hlt⟩
    · exact .inl ⟨hrun, t, ht, hlt⟩
    · exact .inr (.inr ⟨hrun.normal.1, hrun.normal.2, t, ht, hlt⟩)

/-- A decision is always made. -/
theorem exists_decides (c : Scene) (cfg : WorkerConfig) : ∃ d, c.Decides cfg d := by
  by_cases h : Expired c.row c.updateAt
  · exact ⟨_, decides_iff.mpr (.inl ⟨h, rfl⟩)⟩
  · exact ⟨_, decides_iff.mpr (.inr ⟨h, rfl⟩)⟩

end Decision

/-- The decision is sound just when the call is in time; of a running row that nobody touches in
between this is a matter of its lease and the two clocks. -/
theorem reclaim_sound_iff (c : Scene) (cfg : WorkerConfig) :
    ((∀ d, c.Decides cfg d → Sound c d) ↔ InTime c) ∧
      (c.between = [] → Running c.row →
        (InTime c ↔ ∃ t, c.row.leaseUntil = some t ∧ (t < c.updateAt ∨ c.appNow < t))) := by
  refine ⟨?_, inTime_untouched⟩
  obtain ⟨d, hd⟩ := exists_decides c cfg
  exact ⟨fun h => (sound_iff hd).mp (h d hd), fun h d hd => (sound_iff hd).mpr h⟩

/-- A worker is judging the job; its lease ends at 70 s. -/
def runningRow : Submission where
  jobID := "j"
  problemID := some 1
  userID := some 1
  code := "int main() {}"
  language := 1
  timeLimit := 1000
  memoryLimit := 65536
  attemptID := 1
  leaseOwner := some "w"
  leaseUntil := some 70000000
  status := "running"
  state := "processing"
  errorCode := none
  errorMessage := none
  result := none
  createdAt := 0
  updatedAt := 10000000

/-- Both queries come at the same moment, and the clocks agree. -/
def momentary (now : Nat) : Scene where
  row := runningRow
  updateAt := now
  inspectAt := now
  between := []
  offset := 0
  ordered := Nat.le_refl now
  meanwhile := fun _ h => absurd h List.not_mem_nil

def sampleWorker : WorkerConfig := ⟨"w2", 60, 15⟩

/-- A minute before the lease ends the job is left alone. -/
theorem reclaim_sound_early : ∀ d, (momentary 10000000).Decides sampleWorker d → Sound (momentary 10000000) d := by
  have huntouched := (reclaim_sound_iff (momentary 10000000) sampleWorker).2 rfl ⟨rfl, rfl⟩
  refine (reclaim_sound_iff (momentary 10000000) sampleWorker).1.mpr (huntouched.mpr ?_)
  exact ⟨70000000, rfl, .inr (by decide)⟩

/-- At the moment the lease ends the job is given up. -/
theorem running_row_given_up : ¬∀ (c : Scene) (cfg : WorkerConfig) (d : ReclaimDecision),
    c.Decides cfg d → Sound c d := by
  intro hall
  obtain ⟨d, hd⟩ := exists_decides (momentary 70000000) sampleWorker
  have hin : InTime (momentary 70000000) := (sound_iff hd).mp (hall _ _ d hd)
  obtain ⟨t, ht, hlt⟩ := (inTime_untouched rfl ⟨rfl, rfl⟩).mp hin
  obtain rfl : 70000000 = t := Option.some.inj ht
  revert hlt
  decide

end DeepOj.Worker.Reclaim
