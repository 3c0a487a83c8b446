import DeepOj.Worker.StreamConsumer

/-!
# Why a finalization was rejected

`FinalizeSubmissionWithFence` inspects a row its `UPDATE` has not selected. It reads the
row again in Go, without case and surrounding blanks, and on another clock; the reason it
finds decides what the consumer does with the stream entry.
-/

namespace DeepOj.Worker

open Conc Repository Cluster Go

/-- The text of a reason. -/
def finalizeReasonText : FinalizeReason → String
  | .ok => "ok"
  | .staleAttempt => "stale_attempt"
  | .alreadyFinished => "already_finished"
  | .notInExpectedState => "not_in_expected_state"
  | .leaseLostOwnerMismatch => "lease_lost_or_owner_mismatch"
  | .dbError => "db_error"

/-- The row is done, or it has the status of a job that is. -/
def Finished (s : Submission) : Prop :=
  toLower (trimSpace s.state) = "done" ∨ isTerminalStatus (toLower (trimSpace s.status)) = true

/-- The row reads as running and processing. -/
def ReadsRunning (s : Submission) : Prop :=
  toLower (trimSpace s.status) = "running" ∧ toLower (trimSpace s.state) = "processing"

/-- The answers while nothing else touches the row `s`: the statements find it as it is, PostgreSQL's
clock shows `dbNow`, and the worker's `appNow`. -/
def onRow (s : Submission) (dbNow appNow : Nat) : (e : Effect) → e.Reply → Prop
  | .request (.update _ op _), r => r = .ok ((op.exec dbNow s).map (·.2))
  | .request (.select _ _), r => r = .ok (some s)
  | .act .now, r => r = appNow
  | _, _ => False

/-! ## The reason, case by case -/

/-- What leads to a reason: the tests in the order in which they are made. -/
inductive Classified (s : Submission) (attemptID : Nat) (leaseOwner : String) (appNow : Nat) :
    FinalizeReason → Prop where
  | stale (h : attemptID < s.attemptID) : Classified s attemptID leaseOwner appNow .staleAttempt
  | finished (h : ¬ attemptID < s.attemptID) (hf : Finished s) :
      Classified s attemptID leaseOwner appNow .alreadyFinished
  | unexpected (h : ¬ attemptID < s.attemptID) (hf : ¬ Finished s) (hr : ¬ ReadsRunning s) :
      Classified s attemptID leaseOwner appNow .notInExpectedState
  | lost (h : ¬ attemptID < s.attemptID) (hf : ¬ Finished s) (hr : ReadsRunning s)
      (hl : leaseLost s leaseOwner appNow = true) :
      Classified s attemptID leaseOwner appNow .leaseLostOwnerMismatch
  | unexplained (h : ¬ attemptID < s.attemptID) (hf : ¬ Finished s) (hr : ReadsRunning s)
      (hl : leaseLost s leaseOwner appNow = false) :
      Classified s attemptID leaseOwner appNow .notInExpectedState

section Reason

variable {s : Submission} {attemptID dbNow appNow : Nat} {leaseOwner : String}

theorem classified (s : Submission) (attemptID : Nat) (leaseOwner : String) (appNow : Nat) :
    Classified s attemptID leaseOwner appNow (finalizeRejectReason s attemptID leaseOwner appNow) := by
  unfold finalizeRejectReason
  simp only
  by_cases hstale : s.attemptID > attemptID
  · rw [if_pos hstale]
    exact .stale hstale
  rw [if_neg hstale]
  by_cases hfin : Finished s
  · have hfin' := hfin
    unfold Finished at hfin'
    rw [if_pos hfin']
    exact .finished hstale hfin
  have hfin' := hfin
  unfold Finished at hfin'
  rw [if_neg hfin']
  by_cases hrun : ReadsRunning s
  · rw [if_neg (by intro h; exact h.elim (absurd hrun.1) (absurd hrun.2))]
    cases hlost : leaseLost s leaseOwner appNow with
    | true => exact .lost hstale hfin hrun hlost
    | false => exact .unexplained hstale hfin hrun hlost
  · have hother : toLower (trimSpace s.status) ≠ "running" ∨ toLower (trimSpace s.state) ≠ "processing" := by
      rw [← not_and_or]
      exact hrun
    rw [if_pos hother]
    exact .unexpected hstale hfin hrun

theorem reason_stale_iff :
    finalizeRejectReason s attemptID leaseOwner appNow = .staleAttempt ↔ attemptID < s.attemptID := by
  have hc := classified s attemptID leaseOwner appNow
  constructor
  · intro h
    rw [h] at hc
    cases hc with
    | stale h => exact h
  · intro h
    generalize finalizeRejectReason s attemptID leaseOwner appNow = r at hc ⊢
    cases hc with
    | stale _ => rfl
    | _ => contradiction

theorem reason_finished_iff :
    finalizeRejectReason s attemptID leaseOwner appNow = .alreadyFinished ↔
      ¬ attemptID < s.attemptID ∧ Finished s := by
  have hc := classified s attemptID leaseOwner appNow
  constructor
  · intro h
    rw [h] at hc
    cases hc with
    | finished h hf => exact ⟨h, hf⟩
  · rintro ⟨h, hf⟩
    generalize finalizeRejectReason s attemptID leaseOwner appNow = r at hc ⊢
    cases hc with
    | finished _ _ => rfl
    | _ => contradiction

/-- Another owner, or no lease that is still running. -/
theorem reason_lost (h : finalizeRejectReason s attemptID leaseOwner appNow = .leaseLostOwnerMismatch) :
    ReadsRunning s ∧ (s.leaseOwner ≠ some leaseOwner ∨ s.leaseUntil = none ∨
      ∃ t, s.leaseUntil = some t ∧ t ≤ appNow) := by
  have hc := classified s attemptID leaseOwner appNow
  rw [h] at hc
  cases hc with
  | lost _ _ hrun hlost =>
    refine ⟨hrun, ?_⟩
    rcases Bool.or_eq_true_iff.mp hlost with howner | hover
    · left
      intro heq
      rw [heq] at howner
      simp at howner
    · right
      unfold leaseAfter at hover
      cases ht : s.leaseUntil with
      | none => exact .inl rfl
      | some t =>
        rw [ht] at hover
        exact .inr ⟨t, rfl, by simpa using hover⟩

/-- A running row of this attempt whose lease is over is never found unexpected. -/
theorem reason_of_running (hover : leaseAfter s dbNow = false) (ha : s.attemptID = attemptID)
    (hst : s.status = "running") (hproc : s.state = "processing") (hclock : dbNow ≤ appNow) :
    finalizeRejectReason s attemptID leaseOwner appNow = .leaseLostOwnerMismatch := by
  have hlost : leaseLost s leaseOwner appNow = true := by
    have happ : leaseAfter s appNow = false := by
      unfold leaseAfter at hover ⊢
      cases ht : s.leaseUntil with
      | none => rfl
      | some t =>
        rw [ht] at hover
        simp only [decide_eq_false_iff_not] at hover ⊢
        omega
    rw [leaseLost, happ]
    simp
  have hrun : ReadsRunning s := by
    unfold ReadsRunning
    rw [hst, hproc]
    decide
  have hopen : ¬ Finished s := by
    unfold Finished
    rw [hst, hproc]
    decide
  have hc := classified s attemptID leaseOwner appNow
  generalize finalizeRejectReason s attemptID leaseOwner appNow = r at hc ⊢
  cases hc with
  | lost _ _ _ _ => rfl
  | stale h => omega
  | finished _ hf => exact absurd hf hopen
  | unexpected _ _ hr => exact absurd hrun hr
  | unexplained _ _ _ hl =>
    rw [hlost] at hl
    cases hl

/-- The consumer keeps the name of every reason, and acknowledges the entry. -/
theorem mapped {r : FinalizeReason} (h : Classified s attemptID leaseOwner appNow r) :
    (mapFinalizeRejectReason r).text = finalizeReasonText r ∧
      isBusinessFinalizeRejectReason (mapFinalizeRejectReason r) = true := by
  cases h <;> exact ⟨rfl, rfl⟩

end Reason

/-! ## Rows the services have written -/

/-- The states the services write, and the status they write with `processing`. -/
structure Written (s : Submission) : Prop where
  state : s.state = "pending" ∨ s.state = "processing" ∨ s.state = "done"
  status : s.state = "processing" → s.status = "running"

theorem Written.apply {s : Submission} (h : Written s) (now : Nat) (op : RowOp) :
    Written (op.apply now s) := by
  cases hx : op.exec now s with
  | none =>
    rw [RowOp.apply_of_none hx]
    exact h
  | some p =>
    obtain ⟨s', v⟩ := p
    rw [RowOp.apply_of_some hx]
    cases ho : op.starts with
    | some o =>
      obtain ⟨_, _, _, hproc, hrun⟩ := starts_of_exec ho hx
      exact ⟨.inr (.inl hproc), fun _ => hrun⟩
    | none =>
      rcases (keeps_of_exec ho hx).2 with hdone | ⟨hstate, _, hstatus⟩
      · refine ⟨.inr (.inr hdone), ?_⟩
        intro hproc
        rw [hdone] at hproc
        exact absurd hproc (by decide)
      · exact ⟨by rw [hstate]; exact h.state, by rw [hstate, hstatus]; exact h.status⟩

/-- In every version of a row the services have written, the row is what it reads as. -/
theorem reads_as_written {s₀ s : Submission} (h₀ : Written s₀) {cs : List Call} (hs : s ∈ versions s₀ cs) :
    (toLower (trimSpace s.state) = "done" ↔ s.state = "done") ∧
      (ReadsRunning s ↔ s.status = "running" ∧ s.state = "processing") := by
  have h : Written s := rel_of_mem_scanl (r := fun s t => Written s → Written t) (fun _ h => h)
    (fun _ _ _ h₁ h₂ h => h₂ (h₁ h)) (fun _ c h => h.apply c.now c.op) hs h₀
  unfold ReadsRunning
  rcases h.state with hst | hst | hst
  · have hdone : toLower (trimSpace "pending") ≠ "done" := by decide
    have hproc : toLower (trimSpace "pending") ≠ "processing" := by decide
    rw [hst]
    simp [hdone, hproc]
  · rw [hst, h.status hst]
    decide
  · have hdone : toLower (trimSpace "done") = "done" := by decide
    rw [hst]
    simp [hdone]

/-! ## The function -/

section Finalize

variable {s : Submission} {entryID attemptID dbNow appNow : Nat} {jobID leaseOwner status : String}
  {result : ResultMap} {res : Except String FinalizeFenceResult}

/-- With nothing in between, what is returned is read off the row the `UPDATE` has not selected. -/
theorem returns_finalize (hnone : (RowOp.finalize attemptID leaseOwner status result).exec dbNow s = none)
    (h : Prog.Returns (onRow s dbNow appNow)
      (finalizeSubmissionWithFence entryID jobID attemptID leaseOwner status result) res) :
    res = .ok (getFinalizeFenceRejectReason (some s) attemptID leaseOwner appNow) := by
  unfold finalizeSubmissionWithFence at h
  obtain ⟨r, hr, h⟩ := Prog.returns_call.mp h
  have hmiss : r = .ok none := by
    have hr' : r = .ok (((RowOp.finalize attemptID leaseOwner status result).exec dbNow s).map (·.2)) := hr
    rw [hnone] at hr'
    exact hr'
  subst hmiss
  obtain ⟨row, hrow, h⟩ := Prog.returns_call.mp h
  have hrow' : row = .ok (some s) := hrow
  subst hrow'
  obtain ⟨now, hnow, h⟩ := Prog.returns_call.mp h
  have hnow' : now = appNow := hnow
  subst hnow'
  exact (Prog.returns_ret.mp h).symm

/-- The reason of a rejected finalization is that of the row, and the consumer acknowledges the entry
under the same name. -/
theorem reject_reason_faithful
    (hnone : (RowOp.finalize attemptID leaseOwner status result).exec dbNow s = none)
    (h : Prog.Returns (onRow s dbNow appNow)
      (finalizeSubmissionWithFence entryID jobID attemptID leaseOwner status result) res) :
    (RowOp.finalize attemptID leaseOwner status result).apply dbNow s = s ∧
    ∃ r, res = .ok r ∧ r.applied = false ∧
      (r.reason = .staleAttempt ↔ attemptID < s.attemptID) ∧
      (r.reason = .alreadyFinished ↔ ¬ attemptID < s.attemptID ∧ Finished s) ∧
      (r.reason = .leaseLostOwnerMismatch → ReadsRunning s ∧
        (s.leaseOwner ≠ some leaseOwner ∨ s.leaseUntil = none ∨
          ∃ t, s.leaseUntil = some t ∧ t ≤ appNow)) ∧
      (s.attemptID = attemptID → s.leaseOwner = some leaseOwner → s.status = "running" →
        s.state = "processing" → dbNow ≤ appNow → r.reason ≠ .notInExpectedState) ∧
      (mapFinalizeRejectReason r.reason).text = finalizeReasonText r.reason ∧
      isBusinessFinalizeRejectReason (mapFinalizeRejectReason r.reason) = true := by
  refine ⟨RowOp.apply_of_none hnone, _, returns_finalize hnone h, rfl, ?_, ?_, ?_, ?_, ?_⟩
  · exact reason_stale_iff
  · exact reason_finished_iff
  · exact reason_lost
  · intro ha ho hst hproc hclock
    have hover : leaseAfter s dbNow = false := by
      by_contra hlive
      rw [Bool.not_eq_false] at hlive
      have hsome : finalizeSubmission dbNow attemptID leaseOwner status result s = none := hnone
      unfold finalizeSubmission at hsome
      rw [if_pos ⟨ha, ho, hlive, hst, hproc⟩] at hsome
      cases hsome
    show finalizeRejectReason s attemptID leaseOwner appNow ≠ _
    rw [reason_of_running hover ha hst hproc hclock]
    decide
  · exact mapped (classified s attemptID leaseOwner appNow)

end Finalize

/-- A running row whose lease is over at 5. -/
def lateRow : Submission where
  jobID := "j"
  problemID := none
  userID := none
  code := ""
  language := 1
  timeLimit := 1000
  memoryLimit := 65536
  attemptID := 1
  leaseOwner := some "w"
  leaseUntil := some 5
  status := "running"
  state := "processing"
  errorCode := none
  errorMessage := none
  result := none
  createdAt := 0
  updatedAt := 0

/-- Its owner finalizes it at 10. -/
theorem reject_reason_faithful_late : ∃ r : FinalizeFenceResult,
    Prog.Returns (onRow lateRow 10 10) (finalizeSubmissionWithFence 0 "j" 1 "w" "Accepted" []) (.ok r) ∧
      r.reason ≠ .notInExpectedState := by
  have hnone : (RowOp.finalize 1 "w" "Accepted" []).exec 10 lateRow = none := by decide
  have hret : Prog.Returns (onRow lateRow 10 10)
      (finalizeSubmissionWithFence 0 "j" 1 "w" "Accepted" [])
      (.ok (getFinalizeFenceRejectReason (some lateRow) 1 "w" 10)) := by
    have hmiss : onRow lateRow 10 10
        (.request (.update "j" (.finalize 1 "w" "Accepted" []) (some 0))) (.ok none) := by
      show Except.ok none = Except.ok (Option.map _ _)
      rw [hnone]
      rfl
    unfold finalizeSubmissionWithFence
    refine Prog.returns_call.mpr ⟨.ok none, hmiss, ?_⟩
    refine Prog.returns_call.mpr ⟨.ok (some lateRow), rfl, ?_⟩
    exact Prog.returns_call.mpr ⟨10, rfl, Prog.returns_ret.mpr rfl⟩
  obtain ⟨_, r, hr, _, _, _, _, hne, _⟩ := reject_reason_faithful hnone hret
  rw [hr] at hret
  exact ⟨r, hret, hne rfl rfl rfl rfl (Nat.le_refl 10)⟩

end DeepOj.Worker
