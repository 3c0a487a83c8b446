import DeepOj.Conc.Trace
import DeepOj.Repository.Submission
import Mathlib.Order.Nat

/-!
# Fencing safety of the row updates

The six updates the services apply to a row, in any order and at any times: the
attempt number only grows and is handed out once, the row leaves `pending` once,
and a row that is done never changes again.
-/

namespace DeepOj.Repository

/-- An update of one row, with the arguments of its caller. -/
inductive RowOp where
  | claim (leaseOwner : String) (leaseSec : Int)
  | refresh (attemptID : Nat) (leaseOwner : String) (leaseSec : Int)
  | reclaim (leaseOwner : String) (leaseSec : Int)
  | finalize (attemptID : Nat) (leaseOwner status : String) (result : ResultMap)
  | poison (errorCode errorMessage : String)
  | updateResult (status : String) (result : ResultMap)
  deriving DecidableEq, Repr

namespace RowOp

/-- The statement, at database time `now`. -/
def exec (now : Nat) : RowOp → Submission → Option (Submission × Nat)
  | .claim leaseOwner leaseSec => claimSubmissionForRun now leaseOwner leaseSec
  | .refresh attemptID leaseOwner leaseSec =>
    refreshSubmissionLease now attemptID leaseOwner leaseSec
  | .reclaim leaseOwner leaseSec => reclaimSubmissionForRun now leaseOwner leaseSec
  | .finalize attemptID leaseOwner status result =>
    finalizeSubmission now attemptID leaseOwner status result
  | .poison errorCode errorMessage => markSubmissionPoison now errorCode errorMessage
  | .updateResult status result => updateSubmissionResultIfNotDone now status result

/-- The row after the statement. -/
def apply (now : Nat) (op : RowOp) (s : Submission) : Submission :=
  match op.exec now s with
  | some (s', _) => s'
  | none => s

/-- The owner the statement gives the attempt it starts to. -/
def starts : RowOp → Option String
  | .claim leaseOwner _ => some leaseOwner
  | .reclaim leaseOwner _ => some leaseOwner
  | _ => none

end RowOp

/-! ## What one statement can do -/

section Step

variable {now v : Nat} {op : RowOp} {s s' : Submission} {o : String}

theorem RowOp.apply_of_some (h : op.exec now s = some (s', v)) : op.apply now s = s' := by
  simp only [RowOp.apply, h]

theorem RowOp.apply_of_none (h : op.exec now s = none) : op.apply now s = s := by
  simp only [RowOp.apply, h]

/-- A statement selects no row that is done. -/
theorem not_done_of_exec (h : op.exec now s = some (s', v)) : s.state ≠ "done" := by
  intro hd
  cases op with
  | claim o l =>
    have hp := (claimSubmissionForRun_eq_some.mp h).1
    simp [hd] at hp
  | refresh a o l =>
    obtain ⟨⟨_, _, _, hp⟩, _⟩ := refreshSubmissionLease_eq_some.mp h
    simp [hd] at hp
  | reclaim o l =>
    obtain ⟨⟨_, hp, _⟩, _⟩ := reclaimSubmissionForRun_eq_some.mp h
    simp [hd] at hp
  | finalize a o st m =>
    obtain ⟨⟨_, _, _, _, hp⟩, _⟩ := finalizeSubmission_eq_some.mp h
    simp [hd] at hp
  | poison code msg => exact (markSubmissionPoison_eq_some.mp h).1 hd
  | updateResult st m => exact (updateSubmissionResultIfNotDone_eq_some.mp h).1 hd

/-- No statement changes whose row it is. -/
theorem userID_of_exec (h : op.exec now s = some (s', v)) : s'.userID = s.userID := by
  cases op with
  | claim o l => rw [(claimSubmissionForRun_eq_some.mp h).2.2]
  | refresh a o l => rw [(refreshSubmissionLease_eq_some.mp h).2.2]
  | reclaim o l => rw [(reclaimSubmissionForRun_eq_some.mp h).2.2]
  | finalize a o st m => rw [(finalizeSubmission_eq_some.mp h).2.2]
  | poison code msg => rw [(markSubmissionPoison_eq_some.mp h).2.2]
  | updateResult st m => rw [(updateSubmissionResultIfNotDone_eq_some.mp h).2.2]

/-- Every statement writes the time. -/
theorem updatedAt_of_exec (h : op.exec now s = some (s', v)) : s'.updatedAt = now := by
  cases op with
  | claim o l => rw [(claimSubmissionForRun_eq_some.mp h).2.2]
  | refresh a o l => rw [(refreshSubmissionLease_eq_some.mp h).2.2]
  | reclaim o l => rw [(reclaimSubmissionForRun_eq_some.mp h).2.2]
  | finalize a o st m => rw [(finalizeSubmission_eq_some.mp h).2.2]
  | poison code msg => rw [(markSubmissionPoison_eq_some.mp h).2.2]
  | updateResult st m => rw [(updateSubmissionResultIfNotDone_eq_some.mp h).2.2]

/-- No statement changes which job the row is of. -/
theorem jobID_of_exec (h : op.exec now s = some (s', v)) : s'.jobID = s.jobID := by
  cases op with
  | claim o l => rw [(claimSubmissionForRun_eq_some.mp h).2.2]
  | refresh a o l => rw [(refreshSubmissionLease_eq_some.mp h).2.2]
  | reclaim o l => rw [(reclaimSubmissionForRun_eq_some.mp h).2.2]
  | finalize a o st m => rw [(finalizeSubmission_eq_some.mp h).2.2]
  | poison code msg => rw [(markSubmissionPoison_eq_some.mp h).2.2]
  | updateResult st m => rw [(updateSubmissionResultIfNotDone_eq_some.mp h).2.2]

/-- A statement that starts an attempt numbers it one above the last, and leaves
the row running under the owner it names. -/
theorem starts_of_exec (ho : op.starts = some o) (h : op.exec now s = some (s', v)) :
    v = s.attemptID + 1 ∧ s'.attemptID = v ∧ s'.leaseOwner = some o ∧
      s'.state = "processing" ∧ s'.status = "running" := by
  cases op with
  | claim o' l =>
    cases ho
    obtain ⟨_, rfl, rfl⟩ := claimSubmissionForRun_eq_some.mp h
    exact ⟨rfl, rfl, rfl, rfl, rfl⟩
  | reclaim o' l =>
    cases ho
    obtain ⟨⟨hr, hp, _⟩, rfl, rfl⟩ := reclaimSubmissionForRun_eq_some.mp h
    exact ⟨rfl, rfl, rfl, hp, hr⟩
  | refresh a o' l => cases ho
  | finalize a o' st m => cases ho
  | poison code msg => cases ho
  | updateResult st m => cases ho

/-- A statement that starts no attempt keeps the attempt number; unless it ends
the row it keeps the owner, the state and the status too. -/
theorem keeps_of_exec (ho : op.starts = none) (h : op.exec now s = some (s', v)) :
    s'.attemptID = s.attemptID ∧
      (s'.state = "done" ∨
        s'.state = s.state ∧ s'.leaseOwner = s.leaseOwner ∧ s'.status = s.status) := by
  cases op with
  | claim o' l => cases ho
  | reclaim o' l => cases ho
  | refresh a o' l =>
    obtain ⟨_, _, rfl⟩ := refreshSubmissionLease_eq_some.mp h
    exact ⟨rfl, .inr ⟨rfl, rfl, rfl⟩⟩
  | finalize a o' st m =>
    obtain ⟨_, _, rfl⟩ := finalizeSubmission_eq_some.mp h
    exact ⟨rfl, .inl rfl⟩
  | poison code msg =>
    obtain ⟨_, _, rfl⟩ := markSubmissionPoison_eq_some.mp h
    exact ⟨rfl, .inl rfl⟩
  | updateResult st m =>
    obtain ⟨_, _, rfl⟩ := updateSubmissionResultIfNotDone_eq_some.mp h
    exact ⟨rfl, .inl rfl⟩

end Step

/-! ## The order of row versions -/

/-- `s'` is a later version of the row `s`. -/
structure Later (s s' : Submission) : Prop where
  attempt : s.attemptID ≤ s'.attemptID
  started : s.state ≠ "pending" → s'.state ≠ "pending"
  final : s.state = "done" → s' = s

theorem Later.refl (s : Submission) : Later s s := ⟨le_refl _, id, fun _ => rfl⟩

theorem Later.trans {s t u : Submission} (h₁ : Later s t) (h₂ : Later t u) : Later s u where
  attempt := le_trans h₁.attempt h₂.attempt
  started := fun h => h₂.started (h₁.started h)
  final := fun h => by
    have ht : t = s := h₁.final h
    subst ht
    exact h₂.final h

/-- Every statement yields a later version of the row. -/
theorem later_of_exec {now v : Nat} {op : RowOp} {s s' : Submission}
    (h : op.exec now s = some (s', v)) : Later s s' := by
  refine ⟨?_, fun hs => ?_, fun hd => absurd hd (not_done_of_exec h)⟩
  · cases ho : op.starts with
    | some o =>
      obtain ⟨hv, ha, _⟩ := starts_of_exec ho h
      omega
    | none => exact (keeps_of_exec ho h).1.ge
  · cases ho : op.starts with
    | some o =>
      obtain ⟨_, _, _, hp, _⟩ := starts_of_exec ho h
      simp [hp]
    | none =>
      rcases (keeps_of_exec ho h).2 with hd | ⟨hk, _⟩
      · simp [hd]
      · rw [hk]; exact hs

theorem later_apply (now : Nat) (op : RowOp) (s : Submission) : Later s (op.apply now s) := by
  cases h : op.exec now s with
  | none => rw [RowOp.apply_of_none h]; exact .refl s
  | some p =>
    obtain ⟨s', v⟩ := p
    rw [RowOp.apply_of_some h]
    exact later_of_exec h

/-! ## Histories of one row -/

/-- A statement and the database time it runs at. -/
structure Call where
  now : Nat
  op : RowOp
  deriving DecidableEq, Repr

namespace Call

/-- The row after the call. -/
def apply (s : Submission) (c : Call) : Submission := c.op.apply c.now s

/-- What the call returns to its caller, if it took effect. -/
def returned (s : Submission) (c : Call) : Option Nat := (c.op.exec c.now s).map (·.2)

/-- The attempt and the owner the call hands out. -/
def grant (s : Submission) (c : Call) : Option (Nat × String) :=
  match c.op.starts, c.returned s with
  | some o, some a => some (a, o)
  | _, _ => none

/-- The call is a `ClaimSubmissionForRun` that took effect. -/
def claimed (s : Submission) (c : Call) : Bool :=
  match c.op with
  | .claim _ _ => (c.returned s).isSome
  | _ => false

end Call

/-- The versions of the row, the initial one first. -/
def versions (s : Submission) (cs : List Call) : List Submission := cs.scanl Call.apply s

/-- The row after all calls. -/
def finalRow (s : Submission) (cs : List Call) : Submission := cs.foldl Call.apply s

/-- The attempts handed out, in order. -/
def grants : Submission → List Call → List (Nat × String)
  | _, [] => []
  | s, c :: cs => (c.grant s).toList ++ grants (c.apply s) cs

/-- How often `ClaimSubmissionForRun` took effect. -/
def claims : Submission → List Call → Nat
  | _, [] => 0
  | s, c :: cs => (if c.claimed s then 1 else 0) + claims (c.apply s) cs

theorem grant_eq_some {s : Submission} {c : Call} {a : Nat} {o : String} :
    c.grant s = some (a, o) ↔
      c.op.starts = some o ∧ ∃ s', c.op.exec c.now s = some (s', a) := by
  unfold Call.grant Call.returned
  cases c.op.starts with
  | none => simp
  | some o' =>
    cases c.op.exec c.now s with
    | none => simp
    | some p => obtain ⟨s', v⟩ := p; simp [and_comm]

/-- A granted attempt is the new attempt number of the row. -/
theorem grant_lt {s : Submission} {c : Call} {a : Nat} {o : String}
    (h : c.grant s = some (a, o)) :
    s.attemptID < a ∧ (c.apply s).attemptID = a := by
  obtain ⟨ho, s', hs⟩ := grant_eq_some.mp h
  obtain ⟨hv, ha, _⟩ := starts_of_exec ho hs
  rw [Call.apply, RowOp.apply_of_some hs]
  omega

theorem Call.later (s : Submission) (c : Call) : Later s (c.apply s) := later_apply c.now c.op s

theorem versions_pairwise (s : Submission) (cs : List Call) :
    (versions s cs).Pairwise Later :=
  Conc.pairwise_scanl Later.refl (fun _ _ _ => Later.trans) Call.later s cs

/-- Every attempt handed out is above the attempt the row started with. -/
theorem lt_of_mem_grants {s : Submission} {cs : List Call} {g : Nat × String}
    (h : g ∈ grants s cs) : s.attemptID < g.1 := by
  induction cs generalizing s with
  | nil => simp [grants] at h
  | cons c cs ih =>
    simp only [grants, List.mem_append, Option.mem_toList] at h
    rcases h with h | h
    · obtain ⟨a, o⟩ := g
      exact (grant_lt h).1
    · exact lt_of_le_of_lt (c.later s).attempt (ih h)

/-- Attempt numbers are handed out in increasing order. -/
theorem grants_increasing (s : Submission) (cs : List Call) :
    (grants s cs).Pairwise (fun g g' => g.1 < g'.1) := by
  induction cs generalizing s with
  | nil => exact List.Pairwise.nil
  | cons c cs ih =>
    rw [grants]
    refine List.pairwise_append.mpr ⟨?_, ih _, ?_⟩
    · cases c.grant s with
      | none => exact List.Pairwise.nil
      | some g => exact List.pairwise_singleton _ g
    · intro g hg g' hg'
      obtain ⟨a, o⟩ := g
      have ha := (grant_lt (Option.mem_toList.mp hg)).2
      have := lt_of_mem_grants hg'
      rw [ha] at this
      exact this

/-- Once the row has left `pending` it is never claimed again. -/
theorem claims_eq_zero {s : Submission} (cs : List Call) (h : s.state ≠ "pending") :
    claims s cs = 0 := by
  induction cs generalizing s with
  | nil => rfl
  | cons c cs ih =>
    have hc : c.claimed s = false := by
      unfold Call.claimed Call.returned
      cases hop : c.op with
      | claim o l => simp [RowOp.exec, claimSubmissionForRun, h]
      | _ => rfl
    rw [claims, hc, ih ((c.later s).started h)]
    rfl

theorem claims_le_one (s : Submission) (cs : List Call) : claims s cs ≤ 1 := by
  induction cs generalizing s with
  | nil => exact Nat.zero_le 1
  | cons c cs ih =>
    rw [claims]
    split_ifs with hc
    · -- the claim moved the row out of `pending`
      have hs : (c.apply s).state ≠ "pending" := by
        unfold Call.claimed Call.returned at hc
        cases hop : c.op with
        | claim o l =>
          cases hex : c.op.exec c.now s with
          | none => simp [hop, RowOp.exec] at hc hex; simp [hex] at hc
          | some p =>
            obtain ⟨s', v⟩ := p
            rw [Call.apply, RowOp.apply_of_some hex]
            obtain ⟨_, _, _, hp, _⟩ := starts_of_exec (o := o) (by rw [hop]; rfl) hex
            simp [hp]
        | _ => simp [hop] at hc
      have h₀ := claims_eq_zero cs hs
      omega
    · have := ih (c.apply s)
      omega

/-! ## The holder of the current attempt -/

/-- The running row is held by the last attempt that was handed out. -/
def HeldBy (g : Option (Nat × String)) (s : Submission) : Prop :=
  s.state = "processing" → ∃ o, g = some (s.attemptID, o) ∧ s.leaseOwner = some o

/-- One call keeps the holder right. -/
theorem heldBy_apply {g : Option (Nat × String)} {s : Submission} (h : HeldBy g s) (c : Call) :
    HeldBy ((c.grant s).or g) (c.apply s) := by
  cases hex : c.op.exec c.now s with
  | none =>
    have hg : c.grant s = none := by
      unfold Call.grant Call.returned
      rw [hex]
      cases c.op.starts <;> rfl
    rw [hg, Call.apply, RowOp.apply_of_none hex]
    exact h
  | some p =>
    obtain ⟨s', v⟩ := p
    rw [Call.apply, RowOp.apply_of_some hex]
    intro hp
    cases ho : c.op.starts with
    | some o =>
      obtain ⟨_, ha, hl, _, _⟩ := starts_of_exec ho hex
      have hg : c.grant s = some (v, o) := grant_eq_some.mpr ⟨ho, s', hex⟩
      exact ⟨o, by rw [hg, ha]; rfl, hl⟩
    | none =>
      have hg : c.grant s = none := by simp only [Call.grant, ho]
      obtain ⟨ha, hd | ⟨hst, hl, _⟩⟩ := keeps_of_exec ho hex
      · simp [hd] at hp
      · obtain ⟨o, hgo, hlo⟩ := h (hst ▸ hp)
        exact ⟨o, by rw [hg, ha]; exact hgo, hl.trans hlo⟩

/-- A row that started out `pending` is held by the last grant of its history. -/
theorem heldBy_finalRow {s : Submission} {g : Option (Nat × String)} (h : HeldBy g s)
    (cs : List Call) : HeldBy ((grants s cs).getLast?.or g) (finalRow s cs) := by
  induction cs generalizing s g with
  | nil => exact h
  | cons c cs ih =>
    have := ih (heldBy_apply h c)
    rw [grants, finalRow, List.foldl_cons, List.getLast?_append]
    cases hg : c.grant s with
    | none => simpa [hg, finalRow] using this
    | some p =>
      rw [hg] at this
      cases hl : (grants (c.apply s) cs).getLast? with
      | none => simpa [hl, finalRow] using this
      | some q => simpa [hl, finalRow] using this

/-! ## Fencing safety -/

/-- Whatever the order and the times of the calls on a row that starts pending:
the attempt number never decreases and no number is handed out twice; the row is
claimed at most once and never returns to `pending`; only an expired lease is
reclaimed; only the last attempt handed out, by its owner and within its lease,
finalizes; and a row that is done keeps its outcome. -/
theorem fencing_safety (s : Submission) (hs : s.state = "pending") (cs : List Call) :
    ((versions s cs).Pairwise (fun r r' => r.attemptID ≤ r'.attemptID) ∧
      ((grants s cs).map (·.1)).Nodup) ∧
    (claims s cs ≤ 1 ∧
      (versions s cs).Pairwise (fun r r' => r.state ≠ "pending" → r'.state ≠ "pending")) ∧
    (∀ now o l, (RowOp.reclaim o l).exec now (finalRow s cs) ≠ none →
      ∃ t, (finalRow s cs).leaseUntil = some t ∧ t < now) ∧
    (∀ now a o st m, (RowOp.finalize a o st m).exec now (finalRow s cs) ≠ none →
      (grants s cs).getLast? = some (a, o) ∧ (finalRow s cs).attemptID = a ∧
      (finalRow s cs).leaseOwner = some o ∧
      ∃ t, (finalRow s cs).leaseUntil = some t ∧ now < t) ∧
    (versions s cs).Pairwise (fun r r' => r.state = "done" →
      r'.state = r.state ∧ r'.status = r.status ∧ r'.result = r.result ∧
      r'.errorCode = r.errorCode ∧ r'.attemptID = r.attemptID) := by
  have hv := versions_pairwise s cs
  refine ⟨⟨hv.imp Later.attempt, ?_⟩, ⟨claims_le_one s cs, hv.imp Later.started⟩, ?_, ?_,
    hv.imp fun h hd => ?_⟩
  · exact List.pairwise_map.mpr ((grants_increasing s cs).imp fun h => Nat.ne_of_lt h)
  · intro now o l h
    obtain ⟨⟨s', v⟩, hex⟩ := Option.ne_none_iff_exists'.mp h
    obtain ⟨⟨_, _, hl⟩, _⟩ := reclaimSubmissionForRun_eq_some.mp hex
    exact leaseBefore_eq_true.mp hl
  · intro now a o st m h
    obtain ⟨⟨s', v⟩, hex⟩ := Option.ne_none_iff_exists'.mp h
    obtain ⟨⟨ha, ho, hl, _, hp⟩, _⟩ := finalizeSubmission_eq_some.mp hex
    -- the row is running, so its holder is the last grant
    have hheld : HeldBy (grants s cs).getLast? (finalRow s cs) := by
      simpa using heldBy_finalRow (g := none) (fun hp => by simp [hs] at hp) cs
    obtain ⟨o', hg, ho'⟩ := hheld hp
    rw [ha] at hg
    rw [ho] at ho'
    cases ho'
    exact ⟨hg, ha, ho, leaseAfter_eq_true.mp hl⟩
  · have : _ = _ := h.final hd
    subst this
    exact ⟨rfl, rfl, rfl, rfl, rfl⟩

/-- A fresh row, claimed, reclaimed after its lease, and finalized. -/
theorem fencing_safety_reclaimed :
    let s : Submission :=
      { jobID := "j", problemID := none, userID := none, code := "", language := 1,
        timeLimit := 1000, memoryLimit := 65536, attemptID := 0, leaseOwner := none,
        leaseUntil := none, status := "pending", state := "pending", errorCode := none,
        errorMessage := none, result := none, createdAt := 0, updatedAt := 0 }
    let cs : List Call :=
      [⟨0, .claim "w1" 60⟩, ⟨70000000, .reclaim "w2" 60⟩, ⟨70000001, .finalize 2 "w2" "Accepted" []⟩]
    (finalRow s cs).state = "done" ∧ grants s cs = [(1, "w1"), (2, "w2")] ∧
      ((grants s cs).map (·.1)).Nodup :=
  ⟨by decide, by decide, (fencing_safety _ rfl _).1.2⟩

end DeepOj.Repository
