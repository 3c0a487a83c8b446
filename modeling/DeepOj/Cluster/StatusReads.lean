import DeepOj.Cluster.Verdict

/-!
# Status reads and the row

A status response comes from the result key or from the row, a cached submission
is answered before its row is known to be done. The responses agree with the row
as long as a result is only read once the row records it.
-/

namespace DeepOj.Cluster

open Repository Worker Api

/-- The verdict a status and a result map show. -/
def verdict (status : String) (data : Option ResultMap) : String :=
  match data.bind fun m => m.get "status" with
  | some (.str s) => if s = "" then status else s
  | _ => status

/-- The row is done with the verdict `v`. -/
def FinishedWith (w : World) (j v : String) : Prop :=
  ∃ r, w.submissions j = some r ∧ r.state = "done" ∧ verdict r.status r.result = v

/-- A response that reports the job done reports the verdict of a row that is done. -/
def DoneRepliesRecorded (w : World) : Prop :=
  ∀ rid j st data, .replied rid (.status j st "done" data) ∈ w.log →
    FinishedWith w j (verdict st data)

/-- Once the job has been reported done, a read that arrives later reports it done
with the same verdict. The history is newest first. -/
def ReadsSettled (w : World) : Prop :=
  ∀ rid₁ rid₂ j row st data st' state' data',
    [.asked rid₂ j row, .replied rid₁ (.status j st "done" data)].Sublist w.log →
    .replied rid₂ (.status j st' state' data') ∈ w.log →
    state' = "done" ∧ verdict st' data' = verdict st data

/-- `FinishedWith`, as a check. -/
def finishedWith (w : World) (j v : String) : Bool :=
  match w.submissions j with
  | some r => r.state = "done" && verdict r.status r.result = v
  | none => false

theorem finishedWith_iff {w : World} {j v : String} :
    finishedWith w j v = true ↔ FinishedWith w j v := by
  unfold finishedWith FinishedWith
  cases hr : w.submissions j with
  | none => simp
  | some r => simp

/-- The result key of a job is read only when the row records the verdict found
there, and the update behind a cached reply takes effect. -/
def readsRecorded : Guard := fun w q served =>
  match q with
  | .get .api k =>
    match k.name, w.redis k with
    | .result j, some (.result m) => !served || finishedWith w j (verdict "Finished" (some m))
    | _, _ => true
  | .update j (.updateResult st m) _ => served && takesEffect w j (.updateResult st m)
  | _ => true

theorem readsRecorded_get {w : World} {ns : Bool} {j : String} {m : ResultMap}
    (h : readsRecorded w (.get .api ⟨ns, .result j⟩) true = true)
    (hm : w.redis ⟨ns, .result j⟩ = some (.result m)) :
    FinishedWith w j (verdict "Finished" (some m)) := by
  simp only [readsRecorded, hm, Bool.not_true, Bool.false_or] at h
  exact finishedWith_iff.mp h

/-- What keeps the responses in step with the rows. -/
structure Settled (w : World) : Prop where
  served : ∀ j m, .served j m ∈ w.log → FinishedWith w j (verdict "Finished" (some m))
  skipped : ∀ j, .skipped j ∉ w.log
  asked : ∀ rid₁ rid₂ j row st data,
    [.asked rid₂ j row, .replied rid₁ (.status j st "done" data)].Sublist w.log →
    ∃ r, row = some r ∧ r.state = "done"

theorem settled_empty : Settled World.empty where
  served := fun j m h => by simp [World.empty] at h
  skipped := fun j h => by simp [World.empty] at h
  asked := fun rid₁ rid₂ j row st data h => by simp [World.empty] at h

theorem FinishedWith.grows {w w' : World} (g : Grows w w') {j v : String}
    (h : FinishedWith w j v) : FinishedWith w' j v :=
  final_grows g h

theorem FinishedWith.unique {w : World} {j v v' : String} (h : FinishedWith w j v)
    (h' : FinishedWith w j v') : v = v' := by
  obtain ⟨r, hr, _, hv⟩ := h
  obtain ⟨r', hr', _, hv'⟩ := h'
  rw [hr] at hr'
  cases hr'
  rw [← hv, hv']

/-- The status stored for a cached result shows the same verdict as the reply. -/
theorem verdict_cachedStatus (m : ResultMap) :
    verdict (cachedStatus m) (some m) = verdict "Finished" (some m) := by
  simp only [verdict, cachedStatus, Option.bind_some]
  cases m.get "status" with
  | none => rfl
  | some v =>
    cases v with
    | str s =>
      dsimp only
      by_cases hs : s = ""
      · simp only [if_pos hs]
      · simp only [if_neg hs]
    | null => rfl
    | bool b => rfl
    | num n => rfl

/-- A justified reply that reports `done` agrees with the row. -/
theorem Settled.finished {w : World} (ht : Settled w) {rid : Nat} {j st : String}
    {data : Option ResultMap} (h : ReplyJustified w rid j st "done" data) :
    FinishedWith w j (verdict st data) := by
  cases h with
  | row row r _ _ hreach hst hs hd =>
    obtain ⟨r', hr', hl⟩ := hreach
    have heq : r' = r := hl.final hs.symm
    rw [heq] at hr'
    exact ⟨r, hr', hs.symm, by rw [hst, hd]⟩
  | served row m _ hm hst _ hd =>
    rw [hst, hd]
    exact ht.served j m hm
  | cached m hc hst _ hd =>
    obtain ⟨r, hr, hdone, hrs, hrd⟩ := hc.resolve_right (ht.skipped j)
    refine ⟨r, hr, hdone, ?_⟩
    rw [hrs, hrd, hst, hd]
    exact verdict_cachedStatus m

theorem Settled.doneRepliesRecorded {w : World} (ht : Settled w) (hs : Sane w) :
    DoneRepliesRecorded w :=
  fun rid j st data hm => ht.finished (hs.replied rid j st "done" data hm)

theorem Settled.readsSettled {w : World} (ht : Settled w) (hs : Sane w) : ReadsSettled w := by
  intro rid₁ rid₂ j row st data st' state' data' hlate hm
  have hj : ReplyJustified w rid₂ j st' state' data' := hs.replied rid₂ j st' state' data' hm
  have hdone : state' = "done" := by
    cases hj with
    | row row' r ha hl _ _ hstate _ =>
      -- the read began after the row was done, and found it as it was
      obtain ⟨r₀, hr₀, hd₀⟩ := ht.asked rid₁ rid₂ j row st data hlate
      have ha' : .asked rid₂ j row ∈ w.log := hlate.subset List.mem_cons_self
      obtain ⟨_, hrow⟩ := hs.askedOnce rid₂ j row' j row ha ha'
      have heq : r = r₀ := (hl r₀ (hrow.trans hr₀)).final hd₀
      rw [hstate, heq]
      exact hd₀
    | served _ _ _ _ _ hstate _ => exact hstate
    | cached _ _ _ hstate _ => exact hstate
  subst hdone
  have hfirst : .replied rid₁ (.status j st "done" data) ∈ w.log :=
    hlate.subset (List.mem_cons_of_mem _ List.mem_cons_self)
  exact ⟨rfl, (ht.finished hj).unique (ht.doneRepliesRecorded hs rid₁ j st data hfirst)⟩

theorem Settled.move {w w' : World} (ht : Settled w) (hs : Sane w) (x : Extends w w')
    (hm : Moved readsRecorded w w') : Settled w' where
  served := fun j m hev => by
    obtain hev | ⟨⟨ns, hval, hP⟩, _⟩ := hm.mem_log hev
    · exact (ht.served j m hev).grows x.grows
    · exact (readsRecorded_get hP hval).grows x.grows
  skipped := fun j hev => by
    obtain hev | ⟨⟨st, m, via, served, hP, hnone⟩, _⟩ := hm.mem_log hev
    · exact ht.skipped j hev
    · -- an update that takes effect is not skipped
      obtain ⟨hserved, heffect⟩ := Bool.and_eq_true_iff.mp hP
      have hno := hnone hserved
      unfold takesEffect at heffect
      split at heffect
      · rename_i r hr
        rw [hno r hr] at heffect
        cases heffect
      · cases heffect
  asked := fun rid₁ rid₂ j row st data hsub => by
    obtain hl | ⟨ev, hl, hc⟩ := hm.log
    · exact ht.asked rid₁ rid₂ j row st data (hl ▸ hsub)
    · rw [hl] at hsub
      obtain hold | ⟨rest, heq, hrest⟩ := List.sublist_cons_iff.mp hsub
      · exact ht.asked rid₁ rid₂ j row st data hold
      · -- the request arrives now, and the row is done already
        cases heq
        have hrep : .replied rid₁ (.status j st "done" data) ∈ w.log :=
          hrest.subset List.mem_cons_self
        obtain ⟨r, hr, hd, _⟩ := ht.doneRepliesRecorded hs rid₁ j st data hrep
        exact ⟨r, (show row = w.submissions j from hc).trans hr, hd⟩

/-- Attempt 1 reports and finalizes; the owner reads, the result key expires, and
the owner reads again. -/
def readTwice : List Step :=
  submitted ++ judged "Accepted" ++ calls 2 2 ++ calls 3 2 ++ calls 2 3 ++
    [.env (.status (some 7) false "job-1")] ++ calls 4 3 ++
    [.env (.expire (resultKey "job-1")), .env (.status (some 7) false "job-1")] ++ calls 5 4

/-- The result attempt 1 reports. -/
def reported : ResultMap :=
  [("job_id", .str "job-1"), ("attempt_id", .num 1), ("status", .str "Accepted"),
    ("time_used", .num 10), ("memory_used", .num 1000), ("language", .str "CPP"),
    ("trace_id", .str "r1"), ("cache_key", .str "deepoj:cache:int main(){}|1|1000|65536|0|")]

/-- Attempt 1 reports and its worker stops before the finalize; the owner reads. -/
def earlyRead : List Step :=
  submitted ++ judged "Accepted" ++ calls 2 1 ++
    [.crash 2, .env (.status (some 7) false "job-1")] ++ calls 4 3 ++
    [.env (.expire (resultKey "job-1"))]

end DeepOj.Cluster
