import DeepOj.Cluster.Moves

/-!
# No job is lost and no job gets stuck

A pending job needs an undelivered outbox event or an open stream entry, a
processing job needs an open stream entry. Both hold as long as the workers
acknowledge no entry the job still depends on; the runs at the end of each part
show how the reclaim and the finalize path do acknowledge such entries.
-/

namespace DeepOj.Cluster

open Repository Worker Api

/-- The job has a stream entry that is not acknowledged. -/
def HasOpenEntry (w : World) (j : String) : Prop :=
  ∃ (i : Nat) (e : StreamEntry), w.stream[i]? = some e ∧
    requiredStreamField e.values.jobID = some j ∧ e.delivery ≠ .acked

/-- The job has an outbox event that waits to be delivered. -/
def HasUndelivered (w : World) (j : String) : Prop :=
  ∃ (i : Nat) (e : OutboxEvent), w.outbox[i]? = some e ∧ e.jobID = j ∧ e.Undelivered

/-! ## Pending jobs -/

/-- Every pending job created with an outbox event can still be delivered. -/
def NoLostJob (w : World) : Prop :=
  ∀ j r, .created j .outbox ∈ w.log → w.submissions j = some r → r.state = "pending" →
    HasUndelivered w j ∨ HasOpenEntry w j

/-- No entry of a pending job is acknowledged. -/
def NoPendingAcked (w : World) : Prop :=
  ∀ (i : Nat) (e : StreamEntry) j r, w.stream[i]? = some e → e.delivery = .acked →
    requiredStreamField e.values.jobID = some j → w.submissions j = some r → r.state ≠ "pending"

/-- The inspection query of a rejected reclaim does not find the row pending. -/
def inspectsStarted : Guard := fun w q served =>
  match q with
  | .select j .reclaimInspect =>
    !served || decide (∀ r ∈ w.submissions j, r.state ≠ "pending")
  | _ => true

theorem inspectsStarted_select {w : World} {j : String}
    (h : inspectsStarted w (.select j .reclaimInspect) true = true) {r : Submission}
    (hr : w.submissions j = some r) : r.state ≠ "pending" := by
  have h' : ∀ r ∈ w.submissions j, r.state ≠ "pending" := of_decide_eq_true h
  exact h' r hr

/-- What keeps a pending job from being lost. -/
structure Tracked (w : World) : Prop where
  inspected : ∀ j r, .inspected j (some r) ∈ w.log → r.state ≠ "pending"
  acked : ∀ (i : Nat) (e : StreamEntry) j, w.stream[i]? = some e → e.delivery = .acked →
    requiredStreamField e.values.jobID = some j → RowStarted w j
  enqueued : ∀ j, .created j .outbox ∈ w.log →
    RowStarted w j ∨ HasUndelivered w j ∨ ∃ i, EntryFor w i j

theorem tracked_empty : Tracked World.empty where
  inspected := fun j r h => by simp [World.empty] at h
  acked := fun i e j h => by simp [World.empty] at h
  enqueued := fun j h => by simp [World.empty] at h

/-- A justified acknowledgement of an inspected or started job finds the row started. -/
theorem Tracked.ack_started {w : World} (ht : Tracked w) (hs : Sane w) {i : Nat} {j : String}
    {site : AckSite} (h : AckJustified w i j site) : RowStarted w j := by
  have hinspected : (∃ r, LogEvent.inspected j (some r) ∈ w.log) → RowStarted w j := by
    rintro ⟨r, hr⟩
    obtain ⟨r', hr', hl⟩ := hs.inspected j r hr
    exact ⟨r', hr', hl.started (ht.inspected j r hr)⟩
  have hdone : RowDone w j → RowStarted w j := by
    rintro ⟨r, hr, hd⟩
    exact ⟨r, hr, by rw [hd]; decide⟩
  cases site with
  | poison => exact hdone h
  | claimRejected => exact h
  | doneOrStale => exact hinspected h
  | notFound => exact hinspected h
  | finalizeRejected a =>
    obtain ⟨o, ho⟩ := h
    obtain ⟨_, r, hr, _, hp⟩ := hs.started j a o _ ho
    exact ⟨r, hr, hp⟩
  | finalized a => exact hdone h.2

theorem Tracked.move {w w' : World} (ht : Tracked w) (hs : Sane w) (x : Extends w w')
    (hm : Moved inspectsStarted w w') : Tracked w' where
  inspected := fun j r hev => by
    obtain hev | ⟨⟨hr, hP⟩, _⟩ := hm.mem_log hev
    · exact ht.inspected j r hev
    · exact inspectsStarted_select hP hr.symm
  acked := fun i e' j he' hd' hj => by
    obtain ⟨e, he, hv, hd | ⟨site, ⟨j', hentry, hack⟩, _, _⟩⟩ := hm.acked he' hd'
    · rw [← hv] at hj
      exact stable_rowStarted j w w' x.grows (ht.acked i e j he hd hj)
    · -- the acknowledged entry is one of job `j`
      obtain ⟨e₀, he₀, hj'⟩ := hentry
      rw [he] at he₀
      cases he₀
      rw [hv, hj] at hj'
      cases hj'
      exact stable_rowStarted j w w' x.grows (ht.ack_started hs hack)
  enqueued := fun j hev => by
    obtain hev | ⟨hc, _⟩ := hm.mem_log hev
    · obtain hst | ⟨i, e, he, hj, hu⟩ | ⟨i, hi⟩ := ht.enqueued j hev
      · exact .inl (stable_rowStarted j w w' x.grows hst)
      · obtain ⟨e', he', hj', hu'⟩ | ⟨n, hn⟩ := hm.undelivered he hu
        · exact .inr (.inl ⟨i, e', he', hj'.trans hj, hu'⟩)
        · exact .inr (.inr ⟨n, (hj ▸ hn).grows x.grows⟩)
      · exact .inr (.inr ⟨i, hi.grows x.grows⟩)
    · exact .inr (.inl (hc rfl))

theorem Tracked.noPendingAcked {w : World} (ht : Tracked w) : NoPendingAcked w := by
  intro i e j r he hd hj hr
  obtain ⟨r', hr', hp⟩ := ht.acked i e j he hd hj
  rw [hr] at hr'
  cases hr'
  exact hp

theorem Tracked.noLostJob {w : World} (ht : Tracked w) : NoLostJob w := by
  intro j r hc hr hp
  obtain ⟨r', hr', hs⟩ | hu | ⟨i, e, he, hj⟩ := ht.enqueued j hc
  · rw [hr] at hr'
    cases hr'
    exact absurd hp hs
  · exact .inl hu
  · refine .inr ⟨i, e, he, hj, fun hd => ?_⟩
    exact ht.noPendingAcked i e j r he hd hj hr hp

/-- In a run in which no rejected reclaim inspects a pending row, every pending
job keeps an undelivered event or an open entry, and no entry of a pending job is
acknowledged. -/
theorem no_lost_job {s : State} (h : system.Reach (OnSent inspectsStarted) start s) :
    NoLostJob s.world ∧ NoPendingAcked s.world := by
  have ht : Tracked s.world := (world_invariant tracked_empty
    (fun _ _ hs _ x hm ht => ht.move hs x hm) h).2
  exact ⟨ht.noLostJob, ht.noPendingAcked⟩

/-- A worker that stops before its claim leaves the entry of the pending job open. -/
theorem no_lost_job_crash :
    let s := system.play (OnSent inspectsStarted) start
      (submitted ++ [.env (.deliver (worker "w1") 0), .crash 2])
    (∃ r, s.world.submissions "job-1" = some r ∧ r.state = "pending") ∧
      (HasUndelivered s.world "job-1" ∨ HasOpenEntry s.world "job-1") := by
  intro s
  have hrow : (s.world.submissions "job-1").map (·.state) = some "pending" := by decide +kernel
  have hlog : LogEvent.created "job-1" .outbox ∈ s.world.log := by decide +kernel
  obtain ⟨r, hr, hp⟩ := Option.map_eq_some_iff.mp hrow
  have hreach : system.Reach (OnSent inspectsStarted) start s :=
    system.reach_play (OnSent inspectsStarted) .init _
  exact ⟨⟨r, hr, hp⟩, (no_lost_job hreach).1 "job-1" r hlog hr hp⟩

/-- A claim fails, the idle entry is taken over, and the reclaim finds the row
pending: `done_or_stale`, and the entry is acknowledged. -/
def pendingAcked : List Step :=
  submitted ++
    [.env (.deliver (worker "w1") 0), .call 2 (.ok { uuid := "t1" }), .call 2 done,
      .call 2 (.failed "db down"),
      .env (.redisTick 65000000), .env (.autoclaim (worker "w2") 0),
      .call 3 (.ok { uuid := "t2" })] ++ calls 3 5

/-- The job of that run is lost. -/
theorem lost_job : ∃ s, system.Reach Conc.Machine.anyMove start s ∧
    ¬ NoLostJob s.world ∧ ¬ NoPendingAcked s.world := by
  let s := system.play Conc.Machine.anyMove start pendingAcked
  have hrow : (s.world.submissions "job-1").map (·.state) = some "pending" := by decide +kernel
  have hlog : LogEvent.created "job-1" .outbox ∈ s.world.log := by decide +kernel
  have hout : ∀ e ∈ s.world.outbox, ¬ e.Undelivered := by decide +kernel
  have hstream : s.world.stream.map (fun e => (requiredStreamField e.values.jobID, e.delivery)) =
      [(some "job-1", .acked)] := by decide +kernel
  obtain ⟨r, hr, hp⟩ := Option.map_eq_some_iff.mp hrow
  obtain ⟨e, he, hes⟩ := List.map_eq_singleton_iff.mp hstream
  obtain ⟨hj, hd⟩ := Prod.mk.inj hes
  have h₀ : s.world.stream[0]? = some e := by rw [he]; rfl
  refine ⟨s, system.reach_play Conc.Machine.anyMove .init _, fun hn => ?_, fun hn => ?_⟩
  · obtain ⟨i, e', he', _, hu⟩ | ⟨i, e', he', _, ha⟩ := hn "job-1" r hlog hr hp
    · exact hout e' (List.mem_of_getElem? he') hu
    · rw [he] at he'
      rw [List.mem_singleton.mp (List.mem_of_getElem? he')] at ha
      exact ha hd
  · exact hn 0 e "job-1" r h₀ hd hj hr hp

/-! ## Processing jobs -/

/-- Every job that is being processed has an open entry. -/
def NoStuckJob (w : World) : Prop :=
  ∀ j r, w.submissions j = some r → r.state = "processing" → HasOpenEntry w j

/-- The branches that acknowledge a message whose update was rejected. -/
def AckSite.rejects : AckSite → Bool
  | .poison => false
  | .claimRejected => true
  | .doneOrStale => true
  | .notFound => true
  | .finalizeRejected _ => true
  | .finalized _ => false

/-- Attempt `a` of the job was started for the entry `i`. -/
def startedFor (w : World) (j : String) (a i : Nat) : Bool :=
  w.log.any fun
    | .started j' a' _ (some i') => j' = j && a' = a && i' = i
    | _ => false

/-- The current attempt of the job is running and was started for the entry `i`. -/
def carries (w : World) (j : String) (i : Nat) : Bool :=
  match w.submissions j with
  | some r => r.state = "processing" && startedFor w j r.attemptID i
  | none => false

/-- The update would take effect. -/
def takesEffect (w : World) (j : String) (op : RowOp) : Bool :=
  match w.submissions j with
  | some r => (op.exec w.dbNow r).isSome
  | none => false

/-- The entry is acknowledged. -/
def isAcked (w : World) (i : Nat) : Bool :=
  match w.stream[i]? with
  | some e => e.delivery = .acked
  | none => false

/-- The job the entry names. -/
def entryJob (w : World) (i : Nat) : String :=
  (w.stream[i]?.bind fun e => requiredStreamField e.values.jobID).getD ""

/-- No entry is acknowledged in a reject branch while the running attempt of its
job was started for it, and no attempt is started for an acknowledged entry. -/
def keepsCarrier : Guard := fun w q served =>
  match q with
  | .xack i site => !served || !site.rejects || !carries w (entryJob w i) i
  | .update j op (some i) =>
    !served || op.starts.isNone || !takesEffect w j op || !isAcked w i
  | _ => true

theorem startedFor_iff {w : World} {j : String} {a i : Nat} :
    startedFor w j a i = true ↔ ∃ o, Started w j a o i := by
  unfold startedFor Started
  rw [List.any_eq_true]
  constructor
  · rintro ⟨ev, hev, hb⟩
    split at hb
    · rename_i j' a' o i'
      simp only [Bool.and_eq_true, decide_eq_true_eq] at hb
      obtain ⟨⟨rfl, rfl⟩, rfl⟩ := hb
      exact ⟨o, hev⟩
    · cases hb
  · rintro ⟨o, ho⟩
    exact ⟨_, ho, by simp⟩

theorem entryJob_eq {w : World} {i : Nat} {j : String} (h : EntryFor w i j) :
    entryJob w i = j := by
  obtain ⟨e, he, hj⟩ := h
  simp only [entryJob, he, Option.bind_some, hj, Option.getD_some]

theorem carries_eq {w : World} {j : String} {i : Nat} {r : Submission} {o : String}
    (hr : w.submissions j = some r) (hp : r.state = "processing")
    (hs : Started w j r.attemptID o i) : carries w j i = true := by
  have h : startedFor w j r.attemptID i = true := startedFor_iff.mpr ⟨o, hs⟩
  simp only [carries, hr, hp, h, decide_true, Bool.and_self]

theorem keepsCarrier_xack {w : World} {i : Nat} {site : AckSite}
    (h : keepsCarrier w (.xack i site) true = true) (hs : site.rejects = true) :
    carries w (entryJob w i) i = false := by
  simpa [keepsCarrier, hs] using h

theorem keepsCarrier_update {w : World} {j o : String} {op : RowOp} {i v : Nat}
    {r r' : Submission} (h : keepsCarrier w (.update j op (some i)) true = true)
    (ho : op.starts = some o) (hr : w.submissions j = some r)
    (hx : op.exec w.dbNow r = some (r', v)) : isAcked w i = false := by
  simpa [keepsCarrier, ho, takesEffect, hr, hx] using h

/-- Every running attempt was started for an entry of its job that is open. -/
def Carried (w : World) : Prop :=
  ∀ j r, w.submissions j = some r → r.state = "processing" →
    ∃ o i e, Started w j r.attemptID o i ∧ w.stream[i]? = some e ∧
      requiredStreamField e.values.jobID = some j ∧ e.delivery ≠ .acked

/-- An entry is acknowledged only when its job has moved on from the attempt that
was started for it. -/
theorem not_carries_of_ack {w : World} {i : Nat} {j : String} {site : AckSite}
    {r : Submission} (hj : AckJustified w i j site) (hentry : EntryFor w i j)
    (hg : keepsCarrier w (.xack i site) true = true) (hr : w.submissions j = some r)
    (hp : r.state = "processing") {o : String} : ¬ Started w j r.attemptID o i := by
  intro hst
  have hdone : ¬ RowDone w j := by
    rintro ⟨r', hr', hd⟩
    rw [hr] at hr'
    cases hr'
    rw [hp] at hd
    simp at hd
  have hreject : site.rejects = true → False := by
    intro hsite
    have hc : carries w (entryJob w i) i = false := keepsCarrier_xack hg hsite
    rw [entryJob_eq hentry, carries_eq hr hp hst] at hc
    cases hc
  cases site with
  | poison => exact hdone hj
  | finalized a => exact hdone hj.2
  | claimRejected => exact hreject rfl
  | doneOrStale => exact hreject rfl
  | notFound => exact hreject rfl
  | finalizeRejected a => exact hreject rfl

theorem Carried.move {w w' : World} (hc : Carried w) (x : Extends w w')
    (hm : Moved keepsCarrier w w') : Carried w' := by
  intro j r' hr' hp'
  obtain hr | hpend | ⟨op, via, r, v, hr, hx, hj, hP, hw⟩ := hm.row hr'
  · -- the row stays; so does its open entry, unless the move acknowledges it
    obtain ⟨o, i, e, hst, he, hje, hd⟩ := hc j r' hr hp'
    obtain ⟨e', he', hv⟩ := x.grows.stream i e he
    refine ⟨o, i, e', hst.grows x.grows, he', by rw [hv]; exact hje, fun hd' => ?_⟩
    obtain ⟨e₀, he₀, hv₀, ha | ⟨site, ⟨j', hentry, hack⟩, hP, _⟩⟩ := hm.acked he' hd'
    · rw [he] at he₀
      cases he₀
      exact hd ha
    · have hjj : j' = j := by
        obtain ⟨e₁, he₁, hj₁⟩ := hentry
        rw [he] at he₁
        cases he₁
        rw [hje] at hj₁
        exact (Option.some.inj hj₁).symm
      subst hjj
      exact not_carries_of_ack hack hentry hP hr hp' hst
  · rw [hpend] at hp'
    simp at hp'
  · have hstream : w'.stream = w.stream := by
      rw [hw]
      exact (recordUpdate_eq (w.setRow j r') j op via v).2.1
    cases ho : op.starts with
    | some o =>
      -- a new attempt, started for an entry that is open
      obtain ⟨_, ha, _⟩ := starts_of_exec ho hx
      have hvia : ∃ i, via = some i ∧ EntryFor w i j ∧ Started w' j v o i := by
        cases op with
        | claim o' l =>
          cases ho
          obtain ⟨i, rfl, he⟩ := hj
          exact ⟨i, rfl, he, by rw [hw]; exact List.mem_cons_self⟩
        | reclaim o' l =>
          cases ho
          obtain ⟨i, rfl, he⟩ := hj
          exact ⟨i, rfl, he, by rw [hw]; exact List.mem_cons_self⟩
        | refresh a o' l => cases ho
        | finalize a o' st m => cases ho
        | poison code msg => cases ho
        | updateResult st m => cases ho
      obtain ⟨i, rfl, ⟨e, he, hje⟩, hst⟩ := hvia
      have hopen : isAcked w i = false := keepsCarrier_update hP ho hr hx
      simp only [isAcked, he, decide_eq_false_iff_not] at hopen
      exact ⟨o, i, e, ha ▸ hst, hstream ▸ he, hje, hopen⟩
    | none =>
      obtain ⟨ha, hd | ⟨hst, _⟩⟩ := keeps_of_exec ho hx
      · rw [hd] at hp'
        simp at hp'
      · obtain ⟨o, i, e, hs₀, he, hje, hd⟩ := hc j r hr (hst ▸ hp')
        exact ⟨o, i, e, ha ▸ hs₀.grows x.grows, hstream ▸ he, hje, hd⟩

theorem Carried.noStuckJob {w : World} (h : Carried w) : NoStuckJob w := by
  intro j r hr hp
  obtain ⟨_, i, e, _, he, hj, hd⟩ := h j r hr hp
  exact ⟨i, e, he, hj, hd⟩

/-- The execution of attempt `a` acknowledges its entry only when the row is done
or has a newer attempt. -/
theorem superseded_of_ack {w : World} (hs : Sane w) {i a : Nat} {j : String} {site : AckSite}
    (hsite : site = .finalized a ∨ site = .finalizeRejected a) (hentry : EntryFor w i j)
    (hj : AckJustified w i j site) (hg : keepsCarrier w (.xack i site) true = true) :
    ∃ r, w.submissions j = some r ∧ (r.state = "done" ∨ a < r.attemptID) := by
  rcases hsite with rfl | rfl
  · obtain ⟨_, r, hr, hd⟩ := hj
    exact ⟨r, hr, .inl hd⟩
  · obtain ⟨o, ho⟩ := id hj
    obtain ⟨_, r, hr, ha, hp⟩ := hs.started j a o _ ho
    refine ⟨r, hr, ?_⟩
    rcases hs.states j r hr with hpend | hproc | hdone
    · exact absurd hpend hp
    · -- the running attempt was not started for this entry
      have hne : r.attemptID ≠ a := by
        intro heq
        subst heq
        exact not_carries_of_ack hj hentry hg hr hproc ho
      exact .inr (by omega)
    · exact .inl hdone

/-- In a run in which no reject branch acknowledges the entry its job's running
attempt was started for, and no attempt is started for an acknowledged entry:
every job that is being processed has an open entry, and an execution
acknowledges its entry only when the row is done or has a newer attempt. -/
theorem no_stuck_job {s : State} (h : system.Reach (OnSent keepsCarrier) start s) :
    NoStuckJob s.world ∧
      ∀ n c i a site, s.nextAt n = some (.request (.xack i site)) →
        (site = .finalized a ∨ site = .finalizeRejected a) → c.served = true →
        OnSent keepsCarrier s (.call n c) →
        ∃ j r, EntryFor s.world i j ∧ s.world.submissions j = some r ∧
          (r.state = "done" ∨ a < r.attemptID) := by
  obtain ⟨hs, hc⟩ := world_invariant (J := Carried)
    (fun j r hr => by simp [World.empty] at hr) (fun _ _ _ _ x hm hc => hc.move x hm) h
  refine ⟨hc.noStuckJob, fun n c i a site hn hsite hserved hok => ?_⟩
  have hgood := (sound_contract (OnSent keepsCarrier)).reach good_start h
  obtain ⟨j, hentry, hack⟩ : ∃ j, EntryFor s.world i j ∧ AckJustified s.world i j site :=
    hgood.allowedAt hn
  have hg : keepsCarrier s.world (.xack i site) true = true := hserved ▸ hok.guard hn
  obtain ⟨r, hr, hd⟩ := superseded_of_ack hs hsite hentry hack hg
  exact ⟨j, r, hentry, hr, hd⟩

/-- Deliver entry 0 to `w1` and claim it; thread 2 runs attempt 1 up to its verdict. -/
def judged (verdict : String) : List Step :=
  [.env (.deliver (worker "w1") 0), .call 2 (.ok { uuid := "t1" })] ++ calls 2 4 ++
    [.call 2 (.ok { outcome := .judged verdict 10 1000 })]

/-- A worker claims the job and stops. -/
theorem no_stuck_job_crash :
    let s := system.play (OnSent keepsCarrier) start (submitted ++ judged "Accepted" ++ [.crash 2])
    (∃ r, s.world.submissions "job-1" = some r ∧ r.state = "processing") ∧
      HasOpenEntry s.world "job-1" := by
  intro s
  have hrow : (s.world.submissions "job-1").map (·.state) = some "processing" := by decide +kernel
  obtain ⟨r, hr, hp⟩ := Option.map_eq_some_iff.mp hrow
  have hreach : system.Reach (OnSent keepsCarrier) start s :=
    system.reach_play (OnSent keepsCarrier) .init _
  exact ⟨⟨r, hr, hp⟩, (no_stuck_job hreach).1 "job-1" r hr hp⟩

/-- Attempt 1 finalizes after its lease has run out and nobody has reclaimed the
job: the finalize is rejected, and the entry is acknowledged. -/
def leaseRanOut : List Step :=
  submitted ++ judged "Accepted" ++ calls 2 2 ++ calls 3 2 ++ calls 2 2 ++
    [.env (.dbTick 61000000)] ++ calls 2 2 ++ [.call 2 (.ok { now := 61000000 })]

/-- The job of that run is stuck: its only entry is acknowledged while attempt 1 is
still the current one. -/
theorem stuck_job : ∃ s s', system.Reach Conc.Machine.anyMove start s ∧
    s.nextAt 2 = some (.request (.xack 0 (.finalizeRejected 1))) ∧
    (s.world.submissions "job-1").map (fun r => (r.state, r.attemptID)) = some ("processing", 1) ∧
    system.step s (.call 2 done) = some s' ∧
    system.Reach Conc.Machine.anyMove start s' ∧ ¬ NoStuckJob s'.world := by
  let s := system.play Conc.Machine.anyMove start leaseRanOut
  have hreach : system.Reach Conc.Machine.anyMove start s :=
    system.reach_play Conc.Machine.anyMove .init _
  have hnext : s.nextAt 2 = some (.request (.xack 0 (.finalizeRejected 1))) := by decide +kernel
  have hrow : (s.world.submissions "job-1").map (fun r => (r.state, r.attemptID)) =
      some ("processing", 1) := by decide +kernel
  have hstep : (system.step s (.call 2 done)).map (fun s' =>
      ((s'.world.submissions "job-1").map (·.state), s'.world.stream.map (·.delivery))) =
        some (some "processing", [.acked]) := by decide +kernel
  obtain ⟨s', hs', heq⟩ := Option.map_eq_some_iff.mp hstep
  obtain ⟨hrow', hacked⟩ := Prod.mk.inj heq
  obtain ⟨r, hr, hp⟩ := Option.map_eq_some_iff.mp hrow'
  refine ⟨s, s', hreach, hnext, hrow, hs', .step _ hreach trivial hs', fun hn => ?_⟩
  obtain ⟨i, e, he, _, hd⟩ := hn "job-1" r hr hp
  have hmem : e.delivery ∈ s'.world.stream.map (·.delivery) :=
    List.mem_map_of_mem (List.mem_of_getElem? he)
  rw [hacked] at hmem
  exact hd (List.mem_singleton.mp hmem)

end DeepOj.Cluster
