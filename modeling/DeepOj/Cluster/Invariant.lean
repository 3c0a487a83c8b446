import DeepOj.Cluster.Grows

/-!
# The invariant of the shared world

Every stream entry is complete and names a job that was submitted for judging,
every running attempt was handed out, and every stored result was computed by an
attempt of its job.
-/

namespace DeepOj.Cluster

open Repository Worker Api

/-! ## Facts that stay true -/

/-- The job has a row. -/
def HasRow (w : World) (j : String) : Prop := ∃ r, w.submissions j = some r

/-- The job was created to be judged, not to record a cached result. -/
def Enqueuable (w : World) (j : String) : Prop := ∃ o, o ≠ .cached ∧ LogEvent.created j o ∈ w.log

/-- The attempt was handed out to `o`, for the stream entry `i`. -/
def Started (w : World) (j : String) (a : Nat) (o : String) (i : Nat) : Prop :=
  LogEvent.started j a o (some i) ∈ w.log

/-- The row has a version no older than `r`. -/
def Reached (w : World) (j : String) (r : Submission) : Prop :=
  ∃ r', w.submissions j = some r' ∧ Later r r'

/-- The stream entry `i` is one of job `j`. -/
def EntryFor (w : World) (i : Nat) (j : String) : Prop :=
  ∃ e, w.stream[i]? = some e ∧ requiredStreamField e.values.jobID = some j

/-- The entry has every required field, and names job `j`. -/
def Complete (j : String) (v : StreamValues) : Prop :=
  requiredStreamField v.jobID = some j ∧ missingFields v = []

/-- Attempt `b` of job `j` computed the result `m`. -/
def Computed (w : World) (j : String) (b : Nat) (m : ResultMap) : Prop :=
  ∃ task outcome traceID, LogEvent.executed task b outcome ∈ w.log ∧ task.jobID = j ∧
    reportedResult task b traceID outcome = some m

/-- What `ExecuteTask` can answer when it found `outcome`. -/
inductive Answers (task : TaskRequest) (outcome : JudgeOutcome) :
    TaskResponse → Option String → Prop where
  | busy (err : String) : outcome = .busy err → Answers task outcome ⟨"Busy"⟩ (some err)
  | unsafeJob : isSafeJobID task.jobID = false → Answers task outcome ⟨"Invalid job_id"⟩ none
  | unreported (err : String) : Answers task outcome ⟨"Report failed"⟩ (some err)
  | reported : Answers task outcome ⟨reportedMessage outcome⟩ none

/-- Attempt `a` of job `j` may store the status `st` and the result `m`: from a
result some attempt of the job computed, or from its own answer. -/
def Resolved (w : World) (j : String) (a : Nat) (st : String) (m : ResultMap) : Prop :=
  ∃ task outcome resp err traceID res,
    LogEvent.executed task a outcome ∈ w.log ∧ task.jobID = j ∧ Answers task outcome resp err ∧
    (res = fallbackResult task j a traceID (some resp) err ∨
      ∃ b read, Computed w j b read ∧ res = resultFromReport j a traceID (some resp) err read) ∧
    st = res.1 ∧ m = res.2.set "attempt_id" (.num a)

/-- The row of the job is done. -/
def RowDone (w : World) (j : String) : Prop := ∃ r, w.submissions j = some r ∧ r.state = "done"

/-- The row records that attempt `a` ended the job with the status `st` and the
result `m`. -/
def Recorded (w : World) (j : String) (a : Nat) (st : String) (m : ResultMap) : Prop :=
  ∃ r, w.submissions j = some r ∧ r.state = "done" ∧ r.attemptID = a ∧ r.status = st ∧
    r.result = some m

/-- The row holds the cached result `m`. -/
def CacheStored (w : World) (j : String) (m : ResultMap) : Prop :=
  ∃ r, w.submissions j = some r ∧ r.state = "done" ∧ r.status = cachedStatus m ∧
    r.result = some m

/-- Where a status reply comes from: the row the handler read, the result key, or
a cached result. -/
inductive ReplyJustified (w : World) (rid : Nat) (j status state : String)
    (data : Option ResultMap) : Prop where
  | row (row : Option Submission) (r : Submission) :
      LogEvent.asked rid j row ∈ w.log → (∀ r₀, row = some r₀ → Later r₀ r) → Reached w j r →
      status = r.status → state = r.state → data = r.result → ReplyJustified w rid j status state data
  | served (row : Option Submission) (m : ResultMap) :
      LogEvent.asked rid j row ∈ w.log → LogEvent.served j m ∈ w.log → status = "Finished" →
      state = "done" → data = some m → ReplyJustified w rid j status state data
  | cached (m : ResultMap) :
      (CacheStored w j m ∨ LogEvent.skipped j ∈ w.log) → status = "Finished" →
      state = "done" → data = some m → ReplyJustified w rid j status state data

section Stable

variable {w w' : World} (g : Grows w w') {j : String} {a i rid : Nat} {o st state : String}
  {r : Submission} {m : ResultMap} {data : Option ResultMap}

include g

theorem HasRow.grows (h : HasRow w j) : HasRow w' j := by
  obtain ⟨r, hr⟩ := h
  obtain ⟨r', hr', _⟩ := g.rows j r hr
  exact ⟨r', hr'⟩

theorem Enqueuable.grows (h : Enqueuable w j) : Enqueuable w' j := by
  obtain ⟨o, ho, hm⟩ := h
  exact ⟨o, ho, g.mem hm⟩

theorem Started.grows (h : Started w j a o i) : Started w' j a o i := g.mem h

theorem Reached.grows (h : Reached w j r) : Reached w' j r := by
  obtain ⟨r', hr', hl⟩ := h
  obtain ⟨r'', hr'', hl'⟩ := g.rows j r' hr'
  exact ⟨r'', hr'', hl.trans hl'⟩

theorem EntryFor.grows (h : EntryFor w i j) : EntryFor w' i j := by
  obtain ⟨e, he, hj⟩ := h
  obtain ⟨e', he', hv⟩ := g.stream i e he
  exact ⟨e', he', by rw [hv]; exact hj⟩

theorem Computed.grows (h : Computed w j a m) : Computed w' j a m := by
  obtain ⟨task, outcome, traceID, hm, hj, hr⟩ := h
  exact ⟨task, outcome, traceID, g.mem hm, hj, hr⟩

theorem Resolved.grows (h : Resolved w j a st m) : Resolved w' j a st m := by
  obtain ⟨task, outcome, resp, err, traceID, res, hm, hj, ha, hres, hst⟩ := h
  refine ⟨task, outcome, resp, err, traceID, res, g.mem hm, hj, ha, hres.imp_right ?_, hst⟩
  rintro ⟨b, read, hc, rfl⟩
  exact ⟨b, read, hc.grows g, rfl⟩

/-- What is known of a finished row stays true. -/
theorem final_grows {P : Submission → Prop}
    (h : ∃ r, w.submissions j = some r ∧ r.state = "done" ∧ P r) :
    ∃ r, w'.submissions j = some r ∧ r.state = "done" ∧ P r := by
  obtain ⟨r, hr, hd, hp⟩ := h
  obtain ⟨r', hr', hl⟩ := g.rows j r hr
  have heq : r' = r := hl.final hd
  subst heq
  exact ⟨r', hr', hd, hp⟩

theorem Recorded.grows (h : Recorded w j a st m) : Recorded w' j a st m := final_grows g h

theorem CacheStored.grows (h : CacheStored w j m) : CacheStored w' j m := final_grows g h

theorem ReplyJustified.grows (h : ReplyJustified w rid j st state data) :
    ReplyJustified w' rid j st state data := by
  cases h with
  | row row r ha hl hr hst hs hd => exact .row row r (g.mem ha) hl (hr.grows g) hst hs hd
  | served row m ha hm hst hs hd => exact .served row m (g.mem ha) (g.mem hm) hst hs hd
  | cached m hc hst hs hd =>
    exact .cached m (hc.imp (fun h => h.grows g) fun h => g.mem h) hst hs hd

end Stable

/-! ## The invariant -/

/-- The invariant of the world. -/
structure Sane (w : World) : Prop where
  entries : ∀ (i : Nat) (e : StreamEntry), w.stream[i]? = some e →
    ∃ j, Complete j e.values ∧ Enqueuable w j
  events : ∀ (i : Nat) (e : OutboxEvent), w.outbox[i]? = some e →
    UUIDText e.jobID ∧ Enqueuable w e.jobID
  created : ∀ j o, .created j o ∈ w.log → HasRow w j
  origin : ∀ j o o', .created j o ∈ w.log → .created j o' ∈ w.log → o = o'
  states : ∀ j r, w.submissions j = some r →
    r.state = "pending" ∨ r.state = "processing" ∨ r.state = "done"
  started : ∀ j a o via, .started j a o via ∈ w.log → Enqueuable w j ∧
    ∃ r, w.submissions j = some r ∧ a ≤ r.attemptID ∧ r.state ≠ "pending"
  startedOnce : ∀ j a o via o' via', .started j a o via ∈ w.log → .started j a o' via' ∈ w.log →
    o = o' ∧ via = via'
  running : ∀ j r, w.submissions j = some r → r.state = "processing" →
    r.status = "running" ∧ ∃ o i, r.leaseOwner = some o ∧ Started w j r.attemptID o i
  executed : ∀ task b outcome, .executed task b outcome ∈ w.log →
    ∃ o i, Started w task.jobID b o i
  finalized : ∀ j a st m, .finalized j a st m ∈ w.log →
    Resolved w j a st m ∧ Recorded w j a st m
  inspected : ∀ j r, .inspected j (some r) ∈ w.log → Reached w j r
  results : ∀ ns j v, w.redis ⟨ns, .result j⟩ = some v →
    ∃ b m, v = .result m ∧ Computed w j b m
  asked : ∀ rid j row, .asked rid j row ∈ w.log → rid < w.requests
  askedOnce : ∀ rid j row j' row', .asked rid j row ∈ w.log → .asked rid j' row' ∈ w.log →
    j = j' ∧ row = row'
  replied : ∀ rid j st state data, .replied rid (.status j st state data) ∈ w.log →
    ReplyJustified w rid j st state data

theorem sane_empty : Sane World.empty where
  entries := fun i e h => by simp [World.empty] at h
  events := fun i e h => by simp [World.empty] at h
  created := fun j o h => by simp [World.empty] at h
  origin := fun j o o' h => by simp [World.empty] at h
  states := fun j r h => by simp [World.empty] at h
  started := fun j a o via h => by simp [World.empty] at h
  startedOnce := fun j a o via o' via' h => by simp [World.empty] at h
  running := fun j r h => by simp [World.empty] at h
  executed := fun task b outcome h => by simp [World.empty] at h
  finalized := fun j a st m h => by simp [World.empty] at h
  inspected := fun j r h => by simp [World.empty] at h
  results := fun ns j v h => by simp [World.empty] at h
  asked := fun rid j row h => by simp [World.empty] at h
  askedOnce := fun rid j row j' row' h => by simp [World.empty] at h
  replied := fun rid j st state data h => by simp [World.empty] at h

/-- A job in the stream or the outbox is not the record of a cached result. -/
theorem Sane.not_cached {w : World} (h : Sane w) {j : String} (he : Enqueuable w j) :
    LogEvent.created j .cached ∉ w.log := by
  intro hc
  obtain ⟨o, ho, hm⟩ := he
  exact ho (h.origin j o .cached hm hc)

theorem Sane.hasRow {w : World} (h : Sane w) {j : String} (he : Enqueuable w j) : HasRow w j := by
  obtain ⟨o, _, hm⟩ := he
  exact h.created j o hm

theorem Sane.entry_enqueuable {w : World} (h : Sane w) {i : Nat} {j : String}
    (he : EntryFor w i j) : Enqueuable w j := by
  obtain ⟨e, he, hj⟩ := he
  obtain ⟨j', ⟨hj', _⟩, hen⟩ := h.entries i e he
  rw [hj] at hj'
  cases hj'
  exact hen

/-! ## What a step may add -/

/-- The conditions on a new event of the history. -/
def NewEvent (w w' : World) : LogEvent → Prop
  | .created j _ => w.submissions j = none ∧ HasRow w' j
  | .started j a _ _ => Enqueuable w j ∧ (∀ r, w.submissions j = some r → r.attemptID < a) ∧
      ∃ r, w'.submissions j = some r ∧ a ≤ r.attemptID ∧ r.state ≠ "pending"
  | .executed task b _ => ∃ o i, Started w task.jobID b o i
  | .finalized j a st m => Resolved w j a st m ∧ Recorded w' j a st m
  | .inspected j row => ∀ r, row = some r → w.submissions j = some r
  | .asked rid _ _ => rid = w.requests ∧ rid < w'.requests
  | .replied rid (.status j st state data) => ReplyJustified w rid j st state data
  | .replied _ (.error _) => True
  | .replied _ (.queuing _) => True
  | .served _ _ => True
  | .skipped _ => True

/-- The conditions on a new version of a row. -/
def NewRow (w' : World) (j : String) (r : Submission) : Prop :=
  (r.state = "pending" ∨ r.state = "processing" ∨ r.state = "done") ∧
    (r.state = "processing" → r.status = "running" ∧
      ∃ o i, r.leaseOwner = some o ∧ Started w' j r.attemptID o i)

/-- Everything `w'` adds to `w` is justified. -/
structure Extends (w w' : World) : Prop where
  grows : Grows w w'
  entries : ∀ (i : Nat) (e : StreamEntry), w'.stream[i]? = some e →
    (∃ e₀, w.stream[i]? = some e₀ ∧ e.values = e₀.values) ∨ ∃ j, Complete j e.values ∧ Enqueuable w j
  events : ∀ (i : Nat) (e : OutboxEvent), w'.outbox[i]? = some e →
    (∃ e₀, w.outbox[i]? = some e₀ ∧ e.jobID = e₀.jobID) ∨ (UUIDText e.jobID ∧ Enqueuable w' e.jobID)
  log : w'.log = w.log ∨ ∃ ev, w'.log = ev :: w.log ∧ NewEvent w w' ev
  rows : ∀ j r, w'.submissions j = some r → w.submissions j = some r ∨ NewRow w' j r
  redis : ∀ ns j v, w'.redis ⟨ns, .result j⟩ = some v →
    w.redis ⟨ns, .result j⟩ = some v ∨ ∃ b m, v = .result m ∧ Computed w j b m
  requests : w.requests ≤ w'.requests

/-- An event of the new history is an old one or the new one. -/
theorem Extends.mem_log {w w' : World} (x : Extends w w') {ev : LogEvent} (h : ev ∈ w'.log) :
    ev ∈ w.log ∨ (NewEvent w w' ev ∧ w'.log = ev :: w.log) := by
  obtain hl | ⟨ev', hl, hn⟩ := x.log
  · exact .inl (hl ▸ h)
  · rw [hl] at h
    rcases List.mem_cons.mp h with rfl | h
    · exact .inr ⟨hn, hl⟩
    · exact .inl h

/-- Of two events of the new history, an old one and a new one or one and the same. -/
theorem Extends.mem_log₂ {w w' : World} (x : Extends w w') {ev ev' : LogEvent} (h : ev ∈ w'.log)
    (h' : ev' ∈ w'.log) :
    (ev ∈ w.log ∧ ev' ∈ w.log) ∨ (ev ∈ w.log ∧ NewEvent w w' ev') ∨
      (NewEvent w w' ev ∧ ev' ∈ w.log) ∨ ev = ev' := by
  obtain ho | ⟨hn, hl⟩ := x.mem_log h
  · obtain ho' | ⟨hn', _⟩ := x.mem_log h'
    · exact .inl ⟨ho, ho'⟩
    · exact .inr (.inl ⟨ho, hn'⟩)
  · rw [hl] at h'
    rcases List.mem_cons.mp h' with rfl | h'
    · exact .inr (.inr (.inr rfl))
    · exact .inr (.inr (.inl ⟨hn, h'⟩))

/-- A justified step keeps the invariant. -/
theorem Sane.extend {w w' : World} (h : Sane w) (x : Extends w w') : Sane w' where
  entries := fun i e he => by
    obtain ⟨e₀, he₀, hv⟩ | ⟨j, hc, hen⟩ := x.entries i e he
    · obtain ⟨j, hc, hen⟩ := h.entries i e₀ he₀
      exact ⟨j, by rw [hv]; exact hc, hen.grows x.grows⟩
    · exact ⟨j, hc, hen.grows x.grows⟩
  events := fun i e he => by
    obtain ⟨e₀, he₀, hj⟩ | hnew := x.events i e he
    · obtain ⟨hu, hen⟩ := h.events i e₀ he₀
      rw [hj]
      exact ⟨hu, hen.grows x.grows⟩
    · exact hnew
  created := fun j o hm => by
    obtain hm | ⟨hn, _⟩ := x.mem_log hm
    · exact (h.created j o hm).grows x.grows
    · exact hn.2
  origin := fun j o o' hm hm' => by
    -- a row is created only where there was none
    have hclash : ∀ o₁, .created j o₁ ∈ w.log → w.submissions j = none → False := by
      intro o₁ h₁ hnone
      obtain ⟨r, hr⟩ := h.created j o₁ h₁
      rw [hnone] at hr
      cases hr
    obtain ⟨ho, ho'⟩ | ⟨ho, hn⟩ | ⟨hn, ho⟩ | heq := x.mem_log₂ hm hm'
    · exact h.origin j o o' ho ho'
    · exact absurd hn.1 (hclash o ho)
    · exact absurd hn.1 (hclash o' ho)
    · cases heq; rfl
  states := fun j r hr => by
    obtain hr | hn := x.rows j r hr
    · exact h.states j r hr
    · exact hn.1
  started := fun j a o via hm => by
    obtain hm | ⟨⟨hen, _, hr⟩, _⟩ := x.mem_log hm
    · obtain ⟨hen, r, hr, ha, hs⟩ := h.started j a o via hm
      obtain ⟨r', hr', hl⟩ := x.grows.rows j r hr
      exact ⟨hen.grows x.grows, r', hr', ha.trans hl.attempt, hl.started hs⟩
    · exact ⟨hen.grows x.grows, hr⟩
  startedOnce := fun j a o via o' via' hm hm' => by
    -- a new attempt number is above every number handed out before
    have hclash : ∀ o₁ via₁, .started j a o₁ via₁ ∈ w.log →
        ¬ ∀ r, w.submissions j = some r → r.attemptID < a := by
      intro o₁ via₁ h₁ hlt
      obtain ⟨_, r, hr, ha, _⟩ := h.started j a o₁ via₁ h₁
      have := hlt r hr
      omega
    obtain ⟨ho, ho'⟩ | ⟨ho, hn⟩ | ⟨hn, ho⟩ | heq := x.mem_log₂ hm hm'
    · exact h.startedOnce j a o via o' via' ho ho'
    · exact absurd hn.2.1 (hclash o via ho)
    · exact absurd hn.2.1 (hclash o' via' ho)
    · cases heq; exact ⟨rfl, rfl⟩
  running := fun j r hr hp => by
    obtain hr | hn := x.rows j r hr
    · obtain ⟨hst, o, i, ho, hs⟩ := h.running j r hr hp
      exact ⟨hst, o, i, ho, hs.grows x.grows⟩
    · exact hn.2 hp
  executed := fun task b outcome hm => by
    obtain hm | ⟨⟨o, i, hs⟩, _⟩ := x.mem_log hm
    · obtain ⟨o, i, hs⟩ := h.executed task b outcome hm
      exact ⟨o, i, hs.grows x.grows⟩
    · exact ⟨o, i, hs.grows x.grows⟩
  finalized := fun j a st m hm => by
    obtain hm | ⟨hn, _⟩ := x.mem_log hm
    · obtain ⟨hres, hrec⟩ := h.finalized j a st m hm
      exact ⟨hres.grows x.grows, hrec.grows x.grows⟩
    · exact ⟨hn.1.grows x.grows, hn.2⟩
  inspected := fun j r hm => by
    obtain hm | ⟨hn, _⟩ := x.mem_log hm
    · exact (h.inspected j r hm).grows x.grows
    · exact Reached.grows x.grows ⟨r, hn r rfl, .refl r⟩
  results := fun ns j v hv => by
    obtain hv | ⟨b, m, hm, hc⟩ := x.redis ns j v hv
    · obtain ⟨b, m, hm, hc⟩ := h.results ns j v hv
      exact ⟨b, m, hm, hc.grows x.grows⟩
    · exact ⟨b, m, hm, hc.grows x.grows⟩
  asked := fun rid j row hm => by
    obtain hm | ⟨hn, _⟩ := x.mem_log hm
    · exact lt_of_lt_of_le (h.asked rid j row hm) x.requests
    · exact hn.2
  askedOnce := fun rid j row j' row' hm hm' => by
    have hclash : ∀ j₁ row₁, .asked rid j₁ row₁ ∈ w.log → rid ≠ w.requests := fun j₁ row₁ h₁ =>
      Nat.ne_of_lt (h.asked rid j₁ row₁ h₁)
    obtain ⟨ho, ho'⟩ | ⟨ho, hn⟩ | ⟨hn, ho⟩ | heq := x.mem_log₂ hm hm'
    · exact h.askedOnce rid j row j' row' ho ho'
    · exact absurd hn.1 (hclash j row ho)
    · exact absurd hn.1 (hclash j' row' ho)
    · cases heq; exact ⟨rfl, rfl⟩
  replied := fun rid j st state data hm => by
    obtain hm | ⟨hn, _⟩ := x.mem_log hm
    · exact (h.replied rid j st state data hm).grows x.grows
    · exact ReplyJustified.grows x.grows hn

end DeepOj.Cluster
