import DeepOj.Conc.Run
import DeepOj.Repository.Fencing
import DeepOj.Repository.Outbox
import DeepOj.Sql.Retention

/-!
# The garbage collection of the database

Schedulers delete the submissions that have long been done and the outbox events that have
long been delivered, batch by batch, while the services go on writing to both tables.
-/

namespace DeepOj.Scheduler.GcLoop

open Repository Sql Conc

/-! ## The two tables -/

/-- A row of `outbox_events` with its `updated_at`. -/
structure Event extends OutboxEvent where
  updatedAt : Nat
  deriving DecidableEq

/-- `state = 'done' AND updated_at < $1`. -/
def doneSubmissions : Kind Submission String where
  id := (·.jobID)
  updatedAt := (·.updatedAt)
  finished := fun row => row.state = "done"

/-- `status = 'delivered' AND updated_at < $1`. -/
def deliveredEvents : Kind Event String where
  id := (·.jobID)
  updatedAt := (·.updatedAt)
  finished := fun e => e.status = outboxStatusDelivered

/-- A statement of the dispatchers, on one event. -/
inductive EventOp where
  | claim (base cap : Nat) (r : ℚ)
  | dispatched (streamEntryID : Nat)
  | dispatchError (lastError : String)

def EventOp.apply (now : Nat) (op : EventOp) (e : Event) : Event :=
  match op with
  | .claim base cap r => if e.Claimable now then ⟨claimOutboxEvent now base cap r e.toOutboxEvent, now⟩ else e
  | .dispatched streamEntryID => ⟨markOutboxDispatched now streamEntryID e.toOutboxEvent, now⟩
  | .dispatchError lastError =>
    if e.dispatchedAt = none then ⟨markOutboxDispatchError lastError e.toOutboxEvent, now⟩ else e

/-! ## The settings -/

/-- The part of `ControlPlaneConfig` that concerns the database. -/
structure GcConfig where
  dbRetentionDays : Int
  dbDeleteEnabled : Bool
  dbDeleteBatch : Int
  deriving DecidableEq, Repr

def defaultDBDeleteBatchSize : Int := 500

/-- The batch size of both loops. -/
def gcBatch (cfg : GcConfig) : Nat :=
  (if cfg.dbDeleteBatch ≤ 0 then defaultDBDeleteBatchSize else cfg.dbDeleteBatch).toNat

theorem gcBatch_pos (cfg : GcConfig) : 0 < gcBatch cfg := by
  unfold gcBatch defaultDBDeleteBatchSize
  split <;> omega

/-- `-time.Duration(days) * 24 * time.Hour`, in nanoseconds. The product wraps. -/
def retention (days : Int) : Int := (-days * 24 * 3600000000000).bmod 18446744073709551616

/-- The cutoff, in microseconds as the database stores it. -/
def gcCutoff (days : Int) (now : Nat) : Int := (now * 1000 + retention days) / 1000

/-- Up to 106751 days the cutoff is so many days ago. -/
theorem gcCutoff_eq {days : Int} (h₀ : 0 < days) (h : days ≤ 106751) (now : Nat) :
    gcCutoff days now = now - days * 86400000000 := by
  have hmod : retention days = -days * 24 * 3600000000000 := by
    unfold retention
    rw [Int.bmod_eq_of_le] <;> omega
  unfold gcCutoff
  rw [hmod]
  omega

/-- One day more, and it lies in the future. -/
example : (0 : Int) < gcCutoff 106752 0 := by decide

/-! ## The cycles -/

/-- Where a cycle has got to. A dry run ends after its estimates. -/
inductive Phase where
  | estimateOutbox
  | planned
  | submissions
  | outbox
  | done
  | failed
  deriving DecidableEq, Repr

/-- `runGCCycle`, from its first query on. -/
structure Cycle where
  cfg : GcConfig
  startedAt : Nat
  phase : Phase
  submissions : Kind.Counter
  outbox : Kind.Counter
  deriving DecidableEq, Repr

def Cycle.cutoff (c : Cycle) : Int := gcCutoff c.cfg.dbRetentionDays c.startedAt

/-- A row that a cycle has deleted. -/
structure Erased (R : Type) where
  cycle : Nat
  row : R

structure State where
  dbNow : Nat := 0
  submissions : List Submission := []
  outbox : List Event := []
  cycles : List Cycle := []
  erased : List (Erased Submission) := []
  erasedEvents : List (Erased Event) := []

/-- How a statement ends: it may have been carried out although an error is reported. -/
inductive Outcome where
  | ok
  | failed
  | lost
  deriving DecidableEq, Repr

/-- The `DELETE` of `deleteOldDoneSubmissions`. -/
def State.deleteOldDoneSubmissions (s : State) (i : Nat) (c : Cycle) : State :=
  { s with
    submissions := doneSubmissions.deleteOldest c.cutoff (gcBatch c.cfg) s.submissions
    erased := (doneSubmissions.targets c.cutoff (gcBatch c.cfg) s.submissions).map (⟨i, ·⟩) ++ s.erased }

/-- The `DELETE` of `deleteOldOutboxEvents`. -/
def State.deleteOldOutboxEvents (s : State) (i : Nat) (c : Cycle) : State :=
  { s with
    outbox := deliveredEvents.deleteOldest c.cutoff (gcBatch c.cfg) s.outbox
    erasedEvents := (deliveredEvents.targets c.cutoff (gcBatch c.cfg) s.outbox).map (⟨i, ·⟩) ++ s.erasedEvents }

def State.setCycle (s : State) (i : Nat) (c : Cycle) : State := { s with cycles := s.cycles.set i c }

/-- The next statement of a cycle. -/
def State.advance (s : State) (i : Nat) (c : Cycle) (outcome : Outcome) : Option State :=
  match c.phase, outcome with
  | .estimateOutbox, .ok =>
    some (s.setCycle i
      { c with
        outbox := ⟨deliveredEvents.countOld c.cutoff s.outbox, 0, 0⟩
        phase := if c.cfg.dbDeleteEnabled then .submissions else .planned })
  | .estimateOutbox, _ => some (s.setCycle i { c with phase := .failed })
  | .submissions, .ok =>
    let deleted := (doneSubmissions.targets c.cutoff (gcBatch c.cfg) s.submissions).length
    some ((s.deleteOldDoneSubmissions i c).setCycle i
      { c with
        submissions := c.submissions.add deleted
        phase := if deleted < gcBatch c.cfg then .outbox else .submissions })
  | .submissions, .failed => some (s.setCycle i { c with phase := .failed })
  | .submissions, .lost => some ((s.deleteOldDoneSubmissions i c).setCycle i { c with phase := .failed })
  | .outbox, .ok =>
    let deleted := (deliveredEvents.targets c.cutoff (gcBatch c.cfg) s.outbox).length
    some ((s.deleteOldOutboxEvents i c).setCycle i
      { c with
        outbox := c.outbox.add deleted
        phase := if deleted < gcBatch c.cfg then .done else .outbox })
  | .outbox, .failed => some (s.setCycle i { c with phase := .failed })
  | .outbox, .lost => some ((s.deleteOldOutboxEvents i c).setCycle i { c with phase := .failed })
  | _, _ => none

inductive Move where
  | tick (d : Nat)
  | insert (row : Submission)
  | insertEvent (e : Event)
  | statement (jobID : String) (op : RowOp)
  | eventStatement (jobID : String) (op : EventOp)
  /-- A scheduler begins a cycle, on its own clock. -/
  | begin (cfg : GcConfig) (now : Nat)
  | advance (cycle : Nat) (outcome : Outcome)

/-- One step of a cycle, or of another process. -/
def step (s : State) : Move → Option State
  | .tick d => some { s with dbNow := s.dbNow + d }
  | .insert row =>
    if row.jobID ∈ s.submissions.map (·.jobID) then none
    else some { s with
      submissions := s.submissions ++ [{ row with createdAt := s.dbNow, updatedAt := s.dbNow }] }
  | .insertEvent e =>
    if e.jobID ∈ s.outbox.map (·.jobID) then none
    else some { s with outbox := s.outbox ++ [{ e with updatedAt := s.dbNow }] }
  | .statement jobID op =>
    some { s with
      submissions := s.submissions.map fun row => if row.jobID = jobID then op.apply s.dbNow row else row }
  | .eventStatement jobID op =>
    some { s with outbox := s.outbox.map fun e => if e.jobID = jobID then op.apply s.dbNow e else e }
  | .begin cfg now =>
    if cfg.dbRetentionDays ≤ 0 then none
    else
      let estimate := doneSubmissions.countOld (gcCutoff cfg.dbRetentionDays now) s.submissions
      some { s with cycles := s.cycles ++ [⟨cfg, now, .estimateOutbox, ⟨estimate, 0, 0⟩, ⟨0, 0, 0⟩⟩] }
  | .advance i outcome =>
    match s.cycles[i]? with
    | some c => s.advance i c outcome
    | none => none

/-- The retention is a number of days that fits, and the clock of the scheduler is not ahead
of the clock of the database by as much. -/
def InTime (s : State) : Move → Prop
  | .begin cfg now =>
    cfg.dbRetentionDays ≤ 106751 ∧ (now : Int) ≤ s.dbNow + cfg.dbRetentionDays * 86400000000
  | _ => True

instance (s : State) (m : Move) : Decidable (InTime s m) := by
  cases m <;> unfold InTime <;> infer_instance

/-! ## What one step keeps -/

/-- The settings of the cycle are in time. -/
structure Cycle.Timely (c : Cycle) (dbNow : Nat) : Prop where
  days : 0 < c.cfg.dbRetentionDays ∧ c.cfg.dbRetentionDays ≤ 106751
  cutoff : c.cutoff ≤ dbNow

/-- What a cycle has counted, given where it has got to. -/
def Cycle.Sound (c : Cycle) (submissions : List Submission) (outbox : List Event) : Prop :=
  match c.phase with
  | .estimateOutbox =>
    Kind.Counting doneSubmissions c.cutoff (gcBatch c.cfg) submissions c.submissions ∧ c.outbox = ⟨0, 0, 0⟩
  | .submissions =>
    Kind.Counting doneSubmissions c.cutoff (gcBatch c.cfg) submissions c.submissions ∧
      Kind.Counting deliveredEvents c.cutoff (gcBatch c.cfg) outbox c.outbox
  | .outbox =>
    Kind.Counted doneSubmissions c.cutoff (gcBatch c.cfg) submissions c.submissions ∧
      Kind.Counting deliveredEvents c.cutoff (gcBatch c.cfg) outbox c.outbox
  | .done =>
    Kind.Counted doneSubmissions c.cutoff (gcBatch c.cfg) submissions c.submissions ∧
      Kind.Counted deliveredEvents c.cutoff (gcBatch c.cfg) outbox c.outbox
  | _ => True

/-- No loop of the cycle needs more statements than its estimate promises. -/
structure Cycle.Bounded (c : Cycle) : Prop where
  submissions : c.submissions.statements ≤ c.submissions.estimate / gcBatch c.cfg + 1
  outbox : c.outbox.statements ≤ c.outbox.estimate / gcBatch c.cfg + 1

structure Inv (s : State) : Prop where
  ids : (s.submissions.map doneSubmissions.id).Nodup
  eventIDs : (s.outbox.map deliveredEvents.id).Nodup
  timely : ∀ c ∈ s.cycles, c.Timely s.dbNow
  sound : ∀ c ∈ s.cycles, c.Sound s.submissions s.outbox
  bounded : ∀ c ∈ s.cycles, c.Bounded
  erased : ∀ x ∈ s.erased, ∃ c, s.cycles[x.cycle]? = some c ∧ doneSubmissions.Old c.cutoff x.row
  erasedEvents : ∀ x ∈ s.erasedEvents, ∃ c, s.cycles[x.cycle]? = some c ∧ deliveredEvents.Old c.cutoff x.row

section Step

variable {s s' : State} {m : Move} {i : Nat} {c c' : Cycle}

theorem Cycle.Sound.mono {submissions submissions' : List Submission} {outbox outbox' : List Event}
    (h : c.Sound submissions outbox)
    (hs : doneSubmissions.countOld c.cutoff submissions' ≤ doneSubmissions.countOld c.cutoff submissions)
    (ho : deliveredEvents.countOld c.cutoff outbox' ≤ deliveredEvents.countOld c.cutoff outbox) :
    c.Sound submissions' outbox' := by
  unfold Cycle.Sound at h ⊢
  split at h
  · exact ⟨h.1.mono hs, h.2⟩
  · exact ⟨h.1.mono hs, h.2.mono ho⟩
  · exact ⟨h.1.mono hs, h.2.mono ho⟩
  · exact ⟨h.1.mono hs, h.2.mono ho⟩
  · trivial

/-- A step that is no cycle's. -/
theorem Inv.write (h : Inv s) {submissions : List Submission} {outbox : List Event} {dbNow : Nat}
    (hnow : s.dbNow ≤ dbNow) (hids : (submissions.map doneSubmissions.id).Nodup)
    (heventIDs : (outbox.map deliveredEvents.id).Nodup)
    (hs : ∀ cutoff ≤ (s.dbNow : Int), doneSubmissions.countOld cutoff submissions ≤
      doneSubmissions.countOld cutoff s.submissions)
    (ho : ∀ cutoff ≤ (s.dbNow : Int), deliveredEvents.countOld cutoff outbox ≤
      deliveredEvents.countOld cutoff s.outbox) :
    Inv { s with dbNow, submissions, outbox } where
  ids := hids
  eventIDs := heventIDs
  timely := fun c hc => ⟨(h.timely c hc).days, (h.timely c hc).cutoff.trans (Int.ofNat_le.mpr hnow)⟩
  sound := fun c hc => (h.sound c hc).mono (hs _ (h.timely c hc).cutoff) (ho _ (h.timely c hc).cutoff)
  bounded := h.bounded
  erased := h.erased
  erasedEvents := h.erasedEvents

/-- A cycle gets on, with the settings it has. -/
theorem Inv.setCycle (h : Inv s) (hc : s.cycles[i]? = some c) (hcfg : c'.cfg = c.cfg)
    (hstarted : c'.startedAt = c.startedAt) (hsound : c'.Sound s.submissions s.outbox) (hbounded : c'.Bounded) :
    Inv (s.setCycle i c') := by
  have hcut : c'.cutoff = c.cutoff := by unfold Cycle.cutoff; rw [hcfg, hstarted]
  have hlt : i < s.cycles.length := (List.getElem?_eq_some_iff.mp hc).1
  have hold : ∀ (k : Nat) (d : Cycle), s.cycles[k]? = some d →
      ∃ d', (s.cycles.set i c')[k]? = some d' ∧ d'.cutoff = d.cutoff := by
    intro k d hd
    by_cases hk : i = k
    · subst hk
      rw [hc] at hd
      cases hd
      exact ⟨c', List.getElem?_set_self hlt, hcut⟩
    · exact ⟨d, by rw [List.getElem?_set_ne hk]; exact hd, rfl⟩
  refine ⟨h.ids, h.eventIDs, fun d hd => ?_, fun d hd => ?_, fun d hd => ?_, fun x hx => ?_, fun x hx => ?_⟩
  · rcases List.mem_or_eq_of_mem_set hd with hd | rfl
    · exact h.timely d hd
    · have ht := h.timely c (List.mem_of_getElem? hc)
      exact ⟨by rw [hcfg]; exact ht.days, hcut.trans_le ht.cutoff⟩
  · rcases List.mem_or_eq_of_mem_set hd with hd | rfl
    · exact h.sound d hd
    · exact hsound
  · rcases List.mem_or_eq_of_mem_set hd with hd | rfl
    · exact h.bounded d hd
    · exact hbounded
  · obtain ⟨d, hd, hx⟩ := h.erased x hx
    obtain ⟨d', hd', hcut⟩ := hold _ d hd
    exact ⟨d', hd', by rw [hcut]; exact hx⟩
  · obtain ⟨d, hd, hx⟩ := h.erasedEvents x hx
    obtain ⟨d', hd', hcut⟩ := hold _ d hd
    exact ⟨d', hd', by rw [hcut]; exact hx⟩

theorem Inv.deleteOldDoneSubmissions (h : Inv s) (hc : s.cycles[i]? = some c) :
    Inv (s.deleteOldDoneSubmissions i c) where
  ids := h.ids.sublist (Kind.deleteOldest_sublist.map _)
  eventIDs := h.eventIDs
  timely := h.timely
  sound := fun d hd => (h.sound d hd).mono (Kind.countOld_deleteOldest_le _) (le_refl _)
  bounded := h.bounded
  erased := fun x hx => by
    rcases List.mem_append.mp hx with hx | hx
    · obtain ⟨row, hrow, rfl⟩ := List.mem_map.mp hx
      exact ⟨c, hc, (Kind.mem_targets hrow).2⟩
    · exact h.erased x hx
  erasedEvents := h.erasedEvents

theorem Inv.deleteOldOutboxEvents (h : Inv s) (hc : s.cycles[i]? = some c) :
    Inv (s.deleteOldOutboxEvents i c) where
  ids := h.ids
  eventIDs := h.eventIDs.sublist (Kind.deleteOldest_sublist.map _)
  timely := h.timely
  sound := fun d hd => (h.sound d hd).mono (le_refl _) (Kind.countOld_deleteOldest_le _)
  bounded := h.bounded
  erased := h.erased
  erasedEvents := fun x hx => by
    rcases List.mem_append.mp hx with hx | hx
    · obtain ⟨e, he, rfl⟩ := List.mem_map.mp hx
      exact ⟨c, hc, (Kind.mem_targets he).2⟩
    · exact h.erasedEvents x hx

/-- The next statement of a cycle keeps all counts right. -/
theorem inv_advance {outcome : Outcome} (h : Inv s) (hc : s.cycles[i]? = some c)
    (hstep : s.advance i c outcome = some s') : Inv s' := by
  have hmem := List.mem_of_getElem? hc
  have hsound := h.sound c hmem
  have hbounded := h.bounded c hmem
  have hfailed : Inv (s.setCycle i { c with phase := .failed }) :=
    h.setCycle hc rfl rfl trivial ⟨hbounded.submissions, hbounded.outbox⟩
  unfold State.advance at hstep
  split at hstep
  · -- the second estimate
    rename_i hphase
    simp only [Cycle.Sound, hphase] at hsound
    cases hstep
    refine h.setCycle hc rfl rfl ?_ ⟨hbounded.submissions, Nat.zero_le _⟩
    cases c.cfg.dbDeleteEnabled with
    | true => exact ⟨hsound.1, Kind.counting_start s.outbox⟩
    | false => trivial
  · cases hstep
    exact hfailed
  · -- a batch of submissions
    rename_i hphase
    simp only [Cycle.Sound, hphase] at hsound
    cases hstep
    have hrest : Kind.Counting deliveredEvents c.cutoff (gcBatch c.cfg)
        (s.deleteOldDoneSubmissions i c).outbox c.outbox :=
      hsound.2
    refine (h.deleteOldDoneSubmissions hc).setCycle hc rfl rfl ?_ ?_
    · by_cases hfew : (doneSubmissions.targets c.cutoff (gcBatch c.cfg) s.submissions).length < gcBatch c.cfg
      · simp only [Cycle.Sound, if_pos hfew]
        exact ⟨hsound.1.last h.ids hfew, hrest⟩
      · simp only [Cycle.Sound, if_neg hfew]
        exact ⟨hsound.1.again h.ids hfew, hrest⟩
    · refine ⟨?_, hbounded.outbox⟩
      have hle := hsound.1.statements_le (gcBatch_pos c.cfg)
      simp only [Kind.Counter.add]
      omega
  · cases hstep
    exact hfailed
  · cases hstep
    exact (h.deleteOldDoneSubmissions hc).setCycle hc rfl rfl trivial ⟨hbounded.submissions, hbounded.outbox⟩
  · -- a batch of events
    rename_i hphase
    simp only [Cycle.Sound, hphase] at hsound
    cases hstep
    have hrest : Kind.Counted doneSubmissions c.cutoff (gcBatch c.cfg)
        (s.deleteOldOutboxEvents i c).submissions c.submissions :=
      hsound.1
    refine (h.deleteOldOutboxEvents hc).setCycle hc rfl rfl ?_ ?_
    · by_cases hfew : (deliveredEvents.targets c.cutoff (gcBatch c.cfg) s.outbox).length < gcBatch c.cfg
      · simp only [Cycle.Sound, if_pos hfew]
        exact ⟨hrest, hsound.2.last h.eventIDs hfew⟩
      · simp only [Cycle.Sound, if_neg hfew]
        exact ⟨hrest, hsound.2.again h.eventIDs hfew⟩
    · refine ⟨hbounded.submissions, ?_⟩
      have hle := hsound.2.statements_le (gcBatch_pos c.cfg)
      simp only [Kind.Counter.add]
      omega
  · cases hstep
    exact hfailed
  · cases hstep
    exact (h.deleteOldOutboxEvents hc).setCycle hc rfl rfl trivial ⟨hbounded.submissions, hbounded.outbox⟩
  · cases hstep

/-- A new row has a new identity. -/
theorem nodup_append_id {R : Type} {kind : Kind R String} {rows : List R} {r : R}
    (h : (rows.map kind.id).Nodup) (hnew : kind.id r ∉ rows.map kind.id) :
    ((rows ++ [r]).map kind.id).Nodup := by
  rw [List.map_append, List.map_singleton]
  exact List.nodup_append.mpr ⟨h, List.nodup_singleton _, fun a ha b hb => by
    rw [List.mem_singleton.mp hb]
    exact fun heq => hnew (heq ▸ ha)⟩

/-- A statement leaves a submission alone, or writes the time. -/
theorem statement_updates (now : Nat) (jobID : String) (op : RowOp) (row : Submission) :
    ((if row.jobID = jobID then op.apply now row else row) = row ∨
      (if row.jobID = jobID then op.apply now row else row).updatedAt = now) ∧
    (if row.jobID = jobID then op.apply now row else row).jobID = row.jobID := by
  split
  · cases hx : op.exec now row with
    | none =>
      rw [RowOp.apply_of_none hx]
      exact ⟨.inl rfl, rfl⟩
    | some p =>
      obtain ⟨row', v⟩ := p
      rw [RowOp.apply_of_some hx]
      exact ⟨.inr (updatedAt_of_exec hx), jobID_of_exec hx⟩
  · exact ⟨.inl rfl, rfl⟩

/-- So does a statement on an event. -/
theorem eventOp_updates (now : Nat) (op : EventOp) (e : Event) :
    (op.apply now e = e ∨ (op.apply now e).updatedAt = now) ∧ (op.apply now e).jobID = e.jobID := by
  cases op with
  | claim base cap r =>
    simp only [EventOp.apply]
    split
    · exact ⟨.inr rfl, rfl⟩
    · exact ⟨.inl rfl, rfl⟩
  | dispatched streamEntryID => exact ⟨.inr rfl, rfl⟩
  | dispatchError lastError =>
    simp only [EventOp.apply]
    split
    · rename_i hd
      exact ⟨.inr rfl, by simp [markOutboxDispatchError, hd]⟩
    · exact ⟨.inl rfl, rfl⟩

theorem inv_step (h : Inv s) (hok : InTime s m) (hstep : step s m = some s') : Inv s' := by
  cases m with
  | tick d =>
    cases hstep
    exact h.write (Nat.le_add_right _ _) h.ids h.eventIDs (fun _ _ => le_refl _) fun _ _ => le_refl _
  | insert row =>
    simp only [step] at hstep
    split at hstep
    · cases hstep
    · rename_i hnew
      cases hstep
      refine h.write (le_refl _) (nodup_append_id h.ids hnew) h.eventIDs (fun cutoff hle => ?_)
        fun _ _ => le_refl _
      exact (Kind.countOld_append hle).le
  | insertEvent e =>
    simp only [step] at hstep
    split at hstep
    · cases hstep
    · rename_i hnew
      cases hstep
      refine h.write (le_refl _) h.ids (nodup_append_id h.eventIDs hnew) (fun _ _ => le_refl _)
        fun cutoff hle => ?_
      exact (Kind.countOld_append hle).le
  | statement jobID op =>
    cases hstep
    refine h.write (le_refl _) ?_ h.eventIDs (fun cutoff hle => Kind.countOld_map_le fun row => ?_)
      fun _ _ => le_refl _
    · rw [List.map_map, show doneSubmissions.id ∘ _ = doneSubmissions.id from
        funext fun row => (statement_updates s.dbNow jobID op row).2]
      exact h.ids
    · obtain heq | hu := (statement_updates s.dbNow jobID op row).1
      · exact .inl heq
      · exact .inr (hle.trans (Int.ofNat_le.mpr hu.ge))
  | eventStatement jobID op =>
    cases hstep
    refine h.write (le_refl _) h.ids ?_ (fun _ _ => le_refl _) fun cutoff hle =>
      Kind.countOld_map_le fun e => ?_
    · rw [List.map_map, show deliveredEvents.id ∘ _ = deliveredEvents.id from funext fun e => ?_]
      · exact h.eventIDs
      · show (if e.jobID = jobID then op.apply s.dbNow e else e).jobID = e.jobID
        split
        · exact (eventOp_updates s.dbNow op e).2
        · rfl
    · split
      · obtain heq | hu := (eventOp_updates s.dbNow op e).1
        · exact .inl heq
        · exact .inr (hle.trans (Int.ofNat_le.mpr hu.ge))
      · exact .inl rfl
  | begin cfg now =>
    simp only [step] at hstep
    split at hstep
    · cases hstep
    · rename_i hdays
      cases hstep
      have hpos : 0 < cfg.dbRetentionDays := by omega
      have hgrow : ∀ {k : Nat} {d : Cycle}, s.cycles[k]? = some d → ∀ d', (s.cycles ++ [d'])[k]? = some d :=
        fun hd d' => (List.getElem?_append_left (List.getElem?_eq_some_iff.mp hd).1).trans hd
      refine ⟨h.ids, h.eventIDs, fun c hc => ?_, fun c hc => ?_, fun c hc => ?_, fun x hx => ?_, fun x hx => ?_⟩
      · rcases List.mem_append.mp hc with hc | hc
        · exact h.timely c hc
        · obtain rfl := List.mem_singleton.mp hc
          refine ⟨⟨hpos, hok.1⟩, ?_⟩
          have hcut := gcCutoff_eq hpos hok.1 now
          have hclock := hok.2
          simp only [Cycle.cutoff, hcut]
          omega
      · rcases List.mem_append.mp hc with hc | hc
        · exact h.sound c hc
        · obtain rfl := List.mem_singleton.mp hc
          exact ⟨Kind.counting_start s.submissions, rfl⟩
      · rcases List.mem_append.mp hc with hc | hc
        · exact h.bounded c hc
        · obtain rfl := List.mem_singleton.mp hc
          exact ⟨Nat.zero_le _, Nat.zero_le _⟩
      · obtain ⟨d, hd, hx⟩ := h.erased x hx
        exact ⟨d, hgrow hd _, hx⟩
      · obtain ⟨d, hd, hx⟩ := h.erasedEvents x hx
        exact ⟨d, hgrow hd _, hx⟩
  | advance i outcome =>
    simp only [step] at hstep
    split at hstep
    · rename_i c hc
      exact inv_advance h hc hstep
    · cases hstep

theorem inv_run (h : Run step InTime {} s) : Inv s := by
  refine Run.invariant (J := Inv) ?_ (fun _ _ _ hinv hok hstep => inv_step hinv hok hstep) h
  exact ⟨List.nodup_nil, List.nodup_nil, fun _ hc => absurd hc List.not_mem_nil,
    fun _ hc => absurd hc List.not_mem_nil,
    fun _ hc => absurd hc List.not_mem_nil, fun _ hx => absurd hx List.not_mem_nil, fun _ hx =>
      absurd hx List.not_mem_nil⟩

/-! ## What becomes of a row -/

/-- A submission is kept, in a later version, or erased as it is. -/
theorem submission_step (h : Inv s) (hstep : step s m = some s') {row : Submission}
    (hrow : row ∈ s.submissions) :
    (∃ row' ∈ s'.submissions, row'.jobID = row.jobID ∧ Later row row') ∨ ∃ x ∈ s'.erased, x.row = row := by
  have hsame : ∃ row' ∈ s.submissions, row'.jobID = row.jobID ∧ Later row row' := ⟨row, hrow, rfl, .refl row⟩
  have hdelete : ∀ i c,
      (∃ row' ∈ (s.deleteOldDoneSubmissions i c).submissions, row'.jobID = row.jobID ∧ Later row row') ∨
      ∃ x ∈ (s.deleteOldDoneSubmissions i c).erased, x.row = row := fun i c => by
    obtain hkept | ⟨d, hd, hid⟩ := doneSubmissions.mem_deleteOldest c.cutoff (gcBatch c.cfg) hrow
    · exact .inl ⟨row, hkept, rfl, .refl row⟩
    · have heq : d = row := List.inj_on_of_nodup_map h.ids (Kind.mem_targets hd).1 hrow hid
      exact .inr ⟨⟨i, d⟩, List.mem_append_left _ (List.mem_map_of_mem hd), heq⟩
  cases m with
  | tick d => cases hstep; exact .inl hsame
  | insert row' =>
    simp only [step] at hstep
    split at hstep <;> cases hstep
    exact .inl ⟨row, List.mem_append_left _ hrow, rfl, .refl row⟩
  | insertEvent e =>
    simp only [step] at hstep
    split at hstep <;> cases hstep
    exact .inl hsame
  | statement jobID op =>
    cases hstep
    refine .inl ⟨_, List.mem_map_of_mem hrow, (statement_updates s.dbNow jobID op row).2, ?_⟩
    split
    · exact later_apply _ op row
    · exact .refl row
  | eventStatement jobID op => cases hstep; exact .inl hsame
  | begin cfg now =>
    simp only [step] at hstep
    split at hstep <;> cases hstep
    exact .inl hsame
  | advance i outcome =>
    simp only [step] at hstep
    split at hstep
    · rename_i c hc
      unfold State.advance at hstep
      split at hstep <;> cases hstep
      case h_3 => exact hdelete i c
      case h_5 => exact hdelete i c
      all_goals exact .inl hsame
    · cases hstep

/-- So is an event. -/
theorem event_step (hstep : step s m = some s') {e : Event} (he : e ∈ s.outbox) :
    (∃ e' ∈ s'.outbox, e'.jobID = e.jobID) ∨ ∃ x ∈ s'.erasedEvents, x.row.jobID = e.jobID := by
  have hsame : ∃ e' ∈ s.outbox, e'.jobID = e.jobID := ⟨e, he, rfl⟩
  have hdelete : ∀ i c, (∃ e' ∈ (s.deleteOldOutboxEvents i c).outbox, e'.jobID = e.jobID) ∨
      ∃ x ∈ (s.deleteOldOutboxEvents i c).erasedEvents, x.row.jobID = e.jobID := fun i c => by
    obtain hkept | ⟨d, hd, hid⟩ := deliveredEvents.mem_deleteOldest c.cutoff (gcBatch c.cfg) he
    · exact .inl ⟨e, hkept, rfl⟩
    · exact .inr ⟨⟨i, d⟩, List.mem_append_left _ (List.mem_map_of_mem hd), hid⟩
  cases m with
  | tick d => cases hstep; exact .inl hsame
  | insert row =>
    simp only [step] at hstep
    split at hstep <;> cases hstep
    exact .inl hsame
  | insertEvent e' =>
    simp only [step] at hstep
    split at hstep <;> cases hstep
    exact .inl ⟨e, List.mem_append_left _ he, rfl⟩
  | statement jobID op => cases hstep; exact .inl hsame
  | eventStatement jobID op =>
    cases hstep
    refine .inl ⟨_, List.mem_map_of_mem he, ?_⟩
    split
    · exact (eventOp_updates s.dbNow op e).2
    · rfl
  | begin cfg now =>
    simp only [step] at hstep
    split at hstep <;> cases hstep
    exact .inl hsame
  | advance i outcome =>
    simp only [step] at hstep
    split at hstep
    · rename_i c hc
      unfold State.advance at hstep
      split at hstep <;> cases hstep
      case h_6 => exact hdelete i c
      case h_8 => exact hdelete i c
      all_goals exact .inl hsame
    · cases hstep

/-- What has been erased is not forgotten. -/
theorem erased_subset (hstep : step s m = some s') :
    s.erased ⊆ s'.erased ∧ s.erasedEvents ⊆ s'.erasedEvents := by
  cases m with
  | advance i outcome =>
    simp only [step] at hstep
    split at hstep
    · unfold State.advance at hstep
      split at hstep <;> cases hstep
      case h_3 => exact ⟨List.subset_append_right _ _, List.Subset.refl _⟩
      case h_5 => exact ⟨List.subset_append_right _ _, List.Subset.refl _⟩
      case h_6 => exact ⟨List.Subset.refl _, List.subset_append_right _ _⟩
      case h_8 => exact ⟨List.Subset.refl _, List.subset_append_right _ _⟩
      all_goals exact ⟨List.Subset.refl _, List.Subset.refl _⟩
    · cases hstep
  | tick d => cases hstep; exact ⟨List.Subset.refl _, List.Subset.refl _⟩
  | statement jobID op => cases hstep; exact ⟨List.Subset.refl _, List.Subset.refl _⟩
  | eventStatement jobID op => cases hstep; exact ⟨List.Subset.refl _, List.Subset.refl _⟩
  | insert row =>
    simp only [step] at hstep
    split at hstep <;> cases hstep
    exact ⟨List.Subset.refl _, List.Subset.refl _⟩
  | insertEvent e =>
    simp only [step] at hstep
    split at hstep <;> cases hstep
    exact ⟨List.Subset.refl _, List.Subset.refl _⟩
  | begin cfg now =>
    simp only [step] at hstep
    split at hstep <;> cases hstep
    exact ⟨List.Subset.refl _, List.Subset.refl _⟩

/-- In any run each submission is kept, in a later version, or has been erased as it was. -/
theorem submission_run {s₀ : State} (h₀ : Run step InTime {} s₀) (h : Run step InTime s₀ s) {row : Submission}
    (hrow : row ∈ s₀.submissions) :
    (∃ row' ∈ s.submissions, row'.jobID = row.jobID ∧ Later row row') ∨
      ∃ x ∈ s.erased, x.row.jobID = row.jobID ∧ Later row x.row := by
  induction h with
  | init => exact .inl ⟨row, hrow, rfl, .refl row⟩
  | step m hrun _ hstep ih =>
    obtain ⟨row₁, hrow₁, hjob₁, hlater₁⟩ | ⟨x, hx, hjob, hlater⟩ := ih
    · obtain ⟨row', hrow', hjob', hlater'⟩ | ⟨x, hx, rfl⟩ :=
        submission_step (inv_run (h₀.trans hrun)) hstep hrow₁
      · exact .inl ⟨row', hrow', hjob'.trans hjob₁, hlater₁.trans hlater'⟩
      · exact .inr ⟨x, hx, hjob₁, hlater₁⟩
    · exact .inr ⟨x, (erased_subset hstep).1 hx, hjob, hlater⟩

theorem event_run {s₀ : State} (h : Run step InTime s₀ s) {e : Event} (he : e ∈ s₀.outbox) :
    (∃ e' ∈ s.outbox, e'.jobID = e.jobID) ∨ ∃ x ∈ s.erasedEvents, x.row.jobID = e.jobID := by
  induction h with
  | init => exact .inl ⟨e, he, rfl⟩
  | step m _ _ hstep ih =>
    obtain ⟨e₁, he₁, hjob₁⟩ | ⟨x, hx, hjob⟩ := ih
    · obtain ⟨e', he', hjob'⟩ | ⟨x, hx, hjob⟩ := event_step hstep he₁
      · exact .inl ⟨e', he', hjob'.trans hjob₁⟩
      · exact .inr ⟨x, hx, hjob.trans hjob₁⟩
    · exact .inr ⟨x, (erased_subset hstep).2 hx, hjob⟩

end Step

/-- Some cycle that started late enough has deleted the row. -/
def ErasedLate {R : Type} (kind : Kind R String) (s : State) (x : Erased R) : Prop :=
  kind.finished x.row = true ∧ ∃ c, s.cycles[x.cycle]? = some c ∧
    (kind.updatedAt x.row : Int) + c.cfg.dbRetentionDays * 86400000000 < c.startedAt

theorem erasedLate {R : Type} {kind : Kind R String} {s : State} (hinv : Inv s) {x : Erased R}
    (hx : ∃ c, s.cycles[x.cycle]? = some c ∧ kind.Old c.cutoff x.row) : ErasedLate kind s x := by
  obtain ⟨c, hc, hfinished, hold⟩ := hx
  refine ⟨hfinished, c, hc, ?_⟩
  have hdays := (hinv.timely c (List.mem_of_getElem? hc)).days
  have hcut := gcCutoff_eq hdays.1 hdays.2 c.startedAt
  simp only [Cycle.cutoff, hcut] at hold
  omega

/-- In any run of any number of schedulers next to the other writers, no submission and no
event is lost but a submission that is done, or an event that is delivered, and was last
written a retention before the cycle that deletes it. -/
theorem gc_deletes_only_old {s₀ s : State} (h₀ : Run step InTime {} s₀) (h : Run step InTime s₀ s) :
    (∀ row ∈ s₀.submissions, (∃ row' ∈ s.submissions, row'.jobID = row.jobID ∧ Later row row') ∨
      ∃ x ∈ s.erased, x.row.jobID = row.jobID ∧ Later row x.row ∧ ErasedLate doneSubmissions s x) ∧
    ∀ e ∈ s₀.outbox, (∃ e' ∈ s.outbox, e'.jobID = e.jobID) ∨
      ∃ x ∈ s.erasedEvents, x.row.jobID = e.jobID ∧ ErasedLate deliveredEvents s x := by
  have hinv := inv_run (h₀.trans h)
  refine ⟨fun row hrow => ?_, fun e he => ?_⟩
  · refine (submission_run h₀ h hrow).imp_right ?_
    rintro ⟨x, hx, hjob, hlater⟩
    exact ⟨x, hx, hjob, hlater, erasedLate hinv (hinv.erased x hx)⟩
  · refine (event_run h he).imp_right ?_
    rintro ⟨x, hx, hjob⟩
    exact ⟨x, hx, hjob, erasedLate hinv (hinv.erasedEvents x hx)⟩

/-- A row of a job. -/
def oldRow (jobID : String) : Submission where
  jobID := jobID
  problemID := none
  userID := some 7
  code := "int main"
  language := 1
  timeLimit := 1000
  memoryLimit := 65536
  attemptID := 0
  leaseOwner := none
  leaseUntil := none
  status := "pending"
  state := "pending"
  errorCode := none
  errorMessage := none
  result := none
  createdAt := 0
  updatedAt := 0

/-- Two submissions, one of which is done. -/
def oldRows : List Move :=
  [.insert (oldRow "a"), .insert (oldRow "b"), .statement "a" (.updateResult "Accepted" [])]

/-- Fifteen days later a scheduler deletes what is older than fourteen. -/
def oneCycle : List Move :=
  [.tick 1296000000000, .begin ⟨14, true, 0⟩ 1296000000000, .advance 0 .ok, .advance 0 .ok, .advance 0 .ok]

def afterOldRows : State := playAll step InTime {} oldRows

def afterOneCycle : State := playAll step InTime afterOldRows oneCycle

/-- The submission that is not done stays. -/
theorem gc_deletes_only_old_sample :
    afterOneCycle.submissions.map (·.jobID) = ["b"] ∧
      ∀ row ∈ afterOldRows.submissions, (∃ row' ∈ afterOneCycle.submissions,
        row'.jobID = row.jobID ∧ Later row row') ∨
        ∃ x ∈ afterOneCycle.erased, x.row.jobID = row.jobID ∧ Later row x.row ∧
          ErasedLate doneSubmissions afterOneCycle x :=
  ⟨by decide +kernel, (gc_deletes_only_old (Run.init.playAll oldRows) (Run.init.playAll oneCycle)).1⟩

end DeepOj.Scheduler.GcLoop
