import DeepOj.Api.HandlerSpec
import DeepOj.Cluster.Moves
import DeepOj.Cluster.RepairSystem

/-!
# The task that is judged

A submission travels from its row through the outbox or a repair cycle, the payload key
and the stream to a worker. Whatever path it takes, and however the paths cross, what is
judged is what the row asks for.
-/

namespace DeepOj.Cluster

open Repository Worker Api Go Conc
open Scheduler (RepairCandidate repairCandidate SameSubmission sameSubmission_apply)
open Scheduler.RepairCycle (fetchRepairCandidates mem_fetchRepairCandidates)

/-- The two numbers are the same number of 32 bits. -/
def SameInt32 (m n : Int) : Prop := m % 2 ^ 32 = n % 2 ^ 32

/-- The task asks for what the row records, in the 32 bit numbers of the message. A row
without a problem leaves the problem of the task open. -/
structure AsksFor (task : TaskRequest) (row : Submission) : Prop where
  jobID : task.jobID = row.jobID
  code : task.code = row.code
  language : SameInt32 task.language row.language
  timeLimit : SameInt32 task.timeLimit row.timeLimit
  memoryLimit : SameInt32 task.memoryLimit row.memoryLimit
  problemID : ∀ p, row.problemID = some p → SameInt32 task.problemID p

theorem AsksFor.of_same {task : TaskRequest} {row row' : Submission} (h : AsksFor task row)
    (hs : SameSubmission row row') : AsksFor task row' where
  jobID := h.jobID.trans hs.jobID.symm
  code := h.code.trans hs.code.symm
  language := by rw [hs.language]; exact h.language
  timeLimit := by rw [hs.timeLimit]; exact h.timeLimit
  memoryLimit := by rw [hs.memoryLimit]; exact h.memoryLimit
  problemID := fun p hp => h.problemID p (hs.problemID.symm.trans hp)

theorem AsksFor.of_same_symm {task : TaskRequest} {row row' : Submission} (h : AsksFor task row')
    (hs : SameSubmission row row') : AsksFor task row :=
  h.of_same ⟨hs.jobID.symm, hs.problemID.symm, hs.code.symm, hs.language.symm, hs.timeLimit.symm,
    hs.memoryLimit.symm⟩

/-- The trace id is no part of what is asked for. -/
theorem AsksFor.setTrace {task : TaskRequest} {row : Submission} (h : AsksFor task row) (tr : String) :
    AsksFor { task with traceID := tr } row :=
  ⟨h.jobID, h.code, h.language, h.timeLimit, h.memoryLimit, h.problemID⟩

/-- The task of a new submission. -/
theorem asksFor_newTask (j : String) (caller : Caller) (req : SubmitRequest) (k : RedisKey) (ts : Nat) :
    AsksFor (newTask j caller req k ts) (newSubmission j caller.userID req) where
  jobID := rfl
  code := rfl
  language := rfl
  timeLimit := rfl
  memoryLimit := rfl
  problemID := by
    intro p hp
    simp only [newSubmission] at hp
    split at hp
    · cases hp
      show ((req.problemID % 2 ^ 32).toNat : Int) % 2 ^ 32 = (req.problemID.toNat : Int) % 2 ^ 32
      omega
    · cases hp

theorem sameInt32_ofInt (n : Int) : SameInt32 (Int32.ofInt n).toInt n := by
  unfold SameInt32
  rw [Int32.toInt_ofInt]
  exact Int.bmod_emod

theorem sameInt32_ofUInt32 (n : Nat) : SameInt32 ((UInt32.ofInt n).toNat : Int) n := by
  unfold SameInt32 UInt32.ofInt
  rw [UInt32.toNat_ofNat']
  omega

/-- The task of a repaired row. -/
theorem asksFor_repairedTask (row : Submission) : AsksFor (repairedTask (repairCandidate row)) row where
  jobID := rfl
  code := rfl
  language := sameInt32_ofInt row.language
  timeLimit := sameInt32_ofInt row.timeLimit
  memoryLimit := sameInt32_ofInt row.memoryLimit
  problemID := by
    intro p hp
    show SameInt32 ((UInt32.ofInt ((row.problemID.getD 0 : Nat) : Int)).toNat : Int) p
    rw [hp]
    exact sameInt32_ofUInt32 p

/-! ## The invariant -/

/-- The task is for job `j`, and asks for what its row records. -/
def TaskOf (w : World) (j : String) (task : TaskRequest) : Prop :=
  task.jobID = j ∧ ∃ row, w.submissions j = some row ∧ AsksFor task row

/-- Attempt `a` of job `j` has judged a task. -/
def Judged (w : World) (j : String) (a : Nat) : Prop :=
  ∃ task outcome, LogEvent.executed task a outcome ∈ w.log ∧ task.jobID = j

/-- The fields of an entry name its job and the payload of that job. -/
def NamesPayload (v : StreamValues) : Prop :=
  ∃ j, v.jobID = some j ∧ v.payloadRef = some (payloadKey j)

/-- A row of job `j`: it waits, it is running under a lease, or it is done. -/
structure RowSound (j : String) (row : Submission) : Prop where
  jobID : row.jobID = j
  uuid : UUIDText j
  state : row.state = "pending" ∨
    (row.state = "processing" ∧ row.status = "running" ∧ ∃ t, row.leaseUntil = some t) ∨ row.state = "done"

/-- Every copy of a task is a task of its job. -/
structure Faithful (w : World) : Prop where
  rows : ∀ j row, w.submissions j = some row → RowSound j row ∧ j ∈ w.jobs
  events : ∀ (i : Nat) (e : OutboxEvent), w.outbox[i]? = some e → TaskOf w e.jobID e.payload
  payloads : ∀ ns j v, w.redis ⟨ns, .payload j⟩ = some v →
    ∃ task, v = buildPayloadEnvelope task ∧ TaskOf w j task
  entries : ∀ (i : Nat) (e : StreamEntry), w.stream[i]? = some e → NamesPayload e.values
  executed : ∀ task b outcome, LogEvent.executed task b outcome ∈ w.log → TaskOf w task.jobID task
  finalized : ∀ j a st m, LogEvent.finalized j a st m ∈ w.log → Judged w j a ∧ Recorded w j a st m

theorem faithful_empty : Faithful World.empty where
  rows := fun j row h => by simp [World.empty] at h
  events := fun i e h => by simp [World.empty] at h
  payloads := fun ns j v h => by simp [World.empty] at h
  entries := fun i e h => by simp [World.empty] at h
  executed := fun task b outcome h => by simp [World.empty] at h
  finalized := fun j a st m h => by simp [World.empty] at h

/-! ## What every step keeps -/

/-- A job that has a row stays listed. -/
theorem jobs_mono {w w' : World} (g : Grows w w') {j : String} (h : j ∈ w.jobs) : j ∈ w'.jobs := by
  obtain ⟨ev, hev, heq⟩ := List.mem_filterMap.mp h
  exact List.mem_filterMap.mpr ⟨ev, g.mem hev, heq⟩

/-- Rows only advance, and keep what was submitted. -/
structure KeepsTasks (w w' : World) : Prop where
  grows : Grows w w'
  rows : ∀ j row, w.submissions j = some row →
    ∃ row', w'.submissions j = some row' ∧ SameSubmission row row'

theorem KeepsTasks.refl (w : World) : KeepsTasks w w := ⟨.refl w, fun _ row h => ⟨row, h, .refl row⟩⟩

theorem KeepsTasks.trans {w₁ w₂ w₃ : World} (h₁ : KeepsTasks w₁ w₂) (h₂ : KeepsTasks w₂ w₃) :
    KeepsTasks w₁ w₃ where
  grows := h₁.grows.trans h₂.grows
  rows := fun j row h => by
    obtain ⟨row', h', hs⟩ := h₁.rows j row h
    obtain ⟨row'', h'', hs'⟩ := h₂.rows j row' h'
    exact ⟨row'', h'', hs.trans hs'⟩

theorem KeepsTasks.of_eq {w w' : World} (g : Grows w w') (h : w'.submissions = w.submissions) :
    KeepsTasks w w' :=
  ⟨g, fun _ row hr => ⟨row, by rw [h]; exact hr, .refl row⟩⟩

section Stable

variable {w w' : World} (g : KeepsTasks w w') {j : String} {a : Nat} {task : TaskRequest}

include g

theorem TaskOf.keeps (h : TaskOf w j task) : TaskOf w' j task := by
  obtain ⟨hj, row, hr, ha⟩ := h
  obtain ⟨row', hr', hs⟩ := g.rows j row hr
  exact ⟨hj, row', hr', ha.of_same hs⟩

theorem Judged.keeps (h : Judged w j a) : Judged w' j a := by
  obtain ⟨task, outcome, hm, hj⟩ := h
  exact ⟨task, outcome, g.grows.mem hm, hj⟩

end Stable

theorem sameSubmission_exec {now v : Nat} {op : RowOp} {row row' : Submission}
    (h : op.exec now row = some (row', v)) : SameSubmission row row' := by
  have hs : SameSubmission row (op.apply now row) := sameSubmission_apply row ⟨now, op⟩
  rwa [RowOp.apply_of_some h] at hs

/-- The updates keep rows sound. -/
theorem RowSound.exec {now v : Nat} {op : RowOp} {j : String} {row row' : Submission} (hs : RowSound j row)
    (h : op.exec now row = some (row', v)) : RowSound j row' := by
  refine ⟨(sameSubmission_exec h).jobID.trans hs.jobID, hs.uuid, ?_⟩
  cases op with
  | claim o l =>
    obtain ⟨_, _, rfl⟩ := claimSubmissionForRun_eq_some.mp h
    exact .inr (.inl ⟨rfl, rfl, _, rfl⟩)
  | refresh a o l =>
    obtain ⟨⟨_, _, hrun, hp⟩, _, rfl⟩ := refreshSubmissionLease_eq_some.mp h
    exact .inr (.inl ⟨hp, hrun, _, rfl⟩)
  | reclaim o l =>
    obtain ⟨⟨hrun, hp, _⟩, _, rfl⟩ := reclaimSubmissionForRun_eq_some.mp h
    exact .inr (.inl ⟨hp, hrun, _, rfl⟩)
  | finalize a o st m =>
    obtain ⟨_, _, rfl⟩ := finalizeSubmission_eq_some.mp h
    exact .inr (.inr rfl)
  | poison code msg =>
    obtain ⟨_, _, rfl⟩ := markSubmissionPoison_eq_some.mp h
    exact .inr (.inr rfl)
  | updateResult st m =>
    obtain ⟨_, _, rfl⟩ := updateSubmissionResultIfNotDone_eq_some.mp h
    exact .inr (.inr rfl)

/-- A first row changes no other. -/
theorem rows_insertRow {w : World} {s : Submission} (origin : Origin) (h : w.submissions s.jobID = none)
    {j : String} {row : Submission} (hr : w.submissions j = some row) :
    (w.insertRow s origin).submissions j = some row := by
  have hne : j ≠ s.jobID := by
    rintro rfl
    rw [h] at hr
    cases hr
  exact (w.setRow_of_ne hne _).trans hr

theorem keepsTasks_change {w w' : World} {q : Request} (g : Grows w w') (h : Change w q w') :
    KeepsTasks w w' := by
  cases h with
  | same => exact .refl w
  | inspect => exact .of_eq g rfl
  | get => exact .of_eq g (sameData_recordGet w _ _).rows
  | skip _ => exact .of_eq g (sameData_recordSkip w _ _).rows
  | update hr hx =>
    rename_i j op via r r' v
    refine ⟨g, fun j' row hrow => ?_⟩
    rw [(recordUpdate_eq (w.setRow j r') j op via v).1]
    by_cases hj : j' = j
    · subst hj
      rw [hr] at hrow
      cases hrow
      exact ⟨r', w.setRow_self j' r', sameSubmission_exec hx⟩
    · exact ⟨row, (w.setRow_of_ne hj r').trans hrow, .refl row⟩
  | insert hnone => exact ⟨g, fun _ row hr => ⟨row, rows_insertRow _ hnone hr, .refl row⟩⟩
  | insertWithOutbox hnone hw =>
    refine ⟨g, fun j row hr => ⟨row, ?_, .refl row⟩⟩
    rw [hw]
    exact rows_insertRow .outbox hnone hr
  | outbox _ => exact .of_eq g rfl
  | dispatched => exact .of_eq g rfl
  | set _ => exact .of_eq g rfl
  | del => exact .of_eq g rfl
  | xadd => exact .of_eq g rfl
  | xack =>
    refine .of_eq g ?_
    unfold World.xack
    split <;> rfl

theorem keepsTasks_serve (w : World) (ch : Chance) (q : Request) : KeepsTasks w (serve w ch q).1 :=
  keepsTasks_change (grows_serve w ch q) (change_serve w ch q)

theorem keepsTasks_perform {w w' : World} {e : Effect} {c : Fate} {r : e.Reply}
    (h : perform w e c = some (w', r)) : KeepsTasks w w' := by
  have g := grows_perform h
  cases e with
  | request q =>
    obtain ⟨ch, rfl, _⟩ | ⟨rfl, _⟩ := perform_request h
    · exact keepsTasks_serve w ch q
    · exact .of_eq g (sameData_drop w q).rows
  | act a =>
    obtain ⟨ch, ha⟩ := perform_act h
    exact .of_eq g (quiet_actLocally ha).data.rows

theorem keepsTasks_envStep {w w' : World} {v : Env} {ps : List (Program Unit)}
    (h : envStep w v = some (w', ps)) : KeepsTasks w w' := by
  refine .of_eq (grows_envStep h) ?_
  cases change_envStep h with
  | same hd _ => exact hd.rows
  | asked _ _ hd _ => exact hd.rows
  | dbTick => rfl
  | give _ _ => rfl
  | expire => rfl
  | fillCache => rfl

/-! ## What a program must know -/

/-- A row as it is inserted. -/
def NewRowSound (s : Submission) : Prop := UUIDText s.jobID ∧ s.state = "pending"

/-- What a program must know of the tasks it hands on. -/
def Honest : Effect → World → Prop
  | .request (.insert s _), _ => NewRowSound s
  | .request (.insertWithOutbox s event), _ =>
    NewRowSound s ∧ event.jobID = s.jobID ∧ AsksFor event.payload s
  | .request (.set k v), w =>
    ∃ j task, k = payloadKey j ∧ v = buildPayloadEnvelope task ∧ TaskOf w j task
  | .request (.setNX k _), _ => ∀ j, k.name ≠ .payload j
  | .request (.xadd v), _ => NamesPayload v
  | .request (.update j (.finalize a _ _ _) _), w => Judged w j a
  | .act (.judge task _), w => TaskOf w task.jobID task
  | _, _ => True

/-- The contract on tasks. -/
def integrity : Discipline World Effect where
  Inv := Faithful
  Allowed := Honest
  Rely _ := KeepsTasks
  rely_refl _ w := .refl w
  rely_trans _ _ _ _ h₁ h₂ := h₁.trans h₂

/-- The conditions on a new event of the history. -/
def NewFact (w w' : World) : LogEvent → Prop
  | .executed task _ _ => TaskOf w task.jobID task
  | .finalized j a st m => Judged w j a ∧ Recorded w' j a st m
  | _ => True

/-- Every copy of a task that `w'` adds to `w` is a task of its job. -/
structure Adds (w w' : World) : Prop where
  keeps : KeepsTasks w w'
  rows : ∀ j row, w'.submissions j = some row →
    w.submissions j = some row ∨ (RowSound j row ∧ j ∈ w'.jobs)
  events : ∀ (i : Nat) (e : OutboxEvent), w'.outbox[i]? = some e →
    (∃ e₀, w.outbox[i]? = some e₀ ∧ e.jobID = e₀.jobID ∧ e.payload = e₀.payload) ∨
      TaskOf w' e.jobID e.payload
  payloads : ∀ ns j v, w'.redis ⟨ns, .payload j⟩ = some v → w.redis ⟨ns, .payload j⟩ = some v ∨
    ∃ task, v = buildPayloadEnvelope task ∧ TaskOf w j task
  entries : ∀ (i : Nat) (e : StreamEntry), w'.stream[i]? = some e →
    (∃ e₀, w.stream[i]? = some e₀ ∧ e.values = e₀.values) ∨ NamesPayload e.values
  log : w'.log = w.log ∨ ∃ ev, w'.log = ev :: w.log ∧ NewFact w w' ev

theorem Adds.mem_log {w w' : World} (x : Adds w w') {ev : LogEvent} (h : ev ∈ w'.log) :
    ev ∈ w.log ∨ NewFact w w' ev := by
  obtain hl | ⟨ev', hl, hn⟩ := x.log
  · exact .inl (hl ▸ h)
  · rw [hl] at h
    rcases List.mem_cons.mp h with rfl | h
    · exact .inr hn
    · exact .inl h

theorem Faithful.adds {w w' : World} (h : Faithful w) (x : Adds w w') : Faithful w' where
  rows := fun j row hr => by
    obtain hold | hnew := x.rows j row hr
    · obtain ⟨hsound, hlisted⟩ := h.rows j row hold
      exact ⟨hsound, jobs_mono x.keeps.grows hlisted⟩
    · exact hnew
  events := fun i e he => by
    obtain ⟨e₀, he₀, hj, hp⟩ | hnew := x.events i e he
    · rw [hj, hp]
      exact (h.events i e₀ he₀).keeps x.keeps
    · exact hnew
  payloads := fun ns j v hv => by
    obtain hold | ⟨task, rfl, ht⟩ := x.payloads ns j v hv
    · obtain ⟨task, rfl, ht⟩ := h.payloads ns j v hold
      exact ⟨task, rfl, ht.keeps x.keeps⟩
    · exact ⟨task, rfl, ht.keeps x.keeps⟩
  entries := fun i e he => by
    obtain ⟨e₀, he₀, hv⟩ | hnew := x.entries i e he
    · rw [hv]
      exact h.entries i e₀ he₀
    · exact hnew
  executed := fun task b outcome hm => by
    obtain hm | hn := x.mem_log hm
    · exact (h.executed task b outcome hm).keeps x.keeps
    · exact TaskOf.keeps x.keeps hn
  finalized := fun j a st m hm => by
    obtain hm | hn := x.mem_log hm
    · obtain ⟨hj, hr⟩ := h.finalized j a st m hm
      exact ⟨hj.keeps x.keeps, hr.grows x.keeps.grows⟩
    · exact ⟨hn.1.keeps x.keeps, hn.2⟩

/-! ## Effects keep the invariant -/

section Adds

variable {w : World}

/-- A step that moves no task. -/
theorem Adds.of_eq {w' : World} (g : KeepsTasks w w') (hr : w'.submissions = w.submissions)
    (ho : w'.outbox = w.outbox) (hs : w'.stream = w.stream)
    (hk : ∀ ns j v, w'.redis ⟨ns, .payload j⟩ = some v → w.redis ⟨ns, .payload j⟩ = some v ∨
      ∃ task, v = buildPayloadEnvelope task ∧ TaskOf w j task)
    (hl : w'.log = w.log ∨ ∃ ev, w'.log = ev :: w.log ∧ NewFact w w' ev) : Adds w w' where
  keeps := g
  rows := fun j row hrow => .inl (by rw [← hr]; exact hrow)
  events := fun _ e he => .inl ⟨e, by rw [← ho]; exact he, rfl, rfl⟩
  payloads := hk
  entries := fun _ e he => .inl ⟨e, by rw [← hs]; exact he, rfl⟩
  log := hl

theorem Adds.of_data {w' : World} (g : KeepsTasks w w') (hd : SameData w w')
    (hl : w'.log = w.log ∨ ∃ ev, w'.log = ev :: w.log ∧ NewFact w w' ev) : Adds w w' :=
  .of_eq g hd.rows hd.outbox hd.stream (fun _ _ _ h => .inl (by rw [← hd.redis]; exact h)) hl

theorem Adds.refl (w : World) : Adds w w := .of_data (.refl w) (.refl w) (.inl rfl)

theorem adds_setKey {k : RedisKey} {v : Option RedisValue}
    (h : ∀ j, k.name = .payload j → ∀ x, v = some x →
      ∃ task, x = buildPayloadEnvelope task ∧ TaskOf w j task) : Adds w (w.setKey k v) := by
  refine .of_eq (.of_eq (grows_setKey w k v) rfl) rfl rfl rfl (fun ns j x hx => ?_) (.inl rfl)
  by_cases hk : (⟨ns, .payload j⟩ : RedisKey) = k
  · subst hk
    rw [w.setKey_self] at hx
    exact .inr (h j rfl x hx)
  · rw [w.setKey_of_ne hk] at hx
    exact .inl hx

/-- The events of the outbox keep their tasks. -/
theorem adds_setOutbox (ids : List Nat) {f : Nat → OutboxEvent → OutboxEvent}
    (hf : ∀ i e, (f i e).jobID = e.jobID ∧ (f i e).payload = e.payload) :
    Adds w (w.setOutbox ids f) where
  keeps := .of_eq (grows_setOutbox w ids fun i e => (hf i e).1) rfl
  rows := fun _ _ h => .inl h
  events := fun i e he => by
    simp only [World.setOutbox, List.getElem?_mapIdx] at he
    obtain ⟨e₀, he₀, rfl⟩ := Option.map_eq_some_iff.mp he
    refine .inl ⟨e₀, he₀, ?_⟩
    split
    · exact hf i e₀
    · exact ⟨rfl, rfl⟩
  payloads := fun _ _ _ h => .inl h
  entries := fun _ e he => .inl ⟨e, he, rfl⟩
  log := .inl rfl

theorem adds_setDelivery (i : Nat) (d : Delivery) : Adds w (w.setDelivery i d) where
  keeps := .of_eq (grows_setDelivery w i d) rfl
  rows := fun _ _ h => .inl h
  events := fun _ e he => .inl ⟨e, he, rfl, rfl⟩
  payloads := fun _ _ _ h => .inl h
  entries := fun i' e he => by
    simp only [World.setDelivery, List.getElem?_modify] at he
    obtain ⟨e₀, he₀, rfl⟩ := Option.map_eq_some_iff.mp he
    refine .inl ⟨e₀, he₀, ?_⟩
    split <;> rfl
  log := .inl rfl

theorem adds_xadd {values : StreamValues} (h : NamesPayload values) :
    Adds w { w with stream := w.stream ++ [⟨values, .fresh⟩] } where
  keeps := .of_eq (grows_xadd w _) rfl
  rows := fun _ _ h => .inl h
  events := fun _ e he => .inl ⟨e, he, rfl, rfl⟩
  payloads := fun _ _ _ h => .inl h
  entries := fun i e he => by
    rcases Nat.lt_or_ge i w.stream.length with hi | hi
    · exact .inl ⟨e, by simpa only [List.getElem?_append_left hi] using he, rfl⟩
    · have hm : e ∈ [(⟨values, .fresh⟩ : StreamEntry)] := by
        rw [List.getElem?_append_right hi] at he
        exact List.mem_of_getElem? he
      rw [List.mem_singleton.mp hm]
      exact .inr h
  log := .inl rfl

theorem adds_insert {s : Submission} {origin : Origin} (hs : NewRowSound s)
    (hnone : w.submissions s.jobID = none) : Adds w (w.insertRow s origin) where
  keeps := ⟨grows_insertRow w origin hnone, fun _ row hr => ⟨row, rows_insertRow origin hnone hr, .refl row⟩⟩
  rows := fun j row hr => by
    by_cases hj : j = s.jobID
    · subst hj
      rw [← Option.some.inj ((w.setRow_self s.jobID _).symm.trans hr)]
      exact .inr ⟨⟨rfl, hs.1, .inl hs.2⟩, List.mem_cons_self⟩
    · exact .inl ((w.setRow_of_ne hj _).symm.trans hr)
  events := fun _ e he => .inl ⟨e, he, rfl, rfl⟩
  payloads := fun _ _ _ h => .inl h
  entries := fun _ e he => .inl ⟨e, he, rfl⟩
  log := .inr ⟨_, rfl, trivial⟩

theorem adds_update (h : Faithful w) (ch : Chance) {j : String} {op : RowOp} {via : Option Nat}
    (hh : Honest (.request (.update j op via)) w) : Adds w (serve w ch (.update j op via)).1 := by
  have hk := keepsTasks_serve w ch (.update j op via)
  obtain ⟨r, r', v, hr, hx, hs⟩ | ⟨_, hs⟩ := serve_update w ch j op via
  · rw [hs] at hk ⊢
    obtain ⟨hrows, hstream, houtbox, hredis, _⟩ := recordUpdate_eq (w.setRow j r') j op via v
    refine
      { keeps := hk
        rows := fun j' row hrow => ?_
        events := fun i e he => .inl ⟨e, by rw [houtbox] at he; exact he, rfl, rfl⟩
        payloads := fun _ _ _ hx' => .inl (by rw [hredis] at hx'; exact hx')
        entries := fun i e he => .inl ⟨e, by rw [hstream] at he; exact he, rfl⟩
        log := ?_ }
    · rw [hrows] at hrow
      by_cases hj : j' = j
      · subst hj
        rw [w.setRow_self] at hrow
        cases hrow
        obtain ⟨hsound, hlisted⟩ := h.rows j' r hr
        exact .inr ⟨hsound.exec hx, jobs_mono hk.grows hlisted⟩
      · exact .inl ((w.setRow_of_ne hj r').symm.trans hrow)
    · cases op with
      | claim o l => exact .inr ⟨_, rfl, trivial⟩
      | reclaim o l => exact .inr ⟨_, rfl, trivial⟩
      | finalize a o st m =>
        obtain ⟨⟨ha, _⟩, _, rfl⟩ := finalizeSubmission_eq_some.mp hx
        exact .inr ⟨_, rfl, hh, _, w.setRow_self j _, rfl, ha, rfl, rfl⟩
      | refresh a o l => exact .inl rfl
      | poison code msg => exact .inl rfl
      | updateResult st m => exact .inl rfl
  · rw [hs] at hk ⊢
    refine .of_data hk (sameData_recordSkip w j op) ?_
    cases op with
    | updateResult st m => exact .inr ⟨_, rfl, trivial⟩
    | _ => exact .inl rfl

/-- A row inserted with its outbox event. -/
theorem adds_insertWithOutbox (ch : Chance) {s : Submission} {event : OutboxEvent}
    (hh : Honest (.request (.insertWithOutbox s event)) w) :
    Adds w (serve w ch (.insertWithOutbox s event)).1 := by
  have hk := keepsTasks_serve w ch (.insertWithOutbox s event)
  obtain ⟨hs, hj, ha⟩ := hh
  simp only [serve] at hk ⊢
  split
  · exact .refl w
  · rename_i hne
    rw [if_neg hne] at hk
    have hnone : w.submissions s.jobID = none := by
      cases hr : w.submissions s.jobID with
      | none => rfl
      | some r => simp [hr] at hne
    have hx : Adds w (w.insertRow s .outbox) := adds_insert hs hnone
    refine
      { keeps := hk
        rows := hx.rows
        events := fun i e he => ?_
        payloads := hx.payloads
        entries := hx.entries
        log := .inr ⟨_, rfl, trivial⟩ }
    replace he : (w.outbox ++ [{ event with attempts := 0, nextAttemptAt := w.dbNow }])[i]? =
      some e := he
    rcases Nat.lt_or_ge i w.outbox.length with hi | hi
    · exact .inl ⟨e, by rw [List.getElem?_append_left hi] at he; exact he, rfl, rfl⟩
    · -- the new event carries the task of the new row
      rw [List.getElem?_append_right hi] at he
      have he := List.mem_singleton.mp (List.mem_of_getElem? he)
      subst he
      refine .inr ⟨ha.jobID.trans hj.symm, { s with createdAt := w.dbNow, updatedAt := w.dbNow }, ?_,
        ⟨ha.jobID, ha.code, ha.language, ha.timeLimit, ha.memoryLimit, ha.problemID⟩⟩
      rw [show event.jobID = s.jobID from hj]
      exact w.setRow_self s.jobID _

theorem payload_markOutboxDispatchError (err : String) (e : OutboxEvent) :
    (markOutboxDispatchError err e).payload = e.payload := by
  unfold markOutboxDispatchError
  split <;> rfl

theorem adds_serve (h : Faithful w) (ch : Chance) {q : Request} (hh : Honest (.request q) w) :
    Adds w (serve w ch q).1 := by
  have hk := keepsTasks_serve w ch q
  cases q with
  | update j op via => exact adds_update h ch hh
  | select j purpose =>
    cases purpose with
    | reclaimInspect => exact .of_data hk ⟨rfl, rfl, rfl, rfl, rfl⟩ (.inr ⟨_, rfl, trivial⟩)
    | status => exact .refl w
    | finalizeReject => exact .refl w
  | insert s origin =>
    simp only [serve]
    cases hr : w.submissions s.jobID with
    | none => exact adds_insert hh hr
    | some r => exact .refl w
  | insertWithOutbox s event => exact adds_insertWithOutbox ch hh
  | countActive => exact .refl w
  | getProblem id => exact .refl w
  | claimOutbox limit baseMs maxMs => exact adds_setOutbox _ fun _ _ => ⟨rfl, rfl⟩
  | markDispatched eventID entryID => exact adds_setOutbox _ fun _ _ => ⟨rfl, rfl⟩
  | markDispatchError eventID err =>
    exact adds_setOutbox _ fun _ e =>
      ⟨markOutboxDispatchError_jobID err e, payload_markOutboxDispatchError err e⟩
  | get reader k =>
    refine .of_data hk (sameData_recordGet w reader k) ?_
    simp only [serve, World.recordGet]
    split
    · exact .inr ⟨_, rfl, trivial⟩
    · exact .inl rfl
  | set k v =>
    obtain ⟨j, task, rfl, rfl, ht⟩ := hh
    refine adds_setKey fun j' hk x hx => ?_
    cases hk
    cases hx
    exact ⟨task, rfl, ht⟩
  | setNX k v =>
    simp only [serve]
    cases hr : w.redis k with
    | some v' => exact .refl w
    | none => exact adds_setKey fun j hj => absurd hj (hh j)
  | del k => exact adds_setKey fun j hk x hx => by cases hx
  | xadd values => exact adds_xadd hh
  | xack i site =>
    simp only [serve]
    unfold World.xack
    split
    · exact adds_setDelivery i .acked
    · exact .refl w

theorem adds_drop (q : Request) : Adds w (w.drop q) := by
  cases q with
  | update j op via =>
    refine .of_data (.of_eq (grows_recordSkip w j op) (sameData_recordSkip w j op).rows)
      (sameData_recordSkip w j op) ?_
    cases op with
    | updateResult st m => exact .inr ⟨_, rfl, trivial⟩
    | _ => exact .inl rfl
  | _ => exact .refl w

theorem adds_actLocally {w' : World} {ch : Chance} {a : Action} {r : a.Response}
    (hh : Honest (.act a) w) (ha : actLocally w ch a = some (w', r)) : Adds w w' := by
  have hq := quiet_actLocally ha
  refine .of_data (.of_eq (grows_actLocally ha) hq.data.rows) hq.data ?_
  cases a with
  | judge task attemptID => cases ha; exact .inr ⟨_, rfl, hh⟩
  | reply rid r => cases ha; exact .inr ⟨_, rfl, trivial⟩
  | now => cases ha; exact .inl rfl
  | newRun => cases ha; exact .inl rfl
  | cancelRun cell => cases ha; exact .inl rfl
  | go g => cases ha; exact .inl rfl
  | sendHeartbeat cell r => cases ha; exact .inl rfl
  | rateLimit => cases ha; exact .inl rfl
  | uuid =>
    simp only [actLocally] at ha
    split at ha
    · cases ha; exact .inl rfl
    · cases ha
  | selectTick cell =>
    simp only [actLocally] at ha
    split at ha
    · cases ha; exact .inl rfl
    · split at ha
      · split at ha
        · cases ha; exact .inl rfl
        · cases ha
      · cases ha
  | recvHeartbeat cell =>
    simp only [actLocally] at ha
    split at ha
    · cases ha; exact .inl rfl
    · cases ha

theorem adds_perform (h : Faithful w) {w' : World} {e : Effect} {c : Fate} {r : e.Reply} (hh : Honest e w)
    (hp : perform w e c = some (w', r)) : Adds w w' := by
  cases e with
  | request q =>
    obtain ⟨ch, rfl, _⟩ | ⟨rfl, _⟩ := perform_request hp
    · exact adds_serve h ch hh
    · exact adds_drop q
  | act a =>
    obtain ⟨ch, ha⟩ := perform_act hp
    exact adds_actLocally hh ha

theorem adds_envStep {w' : World} {v : Env} {ps : List (Program Unit)}
    (hv : envStep w v = some (w', ps)) : Adds w w' := by
  have hk := keepsTasks_envStep hv
  cases change_envStep hv with
  | same hd hl => exact .of_data hk hd (.inl hl)
  | asked rid j hd hl => exact .of_data hk hd (.inr ⟨_, hl, trivial⟩)
  | dbTick => exact .of_eq hk rfl rfl rfl (fun _ _ _ h => .inl h) (.inl rfl)
  | give _ _ => exact adds_setDelivery _ _
  | expire => exact adds_setKey fun j hk x hx => by cases hx
  | fillCache => exact adds_setKey fun j hk => by cases hk

end Adds

end DeepOj.Cluster
