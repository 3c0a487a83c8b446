import DeepOj.Cluster.World
import DeepOj.Conc.Run
import DeepOj.Redis.Stream

/-!
# The job stream

What the services do to the Redis stream of jobs. The API and the repair loop append to it
and trim it on the way, the scheduler trims it, and the workers create the consumer group
and read, reclaim and acknowledge through it.
-/

namespace DeepOj.Cluster.JobStream

open Redis Conc

/-- The stream of jobs. -/
abbrev Jobs : Type := Redis.Stream StreamValues

/-- The part of `ControlPlaneConfig` that concerns the length of the stream. -/
structure ControlPlaneConfig where
  streamTrimMaxLen : Int
  jobStreamMaxLen : Int
  deriving DecidableEq, Repr

/-- The `MAXLEN` of `buildStreamXAddArgs`. -/
def buildStreamXAddArgs (streamMaxLen : Int) : Option Nat :=
  if streamMaxLen > 0 then some streamMaxLen.toNat else none

/-- `EnsureGroup`. The error `BUSYGROUP` is ignored. -/
def ensureGroup (s : Jobs) (group : String) : Jobs :=
  (s.xgroupCreate group .dollar).getD s

/-- `runStreamTrim`. -/
def runStreamTrim (cfg : ControlPlaneConfig) (s : Jobs) (trimmed : Nat) : Option Jobs :=
  if cfg.streamTrimMaxLen ≤ 0 then some s else s.xtrim cfg.streamTrimMaxLen.toNat trimmed

/-- A command that one of the processes gives. -/
inductive Move where
  /-- The `XADD` of `dispatchOne` or `enqueueJobToStream`. -/
  | enqueue (streamMaxLen : Int) (values : StreamValues) (id trimmed : Nat)
  /-- The `XADD` of `enqueueRepairedJob`. -/
  | repair (cfg : ControlPlaneConfig) (values : StreamValues) (id trimmed : Nat)
  | streamTrim (cfg : ControlPlaneConfig) (trimmed : Nat)
  | ensureGroup (group : String)
  | readNew (group consumer : String) (count now : Nat)
  | autoClaim (group consumer : String) (minIdle now : Nat) (scanned : List Nat)
  | ack (group : String) (ids : List Nat)
  deriving DecidableEq, Repr

/-- What a command does; `none` is a command that Redis refuses. -/
def step (s : Jobs) : Move → Option Jobs
  | .enqueue streamMaxLen values id trimmed =>
    s.xaddMaxLen id values (buildStreamXAddArgs streamMaxLen) trimmed
  | .repair cfg values id trimmed =>
    s.xaddMaxLen id values (if cfg.jobStreamMaxLen > 0 then some cfg.jobStreamMaxLen.toNat else none) trimmed
  | .streamTrim cfg trimmed => runStreamTrim cfg s trimmed
  | .ensureGroup group => some (JobStream.ensureGroup s group)
  | .readNew group consumer count now => (s.xreadgroup group consumer count now).map (·.1)
  | .autoClaim group consumer minIdle now scanned => s.xautoclaim group consumer minIdle now scanned
  | .ack group ids => s.xack group ids

/-! ## Nothing escapes the group -/

/-- The group is created only when there is nothing in the stream. -/
def Timely (group : String) (s : Jobs) (m : Move) : Prop :=
  m = .ensureGroup group → s.groups group = none → s.entries = []

section Tracked

variable {group : String} {s s' : Jobs} {m : Move} {id : Nat}

theorem tracked_empty (group : String) : (Stream.empty : Jobs).Tracked group := fun _ h => nomatch h

/-- A trim takes entries off the end that has been delivered first, and nothing else. -/
theorem tracked_runStreamTrim {cfg : ControlPlaneConfig} {trimmed : Nat} (ht : s.Tracked group)
    (h : runStreamTrim cfg s trimmed = some s') : s'.Tracked group := by
  unfold runStreamTrim at h
  split at h
  · exact Option.some.inj h ▸ ht
  · exact Stream.tracked_xtrim ht h

/-- The one command after which entries may have escaped is the one that creates the group. -/
theorem tracked_ensureGroup (ht : s.Tracked group) (group' : String) :
    (ensureGroup s group').Tracked group ↔ Timely group s (.ensureGroup group') := by
  unfold ensureGroup
  cases h : s.xgroupCreate group' .dollar with
  | none =>
    rw [Option.getD_none]
    refine ⟨fun _ hm hnone => ?_, fun _ => ht⟩
    -- The group exists already.
    cases hm
    rw [Stream.xgroupCreate, hnone] at h
    cases h
  | some s₁ =>
    rw [Option.getD_some]
    by_cases hname : group = group'
    · subst hname
      rw [Stream.tracked_dollar h]
      exact ⟨fun hnil _ _ => hnil, fun htimely => htimely rfl (Stream.xgroupCreate_eq_some h).1⟩
    · obtain ⟨_, rfl⟩ := Stream.xgroupCreate_eq_some h
      refine ⟨fun _ hm => ?_, fun _ => Stream.tracked_setGroup ht _ fun heq => absurd heq hname⟩
      exact absurd (Move.ensureGroup.inj hm).symm hname

/-- A command keeps the group complete just when it is timely. -/
theorem tracked_step (ht : s.Tracked group) (h : step s m = some s') : s'.Tracked group ↔ Timely group s m := by
  cases m with
  | ensureGroup group' => exact Option.some.inj h ▸ tracked_ensureGroup ht group'
  | enqueue streamMaxLen values id trimmed =>
    exact ⟨fun _ hm => Move.noConfusion hm, fun _ => Stream.tracked_xaddMaxLen ht h⟩
  | repair cfg values id trimmed =>
    exact ⟨fun _ hm => Move.noConfusion hm, fun _ => Stream.tracked_xaddMaxLen ht h⟩
  | streamTrim cfg trimmed => exact ⟨fun _ hm => Move.noConfusion hm, fun _ => tracked_runStreamTrim ht h⟩
  | readNew group' consumer count now =>
    obtain ⟨⟨s₁, es⟩, hread, rfl⟩ := Option.map_eq_some_iff.mp h
    exact ⟨fun _ hm => Move.noConfusion hm, fun _ => Stream.tracked_keeps ht (Stream.keeps_xreadgroup hread)⟩
  | autoClaim group' consumer minIdle now scanned =>
    exact ⟨fun _ hm => Move.noConfusion hm, fun _ => Stream.tracked_keeps ht (Stream.keeps_xautoclaim h)⟩
  | ack group' ids =>
    exact ⟨fun _ hm => Move.noConfusion hm, fun _ => Stream.tracked_keeps ht (Stream.keeps_xack h)⟩

/-- What holds of a group survives the commands if it survives the three that are given through a group. -/
theorem hasGroup_step {P : Group → Prop} (hP : s.HasGroup group P)
    (hread : ∀ {name consumer count now s' es},
      s.xreadgroup name consumer count now = some (s', es) → s'.HasGroup group P)
    (hclaim : ∀ {name consumer minIdle now scanned s'},
      s.xautoclaim name consumer minIdle now scanned = some s' → s'.HasGroup group P)
    (hack : ∀ {name acks s'}, s.xack name acks = some s' → s'.HasGroup group P)
    (h : step s m = some s') : s'.HasGroup group P := by
  cases m with
  | ensureGroup group' =>
    rw [← Option.some.inj h]
    unfold ensureGroup
    cases hcreate : s.xgroupCreate group' .dollar with
    | none => exact hP
    | some s₁ => exact hP.xgroupCreate hcreate
  | enqueue streamMaxLen values id trimmed => exact hP.of_groups (Stream.groups_xaddMaxLen h)
  | repair cfg values id trimmed => exact hP.of_groups (Stream.groups_xaddMaxLen h)
  | streamTrim cfg trimmed =>
    replace h : runStreamTrim cfg s trimmed = some s' := h
    unfold runStreamTrim at h
    split at h
    · exact Option.some.inj h ▸ hP
    · exact hP.of_groups (Stream.groups_xtrim h)
  | readNew group' consumer count now =>
    obtain ⟨⟨s₁, es⟩, hr, rfl⟩ := Option.map_eq_some_iff.mp h
    exact hread hr
  | autoClaim group' consumer minIdle now scanned => exact hclaim h
  | ack group' ids => exact hack h

/-- What a group has once missed it never gets. -/
theorem missed_step (hm : s.Missed group id) (h : step s m = some s') : s'.Missed group id :=
  hasGroup_step hm (fun hr => hm.keeps (Stream.keeps_xreadgroup hr))
    (fun hc => hm.keeps (Stream.keeps_xautoclaim hc)) (fun ha => hm.keeps (Stream.keeps_xack ha)) h

/-- The entries that are in the stream when a worker creates the group are lost to it for good. -/
theorem missed_of_late {s₁ : Jobs} (hnone : s.groups group = none) {e : Entry StreamValues} (he : e ∈ s.entries)
    (h : Run step always (ensureGroup s group) s₁) : s₁.Missed group e.id := by
  have hcreate : s.xgroupCreate group .dollar = some (ensureGroup s group) := by
    unfold ensureGroup Stream.xgroupCreate
    rw [hnone]
    rfl
  exact h.invariant (J := fun s => s.Missed group e.id) (Stream.missed_dollar hcreate he)
    fun _ _ _ hm _ hstep => missed_step hm hstep

/-- In every run in which the group is created on an empty stream no entry escapes it; any other
creation of the group lets one escape at once. -/
theorem none_escapes_of_timely (group : String) :
    (∀ s, Run step (Timely group) Stream.empty s → s.Tracked group) ∧
      ∀ s m s', Run step (Timely group) Stream.empty s → step s m = some s' → ¬Timely group s m →
        ¬s'.Tracked group := by
  have htracked : ∀ s, Run step (Timely group) Stream.empty s → s.Tracked group := fun s h =>
    h.invariant (J := fun s => s.Tracked group) (tracked_empty group) fun _ _ _ ht hm hstep => (tracked_step ht hstep).mpr hm
  exact ⟨htracked, fun s m s' h hstep hlate ht => hlate ((tracked_step (htracked s h) hstep).mp ht)⟩

end Tracked

/-- The message of a job. -/
def sampleValues (jobID : String) : StreamValues :=
  { jobID := some jobID, enqueueTS := some 1, payloadRef := some ⟨true, .payload jobID⟩, priority := some 0
    eventID := some 0 }

instance (group : String) (s : Jobs) (m : Move) : Decidable (Timely group s m) :=
  inferInstanceAs (Decidable (_ → _ → _))

/-- A worker creates the group, then a job comes and is read. -/
def timelyMoves : List Move :=
  [.ensureGroup "workers", .enqueue 200000 (sampleValues "a") 1 0, .readNew "workers" "w" 16 5]

theorem none_escapes_of_timely_sample :
    (playAll step (Timely "workers") Stream.empty timelyMoves).ids = [1] ∧
      (playAll step (Timely "workers") Stream.empty timelyMoves).Tracked "workers" :=
  ⟨by decide +kernel, (none_escapes_of_timely "workers").1 _ (Run.init.playAll timelyMoves)⟩

/-- The API dispatches a job before the first worker has come up. -/
theorem early_entry_escapes :
    ¬∀ group s, Run step always Stream.empty s → s.Tracked group := by
  intro hall
  have hrun : Run step always Stream.empty
      (playAll step always Stream.empty [.enqueue 200000 (sampleValues "a") 1 0, .ensureGroup "workers"]) :=
    Run.init.playAll _
  have hid : 1 ∈ (playAll step always Stream.empty
      [.enqueue 200000 (sampleValues "a") 1 0, .ensureGroup "workers"]).ids := by decide +kernel
  obtain ⟨e, he, heq⟩ := List.mem_map.mp hid
  have htracks := hall "workers" _ hrun ⟨1, [], []⟩ rfl e he
  rw [heq] at htracks
  revert htracks
  decide

end DeepOj.Cluster.JobStream
