import DeepOj.Worker.ReadyComplete

/-!
# Evictions and what is in use

An eviction knows when an entry was used last and what the entries take, not
whether a job works with them. It leaves alone what is in use exactly as far as it
spares the entry for these reasons.
-/

namespace DeepOj.Worker.TestCases

open Conc Go Machine

/-- What an eviction deletes. -/
inductive Target where
  | zip (problemID : Nat)
  | workDir (problemID : Nat)
  deriving DecidableEq, Repr

/-- What `removeEntry` deletes. -/
def targets (e : CacheEntry) : List Target :=
  (if e.zipPath then [.zip e.problemID] else []) ++ if e.workDir then [.workDir e.problemID] else []

/-- What an operation deletes of it. -/
def deletes : Op → Option Target
  | .file pid (.remove .zip) => some (.zip pid)
  | .file pid (.remove .ready) => some (.workDir pid)
  | .file pid (.remove .readyETag) => some (.workDir pid)
  | .file pid (.unlink .work _) => some (.workDir pid)
  | _ => none

/-- What a goroutine uses, and what it is evicting. -/
structure Usage where
  self : Self
  /-- The problem whose zip it is about to extract. -/
  zip : Option Nat := none
  /-- The problem whose directory `Prepare` returns to its job, until the job is done. -/
  work : Option Nat := none
  /-- The entries it has taken off the list since it locked it. -/
  removing : List CacheEntry := []
  deriving DecidableEq

namespace Usage

/-- What must not be deleted. -/
def uses (g : Usage) : List Target :=
  (g.zip.map Target.zip).toList ++ (g.work.map Target.workDir).toList

/-- What is being evicted. -/
def evicts (g : Usage) : List Target := g.removing.flatMap targets

/-- What an operation does to the use: a zip is in use from its download, or from the moment it
is found, to the moment it is opened; a directory from the last touch of `Prepare`, or its
return, to the end of the task. -/
def next (g : Usage) : (o : Op) → o.Reply → Usage
  | .flight (.dl pid), some true => { g with zip := some pid }
  | .file pid (.etagMatch _), true => { g with zip := some pid }
  | .file pid .renameZip, true => { g with zip := some pid }
  | .file _ .openZip, _ => { g with zip := none }
  | .touch pid _ _ workDir, evicted =>
    { g with work := if workDir then some pid else g.work, removing := evicted }
  | .unlock, _ => { g with removing := [] }
  | .ret pid how, _ => { g with zip := none, work := if how = .failed then none else some pid }
  | .done _, _ => { g with work := none }
  | _, _ => g

end Usage

/-- The recorder of what is used. -/
def usageRecorder : Recorder (Self × Op) (fun e => e.2.Reply) Event Usage where
  start
    | .start self _ => { self }
    | .crash proc => { self := ⟨proc, 0, 0⟩ }
  fork e := { self := e.1 }
  next g e r := g.next e.2 r

/-- The workers, and what each goroutine uses. -/
abbrev UsageConfig : Type := RecordedConfig Workspace (Self × Op) (fun e => e.2.Reply) Usage

/-- The records of the goroutines whose processes live. -/
def liveUsers (s : UsageConfig) : List Usage := (s.threads.map Prod.fst).filter fun g => Live s.world g.self

/-- The goroutine is about to delete the target, in an eviction. -/
def EvictsNext (s : UsageConfig) (i : Nat) (T : Target) : Prop :=
  ∃ t ∈ s.threads[i]?, Live s.world t.1.self ∧ t.1.removing ≠ [] ∧ ∃ e ∈ t.2.next, deletes e.2 = some T

instance (s : UsageConfig) (i : Nat) (T : Target) : Decidable (EvictsNext s i T) :=
  inferInstanceAs (Decidable (∃ _ ∈ _, _))

/-- No eviction is about to delete what a job uses. -/
def NothingInUseRemoved (s : UsageConfig) : Prop :=
  ∀ i T, EvictsNext s i T → ∀ g ∈ liveUsers s, T ∉ g.uses

/-- The eviction at the end of `touchCache` spares the entries of what is used. -/
def SparesUsed (cfg : ManagerConfig) (w : Workspace) (used : List Target) (proc : Nat) : Op → Pick → Prop
  | .touch pid etag zipPath workDir, p =>
    let list := touchedList p.now p.sizeOf pid etag zipPath workDir (w.caches proc)
    ∀ e ∈ list, (∃ T ∈ targets e, T ∈ used) → spared cfg.cache p.now list e = true
  | _, _ => True

instance (cfg : ManagerConfig) (w : Workspace) (used : List Target) (proc : Nat) (o : Op) (p : Pick) :
    Decidable (SparesUsed cfg w used proc o p) := by
  unfold SparesUsed
  split <;> infer_instance

/-- A goroutine does not start to use what another one is evicting. -/
def StartsFree (others : List Usage) (before after : Usage) : Prop :=
  ∀ T ∈ after.uses, T ∉ before.uses → ∀ g ∈ others, T ∉ g.evicts

instance (others : List Usage) (before after : Usage) : Decidable (StartsFree others before after) :=
  inferInstanceAs (Decidable (∀ _ ∈ _, _ → _))

/-- The moves under which evictions do not meet with use. -/
def Apart (cfg : ManagerConfig) (s : UsageConfig) : Move Pick Event → Prop
  | .call i p =>
    match s.threads[i]? with
    | some (g, .call e _) =>
      match (workers cfg).sem s.world e p with
      | some (_, r) =>
        SparesUsed cfg s.world
            ((liveUsers s).flatMap Usage.uses ++ (usageRecorder.next g e r).uses) e.1.proc e.2 p ∧
          StartsFree (liveUsers s) g (usageRecorder.next g e r)
      | none => True
    | _ => True
  | _ => True

instance (cfg : ManagerConfig) (s : UsageConfig) : (m : Move Pick Event) → Decidable (Apart cfg s m)
  | .call i p => by
    dsimp only [Apart]
    split
    · split <;> infer_instance
    · infer_instance
  | .crash _ => isTrue trivial
  | .env _ => isTrue trivial

/-! ## What a goroutine deletes in an eviction -/

section Programs

variable {self : Self} {pid : Nat} {α β : Type} {g : Usage}

/-- A goroutine acts for itself, and in an eviction it deletes only what it evicts. -/
def usageRules : Rules (Self × Op) (fun e => e.2.Reply) Usage where
  allowed g e := e.1 = g.self ∧ (g.removing ≠ [] → ∀ T, deletes e.2 = some T → T ∈ g.evicts)
  promised _ _ _ := True
  ended _ := True

/-- An operation that takes nothing off the list of the cache. -/
def NoTouch : Op → Prop
  | .touch .. => False
  | _ => True

@[simp] theorem Usage.next_self (o : Op) (r : o.Reply) : (g.next o r).self = g.self := by
  unfold Usage.next
  split <;> rfl

/-- Between the touch and the unlock, what is evicted stays the same. -/
theorem Usage.next_removing {o : Op} (h : NoTouch o) (r : o.Reply) :
    (g.next o r).removing = g.removing ∨ (g.next o r).removing = [] := by
  unfold Usage.next
  split
  · exact .inl rfl
  · exact .inl rfl
  · exact .inl rfl
  · exact .inl rfl
  · exact h.elim
  · exact .inr rfl
  · exact .inl rfl
  · exact .inl rfl
  · exact .inl rfl

/-- The goroutine evicts nothing. -/
structure Settled (me : Self) (g : Usage) : Prop where
  acts : g.self = me
  removing : g.removing = []

/-- A goroutine that evicts nothing can run the program, and evicts nothing afterwards. -/
structure Quiet (me : Self) (p : FileProgram α) : Prop where
  obeys : ∀ g, Settled me g → Obeys usageRecorder usageRules g p fun g _ => Settled me g

namespace Quiet

theorem ret {a : α} : Quiet self (pure a : FileProgram α) := ⟨fun _ hg => .pure hg⟩

theorem bind {p : FileProgram α} {f : α → FileProgram β} (hp : Quiet self p)
    (hf : ∀ a, Quiet self (f a)) : Quiet self (p >>= f) :=
  ⟨fun g hg => .bind (hp.obeys g hg) fun g a hg => (hf a).obeys g hg⟩

theorem op {o : Op} (h : NoTouch o) : Quiet self (op self o) := by
  refine ⟨fun g hg => .perform ⟨hg.acts.symm, fun hne => absurd hg.removing hne⟩ fun r _ => ⟨?_, ?_⟩⟩
  · exact (Usage.next_self o r).trans hg.acts
  · rcases Usage.next_removing (g := g) h r with hr | hr
    · exact hr.trans hg.removing
    · exact hr

theorem andThen {o : Op} {f : o.Reply → FileProgram β} (h : NoTouch o)
    (hf : ∀ r, Quiet self (f r)) : Quiet self (TestCases.op self o >>= f) :=
  bind (op h) hf

theorem ite {c : Prop} [Decidable c] {p q : FileProgram α} (hp : Quiet self p) (hq : Quiet self q) :
    Quiet self (if c then p else q) := by
  by_cases h : c
  · rw [if_pos h]
    exact hp
  · rw [if_neg h]
    exact hq

end Quiet

/-- An operation of a goroutine that evicts these entries. -/
def Evicting (self : Self) (es : List CacheEntry) (e : Self × Op) : Prop :=
  e.1 = self ∧ NoTouch e.2 ∧ (∀ T, deletes e.2 = some T → T ∈ es.flatMap targets) ∧ e.2 ≠ .unlock

theorem evicting_op {es : List CacheEntry} {o : Op} (h : NoTouch o) (hne : o ≠ .unlock)
    (hd : ∀ T, deletes o = some T → T ∈ es.flatMap targets) :
    (op self o).Uses (Evicting self es) :=
  Prog.uses_perform.mpr ⟨rfl, h, hd, hne⟩

theorem evicting_removeEntry {es : List CacheEntry} {e : CacheEntry} (he : e ∈ es) :
    (removeEntry self e).Uses (Evicting self es) := by
  have hop : ∀ (o : Op) (T : Target), T ∈ targets e → NoTouch o → o ≠ .unlock →
      (∀ T', deletes o = some T' → T' = T) → (op self o).Uses (Evicting self es) := by
    intro o T hT ho hne hd
    refine evicting_op ho hne fun T' hT' => List.mem_flatMap.mpr ⟨e, he, ?_⟩
    rw [hd T' hT']
    exact hT
  refine .bind ?_ fun _ => ?_
  · unfold removeZip
    by_cases hz : e.zipPath = true
    · rw [if_pos hz]
      have hT : Target.zip e.problemID ∈ targets e := by simp [targets, hz]
      refine .bind (hop _ _ hT trivial (by simp) ?_) fun _ =>
        .bind (hop _ _ hT trivial (by simp) ?_) fun _ => hop _ _ hT trivial (by simp) ?_
      all_goals
        intro T' hT'
        cases hT'
      rfl
    · rw [if_neg hz]
      trivial
  · unfold removeWork
    by_cases hw : e.workDir = true
    · rw [if_pos hw]
      have hT : Target.workDir e.problemID ∈ targets e := by simp [targets, hw]
      have hunlink : ∀ paths, (unlinkAll self e.problemID .work paths).Uses (Evicting self es) := by
        intro paths
        induction paths with
        | nil => trivial
        | cons q rest ih =>
          refine .bind (hop _ _ hT trivial (by simp) ?_) fun _ => ih
          rintro T' ⟨⟩
          rfl
      refine .bind (.bind (hop _ _ hT trivial (by simp) ?_) fun paths => hunlink paths) fun _ =>
        .bind (hop _ _ hT trivial (by simp) ?_) fun _ =>
        .bind (hop _ _ hT trivial (by simp) ?_) fun _ => hop _ _ hT trivial (by simp) ?_
      all_goals
        rintro T' ⟨⟩
      · rfl
      · rfl
    · rw [if_neg hw]
      trivial

/-- Between the touch and the unlock only evicted entries are deleted. -/
theorem quiet_touch (etag : Bytes) (zipPath workDir : Bool) :
    Quiet self (touch self pid etag zipPath workDir) := by
  refine ⟨fun g hg => .effect ⟨hg.acts.symm, fun hne => absurd hg.removing hne⟩ fun evicted _ => ?_⟩
  have hremove : ∀ es, es ⊆ evicted → (removeEntries self es).Uses (Evicting self evicted) := by
    intro es
    induction es with
    | nil => exact fun _ => trivial
    | cons e es ih =>
      intro hes
      exact .bind (evicting_removeEntry (hes List.mem_cons_self)) fun _ =>
        ih (List.subset_of_cons_subset hes)
  refine .bind (P := fun g _ => g.self = self ∧ g.removing = evicted) ⟨?_⟩ ?_
  · refine heeds_of_uses (P := Evicting self evicted)
      (I := fun g : Usage => g.self = self ∧ g.removing = evicted) ?_ ?_ (hremove evicted (List.Subset.refl _)) ⟨hg.acts, rfl⟩
    · rintro g e ⟨rfl, rfl⟩ he
      exact ⟨he.1, fun _ => he.2.2.1⟩
    · rintro g ⟨self', o⟩ r ⟨rfl, rfl⟩ ⟨rfl, ho, -, hne⟩
      refine ⟨Usage.next_self o r, ?_⟩
      show (g.next o r).removing = g.removing
      unfold Usage.next
      split <;> first | rfl | exact ho.elim | exact absurd rfl hne
  · rintro g _ ⟨rfl, rfl⟩
    refine .perform ⟨rfl, fun _ T hT => by cases hT⟩ fun _ _ => ⟨rfl, rfl⟩

theorem quiet_removeAll (dir : CaseDir) : Quiet self (removeAll self pid dir) := by
  refine .andThen trivial fun paths => ?_
  induction paths with
  | nil => exact .ret
  | cons q rest ih => exact .andThen trivial fun _ => ih

theorem quiet_writeFile (f : CaseFile) (content : Bytes) :
    Quiet self (writeFile self pid f content) :=
  .andThen trivial fun _ => .ite (.op trivial) .ret

theorem quiet_placeZip (remoteETag : Bytes) : Quiet self (placeZip self pid remoteETag) :=
  .andThen trivial fun _ => .ite
    (.bind (quiet_writeFile _ _) fun _ => .bind (quiet_touch _ _ _) fun _ => .ret)
    (.andThen trivial fun _ => .ret)

theorem quiet_downloadLocked (remoteETag : Bytes) :
    Quiet self (downloadLocked self pid remoteETag) :=
  .andThen trivial fun _ => .ite
    (.andThen trivial fun _ => .ite
      (.bind (quiet_touch _ _ _) fun _ => .ret)
      (.andThen trivial fun _ => .andThen trivial fun _ => .ite (quiet_placeZip _)
        (.andThen trivial fun _ => .ret)))
    .ret

theorem quiet_download : Quiet self (download self pid) := by
  refine .andThen trivial fun joined => ?_
  cases joined with
  | some ok => exact .ret
  | none =>
    refine .andThen trivial fun etag => ?_
    cases etag with
    | none => exact .ret
    | some remoteETag =>
      exact .andThen trivial fun _ => .ite
        (.bind (quiet_touch _ _ _) fun _ => .ret)
        (.andThen trivial fun _ => .ite
          (.bind (quiet_downloadLocked _) fun _ => .andThen trivial fun _ => .ret) .ret)

theorem quiet_readyMatchesETag (expectedETag : Bytes) :
    Quiet self (readyMatchesETag self pid expectedETag) := by
  refine .andThen trivial fun _ => .ite (.ite .ret ?_) .ret
  refine .andThen trivial fun content => ?_
  cases content <;> exact .ret

theorem quiet_unzip : Quiet self (unzip self pid) := by
  refine .andThen trivial fun archive => ?_
  cases archive with
  | error err => exact .ret
  | ok entries =>
    have hloop : ∀ counts, Quiet self (unzipEntries self pid entries counts) := by
      induction entries with
      | nil => exact fun _ => .ret
      | cons f todo ih =>
        intro counts
        refine .andThen trivial fun reply => ?_
        cases reply with
        | none => exact .ret
        | some counts => exact ih counts
    exact .andThen trivial fun _ => .ite (hloop {}) .ret

theorem quiet_install (expectedETag : Bytes) : Quiet self (install self pid expectedETag) := by
  have hmarkers : Quiet self (writeMarkers self pid expectedETag) :=
    .ite (.bind (quiet_writeFile _ _) fun _ => .ite (quiet_writeFile _ _) .ret)
      (.andThen trivial fun _ => quiet_writeFile _ _)
  exact .bind (quiet_removeAll _) fun _ => .andThen trivial fun _ => .ite
    (.bind hmarkers fun _ => .ite (.bind (quiet_touch _ _ _) fun _ => .ret) .ret)
    (.bind (quiet_removeAll _) fun _ => .ret)

theorem quiet_unpack (expectedETag : Bytes) : Quiet self (unpack self pid expectedETag) :=
  .bind (quiet_removeAll _) fun _ => .andThen trivial fun _ => .ite
    (.bind quiet_unzip fun _ => .ite (quiet_install _) (.bind (quiet_removeAll _) fun _ => .ret))
    .ret

theorem quiet_unpackFlight (expectedETag : Bytes) :
    Quiet self (unpackFlight self pid expectedETag) := by
  have hlocked : Quiet self (unpackLocked self pid expectedETag) :=
    .andThen trivial fun _ => .ite (.andThen trivial fun _ => .ite .ret (quiet_unpack _)) .ret
  exact .bind (quiet_readyMatchesETag _) fun _ => .ite .ret
    (.andThen trivial fun _ => .ite (.bind hlocked fun _ => .andThen trivial fun _ => .ret) .ret)

theorem quiet_prepareZip (expectedETag : Bytes) : Quiet self (prepareZip self pid expectedETag) := by
  refine .bind (quiet_readyMatchesETag _) fun _ => .ite .ret (.andThen trivial fun joined => ?_)
  cases joined with
  | none => exact quiet_unpackFlight _
  | some ok => cases ok <;> exact .ret

theorem quiet_prepare : Quiet self (prepare self pid) := by
  have hlocal : Quiet self (prepareLocal self pid) :=
    .andThen trivial fun _ => .ite (.bind (quiet_touch _ _ _) fun _ => .ret) .ret
  have hdir : Quiet self (prepareDir self pid) :=
    .bind quiet_download fun _ => .ite (.andThen trivial fun _ => quiet_prepareZip _) hlocal
  exact .bind hdir fun _ => .andThen trivial fun _ => .ret

theorem quiet_executeTask : Quiet self (executeTask self pid) := by
  refine .bind quiet_prepare fun _ => .ite .ret (.andThen trivial fun n => .bind ?_ fun _ => .op trivial)
  induction n with
  | zero => exact .ret
  | succ n ih => exact .andThen trivial fun _ => .ite ih .ret

/-- Every goroutine keeps the rules. -/
theorem usage_disciplined {cfg : ManagerConfig} :
    (workers cfg).Disciplined usageRecorder usageRules where
  env w v w' ps h p hp := by
    cases v with
    | start self pid =>
      simp only [workers, happen] at h
      split at h <;> cases h
      obtain rfl := List.mem_singleton.mp hp
      exact heeds_mono (fun _ _ _ => trivial) (quiet_executeTask.obeys { self } ⟨rfl, rfl⟩).heeds
    | crash proc =>
      cases h
      cases hp
  forks e p hp := by cases hp

end Programs

/-! ## The invariant -/

/-- The lists have one entry for every problem, and what is evicted is not in use. -/
structure Separate (w : Workspace) (gs : List Usage) : Prop where
  unique : ∀ proc, (w.caches proc).Unique
  past : ∀ g ∈ gs, g.self.epoch ≤ w.epochs g.self.proc
  apart : ∀ g ∈ gs, Live w g.self → ∀ g' ∈ gs, Live w g'.self → ∀ T ∈ g.evicts, T ∉ g'.uses

section Invariant

variable {cfg : ManagerConfig} {w w' : Workspace} {gs gs' : List Usage} {g : Usage}

theorem performLock_caches {self : Self} {lock : LockFile} {o : LockOp} {p : Pick} {r : o.Reply}
    (hp : w.performLock self lock o p = some (w', r)) :
    w'.caches = w.caches ∧ w'.cacheMu = w.cacheMu := by
  cases o with
  | «open» =>
    simp only [Workspace.performLock] at hp
    split at hp <;> cases hp
    · unfold Workspace.openLock
      split <;> exact ⟨rfl, rfl⟩
    · exact ⟨rfl, rfl⟩
  | lock =>
    simp only [Workspace.performLock] at hp
    split at hp
    · cases hp
      exact ⟨rfl, rfl⟩
    · split at hp
      · cases hp
        exact ⟨rfl, rfl⟩
      · split at hp <;> cases hp
        exact ⟨rfl, rfl⟩
  | _ =>
    cases hp
    exact ⟨rfl, rfl⟩

/-- Only `touchCache` changes a list. -/
theorem perform_caches {self : Self} {o : Op} {p : Pick} {r : o.Reply} (ho : NoTouch o)
    (hp : perform cfg w self o p = some (w', r)) : w'.caches = w.caches := by
  cases o with
  | file pid o =>
    simp only [TestCases.perform] at hp
    split at hp <;> cases hp
    rfl
  | lock lock o => exact (performLock_caches hp).1
  | touch pid etag zipPath workDir => exact ho.elim
  | ret pid how =>
    simp only [TestCases.perform] at hp
    split at hp <;> cases hp <;> rfl
  | _ =>
    cases hp
    rfl

/-- An operation under the cache's own lock, on its own list. -/
theorem perform_touch {self : Self} {pid : Nat} {etag : Bytes} {zipPath workDir : Bool} {p : Pick}
    {r : List CacheEntry} (hp : perform cfg w self (.touch pid etag zipPath workDir) p = some (w', r)) :
    w.cacheMu self.proc = none ∧
      r = (touchCache cfg.cache p.now p.sizeOf pid etag zipPath workDir (w.caches self.proc)).1 ∧
        w' = { w with
          caches := Function.update w.caches self.proc
            (touchCache cfg.cache p.now p.sizeOf pid etag zipPath workDir (w.caches self.proc)).2
          cacheMu := Function.update w.cacheMu self.proc (some self) } := by
  simp only [TestCases.perform] at hp
  split at hp
  · rename_i hfree
    cases hp
    exact ⟨hfree, rfl, rfl⟩
  · cases hp

/-- A touch that spares what is used evicts nothing that is used. -/
theorem not_used_of_spares {used : List Target} {proc pid : Nat} {etag : Bytes} {zipPath workDir : Bool}
    {p : Pick} (hu : (w.caches proc).Unique)
    (hs : SparesUsed cfg w used proc (.touch pid etag zipPath workDir) p) {e : CacheEntry}
    (he : e ∈ (touchCache cfg.cache p.now p.sizeOf pid etag zipPath workDir (w.caches proc)).1)
    {T : Target} (hT : T ∈ targets e) : T ∉ used := by
  intro hmem
  have hunique : Cache.Unique (touchedList p.now p.sizeOf pid etag zipPath workDir (w.caches proc)) :=
    unique_touchedList hu
  have hnd := hunique.nodup
  have hin := mem_of_evicted he
  have hspared := hs e hin ⟨T, hT, hmem⟩
  rw [(evicted_iff hnd hin).mp he] at hspared
  cases hspared

/-- An operation keeps evictions and use apart, if the touch spares what is used and what begins
to be used is not being evicted. -/
theorem Separate.perform (h : Separate w gs) (hg : g ∈ gs) (hl : Live w g.self) {o : Op} {p : Pick}
    {r : o.Reply} (hp : perform cfg w g.self o p = some (w', r))
    (hspares : SparesUsed cfg w ((gs.filter fun g => Live w g.self).flatMap Usage.uses ++
      (g.next o r).uses) g.self.proc o p)
    (hfree : StartsFree (gs.filter fun g => Live w g.self) g (g.next o r))
    (hgs : ∀ x ∈ gs', x = g.next o r ∨ x ∈ gs) : Separate w' gs' := by
  have hlive : ∀ self, Live w' self ↔ Live w self := fun self => by
    unfold Live
    rw [perform_epochs hp]
  have hmem : ∀ x ∈ gs, Live w x.self → x ∈ gs.filter fun g => Live w g.self :=
    fun x hx hlx => List.mem_filter.mpr ⟨hx, decide_eq_true hlx⟩
  -- what begins to be used is not being evicted by anybody
  have hstart : ∀ x ∈ gs, Live w x.self → ∀ T ∈ x.evicts, T ∉ (g.next o r).uses := by
    intro x hx hlx T hT hused
    by_cases hold : T ∈ g.uses
    · exact h.apart x hx hlx g hg hl T hT hold
    · exact hfree T hused hold x (hmem x hx hlx) hT
  by_cases ho : NoTouch o
  · have hevicts : ∀ T ∈ (g.next o r).evicts, T ∈ g.evicts := by
      intro T hT
      unfold Usage.evicts at hT ⊢
      rcases Usage.next_removing (g := g) ho r with hr | hr
      · rw [hr] at hT
        exact hT
      · rw [hr] at hT
        cases hT
    refine ⟨?_, ?_, ?_⟩
    · rw [perform_caches ho hp]
      exact h.unique
    · intro x hx
      rw [perform_epochs hp]
      rcases hgs x hx with rfl | hx
      · rw [Usage.next_self]
        exact h.past g hg
      · exact h.past x hx
    · intro x hx hlx y hy hly T hT
      rw [hlive] at hlx hly
      rcases hgs x hx with rfl | hx <;> rcases hgs y hy with rfl | hy
      · exact hstart g hg hl T (hevicts T hT)
      · exact h.apart g hg hl y hy hly T (hevicts T hT)
      · exact hstart x hx hlx T hT
      · exact h.apart x hx hlx y hy hly T hT
  · cases o with
    | touch pid etag zipPath workDir =>
      obtain ⟨-, rfl, hw'⟩ := perform_touch hp
      have hcaches : w'.caches = Function.update w.caches g.self.proc (touchCache cfg.cache p.now p.sizeOf
          pid etag zipPath workDir (w.caches g.self.proc)).2 := congrArg Workspace.caches hw'
      -- what the touch evicts is used by nobody, and not by the goroutine itself
      have hnew : ∀ T ∈ (g.next (.touch pid etag zipPath workDir) (touchCache cfg.cache p.now p.sizeOf
          pid etag zipPath workDir (w.caches g.self.proc)).1).evicts,
          T ∉ (gs.filter fun g => Live w g.self).flatMap Usage.uses ++
            (g.next (.touch pid etag zipPath workDir) (touchCache cfg.cache p.now p.sizeOf
              pid etag zipPath workDir (w.caches g.self.proc)).1).uses := by
        intro T hT
        obtain ⟨e, he, hTe⟩ := List.mem_flatMap.mp hT
        exact not_used_of_spares (h.unique _) hspares he hTe
      refine ⟨?_, ?_, ?_⟩
      · intro proc
        rw [hcaches]
        by_cases hproc : proc = g.self.proc
        · rw [hproc, Function.update_self]
          exact unique_touchCache (h.unique _)
        · rw [Function.update_of_ne hproc]
          exact h.unique proc
      · intro x hx
        rw [perform_epochs hp]
        rcases hgs x hx with rfl | hx
        · rw [Usage.next_self]
          exact h.past g hg
        · exact h.past x hx
      · intro x hx hlx y hy hly T hT hused
        rw [hlive] at hlx hly
        rcases hgs x hx with rfl | hx <;> rcases hgs y hy with rfl | hy
        · exact hnew T hT (List.mem_append_right _ hused)
        · exact hnew T hT (List.mem_append_left _ (List.mem_flatMap.mpr ⟨y, hmem y hy hly, hused⟩))
        · exact hstart x hx hlx T hT hused
        · exact h.apart x hx hlx y hy hly T hT hused
    | _ => exact absurd trivial ho

theorem Separate.empty : Separate {} [] where
  unique _ := List.nodup_nil
  past g hg := by cases hg
  apart g hg := by cases hg

/-- A new goroutine uses and evicts nothing. -/
theorem Separate.start (h : Separate w gs) {self : Self} (hl : w.epochs self.proc = self.epoch)
    (serial : Nat) : Separate { w with nextSerial := serial } (gs ++ [{ self := self }]) where
  unique := h.unique
  past g hg := by
    rcases List.mem_append.mp hg with hg | hg
    · exact h.past g hg
    · obtain rfl := List.mem_singleton.mp hg
      exact hl.ge
  apart g hg hlg g' hg' hlg' T hT hused := by
    rcases List.mem_append.mp hg with hg | hg
    · rcases List.mem_append.mp hg' with hg' | hg'
      · exact h.apart g hg hlg g' hg' hlg' T hT hused
      · obtain rfl := List.mem_singleton.mp hg'
        cases hused
    · obtain rfl := List.mem_singleton.mp hg
      cases hT

/-- When a process is killed, its goroutines use nothing any more. -/
theorem Separate.crash (h : Separate w gs) (proc : Nat) : Separate (w.crash proc) gs := by
  have hepochs : ∀ x, w.epochs x ≤ (w.crash proc).epochs x := by
    intro x
    show _ ≤ Function.update w.epochs proc (w.epochs proc + 1) x
    by_cases hx : x = proc
    · rw [hx, Function.update_self]
      omega
    · rw [Function.update_of_ne hx]
  have hlive : ∀ x ∈ gs, Live (w.crash proc) x.self → Live w x.self := by
    intro x hx hl
    have hpast := h.past x hx
    have hle := hepochs x.self.proc
    unfold Live at hl ⊢
    omega
  refine ⟨?_, fun x hx => (h.past x hx).trans (hepochs _), ?_⟩
  · intro x
    show (Function.update w.caches proc [] x).Unique
    by_cases hx : x = proc
    · rw [hx, Function.update_self]
      exact List.nodup_nil
    · rw [Function.update_of_ne hx]
      exact h.unique x
  · intro x hx hlx y hy hly
    exact h.apart x hx (hlive x hx hlx) y hy (hlive y hy hly)

/-- A move keeps evictions and use apart. -/
theorem Separate.record {s s' : UsageConfig} {m : Move Pick Event}
    (h : Separate s.world (s.threads.map Prod.fst)) (hheed : AllHeed usageRecorder usageRules s)
    (hok : Apart cfg s m) (hstep : (workers cfg).record usageRecorder s m = some s') :
    Separate s'.world (s'.threads.map Prod.fst) := by
  obtain ⟨i, c, g, e, k, w, r, rfl, hi, hsem, rfl⟩ | ⟨i, rfl, rfl⟩ | ⟨v, w, ps, rfl, hv, rfl⟩ :=
    record_cases hstep
  · obtain ⟨hself, -⟩ := hheed.allowed hi
    obtain ⟨self, o⟩ := e
    obtain rfl : self = g.self := hself
    simp only [Apart, hi, hsem] at hok
    simp only [workers, sem] at hsem
    split at hsem
    · rename_i hl
      have hg : g ∈ s.threads.map Prod.fst := List.mem_map.mpr ⟨_, List.mem_of_getElem? hi, rfl⟩
      refine h.perform hg hl hsem hok.1 hok.2 fun x hx => ?_
      obtain ⟨t, ht, rfl⟩ := List.mem_map.mp hx
      rcases List.mem_append.mp ht with ht | ht
      · rcases List.mem_or_eq_of_mem_set ht with ht | rfl
        · exact .inr (List.mem_map_of_mem ht)
        · exact .inl rfl
      · cases ht
    · cases hsem
  · rw [records_crash]
    exact h
  · cases v with
    | start self pid =>
      simp only [workers, happen] at hv
      split at hv <;> cases hv
      rename_i hnew
      simpa [usageRecorder] using h.start hnew.1 (self.serial + 1)
    | crash proc =>
      cases hv
      simpa using h.crash proc

end Invariant

/-! ## Runs -/

/-- In every run in which each eviction spares what is in use, and no job starts to use what is
being evicted, nothing in use is deleted by an eviction. -/
theorem nothing_in_use_removed (cfg : ManagerConfig) {s : UsageConfig}
    (h : Run ((workers cfg).record usageRecorder) (Apart cfg) ⟨{}, []⟩ s) : NothingInUseRemoved s := by
  have hinv : AllHeed usageRecorder usageRules s ∧ Separate s.world (s.threads.map Prod.fst) := by
    refine h.invariant (J := fun s => AllHeed usageRecorder usageRules s ∧
      Separate s.world (s.threads.map Prod.fst)) ?_ ?_
    · exact ⟨fun t ht => absurd ht List.not_mem_nil, Separate.empty⟩
    · intro s s' m hJ hok hstep
      exact ⟨usage_disciplined.record hJ.1 (fun _ _ _ _ _ _ _ _ _ _ => trivial)
        (fun _ _ _ _ => trivial) hstep, hJ.2.record hJ.1 hok hstep⟩
  rintro i T ⟨⟨g, p⟩, hi, hl, hne, e, he, hdel⟩ g' hg'
  obtain ⟨hmem', hl'⟩ := List.mem_filter.mp hg'
  cases p with
  | ret a => cases he
  | call e' k =>
    obtain rfl : e' = e := Option.some.inj he
    have hT : T ∈ g.evicts := (hinv.1.allowed hi).2 hne T hdel
    exact hinv.2.apart g (List.mem_map.mpr ⟨_, List.mem_of_getElem? hi, rfl⟩) hl g' hmem'
      (of_decide_eq_true hl') T hT

/-- Once the task for problem 1 is done, a task for problem 2 evicts problem 1. -/
def afterTheTask : List (Move Pick Event) :=
  firstTask ++ List.replicate 2 (.call 0 {}) ++
    .env (.start ⟨0, 0, 1⟩ 2) :: List.replicate 12 (.call 1 (onePick 8))

set_option maxRecDepth 8000 in
theorem nothing_in_use_removed_after :
    NothingInUseRemoved (playAll ((workers smallConfig).record usageRecorder) (Apart smallConfig)
        ⟨{}, []⟩ afterTheTask) ∧
      EvictsNext (playAll ((workers smallConfig).record usageRecorder) (Apart smallConfig)
        ⟨{}, []⟩ afterTheTask) 1 (.zip 1) ∧
      (liveUsers (playAll ((workers smallConfig).record usageRecorder) (Apart smallConfig)
        ⟨{}, []⟩ afterTheTask)).flatMap Usage.uses = [.zip 2] :=
  ⟨nothing_in_use_removed smallConfig (.playAll .init afterTheTask), by decide +kernel,
    by decide +kernel⟩

/-- The same while the task for problem 1 is about to run its test cases. -/
def duringTheTask : List (Move Pick Event) :=
  firstTask ++ .env (.start ⟨0, 0, 1⟩ 2) :: List.replicate 15 (.call 1 (onePick 8)) ++
    [.call 1 { order := [[utf8 "1.in"], [utf8 "1.out"], readyPath, readyETagPath, []] }]

set_option maxRecDepth 8000 in
/-- The test cases are deleted under it. -/
theorem deleted_in_use : ¬ ∀ (cfg : ManagerConfig) (s : UsageConfig),
    Run ((workers cfg).record usageRecorder) always ⟨{}, []⟩ s → NothingInUseRemoved s := by
  intro h
  have hfree := h smallConfig _ (.playAll .init duringTheTask) 1 (.workDir 1) (by decide +kernel)
  have hused : ∃ g ∈ liveUsers (playAll ((workers smallConfig).record usageRecorder) always
      ⟨{}, []⟩ duringTheTask), Target.workDir 1 ∈ g.uses := by decide +kernel
  obtain ⟨g, hg, hT⟩ := hused
  exact hfree g hg hT

end DeepOj.Worker.TestCases
