import DeepOj.Worker.CacheInUse
import DeepOj.Worker.CacheLedger

/-!
# What is on disk and what is on record

The files that a goroutine has put in their place are on record, or the goroutine
has yet to tell `touchCache`, or an eviction is about to delete them. Every
operation keeps this, as long as an extraction that cannot be finished leaves
nothing behind.
-/

namespace DeepOj.Worker.TestCases

open Conc Go Machine

/-! ## Sizes -/

/-- The size of a regular file. The ready marker holds a time, of `stamp` bytes. -/
def fileSize (stamp : Nat) (q : Path) : Option Node → Nat
  | some (.file content) => if q = readyPath then stamp else content.length
  | _ => 0

def dirSize (stamp : Nat) (t : Tree) : Nat :=
  ((t.map Prod.fst).dedup.map fun q => fileSize stamp q (t.stat q)).sum

def calcEntrySizeBytes (stamp : Nat) (c : CaseFiles) (zipPath workDir : Bool) : Nat :=
  (if zipPath then (c.zip.map ZipFile.size).getD 0 + (c.zipETag.map List.length).getD 0 else 0) +
    if workDir then (c.work.map (dirSize stamp)).getD 0 else 0

/-! ## Ledgers and problems -/

/-- The deletions leave nothing of a directory. -/
def Clears (pid : Nat) (t : Tree) (plan : List Deletion) : Prop :=
  .dir pid ∈ plan ∨ ∃ (paths : List Path) (rest : List Deletion),
    plan = paths.map (.path pid) ++ rest ∧ [] ∈ paths ∧ (∀ b ∈ t, b.1 ∈ paths) ∧
      paths.Pairwise fun a b => ¬ a <+: b

namespace Ledger

def sawZip (pid : Nat) (g : Ledger) : Prop := g.problemID = pid ∧ g.zipSeen = true

def sawWork (pid : Nat) (g : Ledger) : Prop := g.problemID = pid ∧ g.workSeen = true

def owesZip (pid : Nat) (g : Ledger) : Prop := g.problemID = pid ∧ g.zip = true

def owesWork (pid : Nat) (g : Ledger) : Prop := g.problemID = pid ∧ g.work = true

def removesZip (pid : Nat) (g : Ledger) : Prop := ∃ plan ∈ g.plan, .remove pid .zip ∈ plan

def removesWork (pid : Nat) (t : Tree) (g : Ledger) : Prop := ∃ plan ∈ g.plan, Clears pid t plan

instance (pid : Nat) (g : Ledger) : Decidable (g.sawZip pid) := inferInstanceAs (Decidable (_ ∧ _))
instance (pid : Nat) (g : Ledger) : Decidable (g.sawWork pid) := inferInstanceAs (Decidable (_ ∧ _))
instance (pid : Nat) (g : Ledger) : Decidable (g.owesZip pid) := inferInstanceAs (Decidable (_ ∧ _))
instance (pid : Nat) (g : Ledger) : Decidable (g.owesWork pid) := inferInstanceAs (Decidable (_ ∧ _))

end Ledger

/-- A goroutine that lives has a ledger like this. -/
def Someone (w : Workspace) (gs : List Ledger) (P : Ledger → Prop) : Prop :=
  ∃ g ∈ gs, Live w g.self ∧ P g

instance (w : Workspace) (gs : List Ledger) (P : Ledger → Prop) [DecidablePred P] :
    Decidable (Someone w gs P) := inferInstanceAs (Decidable (∃ _ ∈ _, _))

/-- A zip that somebody has seen is on record, or is about to be recorded or deleted. -/
def ZipBooked (w : Workspace) (gs : List Ledger) (pid : Nat) : Prop :=
  Someone w gs (Ledger.sawZip pid) → (w.files pid).zip.isSome = true →
    (∃ e ∈ w.caches 0, e.problemID = pid ∧ e.zipPath = true) ∨ Someone w gs (Ledger.owesZip pid) ∨
      Someone w gs (Ledger.removesZip pid)

/-- The same of a directory. -/
def WorkBooked (w : Workspace) (gs : List Ledger) (pid : Nat) : Prop :=
  ∀ t, Someone w gs (Ledger.sawWork pid) → (w.files pid).work = some t →
    (∃ e ∈ w.caches 0, e.problemID = pid ∧ e.workDir = true) ∨ Someone w gs (Ledger.owesWork pid) ∨
      Someone w gs (Ledger.removesWork pid t)

/-- The size on record is right, or about to be recorded again. -/
def SizeBooked (stamp : Nat) (w : Workspace) (gs : List Ledger) (pid : Nat) : Prop :=
  ∀ e ∈ w.caches 0, e.problemID = pid →
    e.sizeBytes = calcEntrySizeBytes stamp (w.files pid) e.zipPath e.workDir ∨
      (e.zipPath = true ∧ Someone w gs (Ledger.owesZip pid)) ∨
        (e.workDir = true ∧ Someone w gs (Ledger.owesWork pid))

/-- The goroutines of the one worker process. -/
structure Roster (w : Workspace) (gs : List Ledger) : Prop where
  serial : ∀ g ∈ gs, g.self.serial < w.nextSerial
  past : ∀ g ∈ gs, g.self.epoch ≤ w.epochs g.self.proc
  proc : ∀ g ∈ gs, g.self.proc = 0
  distinct : (gs.map Ledger.self).Nodup

/-- The record is kept. -/
structure Balanced (cfg : ManagerConfig) (stamp : Nat) (w : Workspace) (gs : List Ledger) : Prop where
  roster : Roster w gs
  unique : (w.caches 0).Unique
  within : (totalCacheBytes (w.caches 0) : Int) ≤ cfg.cache.cacheByteBudget
  /-- An eviction holds the lock. -/
  locked : ∀ g ∈ gs, Live w g.self → g.plan ≠ none → w.cacheMu 0 = some g.self
  /-- What an eviction has yet to delete is not on record. -/
  planned : ∀ g ∈ gs, Live w g.self → ∀ plan ∈ g.plan, ∀ d ∈ plan, ∀ e ∈ w.caches 0,
    e.problemID ≠ d.problemID
  returned : ∀ g ∈ gs, Live w g.self → g.returned = true →
    g.plan = none ∧ g.zip = false ∧ g.work = false
  zips : ∀ pid, ZipBooked w gs pid
  works : ∀ pid, WorkBooked w gs pid
  sizes : ∀ pid, SizeBooked stamp w gs pid

/-! ## What the operations do to the files -/

/-- An extraction that has begun to replace the directory fails. -/
def FailsLate : (o : FileOp) → o.Reply → Prop
  | .rename, ok => ok = false
  | .create f, ok => f ≠ .zipETag ∧ ok = false
  | .write f _, ok => f ≠ .zipETag ∧ ok = false
  | _, _ => False

instance (o : FileOp) (r : o.Reply) : Decidable (FailsLate o r) := by
  unfold FailsLate
  split <;> infer_instance

/-- There is no directory, neither on disk nor on record. -/
def NoDirectory (cache : Cache) (pid : Nat) (c : CaseFiles) : Prop :=
  c.work.isNone = true ∧ ∀ e ∈ cache, e.problemID = pid → e.workDir = false

instance (cache : Cache) (pid : Nat) (c : CaseFiles) : Decidable (NoDirectory cache pid c) :=
  inferInstanceAs (Decidable (_ ∧ _))

/-- What an operation on the files of a problem does to them, and to the ledger of the goroutine
that performs it. -/
inductive Effect (cache : Cache) (g : Ledger) (pid : Nat) (c : CaseFiles) : CaseFiles → Ledger → Prop where
  | idle {c' : CaseFiles} (hzip : c'.zip = c.zip) (hetag : c'.zipETag = c.zipETag)
      (hwork : c'.work = c.work) : Effect cache g pid c c' g
  | zip {c' : CaseFiles} (seen : Bool) (hpid : pid = g.problemID) (hrun : g.returned = true → g.zip = true)
      (hwork : c'.work = c.work) : Effect cache g pid c c' { g with zip := true, zipSeen := seen }
  | work {c' : CaseFiles} (seen : Bool) (hpid : pid = g.problemID)
      (hrun : g.returned = true → g.work = true) (hzip : c'.zip = c.zip)
      (hetag : c'.zipETag = c.zipETag) : Effect cache g pid c c' { g with work := true, workSeen := seen }
  | failed (hpid : pid = g.problemID) (hnone : NoDirectory cache pid c) :
      Effect cache g pid c c { g with work := false }
  | evict {c' : CaseFiles} {d : Deletion} {rest plan : List Deletion} (hplan : g.plan = some (d :: rest))
      (hpid : d.problemID = pid)
      (hzip : c'.zip = none ∨ c'.zip = c.zip ∧ d ≠ .remove pid .zip)
      (hwork : ∀ t', c'.work = some t' →
        ∃ t, c.work = some t ∧ (Clears pid t (d :: rest) → Clears pid t' plan))
      (hrest : ∀ x ∈ rest, x ∈ plan) (hids : ∀ x ∈ plan, x.problemID = pid ∨ x ∈ rest) :
      Effect cache g pid c c' { g with plan := some plan }

section Effects

variable {cfg : ManagerConfig} {cache : Cache} {g : Ledger} {pid : Nat} {c c' : CaseFiles} {t : Tree}
  {d : Deletion} {plan : List Deletion}

/-- Unless the walk through the directory has begun, it has yet to begin. -/
theorem Clears.tail (h : Clears pid t (d :: plan)) (hd : ∀ q, d ≠ .path pid q) (hdir : d ≠ .dir pid) :
    .dir pid ∈ plan := by
  rcases h with h | ⟨paths, rest, heq, hroot, -, -⟩
  · exact (List.mem_cons.mp h).resolve_left (Ne.symm hdir)
  · cases paths with
    | nil => cases hroot
    | cons q paths => exact absurd (List.cons.inj heq).1 (hd q)

/-- A walk through the directory finds all of it. -/
theorem clears_walk {tmpDir : Path} {order : List Path} (hw : c.work = some t)
    (h : ValidWalk (c.walk tmpDir .work) order) (rest : List Deletion) :
    Clears pid t (order.map (.path pid) ++ rest) := by
  have hwalk : c.walk tmpDir .work = [] :: t.map Prod.fst := by simp [CaseFiles.walk, hw]
  rw [hwalk] at h
  refine .inr ⟨order, rest, rfl, h.2.1 [] List.mem_cons_self, fun b hb => ?_, h.2.2⟩
  exact h.2.1 b.1 (List.mem_cons_of_mem _ (List.mem_map_of_mem hb))

/-- After a step of the walk, the rest of it is left. -/
theorem Clears.unlink {q : Path} {t' : Tree} (h : Clears pid t (.path pid q :: plan)) (hw : c.work = some t)
    (hw' : (c.unlink .work q).work = some t') : Clears pid t' plan := by
  rcases h with h | ⟨paths, rest, heq, hroot, hall, hpair⟩
  · exact .inl ((List.mem_cons.mp h).resolve_left (by simp))
  · cases paths with
    | nil => cases hroot
    | cons q' paths =>
      obtain ⟨hq, rfl⟩ := List.cons.inj heq
      obtain rfl : q = q' := by simpa using hq
      have hlater := (List.pairwise_cons.mp hpair).1
      -- what is below the path has been deleted before it
      have hbelow : hasBelow t q = false := by
        refine Bool.eq_false_iff.mpr fun hb => ?_
        obtain ⟨b, hb, hpre⟩ := List.any_eq_true.mp hb
        simp only [Bool.and_eq_true, List.isPrefixOf_iff_prefix, bne_iff_ne] at hpre
        exact hlater b.1 ((List.mem_cons.mp (hall b hb)).resolve_left hpre.2) hpre.1
      simp only [CaseFiles.unlink, hw] at hw'
      by_cases hnil : q = []
      · subst hnil
        simp [hbelow] at hw'
      · rw [if_neg hnil] at hw'
        obtain rfl : erase t q = t' := by simpa using hw'
        refine .inr ⟨paths, rest, rfl, (List.mem_cons.mp hroot).resolve_left (Ne.symm hnil), ?_,
          (List.pairwise_cons.mp hpair).2⟩
        intro b hb
        rw [erase, hbelow] at hb
        obtain ⟨hb, hne⟩ := List.mem_filter.mp hb
        exact (List.mem_cons.mp (hall b hb)).resolve_left (by simpa using hne)

/-- A marker is no zip. -/
theorem create_zip {f : CaseFile} (hf : f ≠ .zipETag) (h : c.create f = some c') :
    c'.zip = c.zip ∧ c'.zipETag = c.zipETag := by
  obtain ⟨path, t, -, -, rfl⟩ | ⟨heq, -⟩ := create_cases h
  · exact ⟨rfl, rfl⟩
  · exact absurd heq hf

theorem write_zip {f : CaseFile} (hf : f ≠ .zipETag) (content : Bytes) :
    (c.write f content).zip = c.zip ∧ (c.write f content).zipETag = c.zipETag := by
  unfold CaseFiles.write
  split
  · exact ⟨rfl, rfl⟩
  · rw [if_neg hf]
    exact ⟨rfl, rfl⟩

theorem create_zipETag (h : c.create .zipETag = some c') : c'.work = c.work := by
  obtain ⟨path, t, hf, -, -⟩ | ⟨-, rfl⟩ := create_cases h
  · cases hf
  · rfl

theorem unlink_zip (dir : CaseDir) (q : Path) :
    (c.unlink dir q).zip = c.zip ∧ (c.unlink dir q).zipETag = c.zipETag := by
  unfold CaseFiles.unlink
  split
  · exact ⟨rfl, rfl⟩
  · split
    · exact ⟨rfl, rfl⟩
    · split
      · split <;> exact ⟨rfl, rfl⟩
      · exact ⟨rfl, rfl⟩

/-- While a goroutine owes the record a touch, it may change what it owes it for. -/
theorem Effect.zip_again (hzip : g.zip = true) (hpid : pid = g.problemID) (hwork : c'.work = c.work) :
    Effect cache g pid c c' g := by
  have h : Effect cache g pid c c' { g with zip := true, zipSeen := g.zipSeen } :=
    .zip g.zipSeen hpid (fun _ => hzip) hwork
  rwa [← hzip] at h

theorem Effect.work_again (hw : g.work = true) (hpid : pid = g.problemID) (hzip : c'.zip = c.zip)
    (hetag : c'.zipETag = c.zipETag) : Effect cache g pid c c' g := by
  have h : Effect cache g pid c c' { g with work := true, workSeen := g.workSeen } :=
    .work g.workSeen hpid (fun _ => hw) hzip hetag
  rwa [← hw] at h

/-- The next deletion is done. -/
theorem Effect.strike (hplan : g.plan = some (d :: plan)) (hpid : d.problemID = pid)
    (hzip : c'.zip = none ∨ c'.zip = c.zip ∧ d ≠ .remove pid .zip)
    (hwork : ∀ t', c'.work = some t' →
      ∃ t, c.work = some t ∧ (Clears pid t (d :: plan) → Clears pid t' plan)) :
    Effect cache g pid c c' g.struck := by
  have hstruck : g.struck = { g with plan := some plan } := by
    unfold Ledger.struck
    rw [hplan]
    rfl
  rw [hstruck]
  exact .evict hplan hpid hzip hwork (fun _ hx => hx) fun _ hx => .inr hx

/-- A file that is deleted in an eviction. -/
theorem Effect.remove {f : CaseFile} (hplan : g.plan = some (.remove pid f :: plan)) :
    Effect cache g pid c (c.remove f) g.struck := by
  refine .strike hplan rfl ?_ fun t' ht' => ?_
  · cases f with
    | zip => exact .inl rfl
    | _ => exact .inr ⟨rfl, by simp⟩
  · have htail : ∀ t, Clears pid t (.remove pid f :: plan) → Clears pid t' plan :=
      fun t h => .inl (h.tail nofun nofun)
    cases hw : c.work with
    | none => cases f <;> simp [CaseFiles.remove, hw] at ht'
    | some t => exact ⟨t, rfl, htail t⟩

/-- A zip that has been found or put in its place is to be recorded. -/
theorem Effect.sees (h : g.plan = none ∧ g.returned = false ∧ pid = g.problemID) (hwork : c'.work = c.work) :
    Effect cache g pid c c' g.seesZip := by
  refine .zip true h.2.2 (fun hr => ?_) hwork
  rw [h.2.1] at hr
  cases hr

/-- A walk through the directory, at the begin of its deletion. -/
theorem Effect.walk {tmpDir : Path} {order : List Path} (ha : g.AllowsFile pid (.readDir .work))
    (hwalk : ValidWalk (c.walk tmpDir .work) order) :
    Effect cache g pid c c (g.nextFile (.readDir .work) order) := by
  rcases ha with ⟨rest, hplan⟩ | ⟨hplan, hrun, hpid⟩
  · -- in an eviction, what it has found is to be unlinked
    have hnext : g.nextFile (.readDir .work) order =
        { g with plan := some (order.map (.path pid) ++ rest) } := by
      simp only [Ledger.nextFile, hplan]
    rw [hnext]
    refine .evict hplan rfl (.inr ⟨rfl, by simp⟩) (fun t ht => ⟨t, ht, fun _ => clears_walk ht hwalk rest⟩)
      (fun x hx => List.mem_append_right _ hx) fun x hx => ?_
    rcases List.mem_append.mp hx with hx | hx
    · obtain ⟨q, -, rfl⟩ := List.mem_map.mp hx
      exact .inl rfl
    · exact .inr hx
  · -- in an extraction, the directory is about to change
    have hnext : g.nextFile (.readDir .work) order = { g with work := true } := by
      simp only [Ledger.nextFile, hplan]
    rw [hnext]
    exact .work g.workSeen hpid (fun hr => by rw [hrun] at hr; cases hr) rfl rfl

/-- A path of the directory is unlinked, in an eviction or in an extraction. -/
theorem Effect.unlink {q : Path} (ha : g.AllowsFile pid (.unlink .work q)) :
    Effect cache g pid c (c.unlink .work q) g.struck := by
  obtain ⟨hzip, hetag⟩ := unlink_zip (c := c) .work q
  rcases ha with ⟨rest, hplan⟩ | ⟨hplan, hwork, hpid⟩
  · refine .strike hplan rfl (.inr ⟨hzip, by simp⟩) fun t' ht' => ?_
    cases hw : c.work with
    | none => simp [CaseFiles.unlink, hw] at ht'
    | some t => exact ⟨t, rfl, fun h => h.unlink hw ht'⟩
  · rw [g.struck_of_none hplan]
    exact .work_again hwork hpid hzip hetag

/-- A file is removed, in an eviction or before a marker is written. -/
theorem Effect.removes {f : CaseFile} (ha : g.AllowsFile pid (.remove f)) :
    Effect cache g pid c (c.remove f) g.struck := by
  by_cases htmp : f = .zipTmp
  · subst htmp
    have hplan : g.plan = none := ha
    rw [g.struck_of_none hplan]
    exact .idle rfl rfl rfl
  · have hcase : (∃ rest, g.plan = some (.remove pid f :: rest)) ∨
        (f = .readyETag ∧ g.plan = none ∧ g.work = true ∧ pid = g.problemID) := by
      cases f <;> first | exact absurd rfl htmp | exact ha
    rcases hcase with ⟨rest, hplan⟩ | ⟨rfl, hplan, hwork, hpid⟩
    · exact .remove hplan
    · rw [g.struck_of_none hplan]
      exact .work_again hwork hpid rfl rfl

/-- Every operation on the files of a problem is of one of these kinds. -/
theorem effect_of_perform {tmpDir : Path} {o : FileOp} {p : Pick} {r : o.Reply} (ha : g.AllowsFile pid o)
    (htidy : FailsLate o r → NoDirectory cache pid c) (hp : c.perform cfg tmpDir o p = some (c', r)) :
    Effect cache g pid c c' (g.nextFile o r) := by
  cases step_of_perform hp with
  | etagMatch remoteETag =>
    show Effect cache g pid c c (if c.hasETag remoteETag then g.seesZip else g)
    by_cases hfound : c.hasETag remoteETag = true
    · rw [if_pos hfound]
      exact .sees ha rfl
    · rw [if_neg hfound]
      exact .idle rfl rfl rfl
  | zipPlaced => exact .sees ha rfl
  | @created f _ hc =>
    by_cases hf : f = .zipETag
    · subst hf
      exact .zip_again ha.1 ha.2 (create_zipETag hc)
    · obtain ⟨hzip, hetag⟩ := create_zip hf hc
      cases f <;> first | exact absurd rfl hf | exact .work_again ha.1 ha.2 hzip hetag
  | notCreated f =>
    by_cases hf : f = .zipETag
    · subst hf
      exact .idle rfl rfl rfl
    · have hnone := htidy ⟨hf, rfl⟩
      cases f <;> first | exact absurd rfl hf | exact .failed ha.2 hnone
  | written f content =>
    by_cases hf : f = .zipETag
    · subst hf
      exact .zip_again ha.1 ha.2 rfl
    · obtain ⟨hzip, hetag⟩ := write_zip (c := c) hf content
      cases f <;> first | exact absurd rfl hf | exact .work_again ha.1 ha.2 hzip hetag
  | notWritten f content =>
    by_cases hf : f = .zipETag
    · subst hf
      exact .idle rfl rfl rfl
    · have hnone := htidy ⟨hf, rfl⟩
      cases f <;> first | exact absurd rfl hf | exact .failed ha.2 hnone
  | removed f => exact .removes ha
  | @walked dir _ hwalk =>
    cases dir with
    | tmp => exact .idle rfl rfl rfl
    | work => exact .walk ha hwalk
  | unlinked dir q =>
    cases dir with
    | tmp => exact .idle rfl rfl rfl
    | work => exact .unlink ha
  | renamed =>
    have h : Effect cache g pid c { c with
        work := some (relative tmpDir c.tmp), torn := false, tmp := c.tmp.removeAll tmpDir }
        { g with work := true, workSeen := true } := .work true ha.2 (fun _ => ha.1) rfl rfl
    have hsame : ({ g with work := true, workSeen := true } : Ledger) = { g with workSeen := true } :=
      congrArg (fun b => ({ g with work := b, workSeen := true } : Ledger)) ha.1.symm
    rw [hsame] at h
    exact h
  | notRenamed => exact .failed ha.2 (htidy rfl)
  | _ => exact .idle rfl rfl rfl

end Effects

/-! ## The record is kept -/

section Steps

variable {cfg : ManagerConfig} {stamp : Nat} {w w' : Workspace} {gs : List Ledger} {g g' : Ledger}
  {i pid : Nat} {c : CaseFiles} {P : Ledger → Prop}

/-- A goroutine that lives has its turn. -/
structure Acts (w : Workspace) (gs : List Ledger) (i : Nat) (g : Ledger) (w' : Workspace)
    (g' : Ledger) : Prop where
  here : gs[i]? = some g
  live : Live w g.self
  same : g'.self = g.self
  epochs : w'.epochs = w.epochs

namespace Acts

theorem mem (ht : Acts w gs i g w' g') : g ∈ gs := List.mem_of_getElem? ht.here

theorem live_iff (ht : Acts w gs i g w' g') (self : Self) : Live w' self ↔ Live w self := by
  unfold Live
  rw [ht.epochs]

theorem mem_set (ht : Acts w gs i g w' g') : g' ∈ gs.set i g' :=
  List.mem_set (List.getElem?_eq_some_iff.mp ht.here).1 g'

/-- Its own ledger is as good as any. -/
theorem someone (ht : Acts w gs i g w' g') (h : P g') : Someone w' (gs.set i g') P :=
  ⟨g', ht.mem_set, (ht.live_iff _).mpr (ht.same ▸ ht.live), h⟩

theorem after (ht : Acts w gs i g w' g') (hP : P g → P g') (h : Someone w gs P) :
    Someone w' (gs.set i g') P := by
  obtain ⟨x, hx, hlx, hPx⟩ := h
  obtain ⟨j, hj⟩ := List.getElem?_of_mem hx
  by_cases hji : i = j
  · subst hji
    obtain rfl : g = x := Option.some.inj (ht.here.symm.trans hj)
    exact ht.someone (hP hPx)
  · have hset : (gs.set i g')[j]? = some x := by rw [List.getElem?_set_ne hji, hj]
    exact ⟨x, List.mem_of_getElem? hset, (ht.live_iff _).mpr hlx, hPx⟩

theorem before (ht : Acts w gs i g w' g') (hP : P g' → P g) (h : Someone w' (gs.set i g') P) :
    Someone w gs P := by
  obtain ⟨x, hx, hlx, hPx⟩ := h
  rcases List.mem_or_eq_of_mem_set hx with hx | rfl
  · exact ⟨x, hx, (ht.live_iff _).mp hlx, hPx⟩
  · exact ⟨g, ht.mem, ht.live, hP hPx⟩

/-- What every ledger says, and the new one. -/
theorem forall_set (ht : Acts w gs i g w' g') (h : ∀ x ∈ gs, Live w x.self → P x) (hg : P g') :
    ∀ x ∈ gs.set i g', Live w' x.self → P x := by
  intro x hx hlx
  rcases List.mem_or_eq_of_mem_set hx with hx | rfl
  · exact h x hx ((ht.live_iff _).mp hlx)
  · exact hg

end Acts

theorem Roster.turn (h : Roster w gs) (ht : Acts w gs i g w' g') (hserial : w'.nextSerial = w.nextSerial) :
    Roster w' (gs.set i g') where
  serial x hx := by
    rw [hserial]
    rcases List.mem_or_eq_of_mem_set hx with hx | rfl
    · exact h.serial x hx
    · exact ht.same ▸ h.serial g ht.mem
  past x hx := by
    rw [ht.epochs]
    rcases List.mem_or_eq_of_mem_set hx with hx | rfl
    · exact h.past x hx
    · exact ht.same ▸ h.past g ht.mem
  proc x hx := by
    rcases List.mem_or_eq_of_mem_set hx with hx | rfl
    · exact h.proc x hx
    · exact ht.same ▸ h.proc g ht.mem
  distinct := by
    have hselves : (gs.set i g').map Ledger.self = gs.map Ledger.self := by
      rw [List.map_set, ht.same]
      refine List.ext_getElem? fun j => ?_
      by_cases hji : i = j
      · subst hji
        rw [List.getElem?_set_self', List.getElem?_map, ht.here]
        rfl
      · rw [List.getElem?_set_ne hji]
    rw [hselves]
    exact h.distinct

/-- There is one eviction at a time. -/
theorem Balanced.evictor (h : Balanced cfg stamp w gs) (hi : gs[i]? = some g) (hl : Live w g.self)
    (hplan : g.plan ≠ none) {j : Nat} {x : Ledger} (hj : gs[j]? = some x) (hlx : Live w x.self)
    (hxplan : x.plan ≠ none) : i = j := by
  have hself : g.self = x.self := Option.some.inj
    ((h.locked g (List.mem_of_getElem? hi) hl hplan).symm.trans (h.locked x (List.mem_of_getElem? hj) hlx hxplan))
  have hlt : i < (gs.map Ledger.self).length := by
    rw [List.length_map]
    exact (List.getElem?_eq_some_iff.mp hi).1
  refine (List.getElem?_inj hlt h.roster.distinct).mp ?_
  rw [List.getElem?_map, List.getElem?_map, hi, hj]
  exact congrArg some hself

theorem ZipBooked.after (h : ZipBooked w gs pid) (ht : Acts w gs i g w' g') (hcaches : w'.caches = w.caches)
    (hfile : (w'.files pid).zip.isSome = true → (w.files pid).zip.isSome = true)
    (hsaw : g'.sawZip pid → g.sawZip pid) (howes : g.owesZip pid → g'.owesZip pid)
    (hremoves : g.removesZip pid → g'.removesZip pid) : ZipBooked w' (gs.set i g') pid := by
  intro hseen hthere
  rw [hcaches]
  exact (h (ht.before hsaw hseen) (hfile hthere)).imp_right (Or.imp (ht.after howes) (ht.after hremoves))

theorem WorkBooked.after (h : WorkBooked w gs pid) (ht : Acts w gs i g w' g') (hcaches : w'.caches = w.caches)
    (hfile : (w'.files pid).work = (w.files pid).work)
    (hsaw : g'.sawWork pid → g.sawWork pid) (howes : g.owesWork pid → g'.owesWork pid)
    (hremoves : ∀ t, g.removesWork pid t → g'.removesWork pid t) : WorkBooked w' (gs.set i g') pid := by
  intro t hseen hthere
  rw [hcaches]
  rw [hfile] at hthere
  exact (h t (ht.before hsaw hseen) hthere).imp_right (Or.imp (ht.after howes) (ht.after (hremoves t)))

theorem SizeBooked.after (h : SizeBooked stamp w gs pid) (ht : Acts w gs i g w' g')
    (hcaches : w'.caches = w.caches)
    (hzip : ∀ e ∈ w.caches 0, e.problemID = pid → e.zipPath = true → g'.owesZip pid ∨
      ((w'.files pid).zip = (w.files pid).zip ∧ (w'.files pid).zipETag = (w.files pid).zipETag ∧
        (g.owesZip pid → g'.owesZip pid)))
    (hwork : ∀ e ∈ w.caches 0, e.problemID = pid → e.workDir = true → g'.owesWork pid ∨
      ((w'.files pid).work = (w.files pid).work ∧ (g.owesWork pid → g'.owesWork pid))) :
    SizeBooked stamp w' (gs.set i g') pid := by
  intro e he hpid
  rw [hcaches] at he
  by_cases howes : (e.zipPath = true ∧ g'.owesZip pid) ∨ (e.workDir = true ∧ g'.owesWork pid)
  · exact .inr (howes.imp (fun h => ⟨h.1, ht.someone h.2⟩) fun h => ⟨h.1, ht.someone h.2⟩)
  · rw [not_or, not_and, not_and] at howes
    have hzip' := fun hz => (hzip e he hpid hz).resolve_left (howes.1 hz)
    have hwork' := fun hw => (hwork e he hpid hw).resolve_left (howes.2 hw)
    have hsize : calcEntrySizeBytes stamp (w'.files pid) e.zipPath e.workDir =
        calcEntrySizeBytes stamp (w.files pid) e.zipPath e.workDir := by
      unfold calcEntrySizeBytes
      cases hz : e.zipPath <;> cases hw : e.workDir <;> simp_all
    rw [hsize]
    refine (h e he hpid).imp_right (Or.imp ?_ ?_)
    · exact fun ⟨hz, hs⟩ => ⟨hz, ht.after (hzip' hz).2.2 hs⟩
    · exact fun ⟨hw, hs⟩ => ⟨hw, ht.after (hwork' hw).2 hs⟩

/-- For this problem, the ledger says what it said. -/
structure Frame (pid : Nat) (g g' : Ledger) : Prop where
  sawZip : g'.sawZip pid → g.sawZip pid
  sawWork : g'.sawWork pid → g.sawWork pid
  owesZip : g.owesZip pid → g'.owesZip pid
  owesWork : g.owesWork pid → g'.owesWork pid
  removesZip : g.removesZip pid → g'.removesZip pid
  removesWork : ∀ t, g.removesWork pid t → g'.removesWork pid t

theorem Frame.refl : Frame pid g g := ⟨id, id, id, id, id, fun _ => id⟩

theorem Ledger.plan_eq {plan₀ plan : List Deletion} (hplan : g.plan = some plan) (h : plan₀ ∈ g.plan) :
    plan₀ = plan := by
  rw [hplan] at h
  exact (Option.some.inj h).symm

namespace Effect

variable {cache : Cache} {c₀ : CaseFiles}

/-- An operation on the files of a problem is about that problem. -/
theorem frame (he : Effect cache g pid c₀ c g') {pid' : Nat} (hne : pid' ≠ pid) : Frame pid' g g' := by
  cases he with
  | idle => exact .refl
  | zip seen hpid =>
    subst hpid
    exact ⟨fun h => absurd h.1.symm hne, id, fun h => absurd h.1.symm hne, id, id, fun _ => id⟩
  | work seen hpid =>
    subst hpid
    exact ⟨id, fun h => absurd h.1.symm hne, id, fun h => absurd h.1.symm hne, id, fun _ => id⟩
  | failed hpid =>
    subst hpid
    exact ⟨id, id, id, fun h => absurd h.1.symm hne, id, fun _ => id⟩
  | @evict _ d rest plan hplan hpid hzip hwork hrest =>
    subst hpid
    refine ⟨id, id, id, id, ?_, ?_⟩
    · rintro ⟨plan₀, hp, hmem⟩
      obtain rfl := g.plan_eq hplan hp
      refine ⟨plan, rfl, hrest _ ((List.mem_cons.mp hmem).resolve_left ?_)⟩
      rintro rfl
      exact hne rfl
    · rintro t ⟨plan₀, hp, hclears⟩
      obtain rfl := g.plan_eq hplan hp
      refine ⟨plan, rfl, .inl (hrest _ (hclears.tail ?_ ?_))⟩
      · rintro q rfl
        exact hne rfl
      · rintro rfl
        exact hne rfl

theorem same (he : Effect cache g pid c₀ c g') : g'.self = g.self := by
  cases he <;> rfl

theorem plan (he : Effect cache g pid c₀ c g') (h : g'.plan ≠ none) : g.plan ≠ none := by
  cases he with
  | evict hplan => simp [hplan]
  | _ => exact h

theorem planned (he : Effect cache g pid c₀ c g')
    (h : ∀ plan ∈ g.plan, ∀ d ∈ plan, ∀ e ∈ cache, e.problemID ≠ d.problemID) :
    ∀ plan ∈ g'.plan, ∀ d ∈ plan, ∀ e ∈ cache, e.problemID ≠ d.problemID := by
  cases he with
  | @evict _ d₀ rest plan hplan hpid hzip hwork hrest hids =>
    intro plan' hp d hd e hec
    obtain rfl : plan = plan' := Option.some.inj hp
    rcases hids d hd with hd | hd
    · rw [hd, ← hpid]
      exact h _ hplan d₀ List.mem_cons_self e hec
    · exact h _ hplan d (List.mem_cons_of_mem _ hd) e hec
  | _ => exact h

theorem returned (he : Effect cache g pid c₀ c g')
    (h : g.returned = true → g.plan = none ∧ g.zip = false ∧ g.work = false) (hr : g'.returned = true) :
    g'.plan = none ∧ g'.zip = false ∧ g'.work = false := by
  cases he with
  | idle => exact h hr
  | zip seen hpid hrun =>
    obtain ⟨-, hz, -⟩ := h hr
    rw [hrun hr] at hz
    cases hz
  | work seen hpid hrun =>
    obtain ⟨-, -, hw⟩ := h hr
    rw [hrun hr] at hw
    cases hw
  | failed => exact ⟨(h hr).1, (h hr).2.1, rfl⟩
  | evict hplan =>
    obtain ⟨hp, -⟩ := h hr
    rw [hplan] at hp
    cases hp

end Effect

theorem setFiles_ne {pid' : Nat} (hne : pid' ≠ pid) : (w.setFiles pid c).files pid' = w.files pid' :=
  Function.update_of_ne hne ..

@[simp] theorem setFiles_self : (w.setFiles pid c).files pid = c := Function.update_self ..

theorem Balanced.zips_effect (h : Balanced cfg stamp w gs) (ht : Acts w gs i g (w.setFiles pid c) g')
    (he : Effect (w.caches 0) g pid (w.files pid) c g') (pid' : Nat) :
    ZipBooked (w.setFiles pid c) (gs.set i g') pid' := by
  by_cases hne : pid' = pid
  · subst hne
    have hkept := h.zips pid'
    have hsame : c.zip = (w.files pid').zip →
        ((w.setFiles pid' c).files pid').zip.isSome = true → (w.files pid').zip.isSome = true := by
      intro heq hs
      rwa [setFiles_self, heq] at hs
    cases he with
    | idle hzip => exact hkept.after ht rfl (hsame hzip) id id id
    | zip seen hpid => exact fun _ _ => .inr (.inl (ht.someone ⟨hpid.symm, rfl⟩))
    | work seen hpid hrun hzip => exact hkept.after ht rfl (hsame hzip) id id id
    | failed => exact hkept.after ht rfl (hsame rfl) id id id
    | @evict _ d rest plan hplan hpid hzip hwork hrest =>
      rcases hzip with hnone | ⟨hzip, hd⟩
      · intro _ hthere
        rw [setFiles_self, hnone] at hthere
        cases hthere
      · refine hkept.after ht rfl (hsame hzip) id id ?_
        rintro ⟨plan₀, hp, hmem⟩
        obtain rfl := g.plan_eq hplan hp
        exact ⟨plan, rfl, hrest _ ((List.mem_cons.mp hmem).resolve_left (Ne.symm hd))⟩
  · have hframe := he.frame hne
    refine (h.zips pid').after ht rfl (fun hs => ?_) hframe.sawZip hframe.owesZip hframe.removesZip
    rwa [setFiles_ne hne] at hs

theorem Balanced.works_effect (h : Balanced cfg stamp w gs) (ht : Acts w gs i g (w.setFiles pid c) g')
    (he : Effect (w.caches 0) g pid (w.files pid) c g') (pid' : Nat) :
    WorkBooked (w.setFiles pid c) (gs.set i g') pid' := by
  by_cases hne : pid' = pid
  · subst hne
    have hkept := h.works pid'
    have hsame : c.work = (w.files pid').work →
        ((w.setFiles pid' c).files pid').work = (w.files pid').work := by
      intro heq
      rw [setFiles_self, heq]
    cases he with
    | idle hzip hetag hwork => exact hkept.after ht rfl (hsame hwork) id id fun _ => id
    | zip seen hpid hrun hwork => exact hkept.after ht rfl (hsame hwork) id id fun _ => id
    | work seen hpid => exact fun _ _ _ => .inr (.inl (ht.someone ⟨hpid.symm, rfl⟩))
    | failed hpid hnone =>
      intro t _ hthere
      rw [setFiles_self] at hthere
      have hnot := hnone.1
      rw [hthere] at hnot
      cases hnot
    | @evict _ d rest plan hplan hpid hzip hwork hrest =>
      intro t' hseen hthere
      rw [setFiles_self] at hthere
      obtain ⟨t, hold, hclears⟩ := hwork t' hthere
      refine (hkept t (ht.before id hseen) hold).imp_right (Or.imp (ht.after id) ?_)
      -- the eviction that deletes the directory is this one
      rintro ⟨x, hx, hlx, plan₀, hp, hc⟩
      have hxplan : x.plan ≠ none := by simp [Option.mem_def.mp hp]
      obtain ⟨j, hj⟩ := List.getElem?_of_mem hx
      obtain rfl := h.evictor ht.here ht.live (by simp [hplan]) hj hlx hxplan
      obtain rfl : g = x := Option.some.inj (ht.here.symm.trans hj)
      obtain rfl := g.plan_eq hplan hp
      exact ht.someone ⟨plan, rfl, hclears hc⟩
  · have hframe := he.frame hne
    exact (h.works pid').after ht rfl (by rw [setFiles_ne hne]) hframe.sawWork hframe.owesWork hframe.removesWork

theorem Balanced.sizes_effect (h : Balanced cfg stamp w gs) (ht : Acts w gs i g (w.setFiles pid c) g')
    (he : Effect (w.caches 0) g pid (w.files pid) c g') (pid' : Nat) :
    SizeBooked stamp (w.setFiles pid c) (gs.set i g') pid' := by
  by_cases hne : pid' = pid
  · subst hne
    have hkept := h.sizes pid'
    cases he with
    | idle hzip hetag hwork =>
      refine hkept.after ht rfl (fun _ _ _ _ => .inr ?_) fun _ _ _ _ => .inr ?_
      · rw [setFiles_self]
        exact ⟨hzip, hetag, id⟩
      · rw [setFiles_self]
        exact ⟨hwork, id⟩
    | zip seen hpid hrun hwork =>
      refine hkept.after ht rfl (fun _ _ _ _ => .inl ⟨hpid.symm, rfl⟩) fun _ _ _ _ => .inr ?_
      rw [setFiles_self]
      exact ⟨hwork, id⟩
    | work seen hpid hrun hzip hetag =>
      refine hkept.after ht rfl (fun _ _ _ _ => .inr ?_) fun _ _ _ _ => .inl ⟨hpid.symm, rfl⟩
      rw [setFiles_self]
      exact ⟨hzip, hetag, id⟩
    | failed hpid hnone =>
      refine hkept.after ht rfl (fun _ _ _ _ => .inr ?_) fun e he hpid hw => ?_
      · rw [setFiles_self]
        exact ⟨rfl, rfl, id⟩
      · rw [hnone.2 e he hpid] at hw
        cases hw
    | evict hplan hpid =>
      intro e he hpid'
      have hnot := h.planned g ht.mem ht.live _ hplan _ List.mem_cons_self e he
      rw [hpid] at hnot
      exact absurd hpid' hnot
  · have hframe := he.frame hne
    refine (h.sizes pid').after ht rfl (fun _ _ _ _ => .inr ?_) fun _ _ _ _ => .inr ?_
    · rw [setFiles_ne hne]
      exact ⟨rfl, rfl, hframe.owesZip⟩
    · rw [setFiles_ne hne]
      exact ⟨rfl, hframe.owesWork⟩

/-- An operation on the files of a problem keeps the record. -/
theorem Balanced.effect (h : Balanced cfg stamp w gs) (ht : Acts w gs i g (w.setFiles pid c) g')
    (he : Effect (w.caches 0) g pid (w.files pid) c g') : Balanced cfg stamp (w.setFiles pid c) (gs.set i g') where
  roster := h.roster.turn ht rfl
  unique := h.unique
  within := h.within
  locked := by
    refine ht.forall_set (P := fun x => x.plan ≠ none → w.cacheMu 0 = some x.self) h.locked fun hplan => ?_
    rw [ht.same]
    exact h.locked g ht.mem ht.live (he.plan hplan)
  planned := ht.forall_set h.planned (he.planned (h.planned g ht.mem ht.live))
  returned := ht.forall_set h.returned (he.returned (h.returned g ht.mem ht.live))
  zips := h.zips_effect ht he
  works := h.works_effect ht he
  sizes := h.sizes_effect ht he

end Steps

end DeepOj.Worker.TestCases
