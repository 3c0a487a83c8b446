import DeepOj.Conc.Footprint
import DeepOj.Worker.AttemptFiles
import Mathlib.Data.List.Infix

/-!
# What attempts of a job do to each other

The directories of a job are named by the job alone, so every attempt saves,
compiles, writes and deletes in the same place. An attempt finds out what it would
find out alone as long as it reads no file that another attempt has changed since.
-/

namespace DeepOj.Worker.Attempts

open Conc Go Sandbox

/-! ## What the operations read and change -/

/-- What there is of a place: the file, and whether an attempt has it open. -/
inductive Cell where
  | file (f : Place)
  | fd (self : Nat) (f : Place)
  deriving DecidableEq, Repr

namespace Cell

def place : Cell → Place
  | .file f => f
  | .fd _ f => f

@[reducible] def Content : Cell → Type
  | .file _ => Option Bytes
  | .fd .. => Bool

def look (d : Disk) : (k : Cell) → k.Content
  | .file f => d.file f
  | .fd self f => d.fd self f

end Cell

/-- The directory of a file, as far as it is one of the job's. -/
def dirCells (f : Place) : List Cell := (f.dir.map Cell.file).toList

/-- What the answer of an operation depends on. -/
def FileOp.reads (p : Pick) : FileOp → List Cell
  | .create f => if p.ok then dirCells f else []
  | .access dir => if p.ok then [.file dir] else []
  | .read f => if p.ok then [.file f] else []
  | _ => []

/-- What an operation may change. -/
def FileOp.changes (self : Nat) (p : Pick) : FileOp → Cell → Bool
  | .mkdir dir, k => p.ok && k = .file dir
  | .create f, k => (p.ok && k = .file f) || k = .fd self f
  | .write f _ _, k => p.ok && k = .file f
  | .unlink f, k => k.place = f
  | .rmdir dir, k => p.ok && within dir k.place
  | _, _ => false

/-- What the content of a cell depends on after an operation. -/
def FileOp.deps (self : Nat) (p : Pick) : FileOp → Cell → List Cell
  | .mkdir dir, k => if p.ok ∧ k = .file dir then [] else [k]
  | .create f, k =>
    if k = .file f then if p.ok then dirCells f else [k]
    else if k = .fd self f then if p.ok then dirCells f else []
    else [k]
  | .write f _ _, k => if p.ok ∧ k = .file f then [k, .fd self f] else [k]
  | .unlink f, k => if k.place = f then [] else [k]
  | .rmdir dir, k => if p.ok ∧ within dir k.place then [] else [k]
  | _, k => [k]

section Laws

variable {self a : Nat} {p : Pick} {d d' : Disk} {f q : Place} {k : Cell}

/-! ### The disk, cell by cell -/

theorem file_create : (d.create self f).file q =
    if q = f then if d.hasDir f then some [] else none else d.file q :=
  Function.update_apply ..

theorem fd_update (b : Bool) : Function.update d.fd self (Function.update (d.fd self) f b) a q =
    if a = self ∧ q = f then b else d.fd a q := by
  by_cases ha : a = self
  · subst ha
    rw [Function.update_self, Function.update_apply]
    simp
  · rw [Function.update_of_ne ha]
    simp [ha]

theorem fd_create : (d.create self f).fd a q =
    if a = self ∧ q = f then d.hasDir f else d.fd a q := fd_update _

theorem fd_close : (d.close self f).fd a q = if a = self ∧ q = f then false else d.fd a q :=
  fd_update _

theorem file_write {offset : Nat} {w : StreamOp} : (d.write self f offset w).file q =
    if q = f then if d.fd self f then (d.file f).map (w.apply offset) else d.file f else d.file q :=
  Function.update_apply ..

theorem look_remove {r : Place → Bool} (h : r k.place = false) : k.look (d.remove r) = k.look d := by
  cases k with
  | file f =>
    show (if r f then none else d.file f) = d.file f
    rw [if_neg (by simpa [Cell.place] using h)]
  | fd a f =>
    show (if r f then false else d.fd a f) = d.fd a f
    rw [if_neg (by simpa [Cell.place] using h)]

theorem look_removed {r : Place → Bool} (h : r k.place = true) :
    k.look (d.remove r) = k.look (d'.remove r) := by
  cases k with
  | file f =>
    have hr : r f = true := h
    show (if r f then none else d.file f) = if r f then none else d'.file f
    rw [if_pos hr, if_pos hr]
  | fd a f =>
    have hr : r f = true := h
    show (if r f then false else d.fd a f) = if r f then false else d'.fd a f
    rw [if_pos hr, if_pos hr]

theorem hasDir_congr (h : ∀ k ∈ dirCells f, k.look d = k.look d') : d.hasDir f = d'.hasDir f := by
  unfold Disk.hasDir
  cases hd : f.dir with
  | none => rfl
  | some dir =>
    have hdir : d.file dir = d'.file dir := h (.file dir) (by simp [dirCells, hd])
    simp only [hdir]

/-! ### The operations -/

theorem FileOp.reply_congr (o : FileOp) (h : ∀ k ∈ o.reads p, k.look d = k.look d') :
    o.reply p d = o.reply p d' := by
  cases hok : p.ok with
  | false => cases o <;> simp [FileOp.reply, hok]
  | true =>
    cases o with
    | create f =>
      have hdir : d.hasDir f = d'.hasDir f := hasDir_congr (by simpa [FileOp.reads, hok] using h)
      simp only [FileOp.reply, hdir]
    | access dir =>
      have hdir : d.file dir = d'.file dir := h (.file dir) (by simp [FileOp.reads, hok])
      simp only [FileOp.reply, hdir]
    | read f =>
      have hf : d.file f = d'.file f := h (.file f) (by simp [FileOp.reads, hok])
      simp only [FileOp.reply, hf]
    | _ => rfl

theorem FileOp.apply_frame (o : FileOp) (h : o.changes self p k = false) :
    k.look (o.apply self p d) = k.look d := by
  cases o with
  | mkdir dir =>
    cases hok : p.ok with
    | false => simp [FileOp.apply, hok]
    | true =>
      simp only [FileOp.apply, hok, if_true]
      cases k with
      | file q =>
        have hq : q ≠ dir := by simpa [FileOp.changes, hok] using h
        exact Function.update_of_ne hq ..
      | fd a q => rfl
  | create f =>
    cases k with
    | file q =>
      cases hok : p.ok with
      | false => simp [FileOp.apply, hok, Disk.close, Cell.look]
      | true =>
        have hq : q ≠ f := by simpa [FileOp.changes, hok] using h
        simp only [FileOp.apply, hok, if_true]
        show (d.create self f).file q = d.file q
        rw [file_create, if_neg hq]
    | fd a q =>
      have hq : ¬ (a = self ∧ q = f) := by simpa [FileOp.changes] using h
      cases hok : p.ok with
      | false =>
        show (if p.ok then d.create self f else d.close self f).fd a q = d.fd a q
        rw [hok, if_neg Bool.false_ne_true, fd_close, if_neg hq]
      | true =>
        show (if p.ok then d.create self f else d.close self f).fd a q = d.fd a q
        rw [hok, if_pos rfl, fd_create, if_neg hq]
  | write f offset w =>
    cases hok : p.ok with
    | false => simp [FileOp.apply, hok]
    | true =>
      simp only [FileOp.apply, hok, if_true]
      cases k with
      | file q =>
        have hq : q ≠ f := by simpa [FileOp.changes, hok] using h
        show (d.write self f offset w).file q = d.file q
        rw [file_write, if_neg hq]
      | fd a q => rfl
  | unlink f => exact look_remove h
  | rmdir dir =>
    cases hok : p.ok with
    | false => simp [FileOp.apply, hok]
    | true =>
      simp only [FileOp.apply, hok, if_true]
      exact look_remove (by simpa [FileOp.changes, hok] using h)
  | _ => rfl

/-- What is not changed depends on itself. -/
theorem FileOp.mem_deps (o : FileOp) (h : o.changes self p k = false) : k ∈ o.deps self p k := by
  cases o with
  | mkdir dir =>
    simp only [deps]
    rw [if_neg]
    · exact List.mem_singleton_self k
    · rintro ⟨hok, rfl⟩
      simp [changes, hok] at h
  | create f =>
    obtain ⟨hfile, hfd⟩ : (p.ok = true → k ≠ .file f) ∧ k ≠ .fd self f := by
      simpa [changes] using h
    simp only [deps]
    rw [if_neg hfd]
    split
    · rename_i hk
      rw [if_neg fun hok => hfile hok hk]
      exact List.mem_singleton_self k
    · exact List.mem_singleton_self k
  | write f offset w =>
    simp only [deps]
    rw [if_neg]
    · exact List.mem_singleton_self k
    · rintro ⟨hok, rfl⟩
      simp [changes, hok] at h
  | unlink f =>
    simp only [deps]
    rw [if_neg (by simpa [changes] using h)]
    exact List.mem_singleton_self k
  | rmdir dir =>
    simp only [deps]
    rw [if_neg (by simpa [changes] using h)]
    exact List.mem_singleton_self k
  | _ => exact List.mem_singleton_self k

theorem FileOp.apply_congr (o : FileOp) (h : ∀ k' ∈ o.deps self p k, k'.look d = k'.look d') :
    k.look (o.apply self p d) = k.look (o.apply self p d') := by
  by_cases hch : o.changes self p k = false
  · rw [o.apply_frame hch, o.apply_frame hch]
    exact h k (o.mem_deps hch)
  · rw [Bool.not_eq_false] at hch
    cases o with
    | mkdir dir =>
      obtain ⟨hok, hk⟩ : p.ok = true ∧ k = .file dir := by simpa [FileOp.changes] using hch
      subst hk
      simp only [FileOp.apply, hok, if_true]
      show Function.update d.file dir (some []) dir = Function.update d'.file dir (some []) dir
      rw [Function.update_self, Function.update_self]
    | create f =>
      cases k with
      | file q =>
        obtain ⟨hok, hq⟩ : p.ok = true ∧ q = f := by simpa [FileOp.changes] using hch
        subst hq
        have hdir : d.hasDir q = d'.hasDir q := hasDir_congr (by simpa [FileOp.deps, hok] using h)
        simp only [FileOp.apply, hok, if_true]
        show (d.create self q).file q = (d'.create self q).file q
        rw [file_create, file_create, hdir, if_pos rfl, if_pos rfl]
      | fd a q =>
        obtain ⟨ha, hq⟩ : a = self ∧ q = f := by simpa [FileOp.changes] using hch
        subst ha hq
        show (if p.ok then d.create a q else d.close a q).fd a q =
          (if p.ok then d'.create a q else d'.close a q).fd a q
        cases hok : p.ok with
        | false => simp [fd_close]
        | true =>
          have hdir : d.hasDir q = d'.hasDir q := hasDir_congr (by simpa [FileOp.deps, hok] using h)
          rw [if_pos rfl, if_pos rfl, fd_create, fd_create, hdir, if_pos ⟨rfl, rfl⟩, if_pos ⟨rfl, rfl⟩]
    | write f offset w =>
      obtain ⟨hok, hk⟩ : p.ok = true ∧ k = .file f := by simpa [FileOp.changes] using hch
      subst hk
      have hfile : d.file f = d'.file f := h (.file f) (by simp [FileOp.deps, hok])
      have hfd : d.fd self f = d'.fd self f := h (.fd self f) (by simp [FileOp.deps, hok])
      simp only [FileOp.apply, hok, if_true]
      show (d.write self f offset w).file f = (d'.write self f offset w).file f
      rw [file_write, file_write, hfile, hfd]
    | unlink f => exact look_removed hch
    | rmdir dir =>
      obtain ⟨hok, hin⟩ : p.ok = true ∧ within dir k.place = true := by
        simpa [FileOp.changes] using hch
      simp only [FileOp.apply, hok, if_true]
      exact look_removed hin
    | _ => cases hch

end Laws

/-! ## The footprint of an attempt -/

namespace Attempt

/-- The file operation an attempt performs next, unless its engine has been killed. -/
def nextOp (a : Attempt) : Option FileOp :=
  match a.prog with
  | .call (.go o) _ => some o
  | .call (.engine o) _ => if a.pick.dead then none else some o
  | _ => none

theorem effect_eq (a : Attempt) (d : Disk) : attempts.effect a d =
    match a.nextOp with
    | some o => o.apply a.self a.pick d
    | none => d := by
  obtain ⟨self, prog, picks, verdict⟩ := a
  cases prog with
  | ret u => rfl
  | call o k =>
    cases o with
    | engine o =>
      show (if _ then d else _) = _
      unfold nextOp
      dsimp only
      split <;> rfl
    | _ => rfl

theorem observe_congr (a : Attempt) {d d' : Disk}
    (h : ∀ o, a.nextOp = some o → o.reply a.pick d = o.reply a.pick d') :
    attempts.observe a d = attempts.observe a d' := by
  obtain ⟨self, prog, picks, verdict⟩ := a
  cases prog with
  | ret u => rfl
  | call o k =>
    refine congrArg k ?_
    cases o with
    | go o => exact h o rfl
    | engine o =>
      show (if _ then none else some (o.reply _ d)) = if _ then none else some (o.reply _ d')
      split
      · rfl
      · rename_i hd
        rw [h o (by simp [nextOp, hd])]
    | _ => rfl

end Attempt

/-- What an attempt reads, changes and depends on. -/
def attemptFiles : Footprint attempts Cell Cell.Content where
  look k d := k.look d
  reads a := (a.nextOp.map fun o => o.reads a.pick).getD []
  changes a k := (a.nextOp.map fun o => o.changes a.self a.pick k).getD false
  deps a k := (a.nextOp.map fun o => o.deps a.self a.pick k).getD [k]
  observe_congr a d d' h := by
    refine a.observe_congr fun o ho => o.reply_congr ?_
    simpa [ho] using h
  effect_congr a d d' k h := by
    rw [a.effect_eq, a.effect_eq]
    cases ho : a.nextOp with
    | none => exact h k (by simp [ho])
    | some o => exact o.apply_congr (by simpa [ho] using h)
  effect_frame a d k h := by
    rw [a.effect_eq]
    cases ho : a.nextOp with
    | none => rfl
    | some o => exact o.apply_frame (by simpa [ho] using h)

/-! ## Attempts at a job -/

section Job

variable {ι : Type} [DecidableEq ι]

/-- The attempts once some of them have taken some steps. -/
def underWay (job : Job) (disk : Disk) (tasks : ι → Task) (picks : ι → List Pick) (before : List ι) :
    Shared ι Disk Attempt :=
  attempts.exec (begin job disk tasks picks) before

/-- Until it reports its verdict, attempt `i` reads no file that another attempt has changed in
the meantime. -/
def Undisturbed (start : Shared ι Disk Attempt) (i : ι) (order : List ι) : Prop :=
  ∀ pre, pre ++ [i] <+: order → ((attempts.exec start pre).parties i).verdict = none →
    attemptFiles.ReadsFresh start i pre

instance (start : Shared ι Disk Attempt) (i : ι) (order : List ι) :
    Decidable (attemptFiles.ReadsFresh start i order) :=
  inferInstanceAs (Decidable (∀ _ ∈ _, _ = _))

instance (start : Shared ι Disk Attempt) (i : ι) (order : List ι) :
    Decidable (Undisturbed start i order) :=
  decidable_of_iff (∀ pre ∈ order.inits, pre ++ [i] <+: order →
      ((attempts.exec start pre).parties i).verdict = none → attemptFiles.ReadsFresh start i pre)
    ⟨fun h pre hpre => h pre ((List.mem_inits _ _).mpr ((List.prefix_append pre [i]).trans hpre)) hpre,
      fun h pre _ => h pre⟩

/-- The attempt reports what it would report if the others took no further step. -/
def Isolated (start : Shared ι Disk Attempt) (i : ι) (order : List ι) : Prop :=
  ((attempts.exec start order).parties i).verdict = ((attempts.alone start i order).parties i).verdict

/-- An attempt that is undisturbed is isolated from all others. -/
theorem isolated_of_undisturbed (job : Job) (disk : Disk) (tasks : ι → Task) (picks : ι → List Pick)
    (before order : List ι) (i : ι) (h : Undisturbed (underWay job disk tasks picks before) i order) :
    Isolated (underWay job disk tasks picks before) i order := by
  refine Footprint.view_eq (F := attemptFiles) Attempt.verdict ?_ h
  intro a prog v hv
  show (a.verdict <|> a.reports) = some v
  rw [hv]
  rfl

/-- A host whose program exits with this code at the first poll. -/
def exitsWith (code : Nat) : Host where
  round := id
  strsignal := fun _ => "Unknown signal"
  devNull := none
  clone := none
  wait4 := fun _ => .reaped (.exited code) { maxrss := 1000 }
  delay := fun _ => 0
  reap := fun _ => (0, {})
  cgroupPeak := none
  outputFile := .absent
  stderrLines := []

/-- A job whose source compiles, and only as a whole. -/
def sampleJob : Job where
  jobID := "a"
  path := fun _ => ""
  keepWorkdir := false
  compileRealLimit := 10
  compiler content := if content = some (utf8 "main") then ⟨[], some [1], .exited 0⟩
    else ⟨utf8 "error", none, .exited 1⟩
  setupErrorLine := []

/-- Two attempts at it, with one test case that its program passes. -/
def sampleTasks (newer : Bool) : Task where
  attemptID := if newer then 2 else 1
  code := utf8 "main"
  cases := [{
    baseName := utf8 "1"
    lim := ⟨1000, 262144, 10485760⟩
    host := exitsWith 0
    behave := fun _ => ⟨exitsWith 0, 1, [(.stdout, .write (utf8 "42"))]⟩
    expected := some (utf8 "42") }]

/-- The older attempt is cancelled before it compiles, and then deletes its directory. -/
def samplePicks (newer : Bool) : List Pick :=
  if newer then []
  else [{}, {}, {}, { dead := true }, { reported := false },
    { found := [.source, .userOut (utf8 "1")] }]

def emptyDisk : Disk := ⟨fun _ => none, fun _ _ => false⟩

/-- If the older attempt has deleted everything before the newer one begins, nothing is wrong. -/
theorem isolated_of_undisturbed_sample :
    Isolated (underWay sampleJob emptyDisk sampleTasks samplePicks (List.replicate 3 false)) true
        (List.replicate 6 false ++ List.replicate 25 true) ∧
      ((attempts.exec (underWay sampleJob emptyDisk sampleTasks samplePicks (List.replicate 3 false))
        (List.replicate 6 false ++ List.replicate 25 true)).parties true).verdict =
          some (.judged "Accepted" 0 1000) :=
  ⟨isolated_of_undisturbed sampleJob emptyDisk sampleTasks samplePicks (List.replicate 3 false)
    (List.replicate 6 false ++ List.replicate 25 true) true (by decide +kernel), by decide +kernel⟩

/-- If it deletes the directory when the program of the newer attempt has written its output, the
newer attempt finds no output. -/
theorem output_deleted : ¬ ∀ (job : Job) (disk : Disk) (tasks : Bool → Task) (picks : Bool → List Pick)
    (before order : List Bool) (i : Bool),
    Isolated (underWay job disk tasks picks before) i order := by
  intro h
  have hsame := h sampleJob emptyDisk sampleTasks samplePicks (List.replicate 3 false)
    (List.replicate 23 true ++ List.replicate 6 false ++ List.replicate 2 true) true
  exact absurd hsame (by unfold Isolated; decide +kernel)

end Job

end DeepOj.Worker.Attempts
