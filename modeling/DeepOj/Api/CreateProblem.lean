import DeepOj.Api.ProblemZip
import DeepOj.Conc.Events
import Mathlib.Logic.Function.Basic

/-!
# Creating a problem

`HandleCreateProblem` checks the form and the archive and inserts the row; then the archive goes
into the object store, and its path into the row. Where a step fails, the handler takes back what
was done, by calls on the context of the same request.
-/

namespace DeepOj.Api.CreateProblem

open Go Conc

/-- A `repository.Problem`. -/
structure Problem where
  title : String
  difficulty : String
  timeLimitMS : Int
  memoryLimitMB : Int
  testcaseHash : String
  testcaseMinioPath : String
  deriving DecidableEq

/-- The part `file` of the form. -/
structure Upload where
  filename : Bytes
  content : Bytes

/-- A form that has been parsed; a limit that is no number counts as zero. -/
structure Form where
  title : String
  difficulty : String
  timeLimit : Int
  memoryLimit : Int
  file : Option Upload

/-- Why `ParseMultipartForm` fails. -/
inductive ParseError where
  | maxBytes
  | other

/-- The variables read by `getEnvInt64` and `getEnvInt`, and the two libraries that are called. -/
structure Env where
  maxBytes : Nat
  defaultTimeLimit : Int
  defaultMemoryLimit : Int
  sha256 : Bytes → String
  newReader : Bytes → Archive

/-- How a call ends: done, not done, or done with an error all the same. -/
inductive Outcome where
  | ok
  | refused
  | lost
  deriving DecidableEq

/-- What comes of a call, and whether the client disconnects meanwhile. -/
structure Answer where
  outcome : Outcome
  leaves : Bool := false
  deriving DecidableEq

/-- The call returns an error. -/
def Answer.failed (a : Answer) : Bool := a.outcome ≠ .ok

inductive Call where
  | createTemp
  | copy
  | createProblem (problem : Problem)
  | seek
  | uploadFile (objectName : String) (content : Bytes)
  | updateTestcasePath (id : Nat) (path : String)
  | removeFile (objectName : String)
  | deleteProblem (id : Nat)
  deriving DecidableEq

/-- `CreateProblem` returns the id of the new row, or an error. -/
@[reducible] def Call.Reply : Call → Type
  | .createProblem _ => Option Nat × Bool
  | _ => Answer

abbrev Program (α : Type) := Prog Call Call.Reply α

abbrev Event := Conc.Event Call Call.Reply

inductive Response where
  | error (status : Nat) (text : String) (code : Option String := none)
  | created (id : Nat) (minioPath : String)
  deriving DecidableEq

def objectName (id : Nat) : String := "problems/" ++ toString id ++ ".zip"

/-- The last step of the handler, once the archive is stored. -/
def storePath (id : Nat) : Program Response := do
  let updated ← Prog.perform (Call.updateTestcasePath id (objectName id))
  if updated.failed then
    let _ ← Prog.perform (Call.removeFile (objectName id))
    let _ ← Prog.perform (Call.deleteProblem id)
    pure (.error 500 "Database update error")
  else pure (.created id (objectName id))

/-- The handler once it has the id. -/
def storeTestcases (id : Nat) (content : Bytes) : Program Response := do
  let seeked ← Prog.perform Call.seek
  if seeked.failed then pure (.error 500 "读取文件失败")
  else
    let uploaded ← Prog.perform (Call.uploadFile (objectName id) content)
    if uploaded.failed then
      let _ ← Prog.perform (Call.deleteProblem id)
      pure (.error 500 "Storage error")
    else storePath id

/-- The row that is inserted. -/
def newProblem (env : Env) (form : Form) (content : Bytes) : Problem where
  title := form.title
  difficulty := form.difficulty
  timeLimitMS := if form.timeLimit ≤ 0 then env.defaultTimeLimit else form.timeLimit
  memoryLimitMB := if form.memoryLimit ≤ 0 then env.defaultMemoryLimit else form.memoryLimit
  testcaseHash := env.sha256 content
  testcaseMinioPath := ""

/-- The insertion and what follows it. -/
def insertProblem (problem : Problem) (content : Bytes) : Program Response := do
  match (← Prog.perform (Call.createProblem problem)).1 with
  | none => pure (.error 500 "Database error")
  | some id => storeTestcases id content

/-- The handler once it has a file with the right name. -/
def checkArchive (env : Env) (form : Form) (content : Bytes) : Program Response := do
  let temp ← Prog.perform Call.createTemp
  if temp.failed then pure (.error 500 "临时文件创建失败")
  else
    let copied ← Prog.perform Call.copy
    if copied.failed then pure (.error 500 "Read file error")
    else if content.length > env.maxBytes then
      pure (.error 413 "文件过大" (some "FILE_TOO_LARGE"))
    else if ¬ validateZipContent (env.newReader content) then
      pure (.error 400 "Invalid Zip: must contain .in and .out files")
    else insertProblem (newProblem env form content) content

/-- `HandleCreateProblem`. -/
def handleCreateProblem (env : Env) : Except ParseError Form → Program Response
  | .error .maxBytes => pure (.error 413 "请求体过大" (some "BODY_TOO_LARGE"))
  | .error .other => pure (.error 400 "表单解析失败")
  | .ok form =>
    if form.title = "" then pure (.error 400 "Title required")
    else match form.file with
    | none => pure (.error 400 "File required")
    | some file =>
      if ext file.filename ≠ utf8 ".zip" then pure (.error 400 "Only .zip allowed")
      else checkArchive env form file.content

/-! ## The two stores -/

/-- The table, the objects, and whether the client has disconnected. -/
structure World where
  rows : Nat → Option Problem
  objects : String → Option Bytes
  gone : Bool

/-- What a call does when it is carried out. -/
def carryOut (w : World) : Call → World
  | .uploadFile name content => { w with objects := Function.update w.objects name (some content) }
  | .updateTestcasePath id path =>
    let row := (w.rows id).map fun p => { p with testcaseMinioPath := path }
    { w with rows := Function.update w.rows id row }
  | .removeFile name => { w with objects := Function.update w.objects name none }
  | .deleteProblem id => { w with rows := Function.update w.rows id none }
  | _ => w

/-- A call that takes the context of the request. -/
def Call.takesContext : Call → Bool
  | .createTemp => false
  | .copy => false
  | .seek => false
  | _ => true

/-- A call that takes something back. -/
def Call.compensates : Call → Bool
  | .removeFile _ => true
  | .deleteProblem _ => true
  | _ => false

/-- A call with its answer; `none` if it cannot be answered so. When the client has disconnected
the context is cancelled, and no store does anything. A call that takes something back fails for
no other reason. -/
def answered (w : World) (c : Call) (a : Answer) : Option World :=
  if w.gone ∧ c.takesContext ∧ a.outcome ≠ .refused then none
  else if c.compensates ∧ a.outcome = .refused ∧ ¬ (w.gone || a.leaves) then none
  else
    let w' := if a.outcome = .refused then w else carryOut w c
    some { w' with gone := w.gone || a.leaves }

/-- One event. A new row has an id under which nothing is stored yet. -/
def step (w : World) : Event → Option World
  | ⟨.createProblem problem, (some id, leaves)⟩ =>
    if ¬ w.gone ∧ w.rows id = none ∧ w.objects (objectName id) = none then
      some { w with rows := Function.update w.rows id (some problem), gone := leaves }
    else none
  | ⟨.createProblem _, (none, leaves)⟩ => some { w with gone := w.gone || leaves }
  | ⟨.createTemp, a⟩ => answered w .createTemp a
  | ⟨.copy, a⟩ => answered w .copy a
  | ⟨.seek, a⟩ => answered w .seek a
  | ⟨.uploadFile name content, a⟩ => answered w (.uploadFile name content) a
  | ⟨.updateTestcasePath id path, a⟩ => answered w (.updateTestcasePath id path) a
  | ⟨.removeFile name, a⟩ => answered w (.removeFile name) a
  | ⟨.deleteProblem id, a⟩ => answered w (.deleteProblem id) a

/-- What a run leaves. -/
def World.after (w : World) (tr : List Event) : Option World := tr.foldlM step w

/-! ## All or nothing -/

/-- An error leaves neither the row nor the object; a success leaves both, the row with the path. -/
def AllOrNothing (id : Nat) (problem : Problem) (content : Bytes) (w : World) : Response → Prop
  | .error .. => w.rows id = none ∧ w.objects (objectName id) = none
  | .created .. => w.rows id = some { problem with testcaseMinioPath := objectName id } ∧
    w.objects (objectName id) = some content

/-- The failures the handler can take back: the file can be read again, an upload that fails has
stored nothing, and what takes something back is carried out before the client disconnects. -/
def Benign : Event → Prop
  | ⟨.seek, a⟩ => a.outcome = .ok
  | ⟨.uploadFile .., a⟩ => a.outcome ≠ .lost
  | ⟨.removeFile _, a⟩ => a.outcome ≠ .refused
  | ⟨.deleteProblem _, a⟩ => a.outcome ≠ .refused
  | _ => True

section

variable {id : Nat} {problem : Problem} {content : Bytes} {w w' : World} {c : Call} {a : Answer}
  {tr : List Event} {res : Response}

theorem after_cons {ev : Event} (h : w.after (ev :: tr) = some w') :
    ∃ w₁, step w ev = some w₁ ∧ w₁.after tr = some w' := by
  unfold World.after at h
  rw [List.foldlM_cons] at h
  exact Option.bind_eq_some_iff.mp h

@[simp] theorem after_nil : w.after [] = some w' ↔ w = w' := by
  simp [World.after]

/-- What a call leaves in the two stores depends only on whether it is carried out. -/
theorem answered_stores (h : answered w c a = some w') :
    w'.rows = (if a.outcome = .refused then w else carryOut w c).rows ∧
      w'.objects = (if a.outcome = .refused then w else carryOut w c).objects := by
  unfold answered at h
  by_cases hgone : w.gone ∧ c.takesContext ∧ a.outcome ≠ .refused
  · rw [if_pos hgone] at h
    cases h
  rw [if_neg hgone] at h
  by_cases hback : c.compensates ∧ a.outcome = .refused ∧ ¬ (w.gone || a.leaves)
  · rw [if_pos hback] at h
    cases h
  · rw [if_neg hback] at h
    cases h
    exact ⟨rfl, rfl⟩

theorem failed_iff : a.failed = true ↔ a.outcome ≠ .ok := by
  simp [Answer.failed]

theorem local_stores (hc : c = .createTemp ∨ c = .copy ∨ c = .seek) (h : answered w c a = some w') :
    w'.rows = w.rows ∧ w'.objects = w.objects := by
  have hsame : carryOut w c = w := by
    rcases hc with rfl | rfl | rfl <;> rfl
  have hleft := answered_stores h
  rw [hsame, ite_self] at hleft
  exact hleft

theorem uploadFile_stores {name : String} (h : answered w (.uploadFile name content) a = some w') :
    w'.rows = w.rows ∧
      w'.objects name = if a.outcome = .refused then w.objects name else some content := by
  obtain ⟨hrows, hobjects⟩ := answered_stores h
  by_cases ha : a.outcome = .refused
  · simp_all
  · simp_all [carryOut]

theorem updateTestcasePath_stores {path : String}
    (h : answered w (.updateTestcasePath id path) a = some w') :
    w'.objects = w.objects ∧ w'.rows id = if a.outcome = .refused then w.rows id
      else (w.rows id).map fun p => { p with testcaseMinioPath := path } := by
  obtain ⟨hrows, hobjects⟩ := answered_stores h
  by_cases ha : a.outcome = .refused
  · simp_all
  · simp_all [carryOut]

theorem removeFile_stores {name : String} (h : answered w (.removeFile name) a = some w') :
    w'.rows = w.rows ∧
      w'.objects name = if a.outcome = .refused then w.objects name else none := by
  obtain ⟨hrows, hobjects⟩ := answered_stores h
  by_cases ha : a.outcome = .refused
  · simp_all
  · simp_all [carryOut]

theorem deleteProblem_stores (h : answered w (.deleteProblem id) a = some w') :
    w'.objects = w.objects ∧ w'.rows id = if a.outcome = .refused then w.rows id else none := by
  obtain ⟨hrows, hobjects⟩ := answered_stores h
  by_cases ha : a.outcome = .refused
  · simp_all
  · simp_all [carryOut]

/-- A roll back that ends with the deletion of the row. -/
theorem rolledBack_iff {text : String} {p : Problem} (hrow : w.rows id = some p)
    (h : w.after [⟨.deleteProblem id, a⟩] = some w') :
    AllOrNothing id problem content w' (.error 500 text) ↔
      w.objects (objectName id) = none ∧ a.outcome ≠ .refused := by
  obtain ⟨w₁, hstep, hend⟩ := after_cons h
  have hw := after_nil.mp hend
  subst hw
  obtain ⟨hobjects, hrows⟩ := deleteProblem_stores hstep
  show w₁.rows id = none ∧ w₁.objects (objectName id) = none ↔ _
  rw [hrows, hobjects, hrow]
  by_cases ha : a.outcome = .refused <;> simp [ha]

theorem storePath_iff (hrow : w.rows id = some { problem with testcaseMinioPath := "" })
    (hobject : w.objects (objectName id) = some content) (hrun : (storePath id).Runs tr res)
    (hafter : w.after tr = some w') :
    AllOrNothing id problem content w' res ↔ ∀ ev ∈ tr, Benign ev := by
  obtain ⟨updated, tr₁, rfl, hrun₁⟩ := Prog.runs_perform_bind.mp hrun
  obtain ⟨w₁, hupdate, hafter₁⟩ := after_cons hafter
  obtain ⟨hobjects₁, hrows₁⟩ := updateTestcasePath_stores hupdate
  rw [hrow] at hrows₁
  by_cases hu : updated.failed = true
  · rw [if_pos hu] at hrun₁
    obtain ⟨removed, tr₂, rfl, hrun₂⟩ := Prog.runs_perform_bind.mp hrun₁
    obtain ⟨w₂, hremove, hafter₂⟩ := after_cons hafter₁
    obtain ⟨hrows₂, hobjects₂⟩ := removeFile_stores hremove
    obtain ⟨deleted, tr₃, rfl, hrun₃⟩ := Prog.runs_perform_bind.mp hrun₂
    obtain ⟨rfl, rfl⟩ := Prog.runs_ret.mp hrun₃
    -- the row is there whether the path went in or not
    obtain ⟨p, hp⟩ : ∃ p, w₂.rows id = some p := by
      rw [hrows₂, hrows₁]
      by_cases ho : updated.outcome = .refused <;> simp [ho]
    rw [rolledBack_iff hp hafter₂, hobjects₂, hobjects₁, hobject]
    by_cases hr : removed.outcome = .refused <;> simp [Benign, hr]
  · rw [if_neg hu] at hrun₁
    obtain ⟨rfl, rfl⟩ := Prog.runs_ret.mp hrun₁
    have hw := after_nil.mp hafter₁
    subst hw
    have hok : updated.outcome = .ok := by simpa [failed_iff] using hu
    simp [AllOrNothing, Benign, hrows₁, hobjects₁, hobject, hok]

/-- From the new row on, all or nothing is left exactly when every failure is benign. -/
theorem storeTestcases_iff (hrow : w.rows id = some { problem with testcaseMinioPath := "" })
    (hobject : w.objects (objectName id) = none) (hrun : (storeTestcases id content).Runs tr res)
    (hafter : w.after tr = some w') :
    AllOrNothing id problem content w' res ↔ ∀ ev ∈ tr, Benign ev := by
  obtain ⟨seeked, tr₁, rfl, hrun₁⟩ := Prog.runs_perform_bind.mp hrun
  obtain ⟨w₁, hseek, hafter₁⟩ := after_cons hafter
  obtain ⟨hrows₁, hobjects₁⟩ := local_stores (.inr (.inr rfl)) hseek
  by_cases hs : seeked.failed = true
  · -- the one branch that takes nothing back
    rw [if_pos hs] at hrun₁
    obtain ⟨rfl, rfl⟩ := Prog.runs_ret.mp hrun₁
    have hw := after_nil.mp hafter₁
    subst hw
    simp [AllOrNothing, Benign, hrows₁, hrow, failed_iff.mp hs]
  rw [if_neg hs] at hrun₁
  have hsok : seeked.outcome = .ok := by simpa [failed_iff] using hs
  obtain ⟨uploaded, tr₂, rfl, hrun₂⟩ := Prog.runs_perform_bind.mp hrun₁
  obtain ⟨w₂, hupload, hafter₂⟩ := after_cons hafter₁
  obtain ⟨hrows₂, hobjects₂⟩ := uploadFile_stores hupload
  rw [hrows₁] at hrows₂
  rw [hobjects₁, hobject] at hobjects₂
  by_cases hu : uploaded.failed = true
  · rw [if_pos hu] at hrun₂
    obtain ⟨deleted, tr₃, rfl, hrun₃⟩ := Prog.runs_perform_bind.mp hrun₂
    obtain ⟨rfl, rfl⟩ := Prog.runs_ret.mp hrun₃
    have hrow₂ := hrow
    rw [← hrows₂] at hrow₂
    rw [rolledBack_iff hrow₂ hafter₂, hobjects₂]
    -- an upload that was lost has stored the object, and nothing removes it
    cases ho : uploaded.outcome <;> simp_all [Benign, Answer.failed]
  · rw [if_neg hu] at hrun₂
    have huok : uploaded.outcome = .ok := by simpa [failed_iff] using hu
    rw [huok, if_neg (by simp)] at hobjects₂
    rw [storePath_iff (by rw [hrows₂, hrow]) hobjects₂ hrun₂ hafter₂]
    simp [Benign, hsok, huok]

/-- What comes before the insertion does nothing to the two stores. -/
def Preliminary : Event → Prop
  | ⟨.createTemp, _⟩ => True
  | ⟨.copy, _⟩ => True
  | _ => False

variable {env : Env} {form : Form} {file : Upload} {leaves : Bool}

/-- The handler inserts no second row. -/
theorem storeTestcases_uses :
    Prog.Uses (fun c => ∀ p, c ≠ .createProblem p) (storeTestcases id content) := by
  refine Prog.Uses.bind (Prog.uses_perform.mpr (by simp)) fun seeked => ?_
  split
  · trivial
  refine Prog.Uses.bind (Prog.uses_perform.mpr (by simp)) fun uploaded => ?_
  split
  · exact Prog.Uses.bind (Prog.uses_perform.mpr (by simp)) fun _ => trivial
  refine Prog.Uses.bind (Prog.uses_perform.mpr (by simp)) fun updated => ?_
  split
  · refine Prog.Uses.bind (Prog.uses_perform.mpr (by simp)) fun _ => ?_
    exact Prog.Uses.bind (Prog.uses_perform.mpr (by simp)) fun _ => trivial
  · trivial

theorem insertProblem_runs (hrun : (insertProblem problem content).Runs tr res) :
    ∃ r tr', tr = ⟨.createProblem problem, r⟩ :: tr' ∧
      (∀ ev ∈ tr', ∀ p, ev.1 ≠ .createProblem p) ∧
      ∀ id, r.1 = some id → (storeTestcases id content).Runs tr' res := by
  obtain ⟨r, tr', rfl, hrun'⟩ := Prog.runs_perform_bind.mp hrun
  obtain ⟨inserted, leaves⟩ := r
  refine ⟨(inserted, leaves), tr', rfl, ?_⟩
  cases inserted with
  | none =>
    obtain ⟨rfl, rfl⟩ := Prog.runs_ret.mp hrun'
    simp
  | some id =>
    refine ⟨Prog.Runs.uses hrun' storeTestcases_uses, ?_⟩
    intro id' hid
    cases hid
    exact hrun'

/-- A run ends before the insertion, or gets there after preliminaries only. -/
theorem handleCreateProblem_runs (hfile : form.file = some file)
    (hrun : (handleCreateProblem env (.ok form)).Runs tr res) :
    (∀ ev ∈ tr, Preliminary ev) ∨ ∃ pre tr', tr = pre ++ tr' ∧ (∀ ev ∈ pre, Preliminary ev) ∧
      (insertProblem (newProblem env form file.content) file.content).Runs tr' res := by
  simp only [handleCreateProblem, hfile] at hrun
  by_cases htitle : form.title = ""
  · rw [if_pos htitle] at hrun
    obtain ⟨rfl, rfl⟩ := Prog.runs_ret.mp hrun
    simp
  rw [if_neg htitle] at hrun
  by_cases hext : ext file.filename ≠ utf8 ".zip"
  · simp only [if_pos hext] at hrun
    obtain ⟨rfl, rfl⟩ := Prog.runs_ret.mp hrun
    simp
  simp only [if_neg hext] at hrun
  obtain ⟨temp, tr₁, rfl, hrun₁⟩ := Prog.runs_perform_bind.mp hrun
  by_cases ht : temp.failed = true
  · rw [if_pos ht] at hrun₁
    obtain ⟨rfl, rfl⟩ := Prog.runs_ret.mp hrun₁
    simp [Preliminary]
  rw [if_neg ht] at hrun₁
  obtain ⟨copied, tr₂, rfl, hrun₂⟩ := Prog.runs_perform_bind.mp hrun₁
  by_cases hc : copied.failed = true
  · rw [if_pos hc] at hrun₂
    obtain ⟨rfl, rfl⟩ := Prog.runs_ret.mp hrun₂
    simp [Preliminary]
  rw [if_neg hc] at hrun₂
  by_cases hlong : file.content.length > env.maxBytes
  · rw [if_pos hlong] at hrun₂
    obtain ⟨rfl, rfl⟩ := Prog.runs_ret.mp hrun₂
    simp [Preliminary]
  rw [if_neg hlong] at hrun₂
  by_cases hzip : ¬ validateZipContent (env.newReader file.content) = true
  · rw [if_pos hzip] at hrun₂
    obtain ⟨rfl, rfl⟩ := Prog.runs_ret.mp hrun₂
    simp [Preliminary]
  · rw [if_neg hzip] at hrun₂
    exact .inr ⟨[⟨.createTemp, temp⟩, ⟨.copy, copied⟩], tr₂, rfl, by simp [Preliminary], hrun₂⟩

/-- The row that a run inserts, with the rest of the run. -/
theorem exists_storeTestcases (hfile : form.file = some file)
    (hrun : (handleCreateProblem env (.ok form)).Runs tr res)
    (hcreated : ⟨.createProblem problem, (some id, leaves)⟩ ∈ tr) :
    ∃ pre tr', tr = pre ++ ⟨.createProblem problem, (some id, leaves)⟩ :: tr' ∧
      (∀ ev ∈ pre, Preliminary ev) ∧ problem = newProblem env form file.content ∧
      (storeTestcases id file.content).Runs tr' res := by
  rcases handleCreateProblem_runs hfile hrun with hpre | ⟨pre, tail, rfl, hpre, hins⟩
  · exact absurd (hpre _ hcreated) (by simp [Preliminary])
  obtain ⟨r, tr', rfl, hlast, hstore⟩ := insertProblem_runs hins
  rcases List.mem_append.mp hcreated with hmem | hmem
  · exact absurd (hpre _ hmem) (by simp [Preliminary])
  rcases List.mem_cons.mp hmem with heq | hmem
  · cases heq
    exact ⟨pre, tr', rfl, hpre, rfl, hstore id rfl⟩
  · exact absurd rfl (hlast _ hmem problem)

theorem after_append {tr' : List Event} (h : w.after (tr ++ tr') = some w') :
    ∃ w₁, w.after tr = some w₁ ∧ w₁.after tr' = some w' := by
  unfold World.after at h
  rw [List.foldlM_append] at h
  exact Option.bind_eq_some_iff.mp h

theorem step_createProblem (h : step w ⟨.createProblem problem, (some id, leaves)⟩ = some w') :
    w'.rows id = some problem ∧ w'.objects (objectName id) = none := by
  simp only [step] at h
  by_cases hnew : ¬ w.gone ∧ w.rows id = none ∧ w.objects (objectName id) = none
  · rw [if_pos hnew] at h
    cases h
    exact ⟨by simp, hnew.2.2⟩
  · rw [if_neg hnew] at h
    cases h

theorem Preliminary.benign {ev : Event} (h : Preliminary ev) : Benign ev := by
  obtain ⟨c, r⟩ := ev
  cases c <;> trivial

/-- The handler leaves all or nothing in exactly the runs in which every failure is one that it can
take back. -/
theorem all_or_nothing_iff {w₀ : World} (hfile : form.file = some file)
    (hrun : (handleCreateProblem env (.ok form)).Runs tr res)
    (hcreated : ⟨.createProblem problem, (some id, leaves)⟩ ∈ tr)
    (hafter : w₀.after tr = some w) :
    AllOrNothing id problem file.content w res ↔ ∀ ev ∈ tr, Benign ev := by
  obtain ⟨pre, tail, rfl, hpre, rfl, hstore⟩ := exists_storeTestcases hfile hrun hcreated
  obtain ⟨w₁, _, hafter₁⟩ := after_append hafter
  obtain ⟨w₂, hinsert, hafter₂⟩ := after_cons hafter₁
  obtain ⟨hrow, hobject⟩ := step_createProblem hinsert
  rw [storeTestcases_iff hrow hobject hstore hafter₂]
  constructor
  · intro h ev hev
    rcases List.mem_append.mp hev with hev | hev
    · exact (hpre ev hev).benign
    rcases List.mem_cons.mp hev with rfl | hev
    · trivial
    · exact h ev hev
  · intro h ev hev
    exact h ev (List.mem_append_right _ (List.mem_cons_of_mem _ hev))

/-- A form that is accepted gets to the insertion. -/
theorem runs_of_accepted (htitle : form.title ≠ "") (hfile : form.file = some file)
    (hext : ext file.filename = utf8 ".zip") (hlong : file.content.length ≤ env.maxBytes)
    (hzip : validateZipContent (env.newReader file.content) = true)
    (hrun : (storeTestcases id file.content).Runs tr res) :
    (handleCreateProblem env (.ok form)).Runs
      (⟨.createTemp, ⟨.ok, false⟩⟩ :: ⟨.copy, ⟨.ok, false⟩⟩ ::
        ⟨.createProblem (newProblem env form file.content), (some id, leaves)⟩ :: tr) res := by
  simp only [handleCreateProblem, hfile]
  rw [if_neg htitle, if_neg (not_not.mpr hext)]
  refine Prog.runs_perform_bind.mpr ⟨_, _, rfl, ?_⟩
  rw [if_neg (by simp [Answer.failed])]
  refine Prog.runs_perform_bind.mpr ⟨_, _, rfl, ?_⟩
  rw [if_neg (by simp [Answer.failed]), if_neg (by omega), if_neg (not_not.mpr hzip)]
  exact Prog.runs_perform_bind.mpr ⟨_, _, rfl, hrun⟩

/-! ## An archive that is accepted -/

def sumArchive : Upload where
  filename := utf8 "sum.zip"
  content := utf8 "PK"

def sumForm : Form where
  title := "Sum"
  difficulty := "easy"
  timeLimit := 0
  memoryLimit := 256
  file := some sumArchive

def sumEnv : Env where
  maxBytes := 50 * 1024 * 1024
  defaultTimeLimit := 1000
  defaultMemoryLimit := 128
  sha256 := fun _ => "6b86b273"
  newReader := fun _ => .ok [.ofFile "1.in" "1 2", .ofFile "1.out" "3"]

def emptyWorld : World := ⟨fun _ => none, fun _ => none, false⟩

def sumProblem : Problem := newProblem sumEnv sumForm sumArchive.content

/-- The events up to the insertion. -/
def sumCreated : List Event :=
  [⟨.createTemp, ⟨.ok, false⟩⟩, ⟨.copy, ⟨.ok, false⟩⟩, ⟨.createProblem sumProblem, (some 7, false)⟩]

theorem sum_runs (hrun : (storeTestcases 7 sumArchive.content).Runs tr res) :
    (handleCreateProblem sumEnv (.ok sumForm)).Runs (sumCreated ++ tr) res :=
  runs_of_accepted (by decide) rfl (by decide) (by decide) (by decide) hrun

/-- The path cannot be written, and both calls take back what they should. -/
def pathRefused : List Event :=
  [⟨.seek, ⟨.ok, false⟩⟩, ⟨.uploadFile (objectName 7) sumArchive.content, ⟨.ok, false⟩⟩,
    ⟨.updateTestcasePath 7 (objectName 7), ⟨.refused, false⟩⟩,
    ⟨.removeFile (objectName 7), ⟨.ok, false⟩⟩, ⟨.deleteProblem 7, ⟨.ok, false⟩⟩]

theorem all_or_nothing_iff_pathRefused :
    ∃ w, (handleCreateProblem sumEnv (.ok sumForm)).Runs (sumCreated ++ pathRefused)
        (.error 500 "Database update error") ∧
      emptyWorld.after (sumCreated ++ pathRefused) = some w ∧
      w.rows 7 = none ∧ w.objects (objectName 7) = none := by
  have hrun : (handleCreateProblem sumEnv (.ok sumForm)).Runs (sumCreated ++ pathRefused)
      (.error 500 "Database update error") :=
    sum_runs (.call _ (.call _ (.call _ (.call _ (.call _ (.ret _))))))
  obtain ⟨w, hafter⟩ : ∃ w, emptyWorld.after (sumCreated ++ pathRefused) = some w := ⟨_, rfl⟩
  have hcreated : ⟨.createProblem sumProblem, (some 7, false)⟩ ∈ sumCreated ++ pathRefused := by
    simp [sumCreated]
  refine ⟨w, hrun, hafter, ?_⟩
  refine (all_or_nothing_iff rfl hrun hcreated hafter).mpr ?_
  simp [sumCreated, pathRefused, Benign]

/-- The client disconnects during the upload: the deletion is on the same context. -/
def uploadCancelled : List Event :=
  [⟨.seek, ⟨.ok, false⟩⟩, ⟨.uploadFile (objectName 7) sumArchive.content, ⟨.refused, true⟩⟩,
    ⟨.deleteProblem 7, ⟨.refused, false⟩⟩]

/-- The row stays, without an archive. -/
theorem createProblem_leaves_row :
    ∃ w, (handleCreateProblem sumEnv (.ok sumForm)).Runs (sumCreated ++ uploadCancelled)
        (.error 500 "Storage error") ∧
      emptyWorld.after (sumCreated ++ uploadCancelled) = some w ∧
      w.rows 7 = some sumProblem ∧
      ¬ AllOrNothing 7 sumProblem sumArchive.content w (.error 500 "Storage error") := by
  refine ⟨_, sum_runs (.call _ (.call _ (.call _ (.ret _)))), rfl, rfl, ?_⟩
  rintro ⟨hrow, _⟩
  cases hrow

end

end DeepOj.Api.CreateProblem
