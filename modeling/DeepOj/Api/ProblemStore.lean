import DeepOj.Api.CreateProblem
import DeepOj.Conc.Owned
import DeepOj.Go.JsonMarshal

/-!
# The problems, while they are created and deleted

Any number of administrators create and delete problems at the same time. A row and an archive
are in two stores that know nothing of each other; what keeps them together is that the handler
that has been given an id is the only one to write under it.
-/

namespace DeepOj.Api.ProblemStore

open CreateProblem Conc Go

/-! ## The handlers -/

inductive StoreReply where
  | create (r : Response)
  /-- `{"status": "deleted"}`. -/
  | deleted
  deriving DecidableEq

inductive StoreOp where
  | call (c : Call)
  /-- The id that `strconv.Atoi` makes of the path. -/
  | getProblem (id : Int)
  | json (r : StoreReply)

@[reducible] def StoreOp.Reply : StoreOp → Type
  | .call c => c.Reply
  | .getProblem _ => Option Problem
  | .json _ => Unit

abbrev StoreProgram (α : Type) : Type := Prog StoreOp StoreOp.Reply α

/-- The calls of `HandleCreateProblem`, next to those of other requests. -/
abbrev inStore {α : Type} (p : Program α) : StoreProgram α := p.embed .call fun _ r => r

/-- Send the response. -/
abbrev respond (r : StoreReply) : StoreProgram Unit := Prog.perform (StoreOp.json r)

/-- `POST /problems`. -/
def createRequest (env : Env) (form : Except ParseError Form) : StoreProgram Unit := do
  let r ← inStore (handleCreateProblem env form)
  respond (.create r)

/-- `HandleDeleteProblem`. A problem that cannot be read counts as not found. -/
def handleDeleteProblem (id : Int) : StoreProgram Unit := do
  match ← Prog.perform (StoreOp.getProblem id) with
  | none => respond (.create (.error 404 "Problem not found"))
  | some _ =>
    let deleted ← Prog.perform (StoreOp.call (.deleteProblem id.toNat))
    if deleted.failed then respond (.create (.error 500 "Delete DB error"))
    else respond .deleted

/-! ## The stores -/

/-- Both stores, the sequence of the ids, and the ids that have been named in delete requests. -/
structure Store extends World where
  nextID : Nat
  deletions : List Int

/-- What comes of an operation, and the ids that the sequence has skipped. -/
structure StoreFate where
  answer : Answer
  skip : Nat
  deriving DecidableEq

/-- A call that is refused does nothing; one that is lost does what it should. -/
def Store.carry (w : Store) (a : Answer) (c : Call) : Store :=
  if a.outcome = .refused then w else { w with toWorld := carryOut w.toWorld c }

def Store.addRow (w : Store) (id : Nat) (problem : Problem) : Store :=
  { w with rows := Function.update w.rows id (some problem), nextID := id + 1 }

/-- The execution of one operation. `DeleteProblem` is an error where there is no row. -/
def serveStore (w : Store) (fate : StoreFate) : (o : StoreOp) → Option (Store × o.Reply)
  | .call .createTemp => some (w, fate.answer)
  | .call .copy => some (w, fate.answer)
  | .call .seek => some (w, fate.answer)
  | .call (.createProblem problem) =>
    let id := w.nextID + fate.skip
    match fate.answer.outcome with
    | .ok => some (w.addRow id problem, (some id, fate.answer.leaves))
    | .refused => some (w, (none, fate.answer.leaves))
    | .lost => some (w.addRow id problem, (none, fate.answer.leaves))
  | .call (.uploadFile name content) => some (w.carry fate.answer (.uploadFile name content), fate.answer)
  | .call (.updateTestcasePath id path) => some (w.carry fate.answer (.updateTestcasePath id path), fate.answer)
  | .call (.removeFile name) => some (w.carry fate.answer (.removeFile name), fate.answer)
  | .call (.deleteProblem id) =>
    if fate.answer.outcome = .ok ∧ w.rows id = none then none
    else some (w.carry fate.answer (.deleteProblem id), fate.answer)
  | .getProblem id => some (w, if fate.answer.outcome = .ok ∧ 0 ≤ id then w.rows id.toNat else none)
  | .json _ => some (w, ())

inductive StoreEvent where
  | create (form : Except ParseError Form)
  | delete (id : Int)

/-- The two handlers as an interleaving machine. -/
def storeMachine (env : Env) : Machine Store StoreOp StoreOp.Reply StoreFate StoreEvent where
  sem w o fate := serveStore w fate o
  forks _ := []
  env w
    | .create form => some (w, [createRequest env form])
    | .delete id => some ({ w with deletions := id :: w.deletions }, [handleDeleteProblem id])

/-! ## Records -/

/-- What a request is about, and how far it has got. -/
structure Handling where
  /-- The archive that is to be stored. -/
  content : Option Bytes := none
  /-- The problem that is to be deleted. -/
  target : Option Int := none
  id : Option Nat := none
  stored : Bool := false
  linked : Bool := false
  withdrawn : Bool := false
  deleted : Bool := false
  answered : Option StoreReply := none

def uploadedContent : Except ParseError Form → Option Bytes
  | .ok form => form.file.map (·.content)
  | .error _ => none

def Handling.next (g : Handling) : (o : StoreOp) → o.Reply → Handling
  | .call (.createProblem _), (id, _) => { g with id := id }
  | .call (.uploadFile ..), a => { g with stored := a.outcome = .ok }
  | .call (.updateTestcasePath ..), a => { g with linked := a.outcome = .ok }
  | .call (.removeFile _), _ => { g with withdrawn := true }
  | .call (.deleteProblem _), a => { g with withdrawn := true, deleted := a.outcome = .ok }
  | .json r, _ => { g with answered := some r }
  | _, _ => g

def storeRecorder : Recorder StoreOp StoreOp.Reply StoreEvent Handling where
  start
    | .create form => { content := uploadedContent form }
    | .delete id => { target := some id }
  fork _ := {}
  next := Handling.next

/-- The archive of a request has been looked at. -/
def Checked (env : Env) (g : Handling) : Prop :=
  ∃ content, g.content = some content ∧ validateZipContent (env.newReader content) = true

/-- What a handler may do with what it knows. -/
def StoreRule (env : Env) (g : Handling) : StoreOp → Prop
  | .call (.createProblem problem) =>
    Checked env g ∧ g.id = none ∧ g.stored = false ∧ g.linked = false ∧ g.withdrawn = false ∧
      problem.testcaseMinioPath = "" ∧ ∀ content, g.content = some content →
        problem.testcaseHash = env.sha256 content
  | .call (.uploadFile name content) => ∃ id, g.id = some id ∧ name = objectName id ∧ g.content = some content
  | .call (.updateTestcasePath id path) => g.id = some id ∧ path = objectName id
  | .call (.removeFile name) => ∃ id, g.id = some id ∧ name = objectName id
  | .call (.deleteProblem id) => g.id = some id ∨ (g.id = none ∧ g.target = some (id : Int))
  | .json (.create (.created id path)) =>
    g.id = some id ∧ path = objectName id ∧ g.stored = true ∧ g.linked = true ∧ g.withdrawn = false
  | .json .deleted => g.id = none ∧ g.deleted = true
  | _ => True

/-- No row has a negative id. -/
def StorePromise : (o : StoreOp) → o.Reply → Prop
  | .getProblem id, found => found.isSome → 0 ≤ id
  | _, _ => True

/-- A handler does nothing after its response. -/
def storeRules (env : Env) : Rules StoreOp StoreOp.Reply Handling where
  allowed g o := g.answered = none ∧ StoreRule env g o
  promised _ := StorePromise
  ended _ := True

section Handlers

variable {env : Env} {g : Handling} {id : Nat} {content : Bytes} {α : Type}

abbrev Keeps (env : Env) (g : Handling) (p : StoreProgram α) (Q : Handling → α → Prop) : Prop :=
  Obeys storeRecorder (storeRules env) g p Q

theorem keeps_call {c : Call} {k : c.Reply → Program α} {Q : Handling → α → Prop} (hopen : g.answered = none)
    (h : StoreRule env g (.call c)) (hk : ∀ r, Keeps env (g.next (.call c) r) (inStore (k r)) Q) :
    Keeps env g (inStore (Prog.perform c >>= k)) Q := ⟨⟨hopen, h⟩, fun r _ => (hk r).heeds⟩

/-- The response that the handler comes to may be given. -/
def MayAnswer (env : Env) (g : Handling) (r : Response) : Prop :=
  g.answered = none ∧ StoreRule env g (.json (.create r))

theorem keeps_error {status : Nat} {text : String} {code : Option String} (hopen : g.answered = none) :
    Keeps env g (inStore (.ret (.error status text code))) (MayAnswer env) := .pure ⟨hopen, trivial⟩

theorem keeps_storePath (hopen : g.answered = none) (hid : g.id = some id) (hstored : g.stored = true)
    (hkept : g.withdrawn = false) : Keeps env g (inStore (storePath id)) (MayAnswer env) := by
  refine keeps_call hopen ⟨hid, rfl⟩ fun updated => ?_
  by_cases hfailed : updated.failed
  · rw [if_pos hfailed]
    refine keeps_call hopen ⟨id, hid, rfl⟩ fun _ => ?_
    exact keeps_call hopen (.inl hid) fun _ => keeps_error hopen
  · rw [if_neg hfailed]
    have hok : updated.outcome = .ok := not_not.mp fun h => hfailed (failed_iff.mpr h)
    exact .pure ⟨hopen, hid, rfl, hstored, decide_eq_true hok, hkept⟩

theorem keeps_storeTestcases (hopen : g.answered = none) (hid : g.id = some id)
    (hcontent : g.content = some content)
    (hkept : g.withdrawn = false) : Keeps env g (inStore (storeTestcases id content)) (MayAnswer env) := by
  refine keeps_call hopen trivial fun seeked => ?_
  by_cases hseeked : seeked.failed
  · rw [if_pos hseeked]
    exact keeps_error hopen
  rw [if_neg hseeked]
  refine keeps_call hopen ⟨id, hid, rfl, hcontent⟩ fun uploaded => ?_
  by_cases hfailed : uploaded.failed
  · rw [if_pos hfailed]
    exact keeps_call hopen (.inl hid) fun _ => keeps_error hopen
  · rw [if_neg hfailed]
    have hok : uploaded.outcome = .ok := not_not.mp fun h => hfailed (failed_iff.mpr h)
    exact keeps_storePath hopen hid (decide_eq_true hok) hkept

theorem keeps_insertProblem {form : Form} (hvalid : validateZipContent (env.newReader content) = true) :
    Keeps env { content := some content } (inStore (insertProblem (newProblem env form content) content))
      (MayAnswer env) := by
  have hrule : StoreRule env { content := some content }
      (.call (.createProblem (newProblem env form content))) := by
    refine ⟨⟨content, rfl, hvalid⟩, rfl, rfl, rfl, rfl, rfl, fun content' h => ?_⟩
    rw [← Option.some.inj h]
    rfl
  refine keeps_call rfl hrule fun r => ?_
  obtain ⟨id, leaves⟩ := r
  cases id with
  | none => exact keeps_error rfl
  | some id => exact keeps_storeTestcases rfl rfl rfl rfl

theorem keeps_handleCreateProblem (form : Except ParseError Form) :
    Keeps env { content := uploadedContent form } (inStore (handleCreateProblem env form)) (MayAnswer env) := by
  match form with
  | .error .maxBytes => exact keeps_error rfl
  | .error .other => exact keeps_error rfl
  | .ok form =>
    simp only [handleCreateProblem]
    by_cases htitle : form.title = ""
    · rw [if_pos htitle]
      exact keeps_error rfl
    rw [if_neg htitle]
    cases hfile : form.file with
    | none => exact keeps_error rfl
    | some file =>
      dsimp only
      by_cases hext : ext file.filename ≠ utf8 ".zip"
      · rw [if_pos hext]
        exact keeps_error rfl
      rw [if_neg hext]
      have hcontent : uploadedContent (.ok form) = some file.content := by
        show form.file.map _ = _
        rw [hfile]
        rfl
      rw [hcontent]
      refine keeps_call rfl trivial fun temp => ?_
      by_cases htemp : temp.failed
      · rw [if_pos htemp]
        exact keeps_error rfl
      rw [if_neg htemp]
      refine keeps_call rfl trivial fun copied => ?_
      by_cases hcopied : copied.failed
      · rw [if_pos hcopied]
        exact keeps_error rfl
      rw [if_neg hcopied]
      by_cases hlong : file.content.length > env.maxBytes
      · rw [if_pos hlong]
        exact keeps_error rfl
      rw [if_neg hlong]
      by_cases hvalid : ¬ validateZipContent (env.newReader file.content) = true
      · rw [if_pos hvalid]
        exact keeps_error rfl
      · rw [if_neg hvalid]
        exact keeps_insertProblem (not_not.mp hvalid)

theorem keeps_createRequest (form : Except ParseError Form) :
    Keeps env { content := uploadedContent form } (createRequest env form) fun _ _ => True :=
  (keeps_handleCreateProblem form).bind fun _ _ h => .perform h fun _ _ => trivial

theorem keeps_handleDeleteProblem (id : Int) :
    Keeps env { target := some id } (handleDeleteProblem id) fun _ _ => True := by
  refine .effect ⟨rfl, trivial⟩ fun found hfound => ?_
  cases found with
  | none => exact .perform ⟨rfl, trivial⟩ fun _ _ => trivial
  | some problem =>
    have hid : ((id.toNat : Nat) : Int) = id := Int.toNat_of_nonneg (hfound rfl)
    refine .effect ⟨rfl, .inr ⟨rfl, congrArg some hid.symm⟩⟩ fun deleted _ => ?_
    by_cases hfailed : deleted.failed
    · rw [if_pos hfailed]
      exact .perform ⟨rfl, trivial⟩ fun _ _ => trivial
    · rw [if_neg hfailed]
      have hok : deleted.outcome = .ok := not_not.mp fun h => hfailed (failed_iff.mpr h)
      exact .perform ⟨rfl, rfl, decide_eq_true hok⟩ fun _ _ => trivial

theorem store_disciplined (env : Env) : (storeMachine env).Disciplined storeRecorder (storeRules env) where
  env := by
    intro w v w' ps h p hp
    cases v with
    | create form =>
      cases h
      obtain rfl := List.mem_singleton.mp hp
      exact (keeps_createRequest form).heeds
    | delete id =>
      cases h
      obtain rfl := List.mem_singleton.mp hp
      exact (keeps_handleDeleteProblem id).heeds
  forks _ _ hp := absurd hp List.not_mem_nil

end Handlers

/-! ## What belongs to an id -/

theorem objectName_inj {m n : Nat} (h : objectName m = objectName n) : m = n := by
  have hlist := congrArg String.toList h
  unfold objectName at hlist
  rw [String.toList_append, String.toList_append, String.toList_append, String.toList_append] at hlist
  have hdigits : ∀ k : Nat, (toString k).toList = Nat.toDigits 10 k := fun k => by
    show (Nat.repr k).toList = _
    unfold Nat.repr
    exact String.toList_ofList
  have heq := List.append_cancel_left (List.append_cancel_right hlist)
  rw [hdigits, hdigits] at heq
  refine Json.natText_inj ?_
  unfold Json.natText
  rw [heq]

/-- The row, the archive, and whether the id has been named in a delete request. -/
structure Holding where
  row : Option Problem
  object : Option Bytes
  doomed : Prop

def Store.holding (w : Store) (id : Nat) : Holding :=
  ⟨w.rows id, w.objects (objectName id), (id : Int) ∈ w.deletions⟩

/-- Others do no more than delete the row, and only if they have been asked to. -/
structure Meddle (v v' : Holding) : Prop where
  object : v'.object = v.object
  row : v'.row = v.row ∨ (v'.row = none ∧ v.doomed)
  doomed : v.doomed → v'.doomed

theorem Meddle.of_eq {v v' : Holding} (hrow : v'.row = v.row) (hobject : v'.object = v.object)
    (hdoomed : v.doomed → v'.doomed) : Meddle v v' := ⟨hobject, .inl hrow, hdoomed⟩

/-- What the handler that has been given the id knows of it. -/
structure Knows (env : Env) (id : Nat) (g : Handling) (v : Holding) : Prop where
  checked : Checked env g
  hash : ∀ row content, v.row = some row → g.content = some content → row.testcaseHash = env.sha256 content
  object : ∀ content, v.object = some content → g.content = some content
  stored : g.stored = true → g.withdrawn = false → v.object = g.content
  linked : g.linked = true → ∀ row, v.row = some row → row.testcaseMinioPath = objectName id
  kept : g.withdrawn = false → v.row = none → v.doomed

theorem Knows.meddle {env : Env} {id : Nat} {g : Handling} {v v' : Holding} (hm : Meddle v v')
    (h : Knows env id g v) :
    Knows env id g v' := by
  have hrow : ∀ row, v'.row = some row → v.row = some row := by
    intro row hrow
    obtain heq | ⟨hnone, _⟩ := hm.row
    · rwa [← heq]
    · rw [hnone] at hrow
      cases hrow
  refine ⟨h.checked, fun row content hr => h.hash row content (hrow row hr), ?_, ?_, fun hl row hr => ?_, ?_⟩
  · rw [hm.object]
    exact h.object
  · rw [hm.object]
    exact h.stored
  · exact h.linked hl row (hrow row hr)
  · intro hkept hnone
    obtain heq | ⟨_, hdoomed⟩ := hm.row
    · exact hm.doomed (h.kept hkept (heq ▸ hnone))
    · exact hm.doomed hdoomed

def storeOwnership (env : Env) : Ownership Store Handling Nat Holding where
  own := (·.id)
  view := Store.holding
  Used w id := id < w.nextID
  Meddle := Meddle
  Knows := Knows env
  knows_meddle _ _ _ _ := Knows.meddle

/-! ## One operation -/

section Operation

variable {env : Env} {w w' : Store} {g : Handling} {fate : StoreFate}

/-- Under an id that has not been given out there is nothing. -/
def Fresh (w : Store) : Prop := ∀ id, w.nextID ≤ id → w.rows id = none ∧ w.objects (objectName id) = none

/-- The stores of an operation that leaves them alone. -/
theorem fair_same {g' : Handling} (hid : g'.id = g.id)
    (hknows : ∀ id, Knows env id g (w.holding id) → g.id = some id → Knows env id g' (w.holding id)) :
    (storeOwnership env).Fair w w g g' where
  used _ := id
  own := .inl hid
  meddle _ _ _ := .of_eq rfl rfl id
  knows id hown h := by
    have hg : g.id = some id := hid ▸ hown
    exact hknows id (h hg) hg

theorem holding_addRow {problem : Problem} (hfresh : Fresh w) {id : Nat} (hnew : w.nextID ≤ id) :
    (w.addRow id problem).holding id = ⟨some problem, none, (id : Int) ∈ w.deletions⟩ := by
  show (⟨Function.update w.rows id (some problem) id, w.objects (objectName id),
      (id : Int) ∈ w.deletions⟩ : Holding) = _
  rw [Function.update_self, (hfresh id hnew).2]

/-- A new row, whether its id is reported or not. -/
theorem fair_addRow {problem : Problem} (hfresh : Fresh w) {id : Nat} (hnew : w.nextID ≤ id)
    (hnone : g.id = none)
    (hrule : StoreRule env g (.call (.createProblem problem))) {r : Option Nat}
    (hr : r = some id ∨ r = none) : (storeOwnership env).Fair w (w.addRow id problem) g { g with id := r } where
  used x hx := Nat.lt_of_lt_of_le (show x < w.nextID from hx) (Nat.le_succ_of_le hnew)
  own := by
    obtain rfl | rfl := hr
    · exact .inr ⟨id, rfl, Nat.not_lt.mpr hnew, Nat.lt_succ_self id⟩
    · exact .inl hnone.symm
  meddle x hx _ := by
    have hne : x ≠ id := Nat.ne_of_lt (Nat.lt_of_lt_of_le hx hnew)
    exact .of_eq (Function.update_of_ne hne _ _) rfl fun h => h
  knows x hown _ := by
    obtain rfl | rfl := hr
    · obtain rfl : id = x := Option.some.inj hown
      obtain ⟨hchecked, _, hstored, hlinked, _, _, hhash⟩ := hrule
      show Knows env id { g with id := some id } ((w.addRow id problem).holding id)
      rw [holding_addRow hfresh hnew]
      refine ⟨hchecked, fun row content hrow hcontent => ?_, nofun, fun h => ?_, fun h => ?_, fun _ => nofun⟩
      · rw [← Option.some.inj hrow]
        exact hhash content hcontent
      · exact absurd (hstored.symm.trans h) nofun
      · exact absurd (hlinked.symm.trans h) nofun
    · exact absurd hown nofun

/-- An operation of the owner of `id`, on nothing else. -/
theorem fair_own {g' : Handling} {id : Nat} (hg : g.id = some id) (hid : g'.id = g.id)
    (hnext : w'.nextID = w.nextID)
    (hothers : ∀ x, x ≠ id → w'.holding x = w.holding x)
    (hknows : Knows env id g (w.holding id) → Knows env id g' (w'.holding id)) :
    (storeOwnership env).Fair w w' g g' where
  used x hx := by
    show x < w'.nextID
    rw [hnext]
    exact hx
  own := .inl hid
  meddle x _ hown := by
    have hne : x ≠ id := by
      rintro rfl
      exact hown (hid.trans hg)
    show Meddle (w.holding x) (w'.holding x)
    rw [hothers x hne]
    exact .of_eq rfl rfl fun h => h
  knows x hown h := by
    have hx : g.id = some x := hid ▸ hown
    obtain rfl : id = x := Option.some.inj (hg.symm.trans hx)
    exact hknows (h hx)

/-- What a call does that is carried out, or refused. -/
theorem carry_eq (a : Answer) (c : Call) :
    (a.outcome = .refused ∧ w.carry a c = w) ∨
      (a.outcome ≠ .refused ∧ w.carry a c = { w with toWorld := carryOut w.toWorld c }) := by
  unfold Store.carry
  split
  · rename_i h
    exact .inl ⟨h, rfl⟩
  · rename_i h
    exact .inr ⟨h, rfl⟩

theorem fair_uploadFile {name : String} {content : Bytes} {a : Answer}
    (hrule : StoreRule env g (.call (.uploadFile name content))) :
    (storeOwnership env).Fair w (w.carry a (.uploadFile name content)) g
      { g with stored := a.outcome = .ok } := by
  obtain ⟨id, hid, rfl, hcontent⟩ := hrule
  obtain ⟨ha, heq⟩ | ⟨ha, heq⟩ := carry_eq (w := w) a (.uploadFile (objectName id) content)
  · rw [heq]
    refine fair_own hid rfl rfl (fun _ _ => rfl) fun h => ?_
    refine ⟨h.checked, h.hash, h.object, fun hstored => ?_, h.linked, h.kept⟩
    have hok : decide (a.outcome = .ok) = true := hstored
    rw [ha] at hok
    cases hok
  · rw [heq]
    have hothers : ∀ x, x ≠ id → Function.update w.objects (objectName id) (some content) (objectName x) =
        w.objects (objectName x) := fun x hx => Function.update_of_ne (fun h => hx (objectName_inj h)) _ _
    have hown : Function.update w.objects (objectName id) (some content) (objectName id) = some content :=
      Function.update_self _ _ _
    refine fair_own hid rfl rfl (fun x hx => congrArg (Holding.mk _ · _) (hothers x hx)) fun h => ?_
    refine ⟨h.checked, h.hash, fun content' h' => ?_, fun _ _ => hown.trans hcontent.symm, h.linked, h.kept⟩
    rw [← hown.symm.trans h']
    exact hcontent

theorem fair_removeFile {name : String} {a : Answer} (hrule : StoreRule env g (.call (.removeFile name))) :
    (storeOwnership env).Fair w (w.carry a (.removeFile name)) g { g with withdrawn := true } := by
  obtain ⟨id, hid, rfl⟩ := hrule
  obtain ⟨_, heq⟩ | ⟨_, heq⟩ := carry_eq (w := w) a (.removeFile (objectName id))
  · rw [heq]
    refine fair_own hid rfl rfl (fun _ _ => rfl) fun h => ?_
    exact ⟨h.checked, h.hash, h.object, fun _ => nofun, h.linked, nofun⟩
  · rw [heq]
    have hothers : ∀ x, x ≠ id → Function.update w.objects (objectName id) none (objectName x) =
        w.objects (objectName x) := fun x hx => Function.update_of_ne (fun h => hx (objectName_inj h)) _ _
    refine fair_own hid rfl rfl (fun x hx => congrArg (Holding.mk _ · _) (hothers x hx)) fun h => ?_
    refine ⟨h.checked, h.hash, fun content h' => ?_, fun _ => nofun, h.linked, nofun⟩
    have hnone : Function.update w.objects (objectName id) none (objectName id) = none :=
      Function.update_self _ _ _
    exact absurd (hnone.symm.trans h') nofun

theorem fair_updateTestcasePath {id : Nat} {path : String} {a : Answer}
    (hrule : StoreRule env g (.call (.updateTestcasePath id path))) :
    (storeOwnership env).Fair w (w.carry a (.updateTestcasePath id path)) g
      { g with linked := a.outcome = .ok } := by
  obtain ⟨hid, rfl⟩ := hrule
  obtain ⟨ha, heq⟩ | ⟨ha, heq⟩ := carry_eq (w := w) a (.updateTestcasePath id (objectName id))
  · rw [heq]
    refine fair_own hid rfl rfl (fun _ _ => rfl) fun h => ?_
    refine ⟨h.checked, h.hash, h.object, h.stored, fun hlinked => ?_, h.kept⟩
    have hok : decide (a.outcome = .ok) = true := hlinked
    rw [ha] at hok
    cases hok
  · rw [heq]
    have hown : Function.update w.rows id
          ((w.rows id).map fun p => { p with testcaseMinioPath := objectName id }) id =
        (w.rows id).map fun p => { p with testcaseMinioPath := objectName id } := Function.update_self _ _ _
    refine fair_own hid rfl rfl (fun x hx => congrArg (Holding.mk · _ _)
      (Function.update_of_ne hx _ _)) fun h => ?_
    refine ⟨h.checked, fun row content hrow hcontent => ?_, h.object, h.stored,
      fun _ row hrow => ?_, fun hkept hnone => ?_⟩
    · obtain ⟨p, hp, rfl⟩ := Option.map_eq_some_iff.mp (hown.symm.trans hrow)
      exact h.hash p content hp hcontent
    · obtain ⟨p, _, rfl⟩ := Option.map_eq_some_iff.mp (hown.symm.trans hrow)
      rfl
    · exact h.kept hkept (Option.map_eq_none_iff.mp (hown.symm.trans hnone))

/-- The deletion of a row, by the handler that has created it or on request. -/
theorem fair_deleteProblem {id : Nat} {a : Answer} {deleted : Bool}
    (hrule : StoreRule env g (.call (.deleteProblem id)))
    (htarget : ∀ id, g.target = some id → id ∈ w.deletions) :
    (storeOwnership env).Fair w (w.carry a (.deleteProblem id)) g
      { g with withdrawn := true, deleted := deleted } := by
  obtain ⟨_, heq⟩ | ⟨_, heq⟩ := carry_eq (w := w) a (.deleteProblem id)
  · rw [heq]
    refine fair_same rfl fun x h _ => ?_
    exact ⟨h.checked, h.hash, h.object, fun _ => nofun, h.linked, nofun⟩
  · rw [heq]
    have hnone : Function.update w.rows id none id = none := Function.update_self _ _ _
    obtain hid | ⟨hnoid, hnamed⟩ := hrule
    · refine fair_own hid rfl rfl (fun x hx => congrArg (Holding.mk · _ _)
        (Function.update_of_ne hx _ _)) fun h => ?_
      exact ⟨h.checked, fun _ _ hrow => absurd (hnone.symm.trans hrow) nofun, h.object, fun _ => nofun,
        fun _ _ hrow => absurd (hnone.symm.trans hrow) nofun, nofun⟩
    · refine ⟨fun x hx => hx, .inl rfl, fun x _ _ => ?_, fun x hown _ => absurd (hnoid.symm.trans hown) nofun⟩
      by_cases hx : x = id
      · subst hx
        exact ⟨rfl, .inr ⟨hnone, htarget _ hnamed⟩, fun h => h⟩
      · exact .of_eq (Function.update_of_ne hx _ _) rfl fun h => h

theorem fair_serveStore {o : StoreOp} {r : o.Reply} (hfresh : Fresh w)
    (htarget : ∀ id, g.target = some id → id ∈ w.deletions) (hrule : StoreRule env g o)
    (hs : serveStore w fate o = some (w', r)) : (storeOwnership env).Fair w w' g (g.next o r) := by
  have hidle : (storeOwnership env).Fair w w g g := fair_same rfl fun _ h _ => h
  match o with
  | .call .createTemp => cases hs; exact hidle
  | .call .copy => cases hs; exact hidle
  | .call .seek => cases hs; exact hidle
  | .getProblem id => cases hs; exact hidle
  | .call (.createProblem problem) =>
    have hnone : g.id = none := hrule.2.1
    simp only [serveStore] at hs
    split at hs <;> cases hs
    · exact fair_addRow hfresh (Nat.le_add_right _ _) hnone hrule (.inl rfl)
    · exact fair_same hnone.symm fun _ _ h => absurd (hnone.symm.trans h) nofun
    · exact fair_addRow hfresh (Nat.le_add_right _ _) hnone hrule (.inr rfl)
  | .call (.uploadFile name content) => cases hs; exact fair_uploadFile hrule
  | .call (.updateTestcasePath id path) => cases hs; exact fair_updateTestcasePath hrule
  | .call (.removeFile name) => cases hs; exact fair_removeFile hrule
  | .call (.deleteProblem id) =>
    simp only [serveStore] at hs
    split at hs <;> cases hs
    exact fair_deleteProblem hrule htarget
  | .json reply =>
    cases hs
    exact fair_same rfl fun id h _ => ⟨h.checked, h.hash, h.object, h.stored, h.linked, h.kept⟩

/-- What an operation can do to the stores. -/
inductive Wrote (w : Store) : Store → Prop where
  | nothing : Wrote w w
  | added (id : Nat) (problem : Problem) (hnew : w.nextID ≤ id) : Wrote w (w.addRow id problem)
  | carried (c : Call) : Wrote w { w with toWorld := carryOut w.toWorld c }

theorem wrote_carry (a : Answer) (c : Call) : Wrote w (w.carry a c) := by
  obtain ⟨_, heq⟩ | ⟨_, heq⟩ := carry_eq (w := w) a c
  · rw [heq]
    exact .nothing
  · rw [heq]
    exact .carried c

theorem wrote_serveStore {o : StoreOp} {r : o.Reply} (hs : serveStore w fate o = some (w', r)) :
    Wrote w w' := by
  match o with
  | .call .createTemp => cases hs; exact .nothing
  | .call .copy => cases hs; exact .nothing
  | .call .seek => cases hs; exact .nothing
  | .getProblem id => cases hs; exact .nothing
  | .json reply => cases hs; exact .nothing
  | .call (.createProblem problem) =>
    simp only [serveStore] at hs
    split at hs <;> cases hs
    · exact .added _ problem (Nat.le_add_right _ _)
    · exact .nothing
    · exact .added _ problem (Nat.le_add_right _ _)
  | .call (.uploadFile name content) => cases hs; exact wrote_carry _ _
  | .call (.updateTestcasePath id path) => cases hs; exact wrote_carry _ _
  | .call (.removeFile name) => cases hs; exact wrote_carry _ _
  | .call (.deleteProblem id) =>
    simp only [serveStore] at hs
    split at hs <;> cases hs
    exact wrote_carry _ _

theorem Wrote.deletions (h : Wrote w w') : w'.deletions = w.deletions := by
  cases h <;> rfl

theorem Wrote.nextID_le (h : Wrote w w') : w.nextID ≤ w'.nextID := by
  cases h with
  | nothing => exact Nat.le_refl _
  | added id problem hnew => exact Nat.le_succ_of_le hnew
  | carried c => exact Nat.le_refl _

/-- No row comes back, and none is ahead of the sequence. -/
theorem Wrote.rows_none (h : Wrote w w') {id : Nat} (hid : id < w.nextID ∨ w'.nextID ≤ id)
    (hnone : w.rows id = none) :
    w'.rows id = none := by
  cases h with
  | nothing => exact hnone
  | added id' problem hnew =>
    have hne : id ≠ id' := by
      obtain hlt | hle := hid
      · exact Nat.ne_of_lt (Nat.lt_of_lt_of_le hlt hnew)
      · exact Nat.ne_of_gt (Nat.lt_of_succ_le hle)
    exact (Function.update_of_ne hne _ _).trans hnone
  | carried c =>
    cases c with
    | updateTestcasePath id' path =>
      show Function.update w.rows id' _ id = none
      by_cases hne : id = id'
      · subst hne
        rw [Function.update_self, hnone]
        rfl
      · rw [Function.update_of_ne hne, hnone]
    | deleteProblem id' =>
      show Function.update w.rows id' none id = none
      by_cases hne : id = id'
      · subst hne
        exact Function.update_self _ _ _
      · rw [Function.update_of_ne hne, hnone]
    | _ => exact hnone

/-- An archive is stored by the one who has been given the id. -/
theorem objects_serveStore {o : StoreOp} {r : o.Reply} (hrule : StoreRule env g o)
    (hs : serveStore w fate o = some (w', r)) {id : Nat} {content : Bytes}
    (h : w'.objects (objectName id) = some content) :
    w.objects (objectName id) = some content ∨ g.id = some id := by
  match o with
  | .call .createTemp => cases hs; exact .inl h
  | .call .copy => cases hs; exact .inl h
  | .call .seek => cases hs; exact .inl h
  | .getProblem _ => cases hs; exact .inl h
  | .json _ => cases hs; exact .inl h
  | .call (.createProblem _) =>
    simp only [serveStore] at hs
    split at hs <;> cases hs <;> exact .inl h
  | .call (.uploadFile name content') =>
    cases hs
    obtain ⟨own, hown, rfl, _⟩ := hrule
    obtain ⟨_, heq⟩ | ⟨_, heq⟩ := carry_eq (w := w) fate.answer (.uploadFile (objectName own) content')
    · rw [heq] at h
      exact .inl h
    · rw [heq] at h
      by_cases hne : id = own
      · exact .inr (hne ▸ hown)
      · exact .inl ((Function.update_of_ne (fun hn => hne (objectName_inj hn)) _ _).symm.trans h)
  | .call (.updateTestcasePath own path) =>
    cases hs
    obtain ⟨_, heq⟩ | ⟨_, heq⟩ := carry_eq (w := w) fate.answer (.updateTestcasePath own path)
    · rw [heq] at h
      exact .inl h
    · rw [heq] at h
      exact .inl h
  | .call (.removeFile name) =>
    cases hs
    obtain ⟨_, heq⟩ | ⟨_, heq⟩ := carry_eq (w := w) fate.answer (.removeFile name)
    · rw [heq] at h
      exact .inl h
    · rw [heq] at h
      by_cases hname : objectName id = name
      · have hnone : Function.update w.objects name none (objectName id) = none :=
          hname ▸ Function.update_self _ _ _
        exact absurd (hnone.symm.trans h) nofun
      · exact .inl ((Function.update_of_ne hname _ _).symm.trans h)
  | .call (.deleteProblem own) =>
    simp only [serveStore] at hs
    split at hs <;> cases hs
    obtain ⟨_, heq⟩ | ⟨_, heq⟩ := carry_eq (w := w) fate.answer (.deleteProblem own)
    · rw [heq] at h
      exact .inl h
    · rw [heq] at h
      exact .inl h

/-- What an operation leaves of the request it belongs to. -/
theorem next_kept {o : StoreOp} (hrule : StoreRule env g o) (r : o.Reply) :
    (g.next o r).content = g.content ∧ (g.next o r).target = g.target ∧
      ∀ id, g.id = some id → (g.next o r).id = some id := by
  match o with
  | .call (.createProblem _) =>
    have hnone : g.id = none := hrule.2.1
    exact ⟨rfl, rfl, fun id h => absurd (hnone.symm.trans h) nofun⟩
  | .call .createTemp | .call .copy | .call .seek | .call (.uploadFile ..) | .call (.updateTestcasePath ..)
  | .call (.removeFile _) | .call (.deleteProblem _) | .getProblem _ | .json _ => exact ⟨rfl, rfl, fun _ h => h⟩

/-- A response stays right. -/
theorem answered_next (hopen : g.answered = none) {o : StoreOp} (hrule : StoreRule env g o) (r : o.Reply)
    {reply : StoreReply} (h : (g.next o r).answered = some reply) :
    StoreRule env (g.next o r) (.json reply) := by
  match o with
  | .json reply' =>
    obtain rfl : reply' = reply := Option.some.inj h
    match reply' with
    | .create (.created id path) => exact hrule
    | .create (.error ..) => trivial
    | .deleted => exact hrule
  | .call (.createProblem _) | .call .createTemp | .call .copy | .call .seek | .call (.uploadFile ..)
  | .call (.updateTestcasePath ..) | .call (.removeFile _) | .call (.deleteProblem _) | .getProblem _ =>
    exact absurd (hopen.symm.trans h) nofun

/-- The problem that a delete request has named is gone, and its id is not given out again. -/
def Erased (w : Store) (g : Handling) : Prop :=
  g.id = none → g.deleted = true → ∃ id : Nat, g.target = some (id : Int) ∧ id < w.nextID ∧ w.rows id = none

theorem Erased.wrote (h : Wrote w w') (hg : Erased w g) : Erased w' g := by
  intro hnone hdeleted
  obtain ⟨id, htarget, hlt, hrow⟩ := hg hnone hdeleted
  exact ⟨id, htarget, Nat.lt_of_lt_of_le hlt h.nextID_le, h.rows_none (.inl hlt) hrow⟩

theorem erased_serveStore {o : StoreOp} {r : o.Reply} (hfresh : Fresh w) (hg : Erased w g)
    (hrule : StoreRule env g o)
    (hs : serveStore w fate o = some (w', r)) : Erased w' (g.next o r) := by
  have hsame : Erased w' g := hg.wrote (wrote_serveStore hs)
  match o with
  | .call (.createProblem _) => exact fun _ => hsame hrule.2.1
  | .call (.deleteProblem id) =>
    intro hnone hdeleted
    simp only [serveStore] at hs
    split at hs <;> cases hs
    rename_i hpresent
    have hok : fate.answer.outcome = .ok := of_decide_eq_true hdeleted
    have hrow : w.rows id ≠ none := fun h => hpresent ⟨hok, h⟩
    obtain hid | ⟨_, htarget⟩ := hrule
    · exact absurd ((show g.id = none from hnone).symm.trans hid) nofun
    refine ⟨id, htarget, ?_, ?_⟩
    · show id < (w.carry fate.answer (.deleteProblem id)).nextID
      refine Nat.lt_of_lt_of_le ?_ (wrote_carry _ _).nextID_le
      exact Nat.lt_of_not_le fun hle => hrow (hfresh id hle).1
    · unfold Store.carry
      rw [if_neg (by rw [hok]; exact nofun)]
      exact Function.update_self _ _ _
  | .call .createTemp | .call .copy | .call .seek | .call (.uploadFile ..) | .call (.updateTestcasePath ..)
  | .call (.removeFile _) | .getProblem _ | .json _ => exact hsame

end Operation

/-! ## Runs -/

abbrev StoreState := RecordedConfig Store StoreOp StoreOp.Reply Handling

/-- Nothing has been created. -/
def noProblems : StoreState := ⟨⟨⟨fun _ => none, fun _ => none, false⟩, 1, []⟩, []⟩

/-- What the requests lead to from the state `s₀`. -/
abbrev StoreRun (env : Env) (s₀ s : StoreState) : Prop :=
  Run ((storeMachine env).record storeRecorder) always s₀ s

structure StoreInv (env : Env) (s : StoreState) : Prop where
  heed : Machine.AllHeed storeRecorder (storeRules env) s
  owned : (storeOwnership env).Holds s.world (s.threads.map Prod.fst)
  fresh : Fresh s.world
  objects : ∀ id content, s.world.objects (objectName id) = some content → ∃ t ∈ s.threads, t.1.id = some id
  targets : ∀ t ∈ s.threads, ∀ id, t.1.target = some id → id ∈ s.world.deletions
  erased : ∀ t ∈ s.threads, Erased s.world t.1
  answered : ∀ t ∈ s.threads, ∀ r, t.1.answered = some r → StoreRule env t.1 (.json r)

section Reached

variable {env : Env} {s₀ s s' : StoreState} {m : Move StoreFate StoreEvent}

theorem serve_of_sem {w w' : Store} {o : StoreOp} {fate : StoreFate} {r : o.Reply}
    (h : (storeMachine env).sem w o fate = some (w', r)) : serveStore w fate o = some (w', r) := h

/-- A request that comes in. -/
theorem env_store {w w' : Store} {v : StoreEvent} {ps : List (StoreProgram Unit)}
    (h : (storeMachine env).env w v = some (w', ps)) :
    w'.toWorld = w.toWorld ∧ w'.nextID = w.nextID ∧ w.deletions ⊆ w'.deletions ∧
      (storeRecorder.start v).id = none ∧ (storeRecorder.start v).deleted = false ∧
      ∀ id, (storeRecorder.start v).target = some id → id ∈ w'.deletions := by
  cases v with
  | create form =>
    cases h
    exact ⟨rfl, rfl, List.Subset.refl _, rfl, rfl, nofun⟩
  | delete id =>
    cases h
    exact ⟨rfl, rfl, List.subset_cons_self _ _, rfl, rfl, fun id' h => Option.some.inj h ▸ List.mem_cons_self⟩

/-- A request keeps what it is about. -/
theorem thread_step (hs : StoreInv env s) (hstep : (storeMachine env).record storeRecorder s m = some s')
    {t : Handling × StoreProgram Unit} (ht : t ∈ s.threads) :
    ∃ t' ∈ s'.threads, t'.1.content = t.1.content ∧ t'.1.target = t.1.target ∧
      (∀ id, t.1.id = some id → t'.1.id = some id) ∧ ∀ r, t.1.answered = some r → t'.1 = t.1 := by
  obtain ht' | ⟨i, c, g, o, k, r, rfl, hi, rfl, hsem, ht'⟩ | ⟨i, rfl, hi, ht'⟩ :=
      Machine.record_forward hstep ht
  · exact ⟨t, ht', rfl, rfl, fun _ h => h, fun _ _ => rfl⟩
  · obtain ⟨hopen, hrule⟩ := hs.heed.allowed hi
    obtain ⟨hcontent, htarget, hid⟩ := next_kept hrule r
    exact ⟨_, ht', hcontent, htarget, hid, fun _ h => absurd (hopen.symm.trans h) nofun⟩
  · exact ⟨_, ht', rfl, rfl, fun _ h => h, fun _ _ => rfl⟩

theorem StoreInv.fair (hs : StoreInv env s) {i : Nat} {g : Handling} {o : StoreOp}
    {k : o.Reply → StoreProgram Unit}
    (hi : s.threads[i]? = some (g, .call o k)) {fate : StoreFate} {w : Store} {r : o.Reply}
    (hsem : (storeMachine env).sem s.world o fate = some (w, r)) :
    (storeOwnership env).Fair s.world w g (storeRecorder.next g o r) :=
  fair_serveStore hs.fresh (hs.targets _ (List.mem_of_getElem? hi)) (hs.heed.allowed hi).2 (serve_of_sem hsem)

theorem StoreInv.fresh_step (hs : StoreInv env s)
    (hstep : (storeMachine env).record storeRecorder s m = some s') :
    Fresh s'.world := by
  obtain ⟨i, fate, g, o, k, w, r, rfl, hi, hsem, rfl⟩ | ⟨i, rfl, rfl⟩ | ⟨v, w, ps, rfl, hv, rfl⟩ :=
    Machine.record_cases hstep
  · intro id hid
    have hwrote := wrote_serveStore (serve_of_sem hsem)
    obtain ⟨hrow, hobject⟩ := hs.fresh id (Nat.le_trans hwrote.nextID_le hid)
    refine ⟨hwrote.rows_none (.inr hid) hrow, Option.eq_none_iff_forall_ne_some.mpr fun content h => ?_⟩
    obtain hold | hown := objects_serveStore (hs.heed.allowed hi).2 (serve_of_sem hsem) h
    · exact absurd (hobject.symm.trans hold) nofun
    · have hused : id < s.world.nextID :=
        hs.owned.used g (List.mem_map_of_mem (List.mem_of_getElem? hi)) id hown
      exact absurd (Nat.le_trans hwrote.nextID_le hid) (Nat.not_le.mpr hused)
  · exact hs.fresh
  · obtain ⟨hworld, hnext, _⟩ := env_store hv
    intro id hid
    show w.toWorld.rows id = none ∧ w.toWorld.objects _ = none
    rw [hworld]
    exact hs.fresh id (hnext ▸ hid)

theorem StoreInv.objects_step (hs : StoreInv env s)
    (hstep : (storeMachine env).record storeRecorder s m = some s')
    {id : Nat} {content : Bytes} (h : s'.world.objects (objectName id) = some content) :
    ∃ t ∈ s'.threads, t.1.id = some id := by
  have hold : s.world.objects (objectName id) = some content → ∃ t ∈ s'.threads, t.1.id = some id := by
    intro h
    obtain ⟨t, ht, hid⟩ := hs.objects id content h
    obtain ⟨t', ht', _, _, hkept, _⟩ := thread_step hs hstep ht
    exact ⟨t', ht', hkept id hid⟩
  obtain ⟨i, fate, g, o, k, w, r, rfl, hi, hsem, rfl⟩ | ⟨i, rfl, rfl⟩ | ⟨v, w, ps, rfl, hv, rfl⟩ :=
    Machine.record_cases hstep
  · obtain h | hown := objects_serveStore (hs.heed.allowed hi).2 (serve_of_sem hsem) h
    · exact hold h
    · obtain ⟨t', ht', _, _, hkept, _⟩ := thread_step hs hstep (List.mem_of_getElem? hi)
      exact ⟨t', ht', hkept id hown⟩
  · exact hold h
  · have hworld := (env_store hv).1
    refine hold ?_
    rw [← h]
    show s.world.toWorld.objects _ = w.toWorld.objects _
    rw [hworld]

theorem StoreInv.step (hs : StoreInv env s) (hstep : (storeMachine env).record storeRecorder s m = some s') :
    StoreInv env s' where
  heed := by
    refine (store_disciplined env).record hs.heed ?_ (fun _ _ _ _ => trivial) hstep
    intro i fate g o k w r _ _ hsem
    cases o with
    | getProblem id =>
      cases hsem
      show Option.isSome (if _ then _ else _) = true → 0 ≤ id
      split
      · rename_i hfound
        exact fun _ => hfound.2
      · exact nofun
    | _ => trivial
  owned := by
    refine hs.owned.record (fun _ => rfl) (fun i fate g o k w r hi hsem => hs.fair hi hsem)
      (fun v w ps hv => ?_) hstep
    obtain ⟨hworld, hnext, hsub, hid, _⟩ := env_store hv
    refine ⟨fun id h => ?_, fun id _ => ?_, hid⟩
    · show id < w.nextID
      rw [hnext]
      exact h
    · refine .of_eq ?_ ?_ fun h => hsub h
      · exact congrArg (·.rows id) hworld
      · exact congrArg (·.objects (objectName id)) hworld
  fresh := hs.fresh_step hstep
  objects _ _ := hs.objects_step hstep
  targets := by
    intro t ht id htarget
    have hdeletions : s.world.deletions ⊆ s'.world.deletions := by
      obtain ⟨i, fate, g, o, k, w, r, rfl, hi, hsem, rfl⟩ | ⟨i, rfl, rfl⟩ | ⟨v, w, ps, rfl, hv, rfl⟩ :=
        Machine.record_cases hstep
      · rw [(wrote_serveStore (serve_of_sem hsem)).deletions]
        exact List.Subset.refl _
      · exact List.Subset.refl _
      · exact (env_store hv).2.2.1
    obtain ht | ⟨i, fate, g, o, k, r, rfl, hi, hsem, rfl⟩ | ⟨i, t₀, ht₀, rfl, rfl⟩ |
      ⟨i, fate, g, o, k, r, rfl, hi, hsem, hg, hp⟩ | ⟨v, ps, rfl, hv, hg, hp⟩ := Machine.mem_record hstep ht
    · exact hdeletions (hs.targets t ht id htarget)
    · rw [show (storeRecorder.next g o r).target = g.target from
        (next_kept (hs.heed.allowed hi).2 r).2.1] at htarget
      exact hdeletions (hs.targets _ (List.mem_of_getElem? hi) id htarget)
    · exact hdeletions (hs.targets t₀ ht₀ id htarget)
    · cases hp
    · rw [hg] at htarget
      exact (env_store hv).2.2.2.2.2 id htarget
  erased := by
    intro t ht
    have hwrote : ∀ g, Erased s.world g → Erased s'.world g := by
      obtain ⟨i, fate, g, o, k, w, r, rfl, hi, hsem, rfl⟩ | ⟨i, rfl, rfl⟩ | ⟨v, w, ps, rfl, hv, rfl⟩ :=
        Machine.record_cases hstep
      · exact fun _ h => h.wrote (wrote_serveStore (serve_of_sem hsem))
      · exact fun _ h => h
      · obtain ⟨hworld, hnext, _⟩ := env_store hv
        intro g h hnone hdeleted
        obtain ⟨id, htarget, hlt, hrow⟩ := h hnone hdeleted
        exact ⟨id, htarget, Nat.lt_of_lt_of_eq hlt hnext.symm, (congrArg (·.rows id) hworld).trans hrow⟩
    obtain ht | ⟨i, fate, g, o, k, r, rfl, hi, hsem, rfl⟩ | ⟨i, t₀, ht₀, rfl, rfl⟩ |
      ⟨i, fate, g, o, k, r, rfl, hi, hsem, hg, hp⟩ | ⟨v, ps, rfl, hv, hg, hp⟩ := Machine.mem_record hstep ht
    · exact hwrote _ (hs.erased t ht)
    · exact erased_serveStore hs.fresh (hs.erased _ (List.mem_of_getElem? hi))
        (hs.heed.allowed hi).2 (serve_of_sem hsem)
    · exact hwrote _ (hs.erased t₀ ht₀)
    · cases hp
    · rw [hg]
      intro _ hdeleted
      rw [(env_store hv).2.2.2.2.1] at hdeleted
      cases hdeleted
  answered := by
    intro t ht reply hr
    obtain ht | ⟨i, fate, g, o, k, r, rfl, hi, hsem, rfl⟩ | ⟨i, t₀, ht₀, rfl, rfl⟩ |
      ⟨i, fate, g, o, k, r, rfl, hi, hsem, hg, hp⟩ | ⟨v, ps, rfl, hv, hg, hp⟩ := Machine.mem_record hstep ht
    · exact hs.answered t ht reply hr
    · obtain ⟨hopen, hrule⟩ := hs.heed.allowed hi
      exact answered_next hopen hrule r hr
    · exact hs.answered t₀ ht₀ reply hr
    · cases hp
    · rw [hg] at hr
      cases v <;> cases hr

theorem storeInv_of_run (h : StoreRun env noProblems s) : StoreInv env s := by
  refine h.invariant ?_ fun s s' m hs _ hstep => hs.step hstep
  exact ⟨fun _ ht => absurd ht List.not_mem_nil, Ownership.holds_nil, fun _ _ => ⟨rfl, rfl⟩, nofun,
    fun _ ht => absurd ht List.not_mem_nil, fun _ ht => absurd ht List.not_mem_nil,
    fun _ ht => absurd ht List.not_mem_nil⟩

/-- A request is still the same one later in the run. -/
theorem thread_run (h₀ : StoreRun env noProblems s₀) (h : StoreRun env s₀ s) {t : Handling × StoreProgram Unit}
    (ht : t ∈ s₀.threads) :
    ∃ t' ∈ s.threads, t'.1.content = t.1.content ∧ t'.1.target = t.1.target ∧
      (∀ id, t.1.id = some id → t'.1.id = some id) ∧ ∀ r, t.1.answered = some r → t'.1 = t.1 := by
  induction h with
  | init => exact ⟨t, ht, rfl, rfl, fun _ h => h, fun _ _ => rfl⟩
  | step m hrun _ hstep ih =>
    obtain ⟨t₁, ht₁, hcontent₁, htarget₁, hid₁, hsame₁⟩ := ih
    obtain ⟨t₂, ht₂, hcontent₂, htarget₂, hid₂, hsame₂⟩ :=
        thread_step (storeInv_of_run (h₀.trans hrun)) hstep ht₁
    refine ⟨t₂, ht₂, hcontent₂.trans hcontent₁, htarget₂.trans htarget₁,
      fun id h => hid₂ id (hid₁ id h), fun r hr => ?_⟩
    have heq := hsame₁ r hr
    exact (hsame₂ r (heq ▸ hr)).trans heq

end Reached

/-- Whatever is created and deleted at the same time, and whichever calls fail: a problem whose
creation has been answered with success keeps its archive, which is valid, and its row, which has
the path and the hash of the archive, unless a delete request has named it; a problem whose deletion
has been answered with success does not come back; and an archive never changes. -/
theorem created_problems_stay (env : Env) {s₀ s : StoreState} (h₀ : StoreRun env noProblems s₀)
    (h : StoreRun env s₀ s) :
    (∀ t ∈ s₀.threads, ∀ id path, t.1.answered = some (.create (.created id path)) →
      ∃ content, t.1.content = some content ∧ validateZipContent (env.newReader content) = true ∧
        path = objectName id ∧ s.world.objects path = some content ∧
        (∀ row, s.world.rows id = some row → row.testcaseMinioPath = path ∧
          row.testcaseHash = env.sha256 content) ∧
        (s.world.rows id = none → (id : Int) ∈ s.world.deletions)) ∧
    (∀ t ∈ s₀.threads, t.1.answered = some .deleted →
      ∃ id : Nat, t.1.target = some (id : Int) ∧ s.world.rows id = none) ∧
    ∀ id content content', s₀.world.objects (objectName id) = some content →
      s.world.objects (objectName id) = some content' → content' = content := by
  have hinv₀ := storeInv_of_run h₀
  have hinv := storeInv_of_run (h₀.trans h)
  have hknows : ∀ t ∈ s.threads, ∀ id, t.1.id = some id → Knows env id t.1 (s.world.holding id) :=
    fun t ht id hid => hinv.owned.knows t.1 (List.mem_map_of_mem ht) id hid
  refine ⟨fun t ht id path hanswered => ?_, fun t ht hanswered => ?_,
    fun id content content' hobject hobject' => ?_⟩
  · obtain ⟨t', ht', _, _, _, hsame⟩ := thread_run h₀ h ht
    have heq := hsame _ hanswered
    obtain ⟨hid, rfl, hstored, hlinked, hkept⟩ := hinv₀.answered t ht _ hanswered
    have hk := hknows t' ht' id (heq ▸ hid)
    rw [heq] at hk
    obtain ⟨content, hcontent, hvalid⟩ := hk.checked
    refine ⟨content, hcontent, hvalid, rfl, ?_, fun row hrow => ⟨hk.linked hlinked row hrow, ?_⟩, hk.kept hkept⟩
    · exact (hk.stored hstored hkept).trans hcontent
    · exact hk.hash row content hrow hcontent
  · obtain ⟨t', ht', _, _, _, hsame⟩ := thread_run h₀ h ht
    have heq := hsame _ hanswered
    obtain ⟨hnone, hdeleted⟩ := hinv₀.answered t ht _ hanswered
    have herased := hinv.erased t' ht'
    rw [heq] at herased
    obtain ⟨id, htarget, _, hrow⟩ := herased hnone hdeleted
    exact ⟨id, htarget, hrow⟩
  · -- both are the archive of the one request that has been given the id
    obtain ⟨t, ht, hid⟩ := hinv₀.objects id content hobject
    obtain ⟨t', ht', hsame, _, hkept, _⟩ := thread_run h₀ h ht
    have hold := (hinv₀.owned.knows t.1 (List.mem_map_of_mem ht) id hid).object content hobject
    have hnew := (hknows t' ht' id (hkept id hid)).object content' hobject'
    rw [hsame, hold] at hnew
    exact (Option.some.inj hnew).symm

/-- An operation that is carried out. -/
def done (i : Nat) : Move StoreFate StoreEvent := .call i ⟨⟨.ok, false⟩, 0⟩

/-- A problem is created, and then deleted. -/
def createSum : List (Move StoreFate StoreEvent) :=
  [.env (.create (.ok sumForm)), done 0, done 0, done 0, done 0, done 0, done 0, done 0]

def deleteSum : List (Move StoreFate StoreEvent) := [.env (.delete 1), done 1, done 1, done 1]

def afterCreate : StoreState := playAll ((storeMachine sumEnv).record storeRecorder) always noProblems createSum

def afterDelete : StoreState := playAll ((storeMachine sumEnv).record storeRecorder)
    always afterCreate deleteSum

/-- The archive outlives the row. -/
theorem created_problems_stay_sum :
    afterDelete.world.rows 1 = none ∧ afterDelete.world.objects (objectName 1) = some sumArchive.content ∧
      (1 : Int) ∈ afterDelete.world.deletions := by
  have h₀ : StoreRun sumEnv noProblems afterCreate := Run.init.playAll createSum
  have h : StoreRun sumEnv afterCreate afterDelete := Run.init.playAll deleteSum
  obtain ⟨hcreated, _, _⟩ := created_problems_stay sumEnv h₀ h
  obtain ⟨t, ht, hanswered, hcontent⟩ : ∃ t ∈ afterCreate.threads,
      t.1.answered = some (.create (.created 1 (objectName 1))) ∧ t.1.content = some sumArchive.content := by
    refine ⟨_, List.mem_cons_self, ?_, ?_⟩
    · decide +kernel
    · decide +kernel
  obtain ⟨content, hc, _, _, hobject, _, hrow⟩ := hcreated t ht 1 _ hanswered
  have hnone : afterDelete.world.rows 1 = none := by decide +kernel
  rw [← hc, hcontent] at hobject
  exact ⟨hnone, hobject, hrow hnone⟩

end DeepOj.Api.ProblemStore
