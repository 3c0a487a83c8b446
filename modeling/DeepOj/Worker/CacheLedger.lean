import DeepOj.Worker.ExtractionStages

/-!
# What a goroutine owes the record of the cache

Whoever changes the cached files of a problem has to tell `touchCache` before it
returns, and whoever takes entries off the record has to delete their files before
it gives up the lock. A ledger keeps both: what is owed, and what is still to be
deleted.
-/

namespace DeepOj.Worker.TestCases

open Conc Go

/-- What `removeEntry` has to do. -/
inductive Deletion where
  | remove (problemID : Nat) (f : CaseFile)
  /-- To read `workDir`, and then to unlink what was found. -/
  | dir (problemID : Nat)
  | path (problemID : Nat) (q : Path)
  deriving DecidableEq

def Deletion.problemID : Deletion → Nat
  | .remove pid _ => pid
  | .dir pid => pid
  | .path pid _ => pid

/-- `removeEntry`, as a list. -/
def deletions (e : CacheEntry) : List Deletion :=
  (if e.zipPath then [.remove e.problemID .zip, .remove e.problemID .zipETag] else []) ++
    if e.workDir then
      [.dir e.problemID, .remove e.problemID .ready, .remove e.problemID .readyETag]
    else []

/-- The ledger of a goroutine. -/
structure Ledger where
  self : Self
  problemID : Nat
  /-- It has changed or found the zip, and not told `touchCache`. -/
  zip : Bool := false
  /-- It has changed `workDir`, and not told `touchCache`. -/
  work : Bool := false
  /-- What it has yet to delete, if it holds the lock of the record. -/
  plan : Option (List Deletion) := none
  /-- It has put a zip in its place, or found one with the right ETag. -/
  zipSeen : Bool := false
  /-- It has put a directory in its place, or told `touchCache` of one. -/
  workSeen : Bool := false
  /-- `Prepare` has returned. -/
  returned : Bool := false
  deriving DecidableEq

namespace Ledger

/-- The first deletion is done. -/
def struck (g : Ledger) : Ledger := { g with plan := g.plan.map List.tail }

theorem struck_of_none (g : Ledger) (h : g.plan = none) : g.struck = g := by
  unfold struck
  rw [h, Option.map_none, ← h]

/-- A zip is there that has to be recorded. -/
def seesZip (g : Ledger) : Ledger := { g with zip := true, zipSeen := true }

/-- What an operation on a file does to the ledger. A marker that cannot be written ends the
extraction, and so does a rename that fails. -/
def nextFile (g : Ledger) : (o : FileOp) → o.Reply → Ledger
  | .etagMatch _, ok => if ok then g.seesZip else g
  | .renameZip, ok => if ok then g.seesZip else g
  | .rename, ok => if ok then { g with workSeen := true } else { g with work := false }
  | .create .zipETag, _ => g
  | .create _, ok => if ok then g else { g with work := false }
  | .write .zipETag _, _ => g
  | .write _ _, ok => if ok then g else { g with work := false }
  | .readDir .work, paths =>
    match g.plan with
    | none => { g with work := true }
    | some (.dir pid :: rest) => { g with plan := some (paths.map (.path pid) ++ rest) }
    | some _ => g
  | .unlink .work _, _ => g.struck
  | .remove _, _ => g.struck
  | _, _ => g

/-- What an operation does to the ledger. -/
def next (g : Ledger) : (o : Op) → o.Reply → Ledger
  | .file _ o, r => g.nextFile o r
  | .touch _ _ zipPath workDir, evicted =>
    { g with zip := g.zip && !zipPath, work := g.work && !workDir, workSeen := g.workSeen || workDir,
             plan := some (evicted.flatMap deletions) }
  | .unlock, _ => { g with plan := none }
  | .ret .., _ => { g with returned := true }
  | _, _ => g

/-- When an operation on the files of a problem may be performed. -/
def AllowsFile (g : Ledger) (pid : Nat) : FileOp → Prop
  | .etagMatch _ => g.plan = none ∧ g.returned = false ∧ pid = g.problemID
  | .renameZip => g.plan = none ∧ g.returned = false ∧ pid = g.problemID
  | .create .zipETag => g.zip = true ∧ pid = g.problemID
  | .write .zipETag _ => g.zip = true ∧ pid = g.problemID
  | .create _ => g.work = true ∧ pid = g.problemID
  | .write _ _ => g.work = true ∧ pid = g.problemID
  | .rename => g.work = true ∧ pid = g.problemID
  | .readDir .work =>
    (∃ rest, g.plan = some (.dir pid :: rest)) ∨
      (g.plan = none ∧ g.returned = false ∧ pid = g.problemID)
  | .unlink .work q =>
    (∃ rest, g.plan = some (.path pid q :: rest)) ∨
      (g.plan = none ∧ g.work = true ∧ pid = g.problemID)
  | .remove .zipTmp => g.plan = none
  | .remove f =>
    (∃ rest, g.plan = some (.remove pid f :: rest)) ∨
      (f = .readyETag ∧ g.plan = none ∧ g.work = true ∧ pid = g.problemID)
  | _ => True

/-- When an operation may be performed. -/
def Allows (g : Ledger) : Op → Prop
  | .file pid o => g.AllowsFile pid o
  | .touch pid _ zipPath workDir =>
    g.plan = none ∧ g.returned = false ∧ pid = g.problemID ∧ (g.zip = true → zipPath = true) ∧
      (g.work = true → workDir = true)
  | .unlock => g.plan = some []
  | .ret _ _ => g.plan = none ∧ g.zip = false ∧ g.work = false
  | _ => True

end Ledger

/-- The recorder of the ledgers. -/
def ledgerRecorder : Recorder (Self × Op) (fun e => e.2.Reply) Event Ledger where
  start
    | .start self pid => { self, problemID := pid }
    | .crash proc => { self := ⟨proc, 0, 0⟩, problemID := 0 }
  fork e := { self := e.1, problemID := 0 }
  next g e r := g.next e.2 r

/-- The rules of a ledger. -/
def ledgerRules : Rules (Self × Op) (fun e => e.2.Reply) Ledger where
  allowed g e := e.1 = g.self ∧ g.Allows e.2
  promised _ _ _ := True
  ended _ := True

/-- The program keeps its ledger in order. -/
abbrev Books {α : Type} (g : Ledger) (p : FileProgram α) (Q : Ledger → α → Prop) : Prop :=
  Obeys ledgerRecorder ledgerRules g p Q

/-! ## What the programs do -/

section Programs

variable {self : Self} {pid : Nat} {g : Ledger} {α β : Type}

namespace Books

theorem pure {a : α} {Q : Ledger → α → Prop} (h : Q g a) : Books g (Pure.pure a : FileProgram α) Q :=
  Obeys.pure h

theorem bind {p : FileProgram α} {f : α → FileProgram β} {P : Ledger → α → Prop}
    {Q : Ledger → β → Prop} (hp : Books g p P) (hf : ∀ g' a, P g' a → Books g' (f a) Q) :
    Books g (p >>= f) Q := Obeys.bind hp hf

theorem mono {p : FileProgram α} {Q Q' : Ledger → α → Prop} (h : Books g p Q)
    (hQ : ∀ g a, Q g a → Q' g a) : Books g p Q' := Obeys.mono h hQ

theorem effect {o : Op} {f : o.Reply → FileProgram β} {Q : Ledger → β → Prop} (hs : self = g.self)
    (h : g.Allows o) (hf : ∀ r, Books (g.next o r) (f r) Q) : Books g (op self o >>= f) Q :=
  Obeys.effect ⟨hs, h⟩ fun r _ => hf r

theorem perform {o : Op} {Q : Ledger → o.Reply → Prop} (hs : self = g.self) (h : g.Allows o)
    (hf : ∀ r, Q (g.next o r) r) : Books g (op self o) Q :=
  Obeys.perform ⟨hs, h⟩ fun r _ => hf r

theorem ite {c : Prop} [Decidable c] {p q : FileProgram α} {Q : Ledger → α → Prop}
    (hp : c → Books g p Q) (hq : ¬ c → Books g q Q) : Books g (if c then p else q) Q := by
  by_cases h : c
  · rw [if_pos h]
    exact hp h
  · rw [if_neg h]
    exact hq h

end Books

/-- The goroutine is in `Prepare`, does not hold the lock, and owes at most this. -/
structure Owing (me : Self) (pid : Nat) (z w : Bool) (g : Ledger) : Prop where
  acts : me = g.self
  problem : pid = g.problemID
  plan : g.plan = none
  running : g.returned = false
  zip : g.zip = true → z = true
  work : g.work = true → w = true

/-- It owes nothing. -/
abbrev Clear (self : Self) (pid : Nat) : Ledger → Prop := Owing self pid false false

theorem Owing.mono {z z' w w' : Bool} (h : Owing self pid z w g) (hz : z = true → z' = true)
    (hw : w = true → w' = true) : Owing self pid z' w' g :=
  ⟨h.acts, h.problem, h.plan, h.running, fun hg => hz (h.zip hg), fun hg => hw (h.work hg)⟩

/-- An operation that is no entry in the ledger, outside of an eviction. -/
def Neutral : Op → Prop
  | .flight _ => True
  | .statObject _ => True
  | .lock _ _ => True
  | .file _ .fetch => True
  | .file _ .statReady => True
  | .file _ (.readFile _) => True
  | .file _ (.remove .zipTmp) => True
  | .file _ (.readDir .tmp) => True
  | .file _ (.unlink .tmp _) => True
  | .file _ .mkdirTmp => True
  | .file _ .openZip => True
  | .file _ (.extract _ _) => True
  | .glob _ => True
  | .runCase _ => True
  | .done _ => True
  | _ => False

theorem Neutral.allows {o : Op} (h : Neutral o) (hp : g.plan = none) : g.Allows o := by
  unfold Neutral at h
  split at h
  case h_7 => exact hp
  case h_16 => exact h.elim
  all_goals trivial

theorem Neutral.next {o : Op} (h : Neutral o) (hp : g.plan = none) (r : o.Reply) : g.next o r = g := by
  unfold Neutral at h
  split at h
  case h_7 =>
    exact g.struck_of_none hp
  case h_16 => exact h.elim
  all_goals rfl

/-- A program whose operations are no entries. -/
theorem books_neutral {P : Ledger → Prop} {p : FileProgram α} (hp : p.Uses (By self Neutral)) (hP : P g)
    (hs : self = g.self) (hplan : g.plan = none) : Books g p fun g' _ => P g' := by
  have h := heeds_of_uses (K := ledgerRecorder) (L := ledgerRules) (I := fun g' => g' = g)
    (P := By self Neutral) (fun g' e hg he => by subst hg; exact ⟨he.1.trans hs, he.2.allows hplan⟩)
    (fun g' e r hg he => by subst hg; exact he.2.next hplan r) hp rfl
  exact ⟨heeds_mono (fun g' _ hg => by subst hg; exact hP) h⟩

/-! ### Evictions -/

/-- The ledger with a plan. -/
def Ledger.with (g : Ledger) (plan : List Deletion) : Ledger := { g with plan := some plan }

/-- The paths of a directory are unlinked one after the other. -/
theorem books_unlinkAll (hs : self = g.self) (pid : Nat) (paths : List Path) (rest : List Deletion) :
    Books (g.with (paths.map (.path pid) ++ rest)) (unlinkAll self pid .work paths) fun g' _ =>
      g' = g.with rest := by
  induction paths with
  | nil => exact .pure rfl
  | cons q paths ih => exact .effect hs (.inl ⟨_, rfl⟩) fun _ => ih

/-- `removeEntry` does what is planned for its entry. -/
theorem books_removeEntry (hs : self = g.self) (e : CacheEntry) (rest : List Deletion) :
    Books (g.with (deletions e ++ rest)) (removeEntry self e) fun g' _ => g' = g.with rest := by
  have hwork : Books (g.with ((if e.workDir then [.dir e.problemID, .remove e.problemID .ready,
      .remove e.problemID .readyETag] else []) ++ rest)) (removeWork self e) fun g' _ => g' = g.with rest := by
    unfold removeWork
    by_cases hw : e.workDir = true
    · rw [if_pos hw, if_pos hw]
      refine .bind (P := fun g' _ => g' = g.with (.remove e.problemID .ready ::
        .remove e.problemID .readyETag :: rest)) ?_ fun g' _ hg' => ?_
      · exact .effect hs (.inl ⟨_, rfl⟩) fun paths => books_unlinkAll hs e.problemID paths _
      · subst hg'
        refine .effect hs trivial fun _ => .effect hs (.inl ⟨_, rfl⟩) fun _ => ?_
        exact .perform hs (.inl ⟨_, rfl⟩) fun _ => rfl
    · rw [if_neg hw, if_neg hw]
      exact .pure rfl
  unfold deletions
  rw [List.append_assoc]
  refine .bind (P := fun g' _ => g' = g.with ((if e.workDir then [.dir e.problemID,
    .remove e.problemID .ready, .remove e.problemID .readyETag] else []) ++ rest)) ?_ fun g' _ hg' => ?_
  · unfold removeZip
    by_cases hz : e.zipPath = true
    · rw [if_pos hz, if_pos hz]
      refine .effect hs (.inl ⟨_, rfl⟩) fun _ => .effect hs (.inl ⟨_, rfl⟩) fun _ => ?_
      exact .perform hs trivial fun _ => rfl
    · rw [if_neg hz, if_neg hz]
      exact .pure rfl
  · subst hg'
    exact hwork

/-- `touchCache` settles what it is told, and leaves no eviction undone. -/
theorem books_touch {z w : Bool} (h : Owing self pid z w g) (etag : Bytes) :
    Books g (touch self pid etag z w) fun g' _ => Clear self pid g' := by
  refine .effect h.acts ⟨h.plan, h.running, h.problem, h.zip, h.work⟩ fun evicted => ?_
  -- the ledger during the eviction, but for its plan
  generalize hg₀ : g.next (.touch pid etag z w) evicted = g₁
  have hclear : Owing self pid false false { g₁ with plan := none } := by
    subst hg₀
    refine ⟨h.acts, h.problem, rfl, h.running, fun hz => ?_, fun hw => ?_⟩
    · simp only [Ledger.next, Bool.and_eq_true, Bool.not_eq_true'] at hz
      exact absurd (h.zip hz.1) (by simp [hz.2])
    · simp only [Ledger.next, Bool.and_eq_true, Bool.not_eq_true'] at hw
      exact absurd (h.work hw.1) (by simp [hw.2])
  have hplan : g₁ = g₁.with (evicted.flatMap deletions) := by
    subst hg₀
    rfl
  have hs : self = g₁.self := hclear.acts
  rw [hplan]
  clear hg₀ hplan
  have hremove : ∀ es : List CacheEntry, Books (g₁.with (es.flatMap deletions)) (removeEntries self es)
      fun g' _ => g' = g₁.with [] := by
    intro es
    induction es with
    | nil => exact .pure rfl
    | cons e es ih =>
      refine .bind (books_removeEntry hs e (es.flatMap deletions)) fun g' _ hg' => ?_
      subst hg'
      exact ih
  refine .bind (hremove evicted) fun g' _ hg' => ?_
  subst hg'
  exact .perform hs rfl fun _ => hclear

/-! ### Downloads and extractions -/

/-- A program that leaves the ledger clear. -/
structure Even (me : Self) (pid : Nat) (p : FileProgram α) : Prop where
  books : ∀ g, Clear me pid g → Books g p fun g' _ => Clear me pid g'

namespace Even

theorem ret {a : α} : Even self pid (Pure.pure a : FileProgram α) := ⟨fun _ hg => .pure hg⟩

theorem bind {p : FileProgram α} {f : α → FileProgram β} (hp : Even self pid p)
    (hf : ∀ a, Even self pid (f a)) : Even self pid (p >>= f) :=
  ⟨fun g hg => .bind (hp.books g hg) fun g' a hg' => (hf a).books g' hg'⟩

theorem neutral {p : FileProgram α} (hp : p.Uses (By self Neutral)) : Even self pid p :=
  ⟨fun _ hg => books_neutral hp hg hg.acts hg.plan⟩

theorem andThen {o : Op} {f : o.Reply → FileProgram β} (h : Neutral o) (hf : ∀ r, Even self pid (f r)) :
    Even self pid (op self o >>= f) := bind (neutral (by_op h)) hf

theorem ite {c : Prop} [Decidable c] {p q : FileProgram α} (hp : Even self pid p) (hq : Even self pid q) :
    Even self pid (if c then p else q) := by
  by_cases h : c
  · rw [if_pos h]
    exact hp
  · rw [if_neg h]
    exact hq

theorem touch (etag : Bytes) (z w : Bool) : Even self pid (TestCases.touch self pid etag z w) :=
  ⟨fun _ hg => books_touch (hg.mono nofun nofun) etag⟩

end Even

theorem Owing.seesZip (h : Clear self pid g) : Owing self pid true false g.seesZip :=
  ⟨h.acts, h.problem, h.plan, h.running, fun _ => rfl, h.work⟩

/-- A zip that is found is recorded. -/
theorem even_etagMatch (remoteETag : Bytes) {p : FileProgram Bool} (hp : Even self pid p) :
    Even self pid (do
      if ← file self pid (.etagMatch remoteETag) then
        touch self pid remoteETag true false
        pure true
      else p) := by
  refine ⟨fun g hg => .effect hg.acts ⟨hg.plan, hg.running, hg.problem⟩ fun found => ?_⟩
  cases found with
  | false => exact hp.books g hg
  | true => exact .bind (books_touch hg.seesZip remoteETag) fun _ _ hg' => .pure hg'

/-- The zip is put in its place and recorded. -/
theorem even_placeZip (remoteETag : Bytes) : Even self pid (placeZip self pid remoteETag) := by
  refine ⟨fun g hg => .effect hg.acts ⟨hg.plan, hg.running, hg.problem⟩ fun renamed => ?_⟩
  cases renamed with
  | false => exact (Even.andThen (o := .file pid (.remove .zipTmp)) trivial fun _ => .ret).books g hg
  | true =>
    have howing := hg.seesZip
    have hetag : Books g.seesZip (writeFile self pid .zipETag remoteETag)
        fun g' _ => Owing self pid true false g' := by
      refine .effect howing.acts ⟨rfl, howing.problem⟩ fun made => .ite (fun _ => ?_) fun _ => .pure howing
      exact .perform howing.acts ⟨rfl, howing.problem⟩ fun _ => howing
    refine .bind hetag fun g' _ hg' => .bind (books_touch hg' remoteETag) fun g'' _ hg'' => .pure hg''

theorem even_download : Even self pid (download self pid) := by
  refine .andThen trivial fun joined => ?_
  cases joined with
  | some ok => exact .ret
  | none =>
    refine .andThen trivial fun etag => ?_
    cases etag with
    | none => exact .ret
    | some remoteETag =>
      refine even_etagMatch remoteETag (.andThen trivial fun _ => .ite ?_ .ret)
      refine .bind (.andThen trivial fun _ => .ite ?_ .ret) fun _ => .andThen trivial fun _ => .ret
      refine even_etagMatch remoteETag (.andThen trivial fun _ => ?_)
      exact .andThen trivial fun _ => .ite (even_placeZip remoteETag) (.andThen trivial fun _ => .ret)

theorem even_readyMatchesETag (expectedETag : Bytes) :
    Even self pid (readyMatchesETag self pid expectedETag) := by
  refine .andThen trivial fun _ => .ite (.ite .ret (.andThen trivial fun content => ?_)) .ret
  cases content <;> exact .ret

theorem even_removeTmp : Even self pid (removeAll self pid .tmp) := by
  refine .neutral (by_then trivial fun paths => ?_)
  induction paths with
  | nil => exact by_ret
  | cons q rest ih => exact by_then trivial fun _ => ih

theorem even_unzip : Even self pid (unzip self pid) := by
  refine .neutral (by_then trivial fun archive => ?_)
  cases archive with
  | error err => exact by_ret
  | ok entries =>
    refine by_then trivial fun made => by_ite ?_ by_ret
    generalize ({} : Counts) = counts
    induction entries generalizing counts with
    | nil => exact by_ret
    | cons f fs ih =>
      refine by_then trivial fun reply => ?_
      cases reply with
      | none => exact by_ret
      | some counts' => exact ih counts'

/-- A marker is written, or the extraction is given up. -/
theorem books_writeMarker {f : CaseFile} (hf : f = .ready ∨ f = .readyETag) (content : Bytes)
    (h : Owing self pid false true g) (hw : g.work = true) :
    Books g (writeFile self pid f content) fun g' ok =>
      if ok then Owing self pid false true g' ∧ g'.work = true else Clear self pid g' := by
  have hstop : Clear self pid { g with work := false } :=
    ⟨h.acts, h.problem, h.plan, h.running, h.zip, nofun⟩
  obtain rfl | rfl := hf
  all_goals
    refine .effect h.acts ⟨hw, h.problem⟩ fun made => ?_
    cases made with
    | false => exact .pure hstop
    | true =>
      refine .perform h.acts ⟨hw, h.problem⟩ fun written => ?_
      cases written with
      | false => exact hstop
      | true => exact ⟨h, hw⟩

theorem books_writeMarkers (expectedETag : Bytes) (h : Owing self pid false true g) (hw : g.work = true) :
    Books g (writeMarkers self pid expectedETag) fun g' ok =>
      if ok then Owing self pid false true g' ∧ g'.work = true else Clear self pid g' := by
  refine .ite (fun _ => ?_) fun _ => ?_
  · refine .bind (books_writeMarker (.inr rfl) expectedETag h hw) fun g' ok hg' => ?_
    cases ok with
    | false => exact .pure hg'
    | true => exact books_writeMarker (.inl rfl) [] hg'.1 hg'.2
  · have hsame : g.struck = g := g.struck_of_none h.plan
    refine .effect h.acts (.inr ⟨rfl, h.plan, hw, h.problem⟩) fun _ => ?_
    show Books g.struck _ _
    rw [hsame]
    exact books_writeMarker (.inl rfl) [] h hw

/-- While the old directory is deleted, the goroutine owes the record a touch. -/
theorem books_removeWorkDir (h : Clear self pid g) :
    Books g (removeAll self pid .work) fun g' _ => Owing self pid false true g' ∧ g'.work = true := by
  refine .effect h.acts (.inr ⟨h.plan, h.running, h.problem⟩) fun paths => ?_
  have hnext : g.next (.file pid (.readDir .work)) paths = { g with work := true } := by
    show (match g.plan with | none => _ | some (.dir pid :: rest) => _ | some _ => _) = _
    rw [h.plan]
  rw [hnext]
  clear hnext
  have howing : Owing self pid false true { g with work := true } :=
    ⟨h.acts, h.problem, h.plan, h.running, h.zip, fun _ => rfl⟩
  have hsame : ({ g with work := true } : Ledger).struck = { g with work := true } :=
    Ledger.struck_of_none _ h.plan
  induction paths with
  | nil => exact .pure ⟨howing, rfl⟩
  | cons q rest ih =>
    refine .effect howing.acts (.inr ⟨howing.plan, rfl, howing.problem⟩) fun _ => ?_
    show Books ({ g with work := true } : Ledger).struck _ _
    rw [hsame]
    exact ih

theorem even_install (expectedETag : Bytes) : Even self pid (install self pid expectedETag) := by
  refine ⟨fun g hg => .bind (books_removeWorkDir hg) fun g₁ _ h₁ => ?_⟩
  refine .effect h₁.1.acts ⟨h₁.2, h₁.1.problem⟩ fun renamed => ?_
  cases renamed with
  | false =>
    have hclear : Clear self pid { g₁ with work := false } :=
      ⟨h₁.1.acts, h₁.1.problem, h₁.1.plan, h₁.1.running, h₁.1.zip, nofun⟩
    exact (Even.bind even_removeTmp fun _ => .ret).books _ hclear
  | true =>
    have howing : Owing self pid false true { g₁ with workSeen := true } :=
      ⟨h₁.1.acts, h₁.1.problem, h₁.1.plan, h₁.1.running, h₁.1.zip, h₁.1.work⟩
    refine .bind (books_writeMarkers expectedETag howing h₁.2) fun g₂ ok h₂ => ?_
    cases ok with
    | false => exact .pure h₂
    | true =>
      have hboth : Owing self pid true true g₂ := h₂.1.mono nofun id
      exact .bind (books_touch hboth expectedETag) fun g₃ _ h₃ => .pure h₃

theorem even_prepareZip (expectedETag : Bytes) : Even self pid (prepareZip self pid expectedETag) := by
  have hunpack : Even self pid (unpack self pid expectedETag) :=
    .bind even_removeTmp fun _ => .andThen trivial fun _ => .ite
      (.bind even_unzip fun _ => .ite (even_install expectedETag) (.bind even_removeTmp fun _ => .ret)) .ret
  have hlocked : Even self pid (unpackLocked self pid expectedETag) :=
    .andThen trivial fun _ => .ite (.andThen trivial fun _ => .ite .ret hunpack) .ret
  refine .bind (even_readyMatchesETag expectedETag) fun _ => .ite .ret (.andThen trivial fun joined => ?_)
  cases joined with
  | some ok => cases ok <;> exact .ret
  | none =>
    exact .bind (even_readyMatchesETag expectedETag) fun _ => .ite .ret
      (.andThen trivial fun _ => .ite (.bind hlocked fun _ => .andThen trivial fun _ => .ret) .ret)

/-- Whatever `Prepare` does, when it returns it owes the record nothing. -/
theorem even_prepareDir : Even self pid (prepareDir self pid) := by
  have hlocal : Even self pid (prepareLocal self pid) :=
    .andThen trivial fun _ => .ite (.bind (.touch [] false true) fun _ => .ret) .ret
  exact .bind even_download fun _ => .ite (.andThen trivial fun _ => even_prepareZip _) hlocal

theorem books_executeTask (h : Clear self pid g) : Books g (executeTask self pid) fun _ _ => True := by
  have hprepare : Books g (prepare self pid) fun g' _ => self = g'.self ∧ g'.plan = none := by
    refine .bind (even_prepareDir.books g h) fun g' how hg' => ?_
    have hzip : g'.zip = false := Bool.eq_false_iff.mpr fun hz => nomatch hg'.zip hz
    have hwork : g'.work = false := Bool.eq_false_iff.mpr fun hw => nomatch hg'.work hw
    exact .effect hg'.acts ⟨hg'.plan, hzip, hwork⟩ fun _ => .pure ⟨hg'.acts, hg'.plan⟩
  refine .bind hprepare fun g' how hg' => books_neutral (P := fun _ => True) ?_ trivial hg'.1 hg'.2
  refine by_ite by_ret (by_then trivial fun n => .bind ?_ fun _ => by_op trivial)
  induction n with
  | zero => exact by_ret
  | succ n ih => exact by_then trivial fun _ => by_ite ih by_ret

end Programs

end DeepOj.Worker.TestCases
