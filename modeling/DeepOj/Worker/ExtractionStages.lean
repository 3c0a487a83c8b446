import DeepOj.Worker.TestCaseManager

/-!
# The stages of an extraction

A goroutine's stage says how far it is with an extraction: which lock file it has
open, and what it has done to `tmpDir`. Every operation on `tmpDir` belongs to a
stage, and the programs of the workers perform it there.
-/

namespace DeepOj.Worker.TestCases

open Conc Go

/-- How far a goroutine is with the extraction of a problem. -/
inductive Stage where
  | idle
  /-- The lock file is open. -/
  | opened (problemID : Nat)
  | locked (problemID : Nat)
  /-- It removes `tmpDir`; these paths are left. -/
  | clearing (problemID : Nat) (rest : List Path)
  | made (problemID : Nat)
  /-- It has read the list of these entries. -/
  | opening (problemID : Nat) (entries : List ZipEntry)
  /-- Of these entries, the last ones are to be extracted. -/
  | unzipping (problemID : Nat) (entries todo : List ZipEntry) (counts : Counts)

namespace Stage

/-- The problem whose lock file is open. -/
def opens : Stage → Option Nat
  | .idle => none
  | .opened pid => some pid
  | .locked pid => some pid
  | .clearing pid _ => some pid
  | .made pid => some pid
  | .opening pid _ => some pid
  | .unzipping pid _ _ _ => some pid

/-- The problem whose lock is held. -/
def holds : Stage → Option Nat
  | .opened _ => none
  | st => st.opens

/-- What an operation on the files of a problem does to the stage. -/
def nextFile (st : Stage) : (o : FileOp) → o.Reply → Stage
  | .readDir .tmp, paths =>
    match st with
    | .locked pid => .clearing pid paths
    | _ => st
  | .unlink .tmp _, _ =>
    match st with
    | .clearing pid (_ :: rest) => .clearing pid rest
    | _ => st
  | .mkdirTmp, ok =>
    match st with
    | .clearing pid _ => if ok then .made pid else .locked pid
    | .opening pid entries => if ok then .unzipping pid entries entries {} else .locked pid
    | _ => st
  | .openZip, archive =>
    match st, archive with
    | .made pid, .ok entries => .opening pid entries
    | .made pid, .error _ => .locked pid
    | _, _ => st
  | .extract _ _, reply =>
    match st, reply with
    | .unzipping pid entries todo _, some counts => .unzipping pid entries todo.tail counts
    | .unzipping pid _ _ _, none => .locked pid
    | _, _ => st
  | .rename, _ =>
    match st with
    | .unzipping pid _ _ _ => .locked pid
    | _ => st
  | _, _ => st

/-- What an operation on a lock file does to the stage. -/
def nextLock (st : Stage) : (lock : LockFile) → (o : LockOp) → o.Reply → Stage
  | .work pid, .open, true => .opened pid
  | .work pid, .lock, true => .locked pid
  | .work _, .close, _ => .idle
  | _, _, _ => st

/-- What an operation does to the stage. -/
def next (st : Stage) : (o : Op) → o.Reply → Stage
  | .file _ o, r => st.nextFile o r
  | .lock lock o, r => st.nextLock lock o r
  | _, _ => st

/-- In which stage an operation on `tmpDir` may be performed. -/
def AllowsFile (st : Stage) (pid : Nat) : FileOp → Prop
  | .readDir .tmp => st = .locked pid
  | .unlink .tmp q => ∃ rest, st = .clearing pid (q :: rest)
  | .mkdirTmp => st = .clearing pid [] ∨ ∃ entries, st = .opening pid entries
  | .openZip => st = .made pid
  | .extract f counts => ∃ entries todo, st = .unzipping pid entries (f :: todo) counts
  | .rename => ∃ entries counts, st = .unzipping pid entries [] counts
  | _ => True

/-- In which stage an operation may be performed. -/
def Allows (st : Stage) : Op → Prop
  | .file pid o => st.AllowsFile pid o
  | .lock (.work _) .open => st = .idle
  | .lock (.work pid) .lock => st = .opened pid
  | .lock (.work pid) .close => st.opens = some pid
  | _ => True

end Stage

/-- A goroutine and its stage. -/
structure Progress where
  self : Self
  stage : Stage

/-- The recorder of the workers. -/
def recorder : Recorder (Self × Op) (fun e => e.2.Reply) Event Progress where
  start
    | .start self _ => ⟨self, .idle⟩
    | .crash proc => ⟨⟨proc, 0, 0⟩, .idle⟩
  fork e := ⟨e.1, .idle⟩
  next g e r := ⟨g.self, g.stage.next e.2 r⟩

/-- The rules of a goroutine: it acts for itself, and on `tmpDir` in the order of the stages. -/
def stageRules : Rules (Self × Op) (fun e => e.2.Reply) Progress where
  allowed g e := e.1 = g.self ∧ g.stage.Allows e.2
  promised _ _ _ := True
  ended _ := True

/-- The program keeps the rules from this stage on. -/
abbrev Keeps {α : Type} (self : Self) (st : Stage) (p : FileProgram α) (Q : Stage → α → Prop) : Prop :=
  Obeys recorder stageRules ⟨self, st⟩ p fun g a => g.self = self ∧ Q g.stage a

/-! ## What the programs do -/

section Programs

variable {self : Self} {pid : Nat} {st : Stage} {α β : Type}

namespace Keeps

theorem pure {a : α} {Q : Stage → α → Prop} (h : Q st a) :
    Keeps self st (Pure.pure a : FileProgram α) Q := Obeys.pure ⟨rfl, h⟩

theorem effect {o : Op} {f : o.Reply → FileProgram β} {Q : Stage → β → Prop} (h : st.Allows o)
    (hf : ∀ r, Keeps self (st.next o r) (f r) Q) : Keeps self st (op self o >>= f) Q :=
  Obeys.effect ⟨rfl, h⟩ fun r _ => hf r

theorem perform {o : Op} {Q : Stage → o.Reply → Prop} (h : st.Allows o)
    (hf : ∀ r, Q (st.next o r) r) : Keeps self st (op self o) Q :=
  Obeys.perform ⟨rfl, h⟩ fun r _ => ⟨rfl, hf r⟩

theorem bind {p : FileProgram α} {f : α → FileProgram β} {P : Stage → α → Prop}
    {Q : Stage → β → Prop} (hp : Keeps self st p P)
    (hf : ∀ st' a, P st' a → Keeps self st' (f a) Q) : Keeps self st (p >>= f) Q := by
  refine Obeys.bind hp fun g a hg => ?_
  obtain ⟨rfl, hP⟩ := hg
  exact hf g.stage a hP

theorem mono {p : FileProgram α} {Q Q' : Stage → α → Prop} (h : Keeps self st p Q)
    (hQ : ∀ st a, Q st a → Q' st a) : Keeps self st p Q' :=
  Obeys.mono h fun g a hg => ⟨hg.1, hQ g.stage a hg.2⟩

end Keeps

/-- An operation that is allowed in every stage and does not change it. -/
def Plain : Op → Prop
  | .file _ (.readDir .tmp) => False
  | .file _ (.unlink .tmp _) => False
  | .file _ .mkdirTmp => False
  | .file _ .openZip => False
  | .file _ (.extract _ _) => False
  | .file _ .rename => False
  | .lock (.work _) .open => False
  | .lock (.work _) .lock => False
  | .lock (.work _) .close => False
  | _ => True

theorem Plain.allows {o : Op} (h : Plain o) : st.Allows o := by
  unfold Stage.Allows
  split
  · unfold Stage.AllowsFile
    split <;> trivial
  · exact h.elim
  · exact h.elim
  · exact h.elim
  · trivial

theorem Plain.next {o : Op} (h : Plain o) (r : o.Reply) : st.next o r = st := by
  unfold Stage.next
  split
  · unfold Stage.nextFile
    split <;> first | rfl | exact h.elim
  · unfold Stage.nextLock
    split <;> first | rfl | exact h.elim
  · rfl

/-- The program performs plain operations, for its own goroutine. -/
def PlainFor (self : Self) (e : Self × Op) : Prop := e.1 = self ∧ Plain e.2

theorem keeps_of_plain {p : FileProgram α} (hp : p.Uses (PlainFor self)) :
    Keeps self st p fun st' _ => st' = st := by
  have h := heeds_of_uses (K := recorder) (L := stageRules) (I := fun g => g = ⟨self, st⟩)
    (P := PlainFor self) (fun g e hg he => by subst hg; exact ⟨he.1, he.2.allows⟩)
    (fun g e r hg he => by subst hg; exact congrArg _ (he.2.next r)) hp rfl
  exact ⟨heeds_mono (fun g _ hg => by subst hg; exact ⟨rfl, rfl⟩) h⟩

theorem plain_ret {a : α} : (pure a : FileProgram α).Uses (PlainFor self) := trivial

theorem plain_op {o : Op} (h : Plain o) : (op self o).Uses (PlainFor self) :=
  Prog.uses_perform.mpr ⟨rfl, h⟩

theorem plain_then {o : Op} {f : o.Reply → FileProgram α} (h : Plain o)
    (hf : ∀ r, (f r).Uses (PlainFor self)) : (op self o >>= f).Uses (PlainFor self) := ⟨⟨rfl, h⟩, hf⟩

theorem plain_ite {c : Prop} [Decidable c] {p q : FileProgram α} (hp : p.Uses (PlainFor self))
    (hq : q.Uses (PlainFor self)) : (if c then p else q).Uses (PlainFor self) := by
  by_cases h : c
  · rw [if_pos h]
    exact hp
  · rw [if_neg h]
    exact hq

/-- The operations of an eviction. -/
def EvictionOp : Op → Prop
  | .touch .. => True
  | .unlock => True
  | .lock _ .remove => True
  | .file _ (.remove _) => True
  | .file _ (.readDir .work) => True
  | .file _ (.unlink .work _) => True
  | _ => False

/-- The operations of `Download`. -/
def DownloadOp : Op → Prop
  | .flight (.dl _) => True
  | .statObject _ => True
  | .lock (.zip _) _ => True
  | .file _ (.etagMatch _) => True
  | .file _ .fetch => True
  | .file _ .renameZip => True
  | .file _ (.create .zipETag) => True
  | .file _ (.write .zipETag _) => True
  | o => EvictionOp o

theorem EvictionOp.download {o : Op} (h : EvictionOp o) : DownloadOp o := by
  unfold DownloadOp
  split <;> trivial

theorem EvictionOp.plain {o : Op} (h : EvictionOp o) : Plain o := by
  unfold EvictionOp at h
  split at h
  case h_3 file => cases file <;> trivial
  case h_7 => exact h.elim
  all_goals trivial

/-- Nothing `Download` does is an extraction. -/
theorem DownloadOp.plain {o : Op} (h : DownloadOp o) : Plain o := by
  unfold DownloadOp at h
  split at h
  case h_3 file => cases file <;> trivial
  case h_9 => exact EvictionOp.plain h
  all_goals trivial

/-- The goroutine performs operations of this kind, for itself. -/
def By (self : Self) (P : Op → Prop) (e : Self × Op) : Prop := e.1 = self ∧ P e.2

section Footprints

variable {P : Op → Prop}

theorem by_ret {a : α} : (pure a : FileProgram α).Uses (By self P) := trivial

theorem by_op {o : Op} (h : P o) : (op self o).Uses (By self P) := Prog.uses_perform.mpr ⟨rfl, h⟩

theorem by_then {o : Op} {f : o.Reply → FileProgram α} (h : P o) (hf : ∀ r, (f r).Uses (By self P)) :
    (op self o >>= f).Uses (By self P) := ⟨⟨rfl, h⟩, hf⟩

theorem by_ite {c : Prop} [Decidable c] {p q : FileProgram α} (hp : p.Uses (By self P))
    (hq : q.Uses (By self P)) : (if c then p else q).Uses (By self P) := by
  by_cases h : c
  · rw [if_pos h]
    exact hp
  · rw [if_neg h]
    exact hq

end Footprints

theorem by_removeWorkDir : (removeAll self pid .work).Uses (By self EvictionOp) := by
  refine by_then trivial fun paths => ?_
  induction paths with
  | nil => exact by_ret
  | cons q rest ih => exact by_then trivial fun _ => ih

theorem by_removeEntry (e : CacheEntry) : (removeEntry self e).Uses (By self EvictionOp) := by
  refine .bind (by_ite ?_ by_ret) fun _ => by_ite ?_ by_ret
  · exact by_then trivial fun _ => by_then trivial fun _ => by_op trivial
  · exact .bind by_removeWorkDir fun _ => by_then trivial fun _ => by_then trivial fun _ => by_op trivial

theorem by_touch (etag : Bytes) (zipPath workDir : Bool) :
    (touch self pid etag zipPath workDir).Uses (By self EvictionOp) := by
  refine by_then trivial fun es => .bind ?_ fun _ => by_op trivial
  induction es with
  | nil => exact by_ret
  | cons e es ih => exact .bind (by_removeEntry e) fun _ => ih

theorem by_touchDownload (etag : Bytes) (zipPath workDir : Bool) :
    (touch self pid etag zipPath workDir).Uses (By self DownloadOp) :=
  (by_touch etag zipPath workDir).mono fun _ h => ⟨h.1, h.2.download⟩

theorem by_placeZip (remoteETag : Bytes) : (placeZip self pid remoteETag).Uses (By self DownloadOp) :=
  by_then trivial fun _ => by_ite
    (.bind (by_then trivial fun _ => by_ite (by_op trivial) by_ret) fun _ =>
      .bind (by_touchDownload _ _ _) fun _ => by_ret)
    (by_then trivial fun _ => by_ret)

theorem by_downloadLocked (remoteETag : Bytes) :
    (downloadLocked self pid remoteETag).Uses (By self DownloadOp) :=
  by_then trivial fun _ => by_ite
    (by_then trivial fun _ => by_ite
      (.bind (by_touchDownload _ _ _) fun _ => by_ret)
      (by_then trivial fun _ => by_then trivial fun _ => by_ite (by_placeZip _)
        (by_then trivial fun _ => by_ret)))
    by_ret

theorem by_download : (download self pid).Uses (By self DownloadOp) := by
  refine by_then trivial fun joined => ?_
  cases joined with
  | some ok => exact by_ret
  | none =>
    refine by_then trivial fun etag => ?_
    cases etag with
    | none => exact by_ret
    | some remoteETag =>
      exact by_then trivial fun _ => by_ite
        (.bind (by_touchDownload _ _ _) fun _ => by_ret)
        (by_then trivial fun _ => by_ite
          (.bind (by_downloadLocked _) fun _ => by_then trivial fun _ => by_ret) by_ret)

theorem plain_of_by {P : Op → Prop} {p : FileProgram α} (hP : ∀ o, P o → Plain o)
    (h : p.Uses (By self P)) : p.Uses (PlainFor self) := h.mono fun _ he => ⟨he.1, hP _ he.2⟩

theorem plain_removeWorkDir : (removeAll self pid .work).Uses (PlainFor self) :=
  plain_of_by (fun _ => EvictionOp.plain) by_removeWorkDir

/-- Nothing an eviction does is an extraction. -/
theorem plain_touch (etag : Bytes) (zipPath workDir : Bool) :
    (touch self pid etag zipPath workDir).Uses (PlainFor self) :=
  plain_of_by (fun _ => EvictionOp.plain) (by_touch etag zipPath workDir)

/-- `Download` does not touch `tmpDir`. -/
theorem plain_download : (download self pid).Uses (PlainFor self) :=
  plain_of_by (fun _ => DownloadOp.plain) by_download

theorem plain_writeFile (f : CaseFile) (content : Bytes) :
    (writeFile self pid f content).Uses (PlainFor self) :=
  plain_then trivial fun _ => plain_ite (plain_op trivial) plain_ret

theorem plain_readyMatchesETag (expectedETag : Bytes) :
    (readyMatchesETag self pid expectedETag).Uses (PlainFor self) := by
  refine plain_then trivial fun _ => plain_ite (plain_ite plain_ret ?_) plain_ret
  refine plain_then trivial fun content => ?_
  cases content <;> exact plain_ret

theorem plain_writeMarkers (expectedETag : Bytes) :
    (writeMarkers self pid expectedETag).Uses (PlainFor self) :=
  plain_ite
    (.bind (plain_writeFile _ _) fun _ => plain_ite (plain_writeFile _ _) plain_ret)
    (plain_then trivial fun _ => plain_writeFile _ _)

/-- `os.RemoveAll(tmpDir)`, under the lock. -/
theorem keeps_removeTmp :
    Keeps self (.locked pid) (removeAll self pid .tmp) fun st' _ => st' = .clearing pid [] := by
  refine .effect rfl fun paths => ?_
  show Keeps self (.clearing pid paths) (unlinkAll self pid .tmp paths) _
  induction paths with
  | nil => exact .pure rfl
  | cons q rest ih => exact .effect ⟨rest, rfl⟩ fun _ => ih

/-- `UnzipWithLimits` ends with all entries extracted, or fails. -/
theorem keeps_unzip : Keeps self (.made pid) (unzip self pid) fun st' ok =>
    if ok then ∃ entries counts, st' = .unzipping pid entries [] counts else st' = .locked pid := by
  refine .effect rfl fun archive => ?_
  cases archive with
  | error err => exact .pure rfl
  | ok entries =>
    refine .effect (.inr ⟨entries, rfl⟩) fun made => ?_
    cases made with
    | false => exact .pure rfl
    | true =>
      have hloop : ∀ todo counts, Keeps self (.unzipping pid entries todo counts)
          (unzipEntries self pid todo counts) fun st' ok =>
            if ok then ∃ entries counts, st' = .unzipping pid entries [] counts
            else st' = .locked pid := by
        intro todo
        induction todo with
        | nil => exact fun counts => .pure ⟨entries, counts, rfl⟩
        | cons f todo ih =>
          intro counts
          refine .effect ⟨entries, todo, rfl⟩ fun reply => ?_
          cases reply with
          | none => exact .pure rfl
          | some counts' => exact ih counts'
      exact hloop entries {}

theorem keeps_install {entries : List ZipEntry} {counts : Counts} (expectedETag : Bytes) :
    Keeps self (.unzipping pid entries [] counts) (install self pid expectedETag) fun st' _ =>
      st'.opens = some pid := by
  refine .bind (keeps_of_plain plain_removeWorkDir) fun st' _ hst => ?_
  subst hst
  refine .effect ⟨entries, counts, rfl⟩ fun renamed => ?_
  cases renamed with
  | true =>
    refine .bind (keeps_of_plain (plain_writeMarkers _)) fun st' written hst => ?_
    subst hst
    cases written with
    | true => exact .bind (keeps_of_plain (plain_touch _ _ _)) fun st' _ hst => .pure (by subst hst; rfl)
    | false => exact .pure rfl
  | false => exact .bind keeps_removeTmp fun st' _ hst => .pure (by subst hst; rfl)

theorem keeps_unpack (expectedETag : Bytes) :
    Keeps self (.locked pid) (unpack self pid expectedETag) fun st' _ => st'.opens = some pid := by
  refine .bind keeps_removeTmp fun st' _ hst => ?_
  subst hst
  refine .effect (.inl rfl) fun made => ?_
  cases made with
  | false => exact .pure rfl
  | true =>
    refine .bind keeps_unzip fun st' ok hst => ?_
    cases ok with
    | true =>
      obtain ⟨entries, counts, rfl⟩ := hst
      exact keeps_install _
    | false =>
      obtain rfl : st' = .locked pid := hst
      exact .bind keeps_removeTmp fun st' _ hst => .pure (by subst hst; rfl)

/-- The lock file is closed at the end. -/
theorem keeps_unpackFlight (expectedETag : Bytes) :
    Keeps self .idle (unpackFlight self pid expectedETag) fun st' _ => st' = .idle := by
  refine .bind (keeps_of_plain (plain_readyMatchesETag _)) fun st' found hst => ?_
  subst hst
  cases found with
  | true => exact .pure rfl
  | false =>
    refine .effect rfl fun opened => ?_
    cases opened with
    | false => exact .pure rfl
    | true =>
      have hlocked : Keeps self (.opened pid) (unpackLocked self pid expectedETag) fun st' _ =>
          st'.opens = some pid := by
        refine .effect rfl fun locked => ?_
        cases locked with
        | false => exact .pure rfl
        | true =>
          refine .effect trivial fun found => ?_
          cases found with
          | true => exact .pure rfl
          | false => exact keeps_unpack _
      exact .bind hlocked fun st' _ hst => .effect hst fun _ => .pure rfl

theorem keeps_prepareZip (expectedETag : Bytes) :
    Keeps self .idle (prepareZip self pid expectedETag) fun st' _ => st' = .idle := by
  refine .bind (keeps_of_plain (plain_readyMatchesETag _)) fun st' found hst => ?_
  subst hst
  cases found with
  | true => exact .pure rfl
  | false =>
    refine .effect trivial fun joined => ?_
    cases joined with
    | none => exact keeps_unpackFlight _
    | some ok => cases ok <;> exact .pure rfl

theorem plain_prepareLocal : (prepareLocal self pid).Uses (PlainFor self) :=
  plain_then trivial fun _ => plain_ite (.bind (plain_touch _ _ _) fun _ => plain_ret) plain_ret

/-- `Prepare` keeps the rules, and leaves no lock file open. -/
theorem keeps_prepare :
    Keeps self .idle (prepare self pid) fun st' _ => st' = .idle := by
  have hdir : Keeps self .idle (prepareDir self pid) fun st' _ => st' = .idle := by
    refine .bind (keeps_of_plain plain_download) fun st' ok hst => ?_
    subst hst
    cases ok with
    | true => exact .effect trivial fun etag => keeps_prepareZip _
    | false => exact keeps_of_plain plain_prepareLocal
  refine .bind hdir fun st' how hst => ?_
  subst hst
  exact .effect trivial fun _ => .pure rfl

theorem keeps_executeTask : Keeps self .idle (executeTask self pid) fun _ _ => True := by
  refine .bind keeps_prepare fun st' how hst => ?_
  subst hst
  have hrest : (if how = Return.failed then pure () else do
      let n ← op self (.glob pid)
      runCases self pid n
      op self (.done pid)).Uses (PlainFor self) := by
    refine plain_ite plain_ret (plain_then trivial fun n => .bind ?_ fun _ => plain_op trivial)
    induction n with
    | zero => exact plain_ret
    | succ n ih => exact plain_then trivial fun _ => plain_ite ih plain_ret
  exact (keeps_of_plain hrest).mono fun _ _ _ => trivial

end Programs

end DeepOj.Worker.TestCases
