import DeepOj.Conc.Ghost
import DeepOj.Worker.ExtractionStages

/-!
# The search for a directory

Which directory `Prepare` returns is decided in one of four places: its markers
match, the lock is held and the ready marker is there, a call that was joined has
extracted it, or it has just been extracted. A goroutine's search says which ETag
it expects, and whether it has decided.
-/

namespace DeepOj.Worker.TestCases

open Conc Go

/-- How far a goroutine is with the directory that `Prepare` is to return. -/
inductive Search where
  /-- `Download` has not succeeded. -/
  | pending
  /-- It expects this ETag. -/
  | seeks (problemID : Nat) (etag : Bytes)
  /-- It has the lock of the directory. -/
  | locked (problemID : Nat) (etag : Bytes)
  /-- Under the lock, there was no ready marker. -/
  | unpacks (problemID : Nat) (etag : Bytes)
  /-- Its extraction is in place. -/
  | moved (problemID : Nat) (etag : Bytes)
  /-- It has created `.ready.etag`. -/
  | created (problemID : Nat) (etag : Bytes)
  /-- It is going to return the directory, unless the ready marker cannot be written. -/
  | found (problemID : Nat) (etag : Bytes)
  deriving DecidableEq

namespace Search

/-- The ETag that is expected. -/
def etag : Search → Option Bytes
  | .pending => none
  | .seeks _ etag => some etag
  | .locked _ etag => some etag
  | .unpacks _ etag => some etag
  | .moved _ etag => some etag
  | .created _ etag => some etag
  | .found _ etag => some etag

/-- The problem of a search that holds a lock. -/
def locks : Search → Option Nat
  | .locked pid _ => some pid
  | .unpacks pid _ => some pid
  | .moved pid _ => some pid
  | .created pid _ => some pid
  | _ => none

/-- The directory that has been put in place or found, its ETag, and what is to stand in its
`.ready.etag`. -/
def claim : Search → Option (Nat × Bytes × Option Bytes)
  | .moved pid etag => some (pid, etag, none)
  | .created pid etag => some (pid, etag, some [])
  | .found pid etag => some (pid, etag, some etag)
  | _ => none

/-- What an operation on the files of a problem does to the search. -/
def nextFile (s : Search) (pid : Nat) : (o : FileOp) → o.Reply → Search
  | .readFile .zipETag, content => .seeks pid (trimSpaces (content.getD []))
  | .readFile .readyETag, content =>
    match s, content with
    | .seeks pid etag, some b => if trimSpaces b = trimSpaces etag then .found pid etag else s
    | _, _ => s
  | .statReady, ready =>
    match s with
    | .locked pid etag => if ready then .found pid etag else .unpacks pid etag
    | _ => s
  | .rename, ok =>
    match s with
    | .unpacks pid etag => if ok then .moved pid etag else s
    | _ => s
  | .create .readyETag, ok =>
    match s with
    | .moved pid etag => if ok then .created pid etag else s
    | _ => s
  | .write .readyETag _, ok =>
    match s with
    | .created pid etag => if ok then .found pid etag else s
    | _ => s
  | _, _ => s

/-- What an operation on a lock file does to the search. -/
def nextLock (s : Search) : (lock : LockFile) → (o : LockOp) → o.Reply → Search
  | .work _, .lock, ok =>
    match s with
    | .seeks pid etag => if ok then .locked pid etag else s
    | _ => s
  | .work _, .close, _ =>
    match s with
    | .locked pid etag => .seeks pid etag
    | .unpacks pid etag => .seeks pid etag
    | .moved pid etag => .seeks pid etag
    | .created pid etag => .seeks pid etag
    | _ => s
  | _, _, _ => s

/-- What an operation does to the search. -/
def next (s : Search) : (o : Op) → o.Reply → Search
  | .file pid o, r => s.nextFile pid o r
  | .lock lock o, r => s.nextLock lock o r
  | .flight (.uz _), joined =>
    match s, joined with
    | .seeks pid etag, some true => .found pid etag
    | _, _ => s
  | .ret .., _ => .pending
  | _, _ => s

/-- When an operation on the files of a problem may be performed. -/
def AllowsFile (s : Search) (pid : Nat) : FileOp → Prop
  | .readFile .readyETag => ∃ etag, s = .seeks pid etag
  | .statReady => s = .pending ∨ ∃ etag, s = .seeks pid etag ∨ s = .locked pid etag
  | .openZip => ∃ etag, s = .unpacks pid etag
  | .rename => ∃ etag, s = .unpacks pid etag
  | .create .readyETag => ∃ etag, s = .moved pid etag
  | .write .readyETag content => s = .created pid content
  | _ => True

/-- A return statement that returns a directory is reached with the directory found, unless no
ETag was downloaded or none was expected. -/
def Answers (s : Search) (pid : Nat) (how : Return) : Prop :=
  how = .failed ∨ s = .pending ∨ (∃ etag, s.etag = some etag ∧ trimSpaces etag = []) ∨
    ∃ etag, s = .found pid etag

/-- When an operation may be performed. -/
def Allows (s : Search) : Op → Prop
  | .file pid o => s.AllowsFile pid o
  | .statObject _ => s = .pending
  | .flight (.dl _) => s = .pending
  | .flight (.uz pid) => ∃ etag, s = .seeks pid etag
  | .lock (.work pid) .open => ∃ etag, s = .seeks pid etag
  | .lock (.work pid) .lock => ∃ etag, s = .seeks pid etag
  | .ret pid how => s.Answers pid how
  | _ => True

end Search

/-- What an operation that is allowed can do to a search. -/
inductive Search.Moves : Search → (o : Op) → o.Reply → Search → Prop where
  | stays {s : Search} {o : Op} {r : o.Reply} (h : s.next o r = s) : Moves s o r s
  | expects {s : Search} {pid : Nat} {content : Option Bytes} :
      Moves s (.file pid (.readFile .zipETag)) content (.seeks pid (trimSpaces (content.getD [])))
  | matches {pid : Nat} {etag b : Bytes} (h : trimSpaces b = trimSpaces etag) :
      Moves (.seeks pid etag) (.file pid (.readFile .readyETag)) (some b) (.found pid etag)
  | joins {pid : Nat} {etag : Bytes} :
      Moves (.seeks pid etag) (.flight (.uz pid)) (some true) (.found pid etag)
  | locks {pid : Nat} {etag : Bytes} :
      Moves (.seeks pid etag) (.lock (.work pid) .lock) true (.locked pid etag)
  | ready {pid : Nat} {etag : Bytes} :
      Moves (.locked pid etag) (.file pid .statReady) true (.found pid etag)
  | unready {pid : Nat} {etag : Bytes} :
      Moves (.locked pid etag) (.file pid .statReady) false (.unpacks pid etag)
  | renames {pid : Nat} {etag : Bytes} :
      Moves (.unpacks pid etag) (.file pid .rename) true (.moved pid etag)
  | creates {pid : Nat} {etag : Bytes} :
      Moves (.moved pid etag) (.file pid (.create .readyETag)) true (.created pid etag)
  | marks {pid : Nat} {etag : Bytes} :
      Moves (.created pid etag) (.file pid (.write .readyETag etag)) true (.found pid etag)
  | closes {s : Search} {pid pid' : Nat} {etag : Bytes} (h : s.etag = some etag) :
      Moves s (.lock (.work pid') .close) () (.seeks pid etag)
  | returns {s : Search} {pid : Nat} {how : Return} : Moves s (.ret pid how) () .pending

theorem Search.moves_next {s : Search} {o : Op} (ha : s.Allows o) (r : o.Reply) :
    s.Moves o r (s.next o r) := by
  cases o with
  | ret pid how => exact .returns
  | flight key =>
    cases key with
    | dl pid =>
      obtain rfl : s = .pending := ha
      exact .stays rfl
    | uz pid =>
      obtain ⟨etag, rfl⟩ := ha
      match r with
      | none => exact .stays rfl
      | some false => exact .stays rfl
      | some true => exact .joins
  | lock file o =>
    cases file with
    | zip pid => exact .stays (by cases o <;> rfl)
    | work pid =>
      cases o with
      | «open» => exact .stays rfl
      | remove => exact .stays rfl
      | lock =>
        obtain ⟨etag, rfl⟩ := ha
        cases r with
        | false => exact .stays rfl
        | true => exact .locks
      | close =>
        -- only a search that holds a lock gives something up
        cases s with
        | pending => exact .stays rfl
        | seeks pid etag => exact .stays rfl
        | found pid etag => exact .stays rfl
        | _ => exact .closes rfl
  | file pid o =>
    cases o with
    | readFile f =>
      cases f with
      | zipETag => exact .expects
      | readyETag =>
        obtain ⟨etag, rfl⟩ := ha
        cases r with
        | none => exact .stays rfl
        | some b =>
          simp only [next, nextFile]
          by_cases hb : trimSpaces b = trimSpaces etag
          · rw [if_pos hb]
            exact .matches hb
          · rw [if_neg hb]
            refine .stays ?_
            simp only [next, nextFile, if_neg hb]
      | _ => exact .stays rfl
    | statReady =>
      obtain rfl | ⟨etag, rfl | rfl⟩ := ha
      · exact .stays rfl
      · exact .stays rfl
      · cases r with
        | false => exact .unready
        | true => exact .ready
    | rename =>
      obtain ⟨etag, rfl⟩ := ha
      cases r with
      | false => exact .stays rfl
      | true => exact .renames
    | create f =>
      cases f with
      | readyETag =>
        obtain ⟨etag, rfl⟩ := ha
        cases r with
        | false => exact .stays rfl
        | true => exact .creates
      | _ => exact .stays rfl
    | write f content =>
      cases f with
      | readyETag =>
        obtain rfl : s = .created pid content := ha
        cases r with
        | false => exact .stays rfl
        | true => exact .marks
      | _ => exact .stays rfl
    | _ => exact .stays rfl
  | _ => exact .stays rfl

/-- The recorder of the searches. -/
def searchRecorder : Recorder (Self × Op) (fun e => e.2.Reply) Event Search where
  start _ := .pending
  fork _ := .pending
  next s e r := s.next e.2 r

/-- The rules of a search. -/
def searchRules : Rules (Self × Op) (fun e => e.2.Reply) Search where
  allowed s e := s.Allows e.2
  promised _ _ _ := True
  ended _ := True

/-- The program keeps the rules from this point of its search on. -/
abbrev Seeks {α : Type} (s : Search) (p : FileProgram α) (Q : Search → α → Prop) : Prop :=
  Obeys searchRecorder searchRules s p Q

/-! ## What the programs do -/

section Programs

variable {self : Self} {pid : Nat} {etag : Bytes} {s : Search} {α β : Type}

namespace Seeks

theorem pure {a : α} {Q : Search → α → Prop} (h : Q s a) : Seeks s (Pure.pure a : FileProgram α) Q :=
  Obeys.pure h

theorem bind {p : FileProgram α} {f : α → FileProgram β} {P : Search → α → Prop}
    {Q : Search → β → Prop} (hp : Seeks s p P) (hf : ∀ s' a, P s' a → Seeks s' (f a) Q) :
    Seeks s (p >>= f) Q := Obeys.bind hp hf

theorem mono {p : FileProgram α} {Q Q' : Search → α → Prop} (h : Seeks s p Q)
    (hQ : ∀ s a, Q s a → Q' s a) : Seeks s p Q' := Obeys.mono h hQ

theorem effect {o : Op} {f : o.Reply → FileProgram β} {Q : Search → β → Prop} (h : s.Allows o)
    (hf : ∀ r, Seeks (s.next o r) (f r) Q) : Seeks s (op self o >>= f) Q :=
  Obeys.effect h fun r _ => hf r

theorem perform {o : Op} {Q : Search → o.Reply → Prop} (h : s.Allows o)
    (hf : ∀ r, Q (s.next o r) r) : Seeks s (op self o) Q :=
  Obeys.perform h fun r _ => hf r

theorem ite {c : Prop} [Decidable c] {p q : FileProgram α} {Q : Search → α → Prop}
    (hp : c → Seeks s p Q) (hq : ¬ c → Seeks s q Q) : Seeks s (if c then p else q) Q := by
  by_cases h : c
  · rw [if_pos h]
    exact hp h
  · rw [if_neg h]
    exact hq h

/-- A program whose operations all leave the search where it is. -/
theorem same {P : Op → Prop} {p : FileProgram α} (hallow : ∀ o, P o → s.Allows o)
    (hnext : ∀ o r, P o → s.next o r = s) (hp : p.Uses (By self P)) :
    Seeks s p fun s' _ => s' = s := by
  have h := heeds_of_uses (K := searchRecorder) (L := searchRules) (I := fun s' => s' = s)
    (P := By self P) (fun s' e hs he => by subst hs; exact hallow e.2 he.2)
    (fun s' e r hs he => by subst hs; exact hnext e.2 r he.2) hp rfl
  exact ⟨h⟩

end Seeks

theorem EvictionOp.allows {o : Op} (h : EvictionOp o) : s.Allows o := by
  unfold EvictionOp at h
  split at h
  case h_3 file => cases file <;> trivial
  case h_7 => exact h.elim
  all_goals trivial

theorem EvictionOp.next {o : Op} (h : EvictionOp o) (r : o.Reply) : s.next o r = s := by
  unfold EvictionOp at h
  split at h
  case h_3 file => cases file <;> rfl
  case h_7 => exact h.elim
  all_goals rfl

theorem DownloadOp.allows {o : Op} (h : DownloadOp o) : Search.pending.Allows o := by
  unfold DownloadOp at h
  split at h
  case h_3 file => cases file <;> trivial
  case h_9 => exact EvictionOp.allows h
  all_goals trivial

theorem DownloadOp.next {o : Op} (h : DownloadOp o) (r : o.Reply) :
    Search.pending.next o r = .pending := by
  unfold DownloadOp at h
  split at h
  case h_3 file => cases file <;> rfl
  case h_9 => exact EvictionOp.next h r
  all_goals rfl

theorem seeks_touch (etag : Bytes) (zipPath workDir : Bool) :
    Seeks s (touch self pid etag zipPath workDir) fun s' _ => s' = s :=
  .same (fun _ => EvictionOp.allows) (fun _ r h => h.next r) (by_touch etag zipPath workDir)

theorem seeks_download : Seeks .pending (download self pid) fun s' _ => s' = .pending :=
  .same (fun _ => DownloadOp.allows) (fun _ r h => h.next r) by_download

/-- The operations on `tmpDir` that do not depend on the ETag. -/
def TmpOp : Op → Prop
  | .file _ (.readDir _) => True
  | .file _ (.unlink _ _) => True
  | .file _ .mkdirTmp => True
  | .file _ (.extract _ _) => True
  | _ => False

theorem TmpOp.allows {o : Op} (h : TmpOp o) : s.Allows o := by
  unfold TmpOp at h
  split at h
  case h_5 => exact h.elim
  all_goals trivial

theorem TmpOp.next {o : Op} (h : TmpOp o) (r : o.Reply) : s.next o r = s := by
  unfold TmpOp at h
  split at h
  case h_5 => exact h.elim
  all_goals rfl

theorem seeks_removeAll (dir : CaseDir) : Seeks s (removeAll self pid dir) fun s' _ => s' = s := by
  refine .same (P := TmpOp) (fun _ => TmpOp.allows) (fun _ r h => h.next r) (by_then trivial fun paths => ?_)
  induction paths with
  | nil => exact by_ret
  | cons q rest ih => exact by_then trivial fun _ => ih

theorem seeks_unzip :
    Seeks (.unpacks pid etag) (unzip self pid) fun s' _ => s' = .unpacks pid etag := by
  refine .effect ⟨etag, rfl⟩ fun archive => ?_
  cases archive with
  | error err => exact .pure rfl
  | ok entries =>
    refine .same (P := TmpOp) (fun _ => TmpOp.allows) (fun _ r h => h.next r)
      (by_then trivial fun made => by_ite ?_ by_ret)
    generalize ({} : Counts) = counts
    induction entries generalizing counts with
    | nil => exact by_ret
    | cons f fs ih =>
      refine by_then trivial fun reply => ?_
      cases reply with
      | none => exact by_ret
      | some counts' => exact ih counts'

/-- If the ready marker is said to match, it is found to match, unless no ETag is expected. -/
theorem seeks_readyMatchesETag :
    Seeks (.seeks pid etag) (readyMatchesETag self pid etag) fun s' ok =>
      if ok then s' = .found pid etag ∨ s' = .seeks pid etag ∧ trimSpaces etag = []
      else s' = .seeks pid etag := by
  refine .effect (.inr ⟨etag, .inl rfl⟩) fun found => .ite (fun _ => .ite ?_ ?_) fun _ => .pure rfl
  · intro hempty
    exact .pure (.inr ⟨rfl, hempty⟩)
  · intro _
    refine .effect ⟨etag, rfl⟩ fun content => ?_
    cases content with
    | none => exact .pure rfl
    | some b =>
      refine .pure ?_
      show if decide (trimSpaces b = trimSpaces etag) = true then _ else _
      simp only [Search.next, Search.nextFile, decide_eq_true_eq]
      by_cases hb : trimSpaces b = trimSpaces etag
      · rw [if_pos hb, if_pos hb]
        exact .inl rfl
      · rw [if_neg hb, if_neg hb]

/-- The markers are written in this order: with an ETag, the directory counts as found once
`.ready.etag` is written. -/
theorem seeks_writeMarkers :
    Seeks (.moved pid etag) (writeMarkers self pid etag) fun s' ok =>
      (ok = true → s' = .found pid etag ∨ trimSpaces etag = []) ∧ s'.etag = some etag := by
  refine .ite (fun hne => ?_) fun hempty => ?_
  · have hwrite : Seeks (.moved pid etag) (writeFile self pid .readyETag etag) fun s' ok =>
        (ok = true → s' = .found pid etag) ∧ s'.etag = some etag := by
      refine .effect ⟨etag, rfl⟩ fun made => ?_
      cases made with
      | false => exact .pure ⟨nofun, rfl⟩
      | true =>
        refine .perform rfl fun written => ?_
        cases written with
        | false => exact ⟨nofun, rfl⟩
        | true => exact ⟨fun _ => rfl, rfl⟩
    refine .bind hwrite fun s' ok hs => ?_
    cases ok with
    | false => exact .pure ⟨nofun, hs.2⟩
    | true =>
      obtain rfl : s' = .found pid etag := hs.1 rfl
      -- nothing about the ready marker changes the search
      refine .effect trivial fun made => .ite (fun _ => ?_) fun _ => .pure ⟨fun _ => .inl rfl, rfl⟩
      exact .perform trivial fun _ => ⟨fun _ => .inl rfl, rfl⟩
  · have hnil : trimSpaces etag = [] := by
      rw [not_not.mp hempty]
      rfl
    refine .effect trivial fun _ => .effect trivial fun made => .ite (fun _ => ?_) fun _ => ?_
    · exact .perform trivial fun _ => ⟨fun _ => .inr hnil, rfl⟩
    · exact .pure ⟨fun _ => .inr hnil, rfl⟩

/-- An extraction that returns its directory has found it, or expects no ETag. -/
theorem seeks_unpack :
    Seeks (.unpacks pid etag) (unpack self pid etag) fun s' how =>
      (how ≠ .failed → s' = .found pid etag ∨ trimSpaces etag = []) ∧ s'.etag = some etag := by
  have hfail : ∀ s' : Search, s'.etag = some etag →
      (Return.failed ≠ .failed → s' = .found pid etag ∨ trimSpaces etag = []) ∧ s'.etag = some etag :=
    fun s' hs => ⟨fun h => absurd rfl h, hs⟩
  refine .bind (seeks_removeAll .tmp) fun s' _ hs => ?_
  subst hs
  refine .effect trivial fun made => .ite (fun _ => ?_) fun _ => .pure (hfail _ rfl)
  refine .bind seeks_unzip fun s' ok hs => ?_
  subst hs
  refine .ite (fun _ => ?_) fun _ => .bind (seeks_removeAll .tmp) fun s' _ hs => .pure (hfail _ (hs ▸ rfl))
  refine .bind (seeks_removeAll .work) fun s' _ hs => ?_
  subst hs
  refine .effect ⟨etag, rfl⟩ fun renamed => ?_
  cases renamed with
  | false => exact .bind (seeks_removeAll .tmp) fun s' _ hs => .pure (hfail _ (hs ▸ rfl))
  | true =>
    refine .bind seeks_writeMarkers fun s' written hs => .ite (fun hw => ?_) fun _ => .pure (hfail _ hs.2)
    exact .bind (seeks_touch _ _ _) fun s'' _ hs' => .pure (by subst hs'; exact ⟨fun _ => hs.1 hw, hs.2⟩)

theorem seeks_unpackFlight :
    Seeks (.seeks pid etag) (unpackFlight self pid etag) fun s' how =>
      (how ≠ .failed → s' = .found pid etag ∨ trimSpaces etag = []) ∧ s'.etag = some etag := by
  refine .bind seeks_readyMatchesETag fun s' ready hs => ?_
  cases ready with
  | true =>
    obtain rfl | ⟨rfl, hempty⟩ := hs
    · exact .pure ⟨fun _ => .inl rfl, rfl⟩
    · exact .pure ⟨fun _ => .inr hempty, rfl⟩
  | false =>
    obtain rfl : s' = .seeks pid etag := hs
    refine .effect ⟨etag, rfl⟩ fun opened => .ite (fun _ => ?_) fun _ => .pure ⟨fun h => absurd rfl h, rfl⟩
    have hlocked : Seeks (.seeks pid etag) (unpackLocked self pid etag) fun s' how =>
        (how ≠ .failed → s' = .found pid etag ∨ trimSpaces etag = []) ∧ s'.etag = some etag := by
      refine .effect ⟨etag, rfl⟩ fun locked => ?_
      cases locked with
      | false => exact .pure ⟨fun h => absurd rfl h, rfl⟩
      | true =>
        refine .effect (.inr ⟨etag, .inr rfl⟩) fun ready => ?_
        cases ready with
        | true => exact .pure ⟨fun _ => .inl rfl, rfl⟩
        | false => exact seeks_unpack
    refine .bind hlocked fun s' how hs => .effect trivial fun _ => .pure ⟨fun hne => ?_, ?_⟩
    · obtain rfl | hempty := hs.1 hne
      · exact .inl rfl
      · exact .inr hempty
    · have hetag := hs.2
      cases s' <;> exact hetag

/-- What `Prepare` returns after a download, it has found. -/
theorem seeks_prepareZip :
    Seeks (.seeks pid etag) (prepareZip self pid etag) fun s' how => s'.Answers pid how := by
  refine .bind seeks_readyMatchesETag fun s' ready hs => ?_
  cases ready with
  | true =>
    obtain rfl | ⟨rfl, hempty⟩ := hs
    · exact .pure (.inr (.inr (.inr ⟨etag, rfl⟩)))
    · exact .pure (.inr (.inr (.inl ⟨etag, rfl, hempty⟩)))
  | false =>
    obtain rfl : s' = .seeks pid etag := hs
    refine .effect ⟨etag, rfl⟩ fun joined => ?_
    cases joined with
    | some ok =>
      cases ok with
      | true => exact .pure (.inr (.inr (.inr ⟨etag, rfl⟩)))
      | false => exact .pure (.inl rfl)
    | none =>
      refine Seeks.mono seeks_unpackFlight fun s' how hs => ?_
      by_cases hfailed : how = .failed
      · exact .inl hfailed
      · obtain rfl | hempty := hs.1 hfailed
        · exact .inr (.inr (.inr ⟨etag, rfl⟩))
        · exact .inr (.inr (.inl ⟨etag, hs.2, hempty⟩))

/-- `Prepare` reaches its return statements as the rules say. -/
theorem seeks_prepare : Seeks .pending (prepare self pid) fun s' _ => s' = .pending := by
  have hdir : Seeks .pending (prepareDir self pid) fun s' how => s'.Answers pid how := by
    refine .bind seeks_download fun s' ok hs => ?_
    subst hs
    refine .ite (fun _ => .effect trivial fun content => seeks_prepareZip) fun _ => ?_
    -- without MinIO nothing is searched for
    refine .effect (.inl rfl) fun ready => .ite (fun _ => ?_) fun _ => .pure (.inl rfl)
    exact .bind (seeks_touch _ _ _) fun s' _ hs => .pure (.inr (.inl hs))
  refine .bind hdir fun s' how hs => ?_
  exact .effect hs fun _ => .pure rfl

/-- The rest of a task has nothing to do with its directory. -/
theorem seeks_executeTask : Seeks .pending (executeTask self pid) fun _ _ => True := by
  refine .bind seeks_prepare fun s' how hs => .ite (fun _ => .pure trivial) fun _ => ?_
  refine .effect trivial fun n => .bind (P := fun _ _ => True) ?_ fun _ _ _ => .perform trivial fun _ => trivial
  clear hs
  induction n generalizing s' with
  | zero => exact .pure trivial
  | succ n ih => exact .effect trivial fun _ => .ite (fun _ => ih _) fun _ => .pure trivial

end Programs

end DeepOj.Worker.TestCases
