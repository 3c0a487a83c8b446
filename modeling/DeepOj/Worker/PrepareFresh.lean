import DeepOj.Worker.DirectoryLabels
import DeepOj.Worker.PrepareSearch
import DeepOj.Worker.ReadyComplete

/-!
# When the directory that `Prepare` returns is fresh

The check of the markers compares the ETag of a directory. The check under the
lock does not, and neither does a call that is joined: an extraction of an earlier
zip is returned there.
-/

namespace DeepOj.Worker.TestCases

open Conc Go Machine

/-- What MinIO has said, or the joined call has downloaded, is the ETag of a download. -/
def noteETag (etags : Self → Bytes) (e : Self × Op) (p : Pick) : Self → Bytes :=
  match e.2 with
  | .statObject _ => Function.update etags e.1 (p.etag.getD [])
  | .flight (.dl _) => Function.update etags e.1 (p.etag.getD [])
  | _ => etags

/-- The workers, and the ETag that the download of each goroutine is for. -/
def downloaders (cfg : ManagerConfig) :
    Machine (Workspace × (Self → Bytes)) (Self × Op) (fun e => e.2.Reply) Pick Event :=
  (workers cfg).ghost noteETag

/-- The workers, with the stage and the search of each goroutine. -/
abbrev SearchConfig : Type :=
  RecordedConfig (Workspace × (Self → Bytes)) (Self × Op) (fun e => e.2.Reply) (Progress × Search)

/-- The recorder of both. -/
abbrev prepareRecorder : Recorder (Self × Op) (fun e => e.2.Reply) Event (Progress × Search) :=
  recorder.both searchRecorder

/-- The rules of both. -/
abbrev prepareRules : Rules (Self × Op) (fun e => e.2.Reply) (Progress × Search) :=
  stageRules.both searchRules

/-- One move, kept on record. -/
abbrev searchStep (cfg : ManagerConfig) : SearchConfig → Move Pick Event → Option SearchConfig :=
  (downloaders cfg).record prepareRecorder

/-- Nobody has run yet. -/
def searchStart : SearchConfig := ⟨({}, fun _ => []), []⟩

/-- Whenever `Prepare` is about to return a directory after a download, the directory holds the
extraction of the zip with the ETag of the download, and is marked with it. -/
def PrepareIsFresh (cfg : ManagerConfig) (zipOf : Bytes → Archive) (s : SearchConfig) : Prop :=
  ∀ t ∈ s.threads, ∀ self pid how, t.2.next = some (self, .ret pid how) → Live s.world.1 self →
    how ≠ .failed → t.1.2 ≠ .pending →
    WorkHolds cfg zipOf pid (s.world.1.files pid) (s.world.2 self) (some (s.world.2 self))

/-! ## The condition -/

/-- Nothing was taken from the directory, and this is its ETag. -/
def CaseFiles.Bears (c : CaseFiles) (etag : Bytes) : Prop := c.torn = false ∧ c.read .readyETag = some etag

instance (c : CaseFiles) (etag : Bytes) : Decidable (c.Bears etag) := inferInstanceAs (Decidable (_ ∧ _))

/-- No running goroutine has put the directory in place or found it. -/
def Unclaimed (s : SearchConfig) (pid : Nat) : Prop :=
  ∀ t ∈ s.threads, Live s.world.1 t.1.1.self → t.2.next.isSome = true →
    ∀ claim ∈ t.1.2.claim, claim.1 ≠ pid

instance (s : SearchConfig) (pid : Nat) : Decidable (Unclaimed s pid) :=
  inferInstanceAs (Decidable (∀ _ ∈ _, _ → _ → ∀ _ ∈ _, _))

/-- What an operation on the files of a problem must find. -/
def UndisturbedFile (cfg : ManagerConfig) (zipOf : Bytes → Archive) (s : SearchConfig) (search : Search)
    (etag : Bytes) (pid : Nat) : FileOp → Prop
  -- the ETag next to the zip is still the one of the download
  | .readFile .zipETag =>
    trimSpaces ((s.world.1.files pid).zipETag.getD []) = etag ∧ trimSpaces etag = etag ∧ etag ≠ []
  -- so is the zip
  | .openZip => ∀ z ∈ (s.world.1.files pid).zip, z.archive = zipOf etag
  -- an archive does not bring a label of its own
  | .rename => ¬ (relative (cfg.tmpDir pid) (s.world.1.files pid).tmp).Has readyETagPath
  -- a directory with matching markers is whole
  | .readFile .readyETag =>
    ∀ b ∈ (s.world.1.files pid).read .readyETag, trimSpaces b = trimSpaces etag →
      (s.world.1.files pid).torn = false
  -- a directory that is ready under the lock has the same ETag
  | .statReady =>
    search = .locked pid etag →
      ((s.world.1.files pid).work.map (·.Has readyPath)).getD false = true →
      (s.world.1.files pid).Bears etag
  -- nothing is deleted from a directory that is going to be returned
  | .unlink .work _ => Unclaimed s pid
  | .remove .readyETag => Unclaimed s pid
  | _ => True

/-- What an operation must find. -/
def UndisturbedOp (cfg : ManagerConfig) (zipOf : Bytes → Archive) (s : SearchConfig) (search : Search)
    (etag : Bytes) (p : Pick) : Op → Prop
  | .file pid o => UndisturbedFile cfg zipOf s search etag pid o
  -- a call that is joined has extracted the same zip
  | .flight (.uz pid) => p.joined = some true → (s.world.1.files pid).Bears etag
  -- no lock file is deleted that is open
  | .lock (.work pid) .remove => ∀ d ∈ s.world.1.fds, d.lock ≠ .work pid
  | _ => True

/-- The moves that do not disturb a goroutine in `Prepare`. -/
def Undisturbed (cfg : ManagerConfig) (zipOf : Bytes → Archive) (s : SearchConfig) :
    Move Pick Event → Prop
  | .call i p =>
    match s.threads[i]? with
    | some (g, .call e _) => UndisturbedOp cfg zipOf s g.2 (s.world.2 e.1) p e.2
    | _ => True
  | _ => True

section Decide

variable {cfg : ManagerConfig} {zipOf : Bytes → Archive} {s : SearchConfig} {search : Search} {etag : Bytes}

instance (pid : Nat) (o : FileOp) : Decidable (UndisturbedFile cfg zipOf s search etag pid o) := by
  unfold UndisturbedFile
  split <;> infer_instance

instance (p : Pick) : (o : Op) → Decidable (UndisturbedOp cfg zipOf s search etag p o)
  | .file pid o => inferInstanceAs (Decidable (UndisturbedFile cfg zipOf s search etag pid o))
  | .flight (.uz pid) => inferInstanceAs (Decidable (p.joined = some true → (s.world.1.files pid).Bears etag))
  | .lock (.work pid) .remove => inferInstanceAs (Decidable (∀ d ∈ s.world.1.fds, d.lock ≠ .work pid))
  | .flight (.dl _) | .lock (.zip _) _ | .lock (.work _) .open | .lock (.work _) .lock |
    .lock (.work _) .close | .statObject _ | .touch .. | .unlock | .ret .. | .glob _ | .runCase _ |
    .done _ => isTrue trivial

instance : (m : Move Pick Event) → Decidable (Undisturbed cfg zipOf s m)
  | .call i p => by
    dsimp only [Undisturbed]
    split <;> infer_instance
  | .crash _ => isTrue trivial
  | .env _ => isTrue trivial

end Decide

/-! ## Stages and searches -/

/-- The entries of the archive that a stage has opened. -/
def Stage.entries : Stage → Option (List ZipEntry)
  | .opening _ entries => some entries
  | .unzipping _ entries _ _ => some entries
  | _ => none

/-- The stage and the search of a goroutine fit: under the lock of the search, its stage holds it
too, and what has been opened is the zip with the expected ETag. -/
structure InStep (zipOf : Bytes → Archive) (g : Progress × Search) : Prop where
  locks : ∀ pid, g.2.locks = some pid → g.1.stage.holds = some pid
  closed : ∀ pid etag, g.2 = .locked pid etag → g.1.stage.entries = none
  opened : ∀ pid etag entries, g.2 = .unpacks pid etag → g.1.stage.entries = some entries →
    zipOf etag = .ok entries

section Records

variable {zipOf : Bytes → Archive} {st : Stage} {s : Search} {pid : Nat} {etag : Bytes}

/-- The entries of a stage come from the archive it has opened. -/
theorem Stage.entries_nextFile {o : FileOp} {r : o.Reply} {entries : List ZipEntry}
    (h : (st.nextFile o r).entries = some entries) :
    st.entries = some entries ∨ (o = .openZip ∧ r ≍ (.ok entries : Archive)) := by
  unfold Stage.nextFile at h
  split at h
  · cases st <;> exact .inl h
  · cases st with
    | clearing pid rest => cases rest <;> cases h
    | _ => exact .inl h
  · rename_i ok
    cases st <;> first | exact .inl h | (cases ok <;> first | exact .inl h | cases h)
  · rename_i archive
    split at h
    · cases h
      exact .inr ⟨rfl, HEq.rfl⟩
    · cases h
    · exact .inl h
  · rename_i reply
    cases st <;> first | exact .inl h | (cases reply <;> first | exact .inl h | cases h)
  · cases st <;> first | exact .inl h | cases h
  · exact .inl h

/-- The lock of a search is taken in the lock operation, and given up at the close. -/
theorem Search.locks_next {o : Op} {r : o.Reply} {s' : Search} (h : s.Moves o r s') (hs : s'.locks = some pid) :
    (s.locks = some pid ∧ ∀ pid', o ≠ .lock (.work pid') .close) ∨
      (o = .lock (.work pid) .lock ∧ r ≍ true) := by
  cases h with
  | stays h =>
    refine .inl ⟨hs, ?_⟩
    rintro pid' rfl
    cases s <;> cases hs <;> cases h
  | unready => exact .inl ⟨hs, nofun⟩
  | renames => exact .inl ⟨hs, nofun⟩
  | creates => exact .inl ⟨hs, nofun⟩
  | locks =>
    cases hs
    exact .inr ⟨rfl, HEq.rfl⟩
  | _ => cases hs

/-- The ETag that is expected is the one next to the zip. -/
theorem Search.etag_next {o : Op} {r : o.Reply} {s' : Search} (h : s.Moves o r s') (hs : s'.etag = some etag) :
    s.etag = some etag ∨ ∃ pid content, o = .file pid (.readFile .zipETag) ∧ r ≍ (content : Option Bytes) ∧
      trimSpaces (content.getD []) = etag := by
  cases h with
  | expects => exact .inr ⟨_, _, rfl, HEq.rfl, Option.some.inj hs⟩
  | closes h =>
    cases hs
    exact .inl h
  | returns => cases hs
  | stays h => exact .inl hs
  | _ => exact .inl hs

/-- How a search comes to expect something of a directory. -/
inductive Search.Gains (pid : Nat) (etag : Bytes) : Search → (o : Op) → o.Reply → Option Bytes → Prop where
  | renames : Gains pid etag (.unpacks pid etag) (.file pid .rename) true none
  | creates : Gains pid etag (.moved pid etag) (.file pid (.create .readyETag)) true (some [])
  | marks : Gains pid etag (.created pid etag) (.file pid (.write .readyETag etag)) true (some etag)
  | matches {b : Bytes} (h : trimSpaces b = trimSpaces etag) :
      Gains pid etag (.seeks pid etag) (.file pid (.readFile .readyETag)) (some b) (some etag)
  | ready : Gains pid etag (.locked pid etag) (.file pid .statReady) true (some etag)
  | joins : Gains pid etag (.seeks pid etag) (.flight (.uz pid)) (some true) (some etag)

theorem Search.claim_next {o : Op} {r : o.Reply} {s' : Search} {mark : Option Bytes} (h : s.Moves o r s')
    (hs : s'.claim = some (pid, etag, mark)) :
    (s.claim = some (pid, etag, mark) ∧ s.next o r = s) ∨ s.Gains pid etag o r mark := by
  cases h with
  | stays h => exact .inl ⟨hs, h⟩
  | «matches» h =>
    cases hs
    exact .inr (.matches h)
  | joins =>
    cases hs
    exact .inr .joins
  | ready =>
    cases hs
    exact .inr .ready
  | renames =>
    cases hs
    exact .inr .renames
  | creates =>
    cases hs
    exact .inr .creates
  | marks =>
    cases hs
    exact .inr .marks
  | _ => cases hs

/-- A claim that is not the result of a search holds the lock. -/
theorem Search.locks_of_claim {mark : Option Bytes} (h : s.claim = some (pid, etag, mark)) :
    s.locks = some pid ∨ s = .found pid etag ∧ mark = some etag := by
  cases s <;> cases h
  · exact .inl rfl
  · exact .inl rfl
  · exact .inr ⟨rfl, rfl⟩

theorem Search.etag_of_claim {mark : Option Bytes} (h : s.claim = some (pid, etag, mark)) :
    s.etag = some etag := by
  cases s <;> cases h <;> rfl

theorem InStep.start (self : Self) : InStep zipOf (⟨self, .idle⟩, .pending) where
  locks pid h := by cases h
  closed pid etag h := by cases h
  opened pid etag entries h := by cases h

/-- The lock that a stage holds after an operation. -/
theorem Stage.holds_next {o : Op} {r : o.Reply} (hclose : ∀ pid', o ≠ .lock (.work pid') .close)
    (ha : st.Allows o) (h : st.holds = some pid) : (st.next o r).holds = some pid := by
  cases o with
  | file pid' o => exact (Stage.holds_nextFile st o r).trans h
  | lock file o =>
    cases file with
    | zip pid' => cases o <;> exact h
    | work pid' =>
      cases o with
      | «open» =>
        -- a goroutine opens the lock file only when it holds none
        obtain rfl : st = .idle := ha
        cases h
      | lock =>
        obtain rfl : st = .opened pid' := ha
        cases h
      | close => exact absurd rfl (hclose pid')
      | remove => exact h
  | _ => exact h

/-- An operation keeps stage and search in step, if it opens the zip that is expected. -/
theorem InStep.next {g : Progress × Search} {o : Op} {r : o.Reply} (h : InStep zipOf g)
    (ha : g.1.stage.Allows o) (hb : g.2.Allows o)
    (hzip : ∀ pid etag entries, g.2 = .unpacks pid etag → o = .file pid .openZip →
      r ≍ (.ok entries : Archive) → zipOf etag = .ok entries) :
    InStep zipOf (⟨g.1.self, g.1.stage.next o r⟩, g.2.next o r) := by
  obtain ⟨⟨self, st⟩, s⟩ := g
  have hmoves := Search.moves_next hb r
  refine ⟨?_, ?_, ?_⟩
  · intro pid hl
    rcases Search.locks_next hmoves hl with ⟨hold, hclose⟩ | ⟨rfl, hr⟩
    · exact Stage.holds_next hclose ha (h.locks pid hold)
    · obtain rfl := eq_of_heq hr
      rfl
  · intro pid etag hs
    -- either the lock has just been taken, or nothing has been opened since
    generalize hn : s.next o r = s' at hmoves hs
    cases hmoves with
    | stays hsame =>
      have hlocked : s = .locked pid etag := (hsame.symm.trans hn).trans hs
      subst hlocked
      have hnone := h.closed pid etag rfl
      cases o with
      | file pid' o =>
        cases he : (st.nextFile o r).entries with
        | none => exact he
        | some entries =>
          rcases Stage.entries_nextFile he with hold | ⟨rfl, -⟩
          · exact absurd (hnone.symm.trans hold) nofun
          · obtain ⟨etag', hun⟩ := hb
            cases hun
      | lock file o =>
        cases file with
        | zip pid' => cases o <;> exact hnone
        | work pid' =>
          cases o with
          | «open» =>
            obtain ⟨etag', hun⟩ := hb
            cases hun
          | lock =>
            obtain ⟨etag', hun⟩ := hb
            cases hun
          | close => rfl
          | remove => exact hnone
      | _ => exact hnone
    | locks => rfl
    | _ => cases hs
  · intro pid etag entries hs he
    generalize hn : s.next o r = s' at hmoves hs
    cases hmoves with
    | stays hsame =>
      have hunpacks : s = .unpacks pid etag := (hsame.symm.trans hn).trans hs
      subst hunpacks
      cases o with
      | file pid' o =>
        rcases Stage.entries_nextFile he with hold | ⟨rfl, hr⟩
        · exact h.opened pid etag entries rfl hold
        · obtain ⟨etag', hun⟩ := hb
          cases hun
          exact hzip pid etag entries rfl rfl hr
      | lock file o =>
        cases file with
        | zip pid' => cases o <;> exact h.opened pid etag entries rfl he
        | work pid' =>
          cases o with
          | «open» =>
            obtain ⟨etag', hun⟩ := hb
            cases hun
          | lock =>
            obtain ⟨etag', hun⟩ := hb
            cases hun
          | close => cases he
          | remove => exact h.opened pid etag entries rfl he
      | _ => exact h.opened pid etag entries rfl he
    | unready =>
      cases hs
      -- under the lock nothing has been opened yet
      have hnone := h.closed pid etag rfl
      exact absurd (hnone.symm.trans he) nofun
    | _ => cases hs

end Records

/-! ## Operations -/

section Operations

variable {cfg : ManagerConfig} {w w' : Workspace} {self : Self} {p : Pick}

/-- The workspace without what has been returned so far. -/
def Workspace.forget (w : Workspace) : Workspace := { w with answers := [] }

/-- No operation reads what has been returned. -/
theorem perform_forget {o : Op} {r : o.Reply} (hne : ∀ pid how, o ≠ .ret pid how)
    (hp : perform cfg w self o p = some (w', r)) :
    perform cfg w.forget self o p = some (w'.forget, r) := by
  cases o with
  | ret pid how => exact absurd rfl (hne pid how)
  | file pid o =>
    obtain ⟨c, hc, rfl⟩ := perform_file hp
    have hfiles : (w.forget.files pid).perform cfg (cfg.tmpDir pid) o p = some (c, r) := hc
    simp only [perform, hfiles]
    rfl
  | touch pid etag zipPath workDir =>
    simp only [perform] at hp
    split at hp
    · rename_i hfree
      cases hp
      simp only [perform]
      rw [if_pos (show w.forget.cacheMu self.proc = none from hfree)]
      rfl
    · cases hp
  | lock file o =>
    cases o with
    | «open» =>
      simp only [perform, Workspace.performLock] at hp ⊢
      split at hp
      · rename_i hok
        cases hp
        rw [if_pos hok]
        unfold Workspace.openLock
        have hlocks : w.forget.locks file = w.locks file := rfl
        rw [hlocks]
        cases w.locks file <;> rfl
      · rename_i hok
        cases hp
        rw [if_neg hok]
    | lock =>
      simp only [perform, Workspace.performLock] at hp ⊢
      have hinode : w.forget.inode self file = w.inode self file := rfl
      rw [hinode]
      cases hk : w.inode self file with
      | none =>
        simp only [hk] at hp ⊢
        cases hp
        rfl
      | some k =>
        simp only [hk] at hp ⊢
        split at hp
        · rename_i hfree
          cases hp
          rw [if_pos (show w.forget.holder file k = none from hfree)]
          rfl
        · rename_i hheld
          split at hp
          · cases hp
          · rename_i hok
            cases hp
            rw [if_neg (show ¬ w.forget.holder file k = none from hheld), if_neg hok]
    | close =>
      cases hp
      rfl
    | remove =>
      cases hp
      rfl
  | _ =>
    cases hp
    rfl

theorem forget_ret {pid : Nat} {how : Return} {r : Unit}
    (hp : perform cfg w self (.ret pid how) p = some (w', r)) : w'.forget = w.forget := by
  simp only [perform] at hp
  split at hp <;> cases hp <;> rfl

end Operations

/-! ## The invariant -/

/-- What holds in every state that is reached undisturbed. -/
structure Kept (cfg : ManagerConfig) (zipOf : Bytes → Archive) (s : SearchConfig) : Prop where
  inv : Inv cfg s.world.1.forget (s.threads.map (·.1.1))
  labelled : ∀ pid, Labelled cfg zipOf pid (s.world.1.files pid)
  inStep : ∀ t ∈ s.threads, InStep zipOf t.1
  wants : ∀ t ∈ s.threads, ∀ etag, t.1.2.etag = some etag →
    s.world.2 t.1.1.self = etag ∧ trimSpaces etag = etag ∧ etag ≠ []
  claims : ∀ t ∈ s.threads, Live s.world.1 t.1.1.self → t.2.next.isSome = true → ∀ pid etag mark,
    t.1.2.claim = some (pid, etag, mark) → Claimed cfg zipOf pid (s.world.1.files pid) etag mark

/-- Goroutine `i` performs an operation, undisturbed. -/
structure Turn (cfg : ManagerConfig) (zipOf : Bytes → Archive) (s : SearchConfig) (i : Nat) (me : Self)
    (st : Stage) (sr : Search) (o : Op) (k : o.Reply → FileProgram Unit) (p : Pick) (w' : Workspace)
    (r : o.Reply) : Prop where
  thread : s.threads[i]? = some ((⟨me, st⟩, sr), .call (me, o) k)
  live : Live s.world.1 me
  stage : st.Allows o
  search : sr.Allows o
  undisturbed : UndisturbedOp cfg zipOf s sr (s.world.2 me) p o
  performed : perform cfg s.world.1 me o p = some (w', r)

section Turns

variable {cfg : ManagerConfig} {zipOf : Bytes → Archive} {s : SearchConfig} {i : Nat} {me : Self}
  {st : Stage} {sr : Search} {o : Op} {k : o.Reply → FileProgram Unit} {p : Pick} {w' : Workspace}
  {r : o.Reply} {pid : Nat} {etag : Bytes} {mark : Option Bytes}

namespace Turn

theorem mem (ht : Turn cfg zipOf s i me st sr o k p w' r) :
    ((⟨me, st⟩, sr), .call (me, o) k) ∈ s.threads := List.mem_of_getElem? ht.thread

/-- What the goroutine expects is the ETag of its download. -/
theorem wants (ht : Turn cfg zipOf s i me st sr o k p w' r) (h : Kept cfg zipOf s)
    (he : sr.etag = some etag) : s.world.2 me = etag ∧ trimSpaces etag = etag ∧ etag ≠ [] :=
  h.wants _ ht.mem etag he

theorem claim (ht : Turn cfg zipOf s i me st sr o k p w' r) (h : Kept cfg zipOf s)
    (hc : sr.claim = some (pid, etag, mark)) :
    Claimed cfg zipOf pid (s.world.1.files pid) etag mark :=
  h.claims _ ht.mem ht.live rfl pid etag mark hc

end Turn

/-- What a goroutine comes to expect of a directory holds of it. -/
theorem Kept.gains (h : Kept cfg zipOf s) (ht : Turn cfg zipOf s i me st sr o k p w' r)
    (hg : sr.Gains pid etag o r mark) : Claimed cfg zipOf pid (w'.files pid) etag mark := by
  have hself : ∀ c, (s.world.1.setFiles pid c).files pid = c := fun c => Function.update_self ..
  cases hg with
  | renames =>
    obtain ⟨c, hc, rfl⟩ := perform_file ht.performed
    obtain ⟨entries, counts, rfl⟩ := ht.stage
    rw [hself]
    -- the stage says what is in `tmpDir`, the search from which zip
    have htmp : TmpIs cfg pid (s.world.1.files pid) (.unzipping pid entries [] counts) :=
      h.inv.tmp _ (List.mem_map_of_mem ht.mem) ht.live pid rfl
    have hzip := (h.inStep _ ht.mem).opened pid etag entries rfl rfl
    exact claimed_rename htmp.1 hzip ht.undisturbed hc
  | creates =>
    obtain ⟨c, hc, rfl⟩ := perform_file ht.performed
    rw [hself]
    have hold := ht.claim h rfl
    cases step_of_perform hc with
    | created hcreate => exact hold.create hcreate
  | marks =>
    obtain ⟨c, hc, rfl⟩ := perform_file ht.performed
    rw [hself]
    have hold := ht.claim h rfl
    cases step_of_perform hc with
    | written => exact hold.write
  | «matches» hb =>
    obtain ⟨c, hc, rfl⟩ := perform_file ht.performed
    rw [hself]
    rename_i b
    obtain ⟨hwant, htrim, hne⟩ := ht.wants h rfl
    simp only [CaseFiles.perform, Option.some.injEq, Prod.mk.injEq] at hc
    obtain ⟨rfl, hread⟩ := hc
    have htorn := ht.undisturbed b hread (hwant.symm ▸ hb)
    -- a label that matches is the ETag itself
    have hnil : b ≠ [] := by
      rintro rfl
      exact hne (htrim.symm.trans (hb.symm.trans rfl))
    obtain ⟨d, hd, -⟩ := read_readyETag.mp hread
    have hbe : b = etag := (h.labelled pid d b hd htorn hread hnil).1.symm.trans (hb.trans htrim)
    subst hbe
    exact (h.labelled pid).claim htorn hread hne
  | ready =>
    obtain ⟨c, hc, rfl⟩ := perform_file ht.performed
    rw [hself]
    obtain ⟨rfl, -, hne⟩ := ht.wants h rfl
    simp only [CaseFiles.perform, Option.some.injEq, Prod.mk.injEq] at hc
    obtain ⟨rfl, hready⟩ := hc
    have hbears := ht.undisturbed rfl hready
    exact (h.labelled pid).claim hbears.1 hbears.2 hne
  | joins =>
    obtain ⟨rfl, -, hne⟩ := ht.wants h rfl
    have hp := ht.performed
    simp only [perform, Option.some.injEq, Prod.mk.injEq] at hp
    obtain ⟨rfl, hjoined⟩ := hp
    have hbears := ht.undisturbed hjoined
    exact (h.labelled pid).claim hbears.1 hbears.2 hne

/-- Of two goroutines with the lock of one directory, or one with the lock and one that claims
it, the second has found it ready. -/
theorem Kept.sole (h : Kept cfg zipOf s) (ht : Turn cfg zipOf s i me st sr o k p w' r)
    (hl : sr.locks = some pid) {j : Nat} {t : (Progress × Search) × FileProgram Unit}
    (hj : s.threads[j]? = some t) (hlive : Live s.world.1 t.1.1.self)
    (hclaim : t.1.2.claim = some (pid, etag, mark)) : j = i ∨ mark = some etag := by
  rcases Search.locks_of_claim hclaim with hlocks | ⟨-, hmark⟩
  · refine .inl ?_
    have hi' : (s.threads.map (·.1.1))[i]? = some ⟨me, st⟩ := by simp [ht.thread]
    have hj' : (s.threads.map (·.1.1))[j]? = some t.1.1 := by simp [hj]
    have hmine := (h.inStep _ ht.mem).locks pid hl
    have htheirs := (h.inStep t (List.mem_of_getElem? hj)).locks pid hlocks
    exact h.inv.exclusive hj' hi' hlive ht.live htheirs hmine
  · exact .inr hmark

/-- A claim of a goroutine that does not make a move of its own stays true. -/
theorem Kept.stays (h : Kept cfg zipOf s) (ht : Turn cfg zipOf s i me st sr o k p w' r) {j : Nat}
    {t : (Progress × Search) × FileProgram Unit} (hj : s.threads[j]? = some t)
    (hlive : Live s.world.1 t.1.1.self) (hrun : t.2.next.isSome = true)
    (hclaim : t.1.2.claim = some (pid, etag, mark)) (hown : j = i → sr.next o r = sr) :
    Claimed cfg zipOf pid (w'.files pid) etag mark := by
  have hmem := List.mem_of_getElem? hj
  have hc := h.claims t hmem hlive hrun pid etag mark hclaim
  have hne : etag ≠ [] := (h.wants t hmem etag (Search.etag_of_claim hclaim)).2.2
  by_cases hfile : ∃ pid' fo, o = .file pid' fo
  · obtain ⟨pid', fo, rfl⟩ := hfile
    obtain ⟨c, hperf, rfl⟩ := perform_file ht.performed
    by_cases hpid : pid = pid'
    · subst hpid
      have hself : (s.world.1.setFiles pid c).files pid = c := Function.update_self ..
      rw [hself]
      by_cases hch : fo.Changes
      · cases step_of_perform hperf with
        | @created f =>
          cases f with
          | readyETag =>
            obtain ⟨etag', rfl⟩ := ht.search
            -- whoever creates the label holds the lock, and there is none yet
            rcases h.sole ht rfl hj hlive hclaim with hji | hmark
            · cases hown hji
            · obtain ⟨d, hd, -, hread⟩ := hc.work
              obtain ⟨d', hd', -, hread'⟩ := (ht.claim h rfl).work
              rw [hread', hmark] at hread
              cases hread
          | _ => exact hch.elim
        | written f content =>
          cases f with
          | readyETag =>
            have hsr : sr = .created pid content := ht.search
            subst hsr
            rcases h.sole ht rfl hj hlive hclaim with hji | hmark
            · cases hown hji
            · obtain ⟨d, hd, -, hread⟩ := hc.work
              obtain ⟨d', hd', -, hread'⟩ := (ht.claim h rfl).work
              rw [hread', hmark] at hread
              exact absurd (Option.some.inj hread).symm hne
          | _ => exact hch.elim
        | removed f =>
          cases f with
          | readyETag => exact absurd rfl (ht.undisturbed t hmem hlive hrun _ hclaim)
          | _ => exact hch.elim
        | unlinked dir q =>
          cases dir with
          | work => exact absurd rfl (ht.undisturbed t hmem hlive hrun _ hclaim)
          | tmp => exact hch.elim
        | renamed =>
          obtain ⟨etag', rfl⟩ := ht.search
          rcases h.sole ht rfl hj hlive hclaim with hji | hmark
          · subst hji
            rw [ht.thread] at hj
            cases hj
            cases hclaim
          · -- a directory with a label is not replaced
            obtain ⟨d, hd, -, hread⟩ := hc.work
            rw [rename_refused (hread.trans hmark) hperf]
            exact hc
        | notCreated => exact hc
        | notWritten => exact hc
        | notRenamed => exact hc
        | _ => exact hch.elim
      · exact hc.steady (steady_perform hch hperf)
    · have hother : (s.world.1.setFiles pid' c).files pid = s.world.1.files pid := Function.update_of_ne hpid ..
      rw [hother]
      exact hc
  · have hfiles := perform_files (fun pid' fo heq => hfile ⟨pid', fo, heq⟩) ht.performed
    rw [hfiles]
    exact hc

/-- An operation keeps the labels right. -/
theorem Kept.labels (h : Kept cfg zipOf s) (ht : Turn cfg zipOf s i me st sr o k p w' r) (pid : Nat) :
    Labelled cfg zipOf pid (w'.files pid) := by
  by_cases hfile : ∃ pid' fo, o = .file pid' fo
  · obtain ⟨pid', fo, rfl⟩ := hfile
    obtain ⟨c, hperf, hw⟩ := perform_file ht.performed
    by_cases hpid : pid = pid'
    · subst hpid
      have hself : w'.files pid = c := by
        rw [hw]
        exact Function.update_self ..
      have hold := h.labelled pid
      by_cases hch : fo.Changes
      · cases step_of_perform hperf with
        | @created f _ hcreate =>
          cases f with
          | readyETag =>
            rw [hself]
            exact Labelled.create hcreate
          | _ => exact hch.elim
        | written f content =>
          cases f with
          | readyETag =>
            have hsr : sr = .created pid content := ht.search
            subst hsr
            refine (h.gains ht .marks).labelled (ht.wants h rfl).2.1 fun b hb _ => ?_
            exact (Option.some.inj hb).symm
          | _ => exact hch.elim
        | removed f =>
          cases f with
          | readyETag =>
            rw [hself]
            exact hold.remove
          | _ => exact hch.elim
        | unlinked dir q =>
          cases dir with
          | work =>
            rw [hself]
            exact hold.unlink q
          | tmp => exact hch.elim
        | renamed =>
          obtain ⟨etag, rfl⟩ := ht.search
          exact (h.gains ht .renames).labelled (ht.wants h rfl).2.1 fun b hb => by cases hb
        | notCreated =>
          rw [hself]
          exact hold
        | notWritten =>
          rw [hself]
          exact hold
        | notRenamed =>
          rw [hself]
          exact hold
        | _ => exact hch.elim
      · rw [hself]
        exact hold.steady (steady_perform hch hperf)
    · have hother : w'.files pid = s.world.1.files pid := by
        rw [hw]
        exact Function.update_of_ne hpid ..
      rw [hother]
      exact h.labelled pid
  · have hfiles := perform_files (fun pid' fo heq => hfile ⟨pid', fo, heq⟩) ht.performed
    rw [hfiles]
    exact h.labelled pid

/-- An operation on a problem's zip is the only one that opens it. -/
theorem Turn.opens (ht : Turn cfg zipOf s i me st sr o k p w' r) (h : Kept cfg zipOf s)
    {entries : List ZipEntry} (hsr : sr = .unpacks pid etag) (ho : o = .file pid .openZip)
    (hr : r ≍ (.ok entries : Archive)) : zipOf etag = .ok entries := by
  subst hsr ho
  obtain rfl := eq_of_heq hr
  obtain ⟨rfl, -, -⟩ := ht.wants h rfl
  obtain ⟨c, hperf, -⟩ := perform_file ht.performed
  generalize hreply : (.ok entries : Archive) = reply at hperf
  cases step_of_perform hperf with
  | opened hz => exact (ht.undisturbed _ hz).symm
  | notOpened => cases hreply

/-- What the ETag of a download is stays so until `Prepare` has returned. -/
theorem Turn.etags (ht : Turn cfg zipOf s i me st sr o k p w' r) {self : Self}
    (hself : self ≠ me ∨ sr.etag = some etag) :
    noteETag s.world.2 (me, o) p self = s.world.2 self := by
  have hkeep : ∀ b : Bytes, sr = .pending → Function.update s.world.2 me b self = s.world.2 self := by
    rintro b rfl
    rcases hself with hne | hetag
    · exact Function.update_of_ne hne ..
    · cases hetag
  cases o with
  | statObject pid => exact hkeep _ ht.search
  | flight key =>
    cases key with
    | dl pid => exact hkeep _ ht.search
    | uz pid => rfl
  | _ => rfl

/-- An operation keeps the invariant. -/
theorem Kept.call (h : Kept cfg zipOf s) (ht : Turn cfg zipOf s i me st sr o k p w' r) :
    Kept cfg zipOf ⟨(w', noteETag s.world.2 (me, o) p),
      s.threads.set i ((⟨me, st.next o r⟩, sr.next o r), k r)⟩ := by
  have hi' : (s.threads.map (·.1.1))[i]? = some ⟨me, st⟩ := by simp [ht.thread]
  have hepochs := perform_epochs ht.performed
  have hlive : ∀ {self}, Live w' self → Live s.world.1 self := fun hl => by
    unfold Live at hl ⊢
    rwa [hepochs] at hl
  -- the others are other goroutines
  have hdistinct : ∀ (j : Nat) (t : (Progress × Search) × FileProgram Unit), j ≠ i →
      s.threads[j]? = some t → t.1.1.self ≠ me := by
    intro j t hne hj hself
    have hj' : (s.threads.map (·.1.1))[j]? = some t.1.1 := by simp [hj]
    exact hne (h.inv.distinct j i t.1.1 ⟨me, st⟩ hj' hi' hself)
  refine ⟨?_, h.labels ht, ?_, ?_, ?_⟩
  · by_cases hret : ∃ pid how, o = .ret pid how
    · obtain ⟨pid, how, rfl⟩ := hret
      show Inv cfg w'.forget _
      rw [forget_ret ht.performed, List.map_set]
      have hsame := set_same hi'
      simp only [Stage.next]
      rw [hsame]
      exact h.inv
    · have hperf := perform_forget (fun pid how heq => hret ⟨pid, how, heq⟩) ht.performed
      have hcareful : CarefulOp s.world.1.forget o := by
        unfold CarefulOp
        split
        · exact absurd ⟨_, _, rfl⟩ hret
        · exact ht.undisturbed
        · trivial
      have hinv := h.inv.perform hi' ht.live ht.stage hcareful hperf
      rw [List.map_set]
      exact hinv
  · intro t hmem
    rcases mem_set hmem with rfl | ⟨j, hne, hj⟩
    · exact (h.inStep _ ht.mem).next ht.stage ht.search fun pid etag entries hsr ho hr =>
        ht.opens h hsr ho hr
    · exact h.inStep t (List.mem_of_getElem? hj)
  · intro t hmem etag hetag
    rcases mem_set hmem with rfl | ⟨j, hne, hj⟩
    · rcases Search.etag_next (Search.moves_next ht.search r) hetag with hold | ⟨pid, content, rfl, hr, hread⟩
      · show noteETag s.world.2 (me, o) p me = etag ∧ _
        rw [ht.etags (.inr hold)]
        exact ht.wants h hold
      · -- the ETag that is read next to the zip is the one of the download
        obtain rfl := eq_of_heq hr
        obtain ⟨c, hperf, -⟩ := perform_file ht.performed
        simp only [CaseFiles.perform, Option.some.injEq, Prod.mk.injEq] at hperf
        obtain ⟨-, rfl⟩ := hperf
        obtain ⟨hsame, htrim, hnil⟩ := ht.undisturbed
        have hetag' : s.world.2 me = etag := hsame.symm.trans hread
        exact ⟨hetag', hetag' ▸ htrim, hetag' ▸ hnil⟩
    · have hother := hdistinct j t hne hj
      show noteETag s.world.2 (me, o) p t.1.1.self = etag ∧ _
      rw [ht.etags (.inl hother : _ ∨ sr.etag = some etag)]
      exact h.wants t (List.mem_of_getElem? hj) etag hetag
  · intro t hmem hl hrun pid etag mark hclaim
    rcases mem_set hmem with rfl | ⟨j, hne, hj⟩
    · rcases Search.claim_next (Search.moves_next ht.search r) hclaim with ⟨hold, hsame⟩ | hgain
      · exact h.stays ht ht.thread ht.live rfl hold fun _ => hsame
      · exact h.gains ht hgain
    · exact h.stays ht hj (hlive hl) hrun hclaim fun hji => absurd hji hne

end Turns

/-! ## Runs -/

section Runs

variable {cfg : ManagerConfig} {zipOf : Bytes → Archive} {s s' : SearchConfig}

/-- Every goroutine keeps the rules. -/
theorem prepare_disciplined : (downloaders cfg).Disciplined prepareRecorder prepareRules := by
  refine Disciplined.ghost (Disciplined.both disciplined ?_)
  refine ⟨?_, fun e p hp => by cases hp⟩
  intro w v w' ps hv p hp
  cases v with
  | start self pid =>
    simp only [workers, happen] at hv
    split at hv <;> cases hv
    obtain rfl := List.mem_singleton.mp hp
    exact heeds_mono (fun _ _ _ => trivial) seeks_executeTask.heeds
  | crash proc =>
    cases hv
    cases hp

theorem Kept.start : Kept cfg zipOf searchStart where
  inv := Inv.empty
  labelled pid d b hd := by cases hd
  inStep t ht := by cases ht
  wants t ht := by cases ht
  claims t ht := by cases ht

/-- A move keeps the invariant. -/
theorem Kept.move (h : Kept cfg zipOf s) (hheed : AllHeed prepareRecorder prepareRules s)
    {m : Move Pick Event} (hok : Undisturbed cfg zipOf s m) (hstep : searchStep cfg s m = some s') :
    Kept cfg zipOf s' := by
  obtain ⟨i, p, g, e, k, w, r, rfl, hi, hsem, rfl⟩ | ⟨i, rfl, rfl⟩ | ⟨v, w, ps, rfl, hv, rfl⟩ :=
    record_cases hstep
  · obtain ⟨⟨hself, hstage⟩, hsearch⟩ := hheed.allowed hi
    obtain ⟨⟨me, st⟩, sr⟩ := g
    obtain ⟨self, o⟩ := e
    obtain rfl : self = me := hself
    obtain ⟨hsem, hghost⟩ := sem_ghost hsem
    obtain ⟨w', etags⟩ := w
    obtain rfl : etags = noteETag s.world.2 (self, o) p := hghost
    simp only [workers, sem] at hsem
    split at hsem
    · rename_i hl
      simp only [Undisturbed, hi] at hok
      have ht : Turn cfg zipOf s i self st sr o k p w' r := ⟨hi, hl, hstage, hsearch, hok, hsem⟩
      simpa [downloaders, ghost, workers, recorder, searchRecorder, Recorder.both] using h.call ht
    · cases hsem
  · -- a goroutine that is killed claims nothing any more
    have hrecords : (s.threads.modify i fun t => (t.1, .ret ())).map (·.1.1) = s.threads.map (·.1.1) := by
      have hr := congrArg (List.map Prod.fst) (records_crash s.threads i)
      simpa only [List.map_map, Function.comp_def] using hr
    have hback : ∀ t ∈ s.threads.modify i fun t => (t.1, .ret ()),
        t ∈ s.threads ∨ ∃ t₀ ∈ s.threads, t = (t₀.1, .ret ()) := by
      intro t ht
      obtain ⟨n, hn⟩ := List.getElem?_of_mem ht
      rw [List.getElem?_modify] at hn
      obtain ⟨t₀, ht₀, heq⟩ := Option.map_eq_some_iff.mp hn
      by_cases hin : i = n
      · rw [if_pos hin] at heq
        exact .inr ⟨t₀, List.mem_of_getElem? ht₀, heq.symm⟩
      · rw [if_neg hin] at heq
        exact .inl (heq ▸ List.mem_of_getElem? ht₀)
    refine ⟨hrecords ▸ h.inv, h.labelled, ?_, ?_, ?_⟩
    · intro t ht
      rcases hback t ht with ht | ⟨t₀, ht₀, rfl⟩
      · exact h.inStep t ht
      · exact h.inStep t₀ ht₀
    · intro t ht
      rcases hback t ht with ht | ⟨t₀, ht₀, rfl⟩
      · exact h.wants t ht
      · exact h.wants t₀ ht₀
    · intro t ht hl hrun
      rcases hback t ht with ht | ⟨t₀, ht₀, rfl⟩
      · exact h.claims t ht hl hrun
      · cases hrun
  · obtain ⟨hv, hghost⟩ := env_ghost hv
    obtain ⟨w, etags⟩ := w
    obtain rfl : etags = s.world.2 := hghost
    cases v with
    | start self pid =>
      simp only [workers, happen] at hv
      split at hv <;> cases hv
      rename_i hnew
      have hmem : ∀ t ∈ s.threads ++ [executeTask self pid].map fun p => (prepareRecorder.start (.start self pid), p),
          t ∈ s.threads ∨ t = ((⟨self, .idle⟩, .pending), executeTask self pid) := by
        intro t ht
        rcases List.mem_append.mp ht with ht | ht
        · exact .inl ht
        · exact .inr (List.mem_singleton.mp ht)
      refine ⟨?_, h.labelled, ?_, ?_, ?_⟩
      · simpa [recorder, searchRecorder, Recorder.both, Workspace.forget] using h.inv.start hnew.1 hnew.2
      · intro t ht
        rcases hmem t ht with ht | rfl
        · exact h.inStep t ht
        · exact InStep.start self
      · intro t ht etag hetag
        rcases hmem t ht with ht | rfl
        · exact h.wants t ht etag hetag
        · cases hetag
      · intro t ht hl hrun pid' etag mark hclaim
        rcases hmem t ht with ht | rfl
        · exact h.claims t ht hl hrun pid' etag mark hclaim
        · cases hclaim
    | crash proc =>
      cases hv
      -- whoever lives after the crash lived before
      have hlive : ∀ t ∈ s.threads, Live (s.world.1.crash proc) t.1.1.self → Live s.world.1 t.1.1.self := by
        intro t ht hl
        have hpast : t.1.1.self.epoch ≤ s.world.1.epochs t.1.1.self.proc :=
          h.inv.past t.1.1 (List.mem_map_of_mem ht)
        unfold Live at hl ⊢
        by_cases hp : t.1.1.self.proc = proc
        · have hnew : (s.world.1.crash proc).epochs proc = s.world.1.epochs proc + 1 := Function.update_self ..
          rw [hp] at hl hpast
          omega
        · have hsame : (s.world.1.crash proc).epochs t.1.1.self.proc = s.world.1.epochs t.1.1.self.proc :=
            Function.update_of_ne hp ..
          exact hsame ▸ hl
      show Kept cfg zipOf ⟨(s.world.1.crash proc, s.world.2), s.threads ++ []⟩
      rw [List.append_nil]
      exact ⟨h.inv.crash proc, h.labelled, h.inStep, h.wants, fun t ht hl hrun => h.claims t ht (hlive t ht hl) hrun⟩

/-- In a run that disturbs no goroutine in `Prepare`, the directory it returns after a download is
fresh. -/
theorem prepare_fresh (cfg : ManagerConfig) (zipOf : Bytes → Archive) {s : SearchConfig}
    (h : Run (searchStep cfg) (Undisturbed cfg zipOf) searchStart s) : PrepareIsFresh cfg zipOf s := by
  have hinv : AllHeed prepareRecorder prepareRules s ∧ Kept cfg zipOf s := by
    refine h.invariant (J := fun s => AllHeed prepareRecorder prepareRules s ∧ Kept cfg zipOf s) ?_ ?_
    · exact ⟨fun t ht => absurd ht List.not_mem_nil, Kept.start⟩
    · intro s s' m hJ hok hstep
      exact ⟨prepare_disciplined.record hJ.1 (fun _ _ _ _ _ _ _ _ _ _ => ⟨trivial, trivial⟩)
        (fun _ _ _ _ => ⟨trivial, trivial⟩) hstep, hJ.2.move hJ.1 hok hstep⟩
  obtain ⟨hheed, hkept⟩ := hinv
  intro t ht self pid how hnext hl hhow hsr
  obtain ⟨⟨⟨me, st⟩, sr⟩, prog⟩ := t
  cases prog with
  | ret a => cases hnext
  | call e k =>
    cases hnext
    obtain ⟨⟨hself, -⟩, hanswers⟩ := (hheed _ ht).1
    obtain rfl : self = me := hself
    rcases hanswers with hfailed | hpending | ⟨etag, hetag, hnil⟩ | ⟨etag, hfound⟩
    · exact absurd hfailed hhow
    · exact absurd hpending hsr
    · obtain ⟨-, htrim, hne⟩ := hkept.wants _ ht etag hetag
      exact absurd (htrim.symm.trans hnil) hne
    · obtain rfl : sr = .found pid etag := hfound
      obtain ⟨hetag, -, -⟩ := hkept.wants _ ht etag rfl
      rw [show s.world.2 self = etag from hetag]
      exact (hkept.claims _ ht hl rfl pid etag _ rfl).work

/-- The return statement an operation is. -/
def Op.returning : Op → Option (Nat × Return)
  | .ret pid how => some (pid, how)
  | _ => none

theorem Op.returning_iff {o : Op} {pid : Nat} {how : Return} :
    o.returning = some (pid, how) ↔ o = .ret pid how := by
  cases o <;> simp [Op.returning]

/-- A goroutine is about to return the directory of problem 1, with this ETag. -/
def Returning (s : SearchConfig) (serial : Nat) (etag : Bytes) : Prop :=
  ∃ t ∈ s.threads, t.1.2 = .found 1 etag ∧
    ∃ e ∈ t.2.next, e.1 = ⟨0, 0, serial⟩ ∧ Live s.world.1 e.1 ∧ e.2.returning = some (1, .fromReady)

instance (s : SearchConfig) (serial : Nat) (etag : Bytes) : Decidable (Returning s serial etag) :=
  inferInstanceAs (Decidable (∃ _ ∈ _, _))

/-- Problem 1 has had two archives. -/
def twoZips (etag : Bytes) : Archive :=
  if etag = utf8 "e" then .ok oneCase else .ok [.ofFile "1.in" "2", .ofFile "1.out" "2"]

/-- A second task finds the directory that the first one has extracted. -/
def foundAgain : List (Move Pick Event) :=
  firstTask ++ .env (.start ⟨0, 0, 1⟩ 1) :: List.replicate 8 (.call 1 (onePick 4))

set_option maxRecDepth 8000 in
theorem prepare_fresh_foundAgain :
    PrepareIsFresh smallConfig twoZips
        (playAll (searchStep smallConfig) (Undisturbed smallConfig twoZips) searchStart foundAgain) ∧
      Returning (playAll (searchStep smallConfig) (Undisturbed smallConfig twoZips) searchStart foundAgain) 1
        (utf8 "e") :=
  ⟨prepare_fresh smallConfig twoZips (.playAll .init foundAgain), by decide +kernel⟩

/-- The second archive has been uploaded when the second task starts. -/
def uploadedPick : Pick where
  etag := some (utf8 "f")
  object := some ⟨100, twoZips (utf8 "f")⟩
  sizeOf := fun _ _ => 4

/-- The second task downloads the second archive. Its markers do not match, so it takes the lock. -/
def newArchive : List (Move Pick Event) :=
  firstTask ++ .env (.start ⟨0, 0, 1⟩ 1) :: List.replicate 24 (.call 1 uploadedPick)

set_option maxRecDepth 8000 in
/-- Under the lock it finds the extraction of the first archive ready, and returns that. -/
theorem prepare_stale : ¬ ∀ (cfg : ManagerConfig) (zipOf : Bytes → Archive) (s : SearchConfig),
    Run (searchStep cfg) always searchStart s → PrepareIsFresh cfg zipOf s := by
  intro h
  have hfresh := h smallConfig twoZips _ (.playAll .init newArchive)
  have hfacts : Returning (playAll (searchStep smallConfig) always searchStart newArchive) 1 (utf8 "f") ∧
      (playAll (searchStep smallConfig) always searchStart newArchive).world.2 ⟨0, 0, 1⟩ = utf8 "f" ∧
      ((playAll (searchStep smallConfig) always searchStart newArchive).world.1.files 1).read .readyETag =
        some (utf8 "e") := by decide +kernel
  obtain ⟨⟨t, ht, hfound, e, he, hself, hl, hret⟩, hetag, hread⟩ := hfacts
  obtain ⟨self, o⟩ := e
  obtain rfl : self = ⟨0, 0, 1⟩ := hself
  obtain rfl := Op.returning_iff.mp hret
  obtain ⟨d, -, -, hmark⟩ := hfresh t ht _ 1 .fromReady he hl nofun (by simp [hfound])
  rw [hetag, hread] at hmark
  exact absurd hmark (by decide)

end Runs

end DeepOj.Worker.TestCases
