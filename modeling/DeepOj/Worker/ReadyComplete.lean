import DeepOj.Worker.ExtractionFiles

/-!
# Ready means complete, unless something was deleted

The lock file keeps `tmpDir` to one goroutine at a time, so what is renamed is one
extraction; the markers change nothing in it. What remains is that test cases are
deleted from a directory with a ready marker, and that a lock file in use is
deleted.
-/

namespace DeepOj.Worker.TestCases

open Conc Go Machine

/-! ## The lock files -/

section Locks

variable {w : Workspace} {self self' : Self} {lock lock' : LockFile} {k : Nat}

theorem inode_some (h : w.inode self lock = some k) :
    ∃ d ∈ w.fds, d.self = self ∧ d.lock = lock ∧ d.inode = k := by
  obtain ⟨d, hd, rfl⟩ := Option.map_eq_some_iff.mp h
  have hp : d.self = self ∧ d.lock = lock := by simpa using List.find?_some hd
  exact ⟨d, List.mem_of_find?_eq_some hd, hp.1, hp.2, rfl⟩

/-- A descriptor is found as before when others are dropped. -/
theorem find_filter {l : List Descriptor} {p : Descriptor → Bool}
    (h : ∀ d, d.self = self' → d.lock = lock' → p d = true) :
    (l.filter p).find? (fun d => d.self = self' ∧ d.lock = lock') =
      l.find? fun d => d.self = self' ∧ d.lock = lock' := by
  rw [List.find?_filter]
  congr 1
  funext d
  by_cases hd : d.self = self' ∧ d.lock = lock'
  · simp [h d hd.1 hd.2]
  · simp [hd]

theorem inode_openLock (h : ¬ (self' = self ∧ lock' = lock)) :
    (w.openLock self lock).inode self' lock' = w.inode self' lock' := by
  have hcons : ∀ k, (⟨self, lock, k⟩ :: w.fds : List Descriptor).find?
      (fun d => d.self = self' ∧ d.lock = lock') =
        w.fds.find? fun d => d.self = self' ∧ d.lock = lock' := by
    intro k
    rw [List.find?_cons_of_neg]
    intro hd
    obtain ⟨hs, hl⟩ : self = self' ∧ lock = lock' := by simpa using hd
    exact h ⟨hs.symm, hl.symm⟩
  unfold Workspace.openLock Workspace.inode
  cases w.locks lock with
  | none => exact congrArg _ (hcons _)
  | some k => exact congrArg _ (hcons _)

theorem inode_closeLock (h : ¬ (self' = self ∧ lock' = lock)) :
    (w.closeLock self lock).inode self' lock' = w.inode self' lock' := by
  refine congrArg _ (find_filter fun d hs hl => ?_)
  subst hs hl
  exact decide_eq_true h

theorem holder_closeLock (h : w.holder lock' k = some self') (hne : self' ≠ self) :
    (w.closeLock self lock).holder lock' k = some self' := by
  unfold Workspace.closeLock
  by_cases hl : lock' = lock
  · subst hl
    simp [h, hne]
  · simp [hl, h]

theorem holder_lock_of_ne {k' : Nat} (h : ¬ (lock' = lock ∧ k' = k)) :
    (w.lock self lock k).holder lock' k' = w.holder lock' k' := by
  unfold Workspace.lock
  by_cases hl : lock' = lock
  · subst hl
    have hk : k' ≠ k := fun hk => h ⟨rfl, hk⟩
    simp [hk]
  · simp [hl]

end Locks

/-! ## Operations -/

section Operations

variable {cfg : ManagerConfig} {w w' : Workspace} {self : Self} {p : Pick}

/-- An operation on a lock file changes neither the files nor the processes. -/
theorem performLock_fixed {lock : LockFile} {o : LockOp} {r : o.Reply}
    (hp : w.performLock self lock o p = some (w', r)) : w'.files = w.files ∧
      w'.epochs = w.epochs ∧ w'.nextSerial = w.nextSerial ∧ w'.answers = w.answers := by
  cases o with
  | «open» =>
    simp only [Workspace.performLock] at hp
    split at hp <;> cases hp
    · unfold Workspace.openLock
      split <;> exact ⟨rfl, rfl, rfl, rfl⟩
    · exact ⟨rfl, rfl, rfl, rfl⟩
  | lock =>
    simp only [Workspace.performLock] at hp
    split at hp
    · cases hp
      exact ⟨rfl, rfl, rfl, rfl⟩
    · split at hp
      · cases hp
        exact ⟨rfl, rfl, rfl, rfl⟩
      · split at hp <;> cases hp
        exact ⟨rfl, rfl, rfl, rfl⟩
  | close =>
    cases hp
    exact ⟨rfl, rfl, rfl, rfl⟩
  | remove =>
    cases hp
    exact ⟨rfl, rfl, rfl, rfl⟩

theorem perform_file {pid : Nat} {o : FileOp} {r : o.Reply}
    (hp : perform cfg w self (.file pid o) p = some (w', r)) :
    ∃ c, (w.files pid).perform cfg (cfg.tmpDir pid) o p = some (c, r) ∧ w' = w.setFiles pid c := by
  simp only [perform] at hp
  cases hc : (w.files pid).perform cfg (cfg.tmpDir pid) o p with
  | none => simp [hc] at hp
  | some cr =>
    obtain ⟨c, r'⟩ := cr
    simp only [hc, Option.some.injEq, Prod.mk.injEq] at hp
    obtain ⟨rfl, rfl⟩ := hp
    exact ⟨c, rfl, rfl⟩

/-- Only the operations on files change files. -/
theorem perform_files {o : Op} {r : o.Reply} (hne : ∀ pid fo, o ≠ .file pid fo)
    (hp : perform cfg w self o p = some (w', r)) : w'.files = w.files := by
  cases o with
  | file pid o => exact absurd rfl (hne pid o)
  | lock file o => exact (performLock_fixed hp).1
  | touch pid etag zipPath workDir =>
    simp only [perform] at hp
    split at hp <;> cases hp
    rfl
  | ret pid how =>
    simp only [perform] at hp
    split at hp <;> cases hp <;> rfl
  | _ =>
    cases hp
    rfl

/-- No operation restarts a process or starts a goroutine. -/
theorem perform_fixed {o : Op} {r : o.Reply} (hp : perform cfg w self o p = some (w', r)) :
    w'.epochs = w.epochs ∧ w'.nextSerial = w.nextSerial := by
  cases o with
  | file pid o =>
    obtain ⟨c, -, rfl⟩ := perform_file hp
    exact ⟨rfl, rfl⟩
  | lock file o =>
    obtain ⟨-, hepochs, hserial, -⟩ := performLock_fixed hp
    exact ⟨hepochs, hserial⟩
  | touch pid etag zipPath workDir =>
    simp only [perform] at hp
    split at hp <;> cases hp
    exact ⟨rfl, rfl⟩
  | ret pid how =>
    simp only [perform] at hp
    split at hp <;> cases hp <;> exact ⟨rfl, rfl⟩
  | _ =>
    cases hp
    exact ⟨rfl, rfl⟩

theorem perform_epochs {o : Op} {r : o.Reply} (hp : perform cfg w self o p = some (w', r)) :
    w'.epochs = w.epochs := (perform_fixed hp).1

end Operations

/-! ## The invariant -/

/-- The lock files, the temporary directories and the directories fit the stages. -/
structure Inv (cfg : ManagerConfig) (w : Workspace) (gs : List Progress) : Prop where
  serial : ∀ g ∈ gs, g.self.serial < w.nextSerial
  past : ∀ g ∈ gs, g.self.epoch ≤ w.epochs g.self.proc
  distinct : ∀ (i j : Nat) (g g' : Progress), gs[i]? = some g → gs[j]? = some g' →
    g.self = g'.self → i = j
  inode : ∀ d ∈ w.fds, ∀ pid, d.lock = .work pid → w.locks (.work pid) = some d.inode
  holds : ∀ g ∈ gs, Live w g.self → ∀ pid, g.stage.holds = some pid →
    ∃ k, w.inode g.self (.work pid) = some k ∧ w.holder (.work pid) k = some g.self
  tmp : ∀ g ∈ gs, Live w g.self → ∀ pid, g.stage.holds = some pid →
    TmpIs cfg pid (w.files pid) g.stage
  sound : ∀ pid, Sound cfg pid (w.files pid)
  answers : ∀ a ∈ w.answers, ∃ d, a.2 = some d ∧ Complete cfg a.1 (w.files a.1).downloaded d

section Invariant

variable {cfg : ManagerConfig} {w w' : Workspace} {gs : List Progress} {g g' : Progress} {i j pid : Nat}

theorem mem_set {α : Type} {l : List α} {a new : α} (h : a ∈ l.set i new) :
    a = new ∨ ∃ j, j ≠ i ∧ l[j]? = some a := by
  obtain ⟨j, hj⟩ := List.getElem?_of_mem h
  by_cases hji : i = j
  · subst hji
    rw [List.getElem?_set_self'] at hj
    obtain ⟨_, _, rfl⟩ := Option.map_eq_some_iff.mp hj
    exact .inl rfl
  · rw [List.getElem?_set_ne hji] at hj
    exact .inr ⟨j, Ne.symm hji, hj⟩

/-- Two goroutines do not hold the lock of the same problem. -/
theorem Inv.exclusive (h : Inv cfg w gs) (hi : gs[i]? = some g) (hj : gs[j]? = some g')
    (hl : Live w g.self) (hl' : Live w g'.self) (hg : g.stage.holds = some pid)
    (hg' : g'.stage.holds = some pid) : i = j := by
  obtain ⟨k, hk, hhold⟩ := h.holds g (List.mem_of_getElem? hi) hl pid hg
  obtain ⟨k', hk', hhold'⟩ := h.holds g' (List.mem_of_getElem? hj) hl' pid hg'
  obtain ⟨d, hd, -, hdl, rfl⟩ := inode_some hk
  obtain ⟨d', hd', -, hdl', rfl⟩ := inode_some hk'
  -- both have the file open that stands at the path
  have hsame : d.inode = d'.inode :=
    Option.some.inj ((h.inode d hd pid hdl).symm.trans (h.inode d' hd' pid hdl'))
  rw [hsame, hhold'] at hhold
  exact h.distinct i j g g' hi hj (Option.some.inj hhold).symm

/-- What does not depend on the operation: the goroutine stays the same. -/
theorem Inv.set_distinct (h : Inv cfg w gs) (hi : gs[i]? = some g) (st : Stage) :
    ∀ (j j' : Nat) (x x' : Progress), (gs.set i ⟨g.self, st⟩)[j]? = some x → (gs.set i ⟨g.self, st⟩)[j']? = some x' →
      x.self = x'.self → j = j' := by
  have hback : ∀ (j : Nat) (x : Progress), (gs.set i ⟨g.self, st⟩)[j]? = some x →
      ∃ y : Progress, gs[j]? = some y ∧ y.self = x.self := by
    intro j x hx
    by_cases hji : i = j
    · subst hji
      rw [List.getElem?_set_self'] at hx
      obtain ⟨_, _, rfl⟩ := Option.map_eq_some_iff.mp hx
      exact ⟨g, hi, rfl⟩
    · rw [List.getElem?_set_ne hji] at hx
      exact ⟨x, hx, rfl⟩
  intro j j' x x' hx hx' hself
  obtain ⟨y, hy, hyx⟩ := hback j x hx
  obtain ⟨y', hy', hyx'⟩ := hback j' x' hx'
  exact h.distinct j j' y y' hy hy' (by rw [hyx, hself, hyx'])

/-- An operation that leaves the files, the lock files and the stage alone. -/
theorem Inv.same (h : Inv cfg w gs) (hfiles : w'.files = w.files) (hlocks : w'.locks = w.locks)
    (hfds : w'.fds = w.fds) (hholder : w'.holder = w.holder) (hepochs : w'.epochs = w.epochs)
    (hserial : w'.nextSerial = w.nextSerial)
    (hanswers : ∀ a ∈ w'.answers, ∃ d, a.2 = some d ∧
      Complete cfg a.1 (w.files a.1).downloaded d) : Inv cfg w' gs where
  serial := hserial ▸ h.serial
  past := hepochs ▸ h.past
  distinct := h.distinct
  inode := by
    rw [hfds, hlocks]
    exact h.inode
  holds x hx hl := by
    unfold Workspace.inode
    rw [hfds, hholder]
    exact h.holds x hx (by unfold Live at hl ⊢; rwa [hepochs] at hl)
  tmp x hx hl := by
    rw [hfiles]
    exact h.tmp x hx (by unfold Live at hl ⊢; rwa [hepochs] at hl)
  sound := hfiles ▸ h.sound
  answers := hfiles ▸ hanswers

/-- An operation on the files of a problem keeps the invariant. -/
theorem Inv.file (h : Inv cfg w gs) (hi : gs[i]? = some g) (hl : Live w g.self) {o : FileOp}
    {p : Pick} {r : o.Reply} {c : CaseFiles} (ha : g.stage.AllowsFile pid o)
    (hp : (w.files pid).perform cfg (cfg.tmpDir pid) o p = some (c, r)) :
    Inv cfg (w.setFiles pid c) (gs.set i ⟨g.self, g.stage.nextFile o r⟩) := by
  have hself : (w.setFiles pid c).files pid = c := Function.update_self ..
  have hother : ∀ pid', pid' ≠ pid → (w.setFiles pid c).files pid' = w.files pid' :=
    fun pid' hne => Function.update_of_ne hne ..
  have hg := List.mem_of_getElem? hi
  have hsub := downloaded_subset hp
  have hholds : (g.stage.nextFile o r).holds = g.stage.holds := g.stage.holds_nextFile o r
  have hlock : ¬ Plain (.file pid o) → g.stage.holds = some pid := holds_of_allowsFile ha
  refine ⟨?_, ?_, h.set_distinct hi _, h.inode, ?_, ?_, ?_, ?_⟩
  · intro x hx
    rcases mem_set hx with rfl | ⟨j, -, hj⟩
    · exact h.serial g hg
    · exact h.serial x (List.mem_of_getElem? hj)
  · intro x hx
    rcases mem_set hx with rfl | ⟨j, -, hj⟩
    · exact h.past g hg
    · exact h.past x (List.mem_of_getElem? hj)
  · intro x hx hlx pid' hst
    rcases mem_set hx with rfl | ⟨j, -, hj⟩
    · exact h.holds g hg hl pid' (hholds ▸ hst)
    · exact h.holds x (List.mem_of_getElem? hj) hlx pid' hst
  · intro x hx hlx pid' hst
    rcases mem_set hx with rfl | ⟨j, hne, hj⟩
    · rw [hholds] at hst
      have htmp := h.tmp g hg hl pid' hst
      by_cases hpid : pid' = pid
      · subst hpid
        rw [hself]
        exact (htmp.perform (h.sound pid') ha hp).1
      · rw [hother pid' hpid]
        by_cases hpl : Plain (.file pid o)
        · have hnext : g.stage.nextFile o r = g.stage := hpl.next r
          rw [hnext]
          exact htmp
        · rw [hlock hpl] at hst
          exact absurd (Option.some.inj hst).symm hpid
    · have htmp := h.tmp x (List.mem_of_getElem? hj) hlx pid' hst
      by_cases hpid : pid' = pid
      · subst hpid
        rw [hself]
        by_cases hpl : Plain (.file pid' o)
        · exact htmp.congr (tmp_of_plain hpl hp) hsub
        · exact absurd (h.exclusive hj hi hlx hl hst (hlock hpl)) hne
      · rw [hother pid' hpid]
        exact htmp
  · intro pid'
    by_cases hpid : pid' = pid
    · subst hpid
      rw [hself]
      by_cases hpl : Plain (.file pid' o)
      · refine (h.sound pid').perform ?_ hp
        rintro rfl
        exact hpl
      · exact ((h.tmp g hg hl pid' (hlock hpl)).perform (h.sound pid') ha hp).2
    · rw [hother pid' hpid]
      exact h.sound pid'
  · intro a ha'
    obtain ⟨d, hd, hc⟩ := h.answers a ha'
    refine ⟨d, hd, ?_⟩
    by_cases hpid : a.1 = pid
    · rw [hpid, hself]
      rw [hpid] at hc
      exact hc.mono hsub
    · rw [hother a.1 hpid]
      exact hc

/-- The stage a goroutine is in after an operation on a lock file, if that holds a lock. -/
theorem holds_nextLock {st : Stage} {lock : LockFile} {o : LockOp} {r : o.Reply}
    (h : (st.nextLock lock o r).holds = some pid) :
    (o = .lock ∧ lock = .work pid ∧ r ≍ true) ∨
      (st.nextLock lock o r = st ∧ ¬ (lock = .work pid ∧ o = .close)) := by
  cases lock with
  | zip pid' => exact .inr ⟨by cases o <;> rfl, fun hc => by cases hc.1⟩
  | work pid' =>
    cases o with
    | «open» =>
      cases r with
      | true => cases h
      | false => exact .inr ⟨rfl, fun hc => by cases hc.2⟩
    | lock =>
      cases r with
      | true =>
        cases h
        exact .inl ⟨rfl, rfl, HEq.rfl⟩
      | false => exact .inr ⟨rfl, fun hc => by cases hc.2⟩
    | close => cases h
    | remove => exact .inr ⟨rfl, fun hc => by cases hc.2⟩

/-- A lock is kept unless its owner opens or closes the lock file. -/
theorem performLock_holds {self self' : Self} {lock : LockFile} {o : LockOp} {p : Pick} {r : o.Reply}
    (hp : w.performLock self lock o p = some (w', r))
    (h : ∃ k, w.inode self' (.work pid) = some k ∧ w.holder (.work pid) k = some self')
    (hsame : self' = self → lock ≠ .work pid ∨ (o ≠ .open ∧ o ≠ .close)) :
    ∃ k, w'.inode self' (.work pid) = some k ∧ w'.holder (.work pid) k = some self' := by
  obtain ⟨k, hk, hhold⟩ := h
  cases o with
  | «open» =>
    simp only [Workspace.performLock] at hp
    split at hp <;> cases hp
    · refine ⟨k, ?_, ?_⟩
      · rw [inode_openLock]
        · exact hk
        · rintro ⟨hs, hlock⟩
          rcases hsame hs with hne | hne
          · exact hne hlock.symm
          · exact hne.1 rfl
      · unfold Workspace.openLock
        split <;> exact hhold
    · exact ⟨k, hk, hhold⟩
  | lock =>
    simp only [Workspace.performLock] at hp
    split at hp
    · cases hp
      exact ⟨k, hk, hhold⟩
    · split at hp
      · rename_i k' _ hfree
        cases hp
        refine ⟨k, hk, ?_⟩
        rw [holder_lock_of_ne]
        · exact hhold
        · -- the lock that is taken was free
          rintro ⟨rfl, rfl⟩
          rw [hfree] at hhold
          cases hhold
      · split at hp <;> cases hp
        exact ⟨k, hk, hhold⟩
  | close =>
    cases hp
    by_cases hs : self' = self
    · have hne : lock ≠ .work pid := (hsame hs).resolve_right fun hc => hc.2 rfl
      refine ⟨k, ?_, ?_⟩
      · rw [inode_closeLock fun hc => hne hc.2.symm]
        exact hk
      · show Function.update w.holder lock _ (.work pid) k = _
        rw [Function.update_of_ne hne.symm]
        exact hhold
    · refine ⟨k, ?_, holder_closeLock hhold hs⟩
      rw [inode_closeLock fun hc => hs hc.1]
      exact hk
  | remove =>
    cases hp
    exact ⟨k, hk, hhold⟩

/-- The lock files that are open stand at their paths, if none is removed that is open. -/
theorem performLock_inode {self : Self} {lock : LockFile} {o : LockOp} {p : Pick} {r : o.Reply}
    (hp : w.performLock self lock o p = some (w', r))
    (h : ∀ d ∈ w.fds, ∀ pid, d.lock = .work pid → w.locks (.work pid) = some d.inode)
    (hcareful : o = .remove → ∀ pid, lock = .work pid → ∀ d ∈ w.fds, d.lock ≠ .work pid) :
    ∀ d ∈ w'.fds, ∀ pid, d.lock = .work pid → w'.locks (.work pid) = some d.inode := by
  intro d hd pid hdl
  cases o with
  | «open» =>
    simp only [Workspace.performLock] at hp
    split at hp <;> cases hp
    · unfold Workspace.openLock at hd ⊢
      cases hlk : w.locks lock with
      | some k =>
        rw [hlk] at hd
        rcases List.mem_cons.mp hd with rfl | hold
        · obtain rfl : lock = .work pid := hdl
          exact hlk
        · exact h d hold pid hdl
      | none =>
        rw [hlk] at hd
        rcases List.mem_cons.mp hd with rfl | hold
        · obtain rfl : lock = .work pid := hdl
          exact Function.update_self ..
        · -- nobody has a file open at a path where there is none
          have hopen := h d hold pid hdl
          have hne : LockFile.work pid ≠ lock := by
            intro heq
            rw [← heq, hopen] at hlk
            cases hlk
          show Function.update w.locks lock _ (.work pid) = _
          rw [Function.update_of_ne hne]
          exact hopen
    · exact h d hd pid hdl
  | lock =>
    simp only [Workspace.performLock] at hp
    split at hp
    · cases hp
      exact h d hd pid hdl
    · split at hp
      · cases hp
        exact h d hd pid hdl
      · split at hp <;> cases hp
        exact h d hd pid hdl
  | close =>
    cases hp
    exact h d (List.mem_filter.mp hd).1 pid hdl
  | remove =>
    cases hp
    by_cases hlk : lock = .work pid
    · exact absurd hdl (hcareful rfl pid hlk d hd)
    · show Function.update w.locks lock none (.work pid) = _
      rw [Function.update_of_ne (Ne.symm hlk)]
      exact h d hd pid hdl

/-- Whoever locks an open lock file holds its lock. -/
theorem performLock_locked {self : Self} {lock : LockFile} {p : Pick}
    (hp : w.performLock self lock .lock p = some (w', true)) :
    ∃ k, w'.inode self lock = some k ∧ w'.holder lock k = some self := by
  simp only [Workspace.performLock] at hp
  split at hp
  · cases hp
  · rename_i k hk
    split at hp
    · cases hp
      refine ⟨k, hk, ?_⟩
      unfold Workspace.lock
      simp
    · split at hp <;> cases hp

/-- An operation on a lock file keeps the invariant, if none is removed that is open. -/
theorem Inv.lock (h : Inv cfg w gs) (hi : gs[i]? = some g) (hl : Live w g.self) {lock : LockFile}
    {o : LockOp} {p : Pick} {r : o.Reply} (ha : g.stage.Allows (.lock lock o))
    (hp : w.performLock g.self lock o p = some (w', r))
    (hcareful : o = .remove → ∀ pid, lock = .work pid → ∀ d ∈ w.fds, d.lock ≠ .work pid) :
    Inv cfg w' (gs.set i ⟨g.self, g.stage.nextLock lock o r⟩) := by
  have hg := List.mem_of_getElem? hi
  obtain ⟨hfiles, hepochs, hserial, hanswers⟩ := performLock_fixed hp
  have hlive : ∀ {x}, Live w' x → Live w x := fun {x} hx => by
    unfold Live at hx ⊢
    rwa [hepochs] at hx
  refine ⟨?_, ?_, h.set_distinct hi _, performLock_inode hp h.inode hcareful, ?_, ?_,
    hfiles ▸ h.sound, ?_⟩
  · intro x hx
    rw [hserial]
    rcases mem_set hx with rfl | ⟨j, -, hj⟩
    · exact h.serial g hg
    · exact h.serial x (List.mem_of_getElem? hj)
  · intro x hx
    rw [hepochs]
    rcases mem_set hx with rfl | ⟨j, -, hj⟩
    · exact h.past g hg
    · exact h.past x (List.mem_of_getElem? hj)
  · intro x hx hlx pid' hst
    rcases mem_set hx with rfl | ⟨j, hne, hj⟩
    · rcases holds_nextLock hst with ⟨rfl, rfl, hr⟩ | ⟨hsame, hnot⟩
      · obtain rfl : r = true := eq_of_heq hr
        exact performLock_locked hp
      · rw [hsame] at hst
        refine performLock_holds hp (h.holds g hg hl pid' hst) fun _ => ?_
        by_cases hlk : lock = .work pid'
        · refine .inr ⟨?_, fun hc => hnot ⟨hlk, hc⟩⟩
          rintro rfl
          -- a goroutine opens the lock file only when it holds none
          subst hlk
          have hidle : g.stage = .idle := ha
          rw [hidle] at hst
          cases hst
        · exact .inl hlk
    · exact performLock_holds hp (h.holds x (List.mem_of_getElem? hj) (hlive hlx) pid' hst)
        fun hs => absurd (h.distinct j i x g hj hi hs) hne
  · intro x hx hlx pid' hst
    rw [hfiles]
    rcases mem_set hx with rfl | ⟨j, -, hj⟩
    · show TmpIs cfg pid' (w.files pid') (g.stage.nextLock lock o r)
      rcases holds_nextLock hst with ⟨rfl, rfl, hr⟩ | ⟨hsame, -⟩
      · obtain rfl : r = true := eq_of_heq hr
        exact trivial
      · rw [hsame] at hst ⊢
        exact h.tmp g hg hl pid' hst
    · exact h.tmp x (List.mem_of_getElem? hj) (hlive hlx) pid' hst
  · rw [hanswers, hfiles]
    exact h.answers

/-- The record of a goroutine whose stage does not change. -/
theorem set_same (hi : gs[i]? = some g) : gs.set i ⟨g.self, g.stage⟩ = gs := by
  refine List.ext_getElem? fun j => ?_
  by_cases hj : i = j
  · subst hj
    rw [List.getElem?_set_self', hi]
    rfl
  · rw [List.getElem?_set_ne hj]

/-- What an operation must meet in order not to break the invariant: a directory that is
returned because of its ready marker is still there, and nothing was taken from it; a lock file
that is removed is not open. -/
def CarefulOp (w : Workspace) : Op → Prop
  | .ret pid .fromReady => (w.files pid).work.isSome = true ∧ (w.files pid).torn = false
  | .lock (.work pid) .remove => ∀ d ∈ w.fds, d.lock ≠ .work pid
  | _ => True

instance (w : Workspace) (o : Op) : Decidable (CarefulOp w o) := by
  unfold CarefulOp
  split <;> infer_instance

/-- Every operation keeps the invariant. -/
theorem Inv.perform (h : Inv cfg w gs) (hi : gs[i]? = some g) (hl : Live w g.self) {o : Op}
    {p : Pick} {r : o.Reply} (ha : g.stage.Allows o) (hcareful : CarefulOp w o)
    (hp : perform cfg w g.self o p = some (w', r)) :
    Inv cfg w' (gs.set i ⟨g.self, g.stage.next o r⟩) := by
  cases o with
  | file pid o =>
    obtain ⟨c, hc, rfl⟩ := perform_file hp
    exact h.file hi hl ha hc
  | lock lock o =>
    refine h.lock hi hl ha hp ?_
    rintro rfl pid rfl
    exact hcareful
  | ret pid how =>
    show Inv cfg w' (gs.set i ⟨g.self, g.stage⟩)
    rw [set_same hi]
    simp only [TestCases.perform] at hp
    split at hp <;> cases hp
    · rename_i hhow
      subst hhow
      refine h.same rfl rfl rfl rfl rfl rfl fun a ha => ?_
      rcases List.mem_cons.mp ha with rfl | ha
      · obtain ⟨d, hd⟩ := Option.isSome_iff_exists.mp hcareful.1
        exact ⟨d, hd, (h.sound pid).work d hd hcareful.2⟩
      · exact h.answers a ha
    · exact h
  | touch pid etag zipPath workDir =>
    show Inv cfg w' (gs.set i ⟨g.self, g.stage⟩)
    rw [set_same hi]
    simp only [TestCases.perform] at hp
    split at hp <;> cases hp
    exact h.same rfl rfl rfl rfl rfl rfl h.answers
  | unlock =>
    show Inv cfg w' (gs.set i ⟨g.self, g.stage⟩)
    rw [set_same hi]
    cases hp
    exact h.same rfl rfl rfl rfl rfl rfl h.answers
  | _ =>
    show Inv cfg w' (gs.set i ⟨g.self, g.stage⟩)
    rw [set_same hi]
    cases hp
    exact h

/-- The invariant holds of an empty workspace. -/
theorem Inv.empty : Inv cfg {} [] where
  serial x hx := by cases hx
  past x hx := by cases hx
  distinct i j x x' hx := by simp at hx
  inode d hd := by cases hd
  holds x hx := by cases hx
  tmp x hx := by cases hx
  sound pid :=
    { zip := fun z hz => by cases hz
      zipTmp := fun z hz => by cases hz
      work := fun d hd => by cases hd }
  answers a ha := by cases ha

/-- A new goroutine has no lock file open. -/
theorem Inv.start (h : Inv cfg w gs) {self : Self} (hl : w.epochs self.proc = self.epoch)
    (hnew : w.nextSerial ≤ self.serial) :
    Inv cfg { w with nextSerial := self.serial + 1 } (gs ++ [⟨self, .idle⟩]) where
  serial x hx := by
    show x.self.serial < self.serial + 1
    rcases List.mem_append.mp hx with hx | hx
    · have := h.serial x hx
      omega
    · obtain rfl := List.mem_singleton.mp hx
      exact Nat.lt_succ_self _
  past x hx := by
    rcases List.mem_append.mp hx with hx | hx
    · exact h.past x hx
    · obtain rfl := List.mem_singleton.mp hx
      exact hl.ge
  distinct := by
    -- the serial number of the new goroutine is larger than all others
    have hold : ∀ (j : Nat) (x : Progress), (gs ++ [⟨self, .idle⟩])[j]? = some x →
        gs[j]? = some x ∧ x.self.serial < self.serial ∨ j = gs.length ∧ x.self = self := by
      intro j x hx
      rw [List.getElem?_append] at hx
      by_cases hj : j < gs.length
      · rw [if_pos hj] at hx
        have := h.serial x (List.mem_of_getElem? hx)
        exact .inl ⟨hx, by omega⟩
      · rw [if_neg hj] at hx
        obtain ⟨hlt, hx⟩ := List.getElem?_eq_some_iff.mp hx
        have hzero : j - gs.length = 0 := by simpa using hlt
        simp only [hzero, List.getElem_cons_zero] at hx
        exact .inr ⟨by omega, hx ▸ rfl⟩
    intro j j' x x' hx hx' hself
    rcases hold j x hx with ⟨hj, hlt⟩ | ⟨hj, hs⟩ <;> rcases hold j' x' hx' with ⟨hj', hlt'⟩ | ⟨hj', hs'⟩
    · exact h.distinct j j' x x' hj hj' hself
    · rw [hself, hs'] at hlt
      omega
    · rw [← hself, hs] at hlt'
      omega
    · omega
  inode := h.inode
  holds x hx hlx pid hst := by
    rcases List.mem_append.mp hx with hx | hx
    · exact h.holds x hx hlx pid hst
    · obtain rfl := List.mem_singleton.mp hx
      cases hst
  tmp x hx hlx pid hst := by
    rcases List.mem_append.mp hx with hx | hx
    · exact h.tmp x hx hlx pid hst
    · obtain rfl := List.mem_singleton.mp hx
      cases hst
  sound := h.sound
  answers := h.answers

/-- When a process is killed, its locks go with it and its files stay. -/
theorem Inv.crash (h : Inv cfg w gs) (proc : Nat) : Inv cfg (w.crash proc) gs := by
  have hepochs : ∀ self : Self, w.epochs self.proc ≤ (w.crash proc).epochs self.proc := by
    intro self
    show _ ≤ Function.update w.epochs proc (w.epochs proc + 1) self.proc
    by_cases hp : self.proc = proc
    · rw [hp, Function.update_self]
      omega
    · rw [Function.update_of_ne hp]
  -- a goroutine that is alive afterwards belongs to another process
  have hlive : ∀ x ∈ gs, Live (w.crash proc) x.self → x.self.proc ≠ proc ∧ Live w x.self := by
    intro x hx hl
    have hpast := h.past x hx
    unfold Live at hl ⊢
    by_cases hp : x.self.proc = proc
    · rw [hp] at hl hpast
      have hnew : (w.crash proc).epochs proc = w.epochs proc + 1 := Function.update_self ..
      omega
    · have hsame : (w.crash proc).epochs x.self.proc = w.epochs x.self.proc :=
        Function.update_of_ne hp ..
      exact ⟨hp, hsame ▸ hl⟩
  refine ⟨h.serial, fun x hx => (h.past x hx).trans (hepochs x.self), h.distinct, ?_, ?_, ?_,
    h.sound, h.answers⟩
  · intro d hd pid hdl
    exact h.inode d (List.mem_filter.mp hd).1 pid hdl
  · intro x hx hl pid hst
    obtain ⟨hp, hlw⟩ := hlive x hx hl
    obtain ⟨k, hk, hhold⟩ := h.holds x hx hlw pid hst
    refine ⟨k, ?_, ?_⟩
    · have hfind : (w.crash proc).inode x.self (.work pid) = w.inode x.self (.work pid) :=
        congrArg _ (find_filter fun d hs _ => decide_eq_true (hs ▸ hp))
      rw [hfind]
      exact hk
    · show (w.holder (.work pid) k).filter _ = _
      rw [hhold]
      simp [hp]
  · intro x hx hl pid hst
    exact h.tmp x hx (hlive x hx hl).2 pid hst

end Invariant

/-! ## Runs -/

/-- The moves that delete no lock file in use, and return no directory that something was
deleted from. -/
def Careful (s : Config Workspace (Self × Op) (fun e => e.2.Reply)) : Move Pick Event → Prop
  | .call i _ =>
    match s.nextAt i with
    | some e => CarefulOp s.world e.2
    | none => True
  | _ => True

instance (s : Config Workspace (Self × Op) (fun e => e.2.Reply)) (m : Move Pick Event) :
    Decidable (Careful s m) := by
  unfold Careful
  split
  · split <;> infer_instance
  · infer_instance

/-- Whenever `Prepare` returned a directory because of its ready marker, the directory was
complete. -/
def ReadyIsComplete (cfg : ManagerConfig) (w : Workspace) : Prop :=
  ∀ a ∈ w.answers, ∃ d, a.2 = some d ∧ Complete cfg a.1 (w.files a.1).downloaded d

section Runs

variable {cfg : ManagerConfig}

/-- Every goroutine keeps the rules. -/
theorem disciplined : (workers cfg).Disciplined recorder stageRules where
  env w v w' ps h p hp := by
    cases v with
    | start self pid =>
      simp only [workers, happen] at h
      split at h <;> cases h
      obtain rfl := List.mem_singleton.mp hp
      exact heeds_mono (fun _ _ _ => trivial) keeps_executeTask.heeds
    | crash proc =>
      cases h
      cases hp
  forks e p hp := by cases hp

/-- A move keeps the invariant. -/
theorem Inv.record {s s' : RecordedConfig Workspace (Self × Op) (fun e => e.2.Reply) Progress}
    {m : Move Pick Event} (h : Inv cfg s.world (s.threads.map Prod.fst))
    (hheed : AllHeed recorder stageRules s) (hok : Careful s.config m)
    (hstep : (workers cfg).record recorder s m = some s') :
    Inv cfg s'.world (s'.threads.map Prod.fst) := by
  obtain ⟨i, c, g, e, k, w, r, rfl, hi, hsem, rfl⟩ | ⟨i, rfl, rfl⟩ | ⟨v, w, ps, rfl, hv, rfl⟩ :=
    record_cases hstep
  · obtain ⟨hself, hallow⟩ := hheed.allowed hi
    obtain ⟨self, o⟩ := e
    obtain rfl : self = g.self := hself
    have hgs : (s.threads.map Prod.fst)[i]? = some g := by simp [hi]
    have hnext : s.config.nextAt i = some (g.self, o) := by
      simp [RecordedConfig.config, Config.nextAt, hi]
    simp only [Careful, hnext] at hok
    simp only [workers, sem] at hsem
    split at hsem
    · rename_i hl
      have hinv := h.perform hgs hl hallow hok hsem
      simpa [List.map_set, workers, recorder] using hinv
    · cases hsem
  · rw [records_crash]
    exact h
  · cases v with
    | start self pid =>
      simp only [workers, happen] at hv
      split at hv <;> cases hv
      rename_i hnew
      simpa [recorder] using h.start hnew.1 hnew.2
    | crash proc =>
      cases hv
      simpa using h.crash proc

/-- In every run in which no lock file is deleted while it is open, and no directory is returned
that something was deleted from, ready means complete. -/
theorem ready_is_complete (cfg : ManagerConfig)
    {s : Config Workspace (Self × Op) (fun e => e.2.Reply)}
    (h : (workers cfg).Reach Careful start s) : ReadyIsComplete cfg s.world := by
  obtain ⟨r, rfl, hrun⟩ := exists_record (K := recorder) h ⟨{}, []⟩ rfl
  have hinv : AllHeed recorder stageRules r ∧ Inv cfg r.world (r.threads.map Prod.fst) := by
    refine hrun.invariant (J := fun r => AllHeed recorder stageRules r ∧
      Inv cfg r.world (r.threads.map Prod.fst)) ?_ ?_
    · exact ⟨fun t ht => absurd ht List.not_mem_nil, Inv.empty⟩
    · intro s s' m hJ hok hstep
      exact ⟨disciplined.record hJ.1 (fun _ _ _ _ _ _ _ _ _ _ => trivial)
        (fun _ _ _ _ => trivial) hstep, hJ.2.record hJ.1 hok hstep⟩
  exact hinv.2.answers

/-! ## One problem with one test case -/

/-- An archive with the input and the output of one test case. -/
def oneCase : List ZipEntry := [.ofFile "1.in" "1", .ofFile "1.out" "1"]

/-- Settings with a byte budget of 10. -/
def smallConfig : ManagerConfig := ⟨⟨0, 10, 0⟩, ⟨0, 0, 0⟩, [utf8 "ws"]⟩

/-- The environment of a goroutine whose problem has an archive with one test case; its entry
in the cache takes `size` bytes. -/
def onePick (size : Nat) : Pick where
  etag := some (utf8 "e")
  object := some ⟨100, .ok oneCase⟩
  sizeOf := fun _ _ => size

/-- A task downloads and extracts the test cases of problem 1. -/
def firstTask : List (Move Pick Event) :=
  .env (.start ⟨0, 0, 0⟩ 1) :: List.replicate 37 (.call 0 (onePick 4))

/-- Another task for the problem finds them ready. -/
def secondTask : List (Move Pick Event) :=
  firstTask ++ .env (.start ⟨0, 0, 1⟩ 1) :: List.replicate 9 (.call 1 (onePick 4))

set_option maxRecDepth 8000 in
theorem ready_is_complete_second :
    ReadyIsComplete smallConfig ((workers smallConfig).play Careful start secondTask).world ∧
      ((workers smallConfig).play Careful start secondTask).world.answers.length = 1 :=
  ⟨ready_is_complete smallConfig ((workers smallConfig).reach_play Careful .init secondTask),
    by decide +kernel⟩

/-- A task for another problem evicts problem 1, and the process is killed when it has deleted
the input; after the restart a task finds problem 1 ready. -/
def cutOff : List (Move Pick Event) :=
  firstTask ++
  .env (.start ⟨0, 0, 1⟩ 2) :: List.replicate 15 (.call 1 (onePick 8)) ++
  [.call 1 { order := [[utf8 "1.in"], [utf8 "1.out"], readyPath, readyETagPath, []] },
    .call 1 {}, .env (.crash 0), .env (.start ⟨0, 1, 2⟩ 1)] ++
  List.replicate 18 (.call 2 (onePick 4))

set_option maxRecDepth 8000 in
/-- The directory it returns lacks the input. -/
theorem cut_off_delete : ¬ ∀ (cfg : ManagerConfig) (s : Config Workspace (Self × Op) fun e => e.2.Reply),
    (workers cfg).Reach anyMove start s → ReadyIsComplete cfg s.world := by
  intro h
  have hcomplete := h smallConfig _ ((workers smallConfig).reach_play anyMove .init cutOff)
  -- what is returned lacks the input that every downloaded archive has
  have hfacts : (∃ a ∈ ((workers smallConfig).play anyMove start cutOff).world.answers,
      a.1 = 1 ∧ ∀ d ∈ a.2, ¬ Tree.Has d [utf8 "1.in"]) ∧
      ∀ a ∈ (((workers smallConfig).play anyMove start cutOff).world.files 1).downloaded,
        a = .ok oneCase := by decide +kernel
  obtain ⟨⟨a, ha, hpid, hnot⟩, hdown⟩ := hfacts
  obtain ⟨d, hd, arch, harch, t₀, t, ht, hstat⟩ := hcomplete a ha
  rw [hpid] at harch ht hstat
  rw [hdown arch harch] at ht
  refine hnot d hd ?_
  have hin : (relative (smallConfig.tmpDir 1) t).Has [utf8 "1.in"] := by
    rw [has_relative (by simp), has_prepareTestCases ht (List.prefix_append _ _) (by simp)]
    exact ⟨.ofFile "1.in" "1", List.mem_cons_self, by decide +kernel⟩
  unfold Tree.Has at hin ⊢
  rw [hstat _ (by decide +kernel) (by decide +kernel)]
  exact hin

end Runs

end DeepOj.Worker.TestCases
