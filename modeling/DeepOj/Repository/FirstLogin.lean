import DeepOj.Conc.Record
import DeepOj.Repository.User

/-!
# First logins

Any number of logins and registrations run against one table, and each login may be killed or
lose a reply anywhere. Each call keeps a record of the rows it has come across.
-/

namespace DeepOj.Repository

open Conc Sql

/-! ## Records -/

/-- Whom a call is for, the ids it has come across, and the user it has returned. -/
structure LoginCall where
  githubID : String := ""
  seen : List Nat := []
  returned : List User := []

/-- What an operation and its reply add to a record. -/
def LoginCall.next (g : LoginCall) : (o : UserOp) → o.Reply → LoginCall
  | .find _, .ok (some u) => { g with seen := u.id :: g.seen }
  | .insert .., .ok (id, _) => { g with seen := id :: g.seen }
  | .finish (.ok u), _ => { g with returned := u :: g.returned }
  | _, _ => g

def loginRecorder : Recorder UserOp UserOp.Reply UserEvent LoginCall where
  start
    | .login githubID .. => { githubID := githubID }
    | .register .. => {}
  fork _ := {}
  next := LoginCall.next

/-- What a call may do: it asks for its own account and changes only what it has come across. -/
def LoginRule (g : LoginCall) : UserOp → Prop
  | .find githubID => githubID = g.githubID
  | .updateAvatar _ id => id ∈ g.seen
  | .insert _ githubID _ _ => githubID = g.githubID
  | .randomHex => True
  | .finish (.ok u) => u.githubID = g.githubID ∧ u.id ∈ g.seen
  | .finish (.error _) => True

/-- What a call expects: the row that is found is the one it has asked for. -/
def FoundAsAsked : (o : UserOp) → o.Reply → Prop
  | .find githubID, .ok (some u) => u.githubID = githubID
  | _, _ => True

def loginRules : Rules UserOp UserOp.Reply LoginCall where
  allowed := LoginRule
  promised _ := FoundAsAsked
  ended _ := True

section Calls

variable {g : LoginCall} {githubID username email avatarURL : String}

/-- The program keeps the rules from the record `g`. -/
abbrev Keeps {α : Type} (g : LoginCall) (p : UserProgram α) (Q : LoginCall → α → Prop) : Prop :=
  Obeys loginRecorder loginRules g p Q

/-- The user that is returned is the one asked for, and its row has been seen. -/
def ReturnsOwn (g : LoginCall) : Except String User → Prop
  | .ok u => u.githubID = g.githubID ∧ u.id ∈ g.seen
  | .error _ => True

theorem keeps_createLoop (hg : g.githubID = githubID) (n : Nat) (currentUsername : String) :
    Keeps g (createLoop githubID username email avatarURL n currentUsername) ReturnsOwn := by
  induction n generalizing currentUsername with
  | zero => exact .pure trivial
  | succ n ih =>
    refine .effect hg.symm fun r _ => ?_
    cases r with
    | ok row => exact .pure ⟨hg.symm, List.mem_cons_self⟩
    | error err =>
      cases err with
      | other msg => exact .pure trivial
      | uniqueViolation constraint =>
        cases constraint with
        | githubID =>
          refine .effect hg.symm fun r hr => ?_
          cases r with
          | error err => exact .pure trivial
          | ok found =>
            cases found with
            | none => exact ih currentUsername
            | some u =>
              have hu : u.githubID = githubID := hr
              exact .pure ⟨hu.trans hg.symm, List.mem_cons_self⟩
        | pkey => exact .effect trivial fun suffix _ => ih _
        | username => exact .effect trivial fun suffix _ => ih _

theorem keeps_getOrCreateByGitHubID (hg : g.githubID = githubID) :
    Keeps g (getOrCreateByGitHubID githubID username email avatarURL) ReturnsOwn := by
  refine .effect hg.symm fun r hr => ?_
  cases r with
  | error err => exact .pure trivial
  | ok found =>
    cases found with
    | none => exact keeps_createLoop hg 5 username
    | some u =>
      have hu : u.githubID = githubID := hr
      show Keeps _ (if u.avatarURL ≠ avatarURL then _ else _) _
      by_cases havatar : u.avatarURL ≠ avatarURL
      · rw [if_pos havatar]
        exact .effect List.mem_cons_self fun _ _ => .pure ⟨hu.trans hg.symm, List.mem_cons_self⟩
      · rw [if_neg havatar]
        exact .pure ⟨hu.trans hg.symm, List.mem_cons_self⟩

theorem keeps_login (hg : g.githubID = githubID) :
    Keeps g (login githubID username email avatarURL) fun _ _ => True := by
  refine (keeps_getOrCreateByGitHubID hg).bind fun g' result hresult => ?_
  refine .perform ?_ fun _ _ => trivial
  cases result with
  | ok u => exact hresult
  | error err => trivial

theorem login_disciplined : loginMachine.Disciplined loginRecorder loginRules where
  env := by
    intro w v w' ps h p hp
    cases v with
    | login githubID username email avatarURL =>
      cases h
      rw [List.mem_singleton.mp hp]
      exact (keeps_login rfl).heeds
    | register id username passwordHash email createdAt =>
      obtain ⟨_, heq⟩ | hnone := dite_eq_iff.mp h
      · cases heq
        cases hp
      · cases hnone.2
  forks := by
    intro o p hp
    cases hp

end Calls

/-! ## What an operation does to the table -/

/-- The table after an operation of the call `g`. -/
inductive Touched (g : LoginCall) (w : Accounts) : Accounts → Prop where
  | same : Touched g w w
  | avatar {w' : Accounts} (avatarURL : String) (id : Nat) (hid : id ∈ g.seen) (hcreated : w'.created = w.created)
      (hrows : w'.users.rows = w.users.rows.map (setAvatar avatarURL id)) : Touched g w w'
  | added {w' : Accounts} (r : UserRow) (hr : r.githubID = some g.githubID) (hcreated : w'.created = r :: w.created)
      (hrows : w'.users.rows = r :: w.users.rows) : Touched g w w'

/-- A row of the account `githubID` with this id. -/
def HasRow (w : Accounts) (githubID : String) (id : Nat) : Prop :=
  ∃ r ∈ w.users.rows, r.id = id ∧ r.githubID = some githubID

section Operations

variable {g : LoginCall} {w w' : Accounts} {o : UserOp} {s : Supply} {fate : UserFate}

theorem setAvatar_id (avatarURL : String) (id : Nat) (r : UserRow) : (setAvatar avatarURL id r).id = r.id := by
  unfold setAvatar
  split <;> rfl

theorem setAvatar_githubID (avatarURL : String) (id : Nat) (r : UserRow) :
    (setAvatar avatarURL id r).githubID = r.githubID := by
  unfold setAvatar
  split <;> rfl

theorem touched_serveUser {r : o.Reply} (hrule : LoginRule g o) (h : serveUser w s o = some (w', r)) :
    Touched g w w' := by
  cases o with
  | find githubID =>
    cases h
    exact .same
  | updateAvatar avatarURL id =>
    cases h
    exact .avatar avatarURL id hrule rfl rfl
  | insert username githubID email avatarURL =>
    obtain ⟨hfree, heq⟩ | ⟨_, heq⟩ := dite_eq_iff.mp h
    · cases heq
      refine .added _ ?_ rfl rfl
      show some githubID = _
      rw [show githubID = g.githubID from hrule]
    · split at heq
      · cases heq
        exact .same
      · cases heq
  | randomHex =>
    cases h
    exact .same
  | finish result =>
    cases h
    exact .same

/-- An operation is executed and answered, or it is refused, executed or not. -/
theorem performUser_cases {r : o.Reply} (h : performUser w o fate = some (w', r)) :
    ∃ w₁ r₁, serveUser w fate.supply o = some (w₁, r₁) ∧
      ((w' = w₁ ∧ r = r₁) ∨ ((w' = w ∨ w' = w₁) ∧ ∃ msg, r = o.refusal msg)) := by
  obtain ⟨⟨w₁, r₁⟩, hserve, heq⟩ := Option.map_eq_some_iff.mp h
  exact ⟨w₁, r₁, hserve, Ending.apply_cases heq⟩

theorem touched_performUser {r : o.Reply} (hrule : LoginRule g o) (h : performUser w o fate = some (w', r)) :
    Touched g w w' := by
  obtain ⟨w₁, r₁, hserve, ⟨rfl, rfl⟩ | ⟨rfl | rfl, _⟩⟩ := performUser_cases h
  · exact touched_serveUser hrule hserve
  · exact .same
  · exact touched_serveUser hrule hserve

/-- Accounts stay. -/
theorem Touched.hasRow (h : Touched g w w') {githubID : String} {id : Nat} (hrow : HasRow w githubID id) :
    HasRow w' githubID id := by
  obtain ⟨r, hr, hid, hgithub⟩ := hrow
  cases h with
  | same => exact ⟨r, hr, hid, hgithub⟩
  | avatar avatarURL id' _ _ hrows =>
    refine ⟨setAvatar avatarURL id' r, ?_, ?_, ?_⟩
    · rw [hrows]
      exact List.mem_map_of_mem hr
    · rw [setAvatar_id, hid]
    · rw [setAvatar_githubID, hgithub]
  | added r' _ _ hrows =>
    refine ⟨r, ?_, hid, hgithub⟩
    rw [hrows]
    exact List.mem_cons_of_mem _ hr

/-- The rows of other accounts are as they were. -/
theorem Touched.others (h : Touched g w w') (hseen : ∀ id ∈ g.seen, HasRow w g.githubID id) {r : UserRow}
    (hr : r.githubID ≠ some g.githubID) : r ∈ w'.users.rows ↔ r ∈ w.users.rows := by
  cases h with
  | same => exact Iff.rfl
  | avatar avatarURL id hid _ hrows =>
    obtain ⟨own, hown, hownID, howner⟩ := hseen id hid
    -- the id is that of the call's own row
    have hfix : ∀ r ∈ w.users.rows, r.githubID ≠ some g.githubID → setAvatar avatarURL id r = r := by
      intro r hmem hother
      have hne : r.id ≠ id := by
        intro heq
        have hkey : userKey .pkey own = some r.id := congrArg some (hownID.trans heq.symm)
        have hsame : r = own := Table.eq_of_key hmem hown (show userKey .pkey r = some r.id from rfl) hkey
        rw [hsame] at hother
        exact hother howner
      exact if_neg hne
    rw [hrows, List.mem_map]
    constructor
    · rintro ⟨r₀, hr₀, heq⟩
      have hsame : r₀.githubID = r.githubID := by rw [← heq, setAvatar_githubID]
      rw [hfix r₀ hr₀ (hsame ▸ hr)] at heq
      rwa [← heq]
    · intro hmem
      exact ⟨r, hmem, hfix r hmem hr⟩
  | added r' hr' _ hrows =>
    rw [hrows, List.mem_cons]
    constructor
    · rintro (rfl | hmem)
      · exact absurd hr' hr
      · exact hmem
    · exact .inr

/-- What is found has a row, with the `github_id` that is asked for. -/
theorem findByGitHubID_eq {users : Users} {githubID : String} {u : User}
    (h : findByGitHubID users githubID = some u) :
    u.githubID = githubID ∧ ∃ r ∈ users.rows, r.id = u.id ∧ r.githubID = some githubID := by
  obtain ⟨r, hfind, hscan⟩ := Option.bind_eq_some_iff.mp h
  have hdecide : decide (r.githubID = some githubID) = true :=
    List.find?_some (p := fun r : UserRow => decide (r.githubID = some githubID)) hfind
  have hgithub : r.githubID = some githubID := of_decide_eq_true hdecide
  rw [hgithub] at hscan
  cases hscan
  exact ⟨rfl, r, List.mem_of_find?_eq_some hfind, rfl, hgithub⟩

theorem foundAsAsked_performUser {r : o.Reply} (h : performUser w o fate = some (w', r)) : FoundAsAsked o r := by
  obtain ⟨w₁, r₁, hserve, ⟨rfl, rfl⟩ | ⟨_, msg, rfl⟩⟩ := performUser_cases h
  · cases o with
    | find githubID =>
      cases hserve
      show FoundAsAsked (.find githubID) (Except.ok (findByGitHubID w.users githubID))
      cases hfound : findByGitHubID w.users githubID with
      | none => trivial
      | some u => exact (findByGitHubID_eq hfound).1
    | _ => trivial
  · cases o <;> trivial

/-- An id that a call comes across is that of a row with its `github_id`. -/
theorem seen_performUser {r : o.Reply} (hrule : LoginRule g o) (h : performUser w o fate = some (w', r)) {id : Nat}
    (hid : id ∈ (g.next o r).seen) : id ∈ g.seen ∨ HasRow w' g.githubID id := by
  obtain ⟨w₁, r₁, hserve, ⟨rfl, rfl⟩ | ⟨_, msg, rfl⟩⟩ := performUser_cases h
  · cases o with
    | find githubID =>
      have hasked : githubID = g.githubID := hrule
      cases hserve
      cases hfound : findByGitHubID w.users githubID with
      | none =>
        rw [hfound] at hid
        exact .inl hid
      | some u =>
        rw [hfound] at hid
        rcases List.mem_cons.mp hid with rfl | hid
        · obtain ⟨_, r, hr, hrid, hgithub⟩ := findByGitHubID_eq hfound
          exact .inr ⟨r, hr, hrid, hasked ▸ hgithub⟩
        · exact .inl hid
    | insert username githubID email avatarURL =>
      have hasked : githubID = g.githubID := hrule
      obtain ⟨hfree, heq⟩ | ⟨_, heq⟩ := dite_eq_iff.mp hserve
      · cases heq
        rcases List.mem_cons.mp hid with rfl | hid
        · exact .inr ⟨_, List.mem_cons_self, rfl, congrArg some hasked⟩
        · exact .inl hid
      · split at heq
        · cases heq
          exact .inl hid
        · cases heq
    | finish result => cases result <;> exact .inl hid
    | _ => exact .inl hid
  · -- an operation that is refused tells nothing
    cases o with
    | finish result => cases result <;> exact .inl hid
    | _ => exact .inl hid

/-- What a call has returned is the account it was for, by an id it has come across. -/
theorem returned_next {r : o.Reply} (hrule : LoginRule g o) {u : User} (hu : u ∈ (g.next o r).returned) :
    u ∈ g.returned ∨ (u.githubID = g.githubID ∧ u.id ∈ g.seen) := by
  cases o with
  | find githubID =>
    cases r with
    | error err => exact .inl hu
    | ok found => cases found <;> exact .inl hu
  | insert username githubID email avatarURL => cases r <;> exact .inl hu
  | finish result =>
    cases result with
    | error err => exact .inl hu
    | ok u' =>
      rcases List.mem_cons.mp hu with rfl | hu
      · exact .inr hrule
      · exact .inl hu
  | _ => exact .inl hu

theorem githubID_next (g : LoginCall) (o : UserOp) (r : o.Reply) : (g.next o r).githubID = g.githubID := by
  cases o with
  | find githubID =>
    cases r with
    | error err => rfl
    | ok found => cases found <;> rfl
  | insert username githubID email avatarURL => cases r <;> rfl
  | finish result => cases result <;> rfl
  | _ => rfl

theorem seen_next (g : LoginCall) (o : UserOp) (r : o.Reply) : g.seen ⊆ (g.next o r).seen := by
  cases o with
  | find githubID =>
    cases r with
    | error err => exact fun _ h => h
    | ok found =>
      cases found with
      | none => exact fun _ h => h
      | some u => exact List.subset_cons_self _ _
  | insert username githubID email avatarURL =>
    cases r with
    | error err => exact fun _ h => h
    | ok row => exact List.subset_cons_self _ _
  | finish result => cases result <;> exact fun _ h => h
  | _ => exact fun _ h => h

end Operations

/-! ## Runs -/

/-- The logins with their records. -/
abbrev LoginState := RecordedConfig Accounts UserOp UserOp.Reply LoginCall

/-- No login has begun. -/
def beforeLogins (users : Users) : LoginState := ⟨⟨users, []⟩, []⟩

/-- The states that logins and registrations lead to from the table `users`. -/
abbrev LoginRun (users : Users) (s : LoginState) : Prop :=
  Run (loginMachine.record loginRecorder) always (beforeLogins users) s

/-- Every call keeps its rules and has seen rows of its own account only, and the rows that have
been there or have been created still are. -/
structure LoginsAgree (users : Users) (s : LoginState) : Prop where
  heed : Machine.AllHeed loginRecorder loginRules s
  seen : ∀ t ∈ s.threads, ∀ id ∈ t.1.seen, HasRow s.world t.1.githubID id
  returned : ∀ t ∈ s.threads, ∀ u ∈ t.1.returned, u.githubID = t.1.githubID ∧ u.id ∈ t.1.seen
  created : ((s.world.created ++ users.rows).map (·.githubID)).Sublist (s.world.users.rows.map (·.githubID))

section Reached

variable {users : Users} {s s' : LoginState} {m : Move UserFate UserEvent}

/-- What an event does to the table. -/
theorem env_login {w w' : Accounts} {v : UserEvent} {ps : List (UserProgram Unit)}
    (h : loginMachine.env w v = some (w', ps)) :
    w' = w ∨ ∃ r, r.githubID = none ∧ w'.users.rows = r :: w.users.rows ∧ w'.created = w.created := by
  cases v with
  | login githubID username email avatarURL =>
    cases h
    exact .inl rfl
  | register id username passwordHash email createdAt =>
    obtain ⟨hfree, heq⟩ | ⟨_, heq⟩ := dite_eq_iff.mp h
    · cases heq
      exact .inr ⟨_, rfl, rfl, rfl⟩
    · cases heq

theorem LoginsAgree.hasRow_step (hs : LoginsAgree users s) (hstep : loginMachine.record loginRecorder s m = some s')
    {githubID : String} {id : Nat} (hrow : HasRow s.world githubID id) : HasRow s'.world githubID id := by
  obtain ⟨i, c, g, o, k, w, r, rfl, hi, hsem, rfl⟩ | ⟨i, rfl, rfl⟩ | ⟨v, w, ps, rfl, hv, rfl⟩ :=
    Machine.record_cases hstep
  · exact (touched_performUser (hs.heed.allowed hi) hsem).hasRow hrow
  · exact hrow
  · rcases env_login hv with rfl | ⟨r, _, hrows, _⟩
    · exact hrow
    · obtain ⟨r', hr', hid, hgithub⟩ := hrow
      refine ⟨r', ?_, hid, hgithub⟩
      show r' ∈ w.users.rows
      rw [hrows]
      exact List.mem_cons_of_mem _ hr'

theorem LoginsAgree.created_step (hs : LoginsAgree users s) (hstep : loginMachine.record loginRecorder s m = some s') :
    ((s'.world.created ++ users.rows).map (·.githubID)).Sublist (s'.world.users.rows.map (·.githubID)) := by
  obtain ⟨i, c, g, o, k, w, r, rfl, hi, hsem, rfl⟩ | ⟨i, rfl, rfl⟩ | ⟨v, w, ps, rfl, hv, rfl⟩ :=
    Machine.record_cases hstep
  · cases touched_performUser (hs.heed.allowed hi) hsem with
    | same => exact hs.created
    | avatar avatarURL id _ hcreated hrows =>
      show List.Sublist (List.map _ (w.created ++ _)) (List.map _ w.users.rows)
      have hsame : (fun r : UserRow => r.githubID) ∘ setAvatar avatarURL id = fun r => r.githubID :=
        funext fun r => setAvatar_githubID avatarURL id r
      rw [hcreated, hrows, List.map_map, hsame]
      exact hs.created
    | added r hr hcreated hrows =>
      show List.Sublist (List.map _ (w.created ++ _)) (List.map _ w.users.rows)
      rw [hcreated, hrows]
      exact hs.created.cons_cons _
  · exact hs.created
  · rcases env_login hv with rfl | ⟨r, _, hrows, hcreated⟩
    · exact hs.created
    · show List.Sublist (List.map _ (w.created ++ _)) (List.map _ w.users.rows)
      rw [hcreated, hrows]
      exact hs.created.cons _

theorem LoginsAgree.step (hs : LoginsAgree users s) (hstep : loginMachine.record loginRecorder s m = some s') :
    LoginsAgree users s' where
  heed := by
    refine login_disciplined.record hs.heed ?_ (fun _ _ _ _ => trivial) hstep
    intro i c g o k w r _ _ hsem
    exact foundAsAsked_performUser hsem
  seen := by
    intro t ht id hid
    obtain ht | ⟨i, c, g, o, k, r, rfl, hi, hsem, rfl⟩ | ⟨i, t₀, ht₀, rfl, rfl⟩ |
      ⟨i, c, g, o, k, r, rfl, hi, hsem, hg, hp⟩ | ⟨v, ps, rfl, hv, hg, hp⟩ := Machine.mem_record hstep ht
    · exact hs.hasRow_step hstep (hs.seen t ht id hid)
    · show HasRow s'.world (g.next o r).githubID id
      rw [githubID_next]
      rcases seen_performUser (hs.heed.allowed hi) hsem hid with hid | hrow
      · exact hs.hasRow_step hstep (hs.seen _ (List.mem_of_getElem? hi) id hid)
      · exact hrow
    · exact hs.hasRow_step hstep (hs.seen t₀ ht₀ id hid)
    · cases hp
    · rw [hg] at hid
      cases v <;> cases hid
  returned := by
    intro t ht u hu
    obtain ht | ⟨i, c, g, o, k, r, rfl, hi, hsem, rfl⟩ | ⟨i, t₀, ht₀, rfl, rfl⟩ |
      ⟨i, c, g, o, k, r, rfl, hi, hsem, hg, hp⟩ | ⟨v, ps, rfl, hv, hg, hp⟩ := Machine.mem_record hstep ht
    · exact hs.returned t ht u hu
    · have hold : u.githubID = g.githubID ∧ u.id ∈ g.seen := by
        rcases returned_next (hs.heed.allowed hi) hu with hu | hnew
        · exact hs.returned _ (List.mem_of_getElem? hi) u hu
        · exact hnew
      exact ⟨hold.1.trans (githubID_next g o r).symm, seen_next g o r hold.2⟩
    · exact hs.returned t₀ ht₀ u hu
    · cases hp
    · rw [hg] at hu
      cases v <;> cases hu
  created := hs.created_step hstep

theorem loginsAgree_of_run (h : LoginRun users s) : LoginsAgree users s := by
  refine h.invariant ?_ fun s s' m hs _ hstep => hs.step hstep
  refine ⟨?_, ?_, ?_, .refl _⟩
  · intro t ht
    cases ht
  · intro t ht
    cases ht
  · intro t ht
    cases ht

end Reached

/-- In every run no account is created that exists, each login returns the account it is for, the
same one each time, and no operation of a login touches the row of another account. -/
theorem first_login_unique (users : Users) (s : LoginState) (h : LoginRun users s) :
    (∀ githubID, ((s.world.created ++ users.rows).countP fun r => r.githubID = some githubID) ≤ 1) ∧
    (∀ t ∈ s.threads, ∀ u ∈ t.1.returned, u.githubID = t.1.githubID) ∧
    (∀ t ∈ s.threads, ∀ t' ∈ s.threads, t.1.githubID = t'.1.githubID →
      ∀ u ∈ t.1.returned, ∀ u' ∈ t'.1.returned, u.id = u'.id) ∧
    ∀ i c s', loginMachine.record loginRecorder s (.call i c) = some s' → ∀ t, s.threads[i]? = some t →
      ∀ r, r.githubID ≠ some t.1.githubID → (r ∈ s'.world.users.rows ↔ r ∈ s.world.users.rows) := by
  have hs := loginsAgree_of_run h
  refine ⟨?_, ?_, ?_, ?_⟩
  · intro githubID
    have hcount := hs.created.countP_le (p := fun k => decide (k = some githubID))
    rw [List.countP_map, List.countP_map] at hcount
    exact Nat.le_trans hcount (s.world.users.countP_key_le .githubID githubID)
  · intro t ht u hu
    exact (hs.returned t ht u hu).1
  · intro t ht t' ht' hsame u hu u' hu'
    obtain ⟨r, hr, hid, hgithub⟩ := hs.seen t ht u.id (hs.returned t ht u hu).2
    obtain ⟨r', hr', hid', hgithub'⟩ := hs.seen t' ht' u'.id (hs.returned t' ht' u' hu').2
    rw [← hsame] at hgithub'
    have hrows : r = r' := Table.eq_of_key (show r ∈ _ from hr) hr' (show userKey .githubID r = _ from hgithub) hgithub'
    rw [← hid, ← hid', hrows]
  · intro i c s' hstep t ht r hr
    obtain ⟨i', c', g, o, k, w, reply, heq, hi, hsem, rfl⟩ | ⟨_, heq, _⟩ | ⟨_, _, _, heq, _⟩ :=
      Machine.record_cases hstep
    · cases heq
      rw [hi] at ht
      cases ht
      have hseen := hs.seen _ (List.mem_of_getElem? hi)
      exact (touched_performUser (hs.heed.allowed hi) hsem).others hseen hr
    · cases heq
    · cases heq

section Race

/-- One registered user, called ann. -/
def annsTable : Users where
  rows := [registeredRow 1 "ann" (some "hash") "" 0]
  unique := List.pairwise_singleton _ _

/-- Two first logins of the same account, both under the name ann. -/
def firstLogins : List (Move UserFate UserEvent) :=
  let supply := fun id reported => UserFate.mk .served ⟨id, 7, reported, some (10, 27)⟩
  let login := .env (.login "42" "ann" "ann@example.org" "a.png")
  [login, login, .call 0 (supply 0 .pkey), .call 1 (supply 0 .pkey),
    -- the name is taken, for both
    .call 0 (supply 2 .username), .call 1 (supply 3 .username), .call 0 (supply 0 .pkey), .call 1 (supply 0 .pkey),
    -- the first one adds the row, the second one is told of the name and then of the account
    .call 0 (supply 4 .pkey), .call 1 (supply 5 .username), .call 1 (supply 0 .pkey), .call 1 (supply 6 .githubID),
    .call 1 (supply 0 .pkey), .call 0 (supply 0 .pkey), .call 1 (supply 0 .pkey)]

set_option maxRecDepth 4000 in
/-- Both are given the one account that has been created, under its second name. -/
theorem first_login_unique_race :
    let s := playAll (loginMachine.record loginRecorder) always (beforeLogins annsTable) firstLogins
    s.threads.map (fun t => t.1.returned.map fun u => (u.id, u.username)) =
      [[(4, "ann_0a1b")], [(4, "ann_0a1b")]] ∧
    ((s.world.created ++ annsTable.rows).countP fun r => r.githubID = some "42") ≤ 1 := by
  intro s
  have hrun : LoginRun annsTable s := Run.init.playAll firstLogins
  exact ⟨by decide +kernel, (first_login_unique annsTable s hrun).1 "42"⟩

end Race

end DeepOj.Repository
