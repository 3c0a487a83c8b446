import DeepOj.Api.Auth
import DeepOj.Conc.Growth
import DeepOj.Repository.FirstLogin

/-!
# Whom a token is given to

Whatever handlers run at the same time, and wherever they fail, a token goes to a request that
has the password of the account or comes from its owner at GitHub, and the middlewares take
the bearer for that account.
-/

namespace DeepOj.Api.Auth

open Conc Sql Repository Go

variable {lib : AuthLib} {cfg : AuthConfig} {w w' : World} {c : Nat}

/-! ## What stays -/

/-- What no statement changes in a row. -/
structure SameAccount (r r' : UserRow) : Prop where
  id : r'.id = r.id
  username : r'.username = r.username
  passwordHash : r'.passwordHash = r.passwordHash
  githubID : r'.githubID = r.githubID

theorem SameAccount.refl (r : UserRow) : SameAccount r r := ⟨rfl, rfl, rfl, rfl⟩

theorem SameAccount.trans {r₁ r₂ r₃ : UserRow} (h : SameAccount r₁ r₂) (h' : SameAccount r₂ r₃) :
    SameAccount r₁ r₃ :=
  ⟨h'.id.trans h.id, h'.username.trans h.username, h'.passwordHash.trans h.passwordHash,
    h'.githubID.trans h.githubID⟩

theorem sameAccount_setAvatar (avatarURL : String) (id : Nat) (r : UserRow) :
    SameAccount r (setAvatar avatarURL id r) := by
  unfold setAvatar
  split <;> exact ⟨rfl, rfl, rfl, rfl⟩

/-- Nothing that has happened is undone. -/
structure Extends (w w' : World) : Prop where
  requests : w.requests <+: w'.requests
  hashes : w.hashes ⊆ w'.hashes
  exchanged : w.exchanged ⊆ w'.exchanged
  shown : w.shown ⊆ w'.shown
  rows : ∀ r ∈ w.accounts.users.rows, ∃ r' ∈ w'.accounts.users.rows, SameAccount r r'

theorem Extends.refl (w : World) : Extends w w :=
  ⟨List.prefix_refl _, List.Subset.refl _, List.Subset.refl _, List.Subset.refl _, fun r hr => ⟨r, hr, .refl r⟩⟩

theorem Extends.trans {w₁ w₂ w₃ : World} (h : Extends w₁ w₂) (h' : Extends w₂ w₃) : Extends w₁ w₃ where
  requests := h.requests.trans h'.requests
  hashes := List.Subset.trans h.hashes h'.hashes
  exchanged := List.Subset.trans h.exchanged h'.exchanged
  shown := List.Subset.trans h.shown h'.shown
  rows r hr := by
    obtain ⟨r₂, hr₂, hsame₂⟩ := h.rows r hr
    obtain ⟨r₃, hr₃, hsame₃⟩ := h'.rows r₂ hr₂
    exact ⟨r₃, hr₃, hsame₂.trans hsame₃⟩

theorem Extends.request (h : Extends w w') {req : AuthRequest} (hreq : w.requests[c]? = some req) :
    w'.requests[c]? = some req := by
  obtain ⟨later, hlater⟩ := h.requests
  rw [← hlater, List.getElem?_append_left (List.getElem?_eq_some_iff.mp hreq).1]
  exact hreq

/-- In a registration under `username` a password was chosen, and `hash` was made of it. -/
def Chosen (w : World) (username hash : String) : Prop :=
  ∃ (c : Nat) (req : RegisterRequest), w.requests[c]? = some (.register (.ok req)) ∧ req.username = username ∧
    (req.password, hash) ∈ w.hashes

/-- GitHub has named the user with this id to the bearer of the access token that it gave for
the code in the request `c`, which has the state of its cookie. -/
def NamedTo (w : World) (c : Nat) (githubID : String) : Prop :=
  ∃ req accessToken ghUser, w.requests[c]? = some (.callback req) ∧ req.cookieState = .ok req.state ∧
    (c, req.code, accessToken) ∈ w.exchanged ∧ (accessToken, ghUser) ∈ w.shown ∧ toString ghUser.id = githubID

theorem Chosen.mono {username hash : String} (hle : Extends w w') (h : Chosen w username hash) :
    Chosen w' username hash := by
  obtain ⟨c, req, hreq, hname, hhash⟩ := h
  exact ⟨c, req, hle.request hreq, hname, hle.hashes hhash⟩

theorem NamedTo.mono {githubID : String} (hle : Extends w w') (h : NamedTo w c githubID) :
    NamedTo w' c githubID := by
  obtain ⟨req, accessToken, ghUser, hreq, hstate, hexchanged, hshown, hid⟩ := h
  exact ⟨req, accessToken, ghUser, hle.request hreq, hstate, hle.exchanged hexchanged, hle.shown hshown, hid⟩

/-- How an account has come about. -/
inductive Origin (w : World) (r : UserRow) : Prop where
  | registration (hgithub : r.githubID = none)
      (hhash : ∀ hash, r.passwordHash = some hash → Chosen w r.username hash)
  | gitHub (c : Nat) (githubID : String) (hhash : r.passwordHash = none) (hgithub : r.githubID = some githubID)
      (hnamed : NamedTo w c githubID)

theorem Origin.mono {r r' : UserRow} (hle : Extends w w') (hsame : SameAccount r r')
    (h : Origin w r) : Origin w' r' := by
  cases h with
  | registration hgithub hhash =>
    refine .registration (hsame.githubID.trans hgithub) fun hash h => ?_
    rw [hsame.passwordHash] at h
    rw [hsame.username]
    exact (hhash hash h).mono hle
  | gitHub c githubID hhash hgithub hnamed =>
    exact .gitHub c githubID (hsame.passwordHash.trans hhash) (hsame.githubID.trans hgithub) (hnamed.mono hle)

/-- The request `c` comes from the owner of the account. -/
inductive FromOwner (lib : AuthLib) (w : World) (c : Nat) (r : UserRow) : Prop where
  | password (req : LoginRequest) (hash : String) (hreq : w.requests[c]? = some (.login (.ok req)))
      (hname : r.username = req.username) (hhash : r.passwordHash = some hash)
      (hmatch : lib.compareHashAndPassword hash req.password = true)
  | gitHub (githubID : String) (hgithub : r.githubID = some githubID) (hnamed : NamedTo w c githubID)

theorem FromOwner.mono {r r' : UserRow} (hle : Extends w w') (hsame : SameAccount r r')
    (h : FromOwner lib w c r) :
    FromOwner lib w' c r' := by
  cases h with
  | password req hash hreq hname hhash hmatch =>
    exact .password req hash (hle.request hreq) (hsame.username.trans hname)
      (hsame.passwordHash.trans hhash) hmatch
  | gitHub githubID hgithub hnamed => exact .gitHub githubID (hsame.githubID.trans hgithub) (hnamed.mono hle)

/-- The owner of an account has asked in the request `c`. -/
def AskedByOwner (lib : AuthLib) (w : World) (c : Nat) (username : String) (id : Nat) : Prop :=
  ∃ r ∈ w.accounts.users.rows, r.id = id ∧ r.username = username ∧ FromOwner lib w c r

theorem AskedByOwner.mono {username : String} {id : Nat} (hle : Extends w w')
    (h : AskedByOwner lib w c username id) :
    AskedByOwner lib w' c username id := by
  obtain ⟨r, hr, hid, hname, howner⟩ := h
  obtain ⟨r', hr', hsame⟩ := hle.rows r hr
  exact ⟨r', hr', hsame.id.trans hid, hsame.username.trans hname, howner.mono hle hsame⟩

/-! ## The discipline -/

/-- An account is created on the word of its owner, and a token is given to the owner. -/
def AuthAllowed (lib : AuthLib) (cfg : AuthConfig) : AuthOp → World → Prop
  | .createUser username hash _, w => Chosen w username hash
  | .user (.insert _ githubID _ _), w => ∃ c, NamedTo w c githubID
  | .json c (.loggedIn token username id), w =>
    AskedByOwner lib w c username id ∧ ∃ exp, lib.signedString cfg.jwtSecret ⟨id, username, exp⟩ = .ok token
  | _, _ => True

structure AuthInv (lib : AuthLib) (cfg : AuthConfig) (w : World) : Prop where
  origin : ∀ r ∈ w.accounts.users.rows, Origin w r
  ids : ∀ r ∈ w.accounts.users.rows, r.id < 9223372036854775808
  tokens : ∀ c token username id, (c, AuthReply.loggedIn token username id) ∈ w.responses →
    AskedByOwner lib w c username id ∧ ∃ exp, lib.signedString cfg.jwtSecret ⟨id, username, exp⟩ = .ok token

def authGrowth (lib : AuthLib) (cfg : AuthConfig) : Growth World AuthOp where
  Inv := AuthInv lib cfg
  Allowed := AuthAllowed lib cfg
  Le := Extends
  refl := .refl
  trans _ _ _ := .trans

/-- The invariant, where no token is given out and the new rows are accounted for. -/
theorem AuthInv.extend (h : AuthInv lib cfg w) (hle : Extends w w') (hresponses : w'.responses = w.responses)
    (hrows : ∀ r' ∈ w'.accounts.users.rows, (∃ r ∈ w.accounts.users.rows, SameAccount r r') ∨
      (Origin w r' ∧ r'.id < 9223372036854775808)) : AuthInv lib cfg w' where
  origin r' hr' := by
    obtain ⟨r, hr, hsame⟩ | ⟨horigin, _⟩ := hrows r' hr'
    · exact (h.origin r hr).mono hle hsame
    · exact horigin.mono hle (.refl r')
  ids r' hr' := by
    obtain ⟨r, hr, hsame⟩ | ⟨_, hid⟩ := hrows r' hr'
    · rw [hsame.id]
      exact h.ids r hr
    · exact hid
  tokens c token username id hmem := by
    rw [hresponses] at hmem
    obtain ⟨howner, hsigned⟩ := h.tokens c token username id hmem
    exact ⟨howner.mono hle, hsigned⟩

/-- A step that leaves the table alone. -/
theorem AuthInv.record (h : AuthInv lib cfg w) (hle : Extends w w') (hresponses : w'.responses = w.responses)
    (haccounts : w'.accounts = w.accounts) : AuthInv lib cfg w' := by
  refine h.extend hle hresponses fun r hr => .inl ⟨r, ?_, .refl r⟩
  rwa [haccounts] at hr

/-- A statement keeps the accounts there are; it accounts for the rows that are new. -/
theorem inv_accounts {accounts : Accounts} (h : AuthInv lib cfg w)
    (hkept : ∀ r ∈ w.accounts.users.rows, ∃ r' ∈ accounts.users.rows, SameAccount r r')
    (hrows : ∀ r' ∈ accounts.users.rows, (∃ r ∈ w.accounts.users.rows, SameAccount r r') ∨
      (Origin w r' ∧ r'.id < 9223372036854775808)) :
    AuthInv lib cfg { w with accounts := accounts } ∧ Extends w { w with accounts := accounts } := by
  have hle : Extends w { w with accounts := accounts } := { Extends.refl w with rows := hkept }
  exact ⟨h.extend hle rfl hrows, hle⟩

theorem inv_insert {r : UserRow} {accounts : Accounts} (h : AuthInv lib cfg w)
    (hrows : accounts.users.rows = r :: w.accounts.users.rows) (horigin : Origin w r)
    (hid : r.id < 9223372036854775808) :
    AuthInv lib cfg { w with accounts := accounts } ∧ Extends w { w with accounts := accounts } := by
  refine inv_accounts h (fun r' hr' => ⟨r', ?_, .refl r'⟩) fun r' hr' => ?_
  · rw [hrows]
    exact List.mem_cons_of_mem _ hr'
  · rw [hrows] at hr'
    rcases List.mem_cons.mp hr' with rfl | hmem
    · exact .inr ⟨horigin, hid⟩
    · exact .inl ⟨r', hmem, .refl r'⟩

/-- The statements of `GetOrCreateByGitHubID`. -/
theorem inv_user (h : AuthInv lib cfg w) {o : UserOp} (hallowed : AuthAllowed lib cfg (.user o) w) {s : Supply}
    (hid : s.id < 9223372036854775808) {accounts : Accounts} {r : o.Reply}
    (hs : serveUser w.accounts s o = some (accounts, r)) :
    AuthInv lib cfg { w with accounts := accounts } ∧ Extends w { w with accounts := accounts } := by
  cases o with
  | find githubID => cases hs; exact ⟨h, .refl w⟩
  | randomHex => cases hs; exact ⟨h, .refl w⟩
  | finish result => cases hs; exact ⟨h, .refl w⟩
  | updateAvatar avatarURL id =>
    cases hs
    refine inv_accounts h
      (fun r hr => ⟨_, List.mem_map_of_mem hr, sameAccount_setAvatar avatarURL id r⟩) fun r' hr' => ?_
    obtain ⟨r, hr, rfl⟩ := List.mem_map.mp hr'
    exact .inl ⟨r, hr, sameAccount_setAvatar avatarURL id r⟩
  | insert username githubID email avatarURL =>
    obtain ⟨hfree, heq⟩ | ⟨_, heq⟩ := dite_eq_iff.mp hs
    · cases heq
      obtain ⟨c, hnamed⟩ := hallowed
      exact inv_insert h rfl (.gitHub c githubID rfl rfl hnamed) hid
    · split at heq
      · cases heq
        exact ⟨h, .refl w⟩
      · cases heq

theorem inv_serveAuth (h : AuthInv lib cfg w) {o : AuthOp} (hallowed : AuthAllowed lib cfg o w)
    {fate : AuthFate}
    (hid : fate.supply.id < 9223372036854775808) {r : o.Reply} (hs : serveAuth w fate o = some (w', r)) :
    AuthInv lib cfg w' ∧ Extends w w' := by
  cases o with
  | checkRateLimit => cases hs; exact ⟨h, .refl w⟩
  | getUserByUsername username => cases hs; exact ⟨h, .refl w⟩
  | now => cases hs; exact ⟨h, .refl w⟩
  | generateFromPassword password =>
    cases hs
    have hle : Extends w { w with hashes := (password, fate.text) :: w.hashes } :=
      { Extends.refl w with hashes := List.subset_cons_self _ _ }
    exact ⟨h.record hle rfl rfl, hle⟩
  | exchange c code =>
    cases hs
    have hle : Extends w { w with exchanged := (c, code, fate.text) :: w.exchanged } :=
      { Extends.refl w with exchanged := List.subset_cons_self _ _ }
    exact ⟨h.record hle rfl rfl, hle⟩
  | getGitHubUser accessToken =>
    simp only [serveAuth] at hs
    split at hs
    · rename_i ghUser _
      cases hs
      have hle : Extends w { w with shown := (accessToken, ghUser) :: w.shown } :=
        { Extends.refl w with shown := List.subset_cons_self _ _ }
      exact ⟨h.record hle rfl rfl, hle⟩
    · cases hs
      exact ⟨h, .refl w⟩
  | createUser username passwordHash email =>
    obtain ⟨hfree, heq⟩ | ⟨_, heq⟩ := dite_eq_iff.mp hs
    · cases heq
      refine inv_insert h rfl (.registration rfl fun hash hhash => ?_) hid
      -- an empty hash is stored as null
      have hstored : passwordHash = hash := by
        simp only [registeredRow] at hhash
        split at hhash
        · cases hhash
        · exact Option.some.inj hhash
      rw [← hstored]
      exact hallowed
    · obtain ⟨_, heq⟩ | ⟨_, heq⟩ := ite_eq_iff.mp heq
      · cases heq
        exact ⟨h, .refl w⟩
      · cases heq
  | user o =>
    obtain ⟨⟨accounts, r'⟩, hserve, heq⟩ := Option.map_eq_some_iff.mp hs
    cases heq
    exact inv_user h hallowed hid hserve
  | json c reply =>
    cases hs
    have hle : Extends w { w with responses := (c, reply) :: w.responses } := { Extends.refl w with }
    refine ⟨⟨fun r hr => (h.origin r hr).mono hle (.refl r), h.ids, fun c' token username id hmem => ?_⟩, hle⟩
    rcases List.mem_cons.mp hmem with heq | hmem
    · cases heq
      exact ⟨hallowed.1.mono hle, hallowed.2⟩
    · obtain ⟨howner, hsigned⟩ := h.tokens c' token username id hmem
      exact ⟨howner.mono hle, hsigned⟩

/-- An operation is executed and answered, or it is refused, executed or not. -/
theorem performAuth_cases {o : AuthOp} {fate : AuthFate} {r : o.Reply}
    (h : performAuth w o fate = some (w', r)) :
    fate.supply.id < 9223372036854775808 ∧ ∃ w₁ r₁, serveAuth w fate o = some (w₁, r₁) ∧
      ((w' = w₁ ∧ r = r₁) ∨ ((w' = w ∨ w' = w₁) ∧ ∃ msg, r = o.refusal msg)) := by
  unfold performAuth at h
  split at h
  · rename_i hid
    obtain ⟨⟨w₁, r₁⟩, hserve, heq⟩ := Option.map_eq_some_iff.mp h
    exact ⟨hid, w₁, r₁, hserve, Ending.apply_cases heq⟩
  · cases h

theorem auth_respected (lib : AuthLib) (cfg : AuthConfig) :
    (authGrowth lib cfg).Respected (authMachine lib cfg) where
  call w e fate w' r hi ha hs := by
    obtain ⟨hid, w₁, r₁, hserve, ⟨rfl, _⟩ | ⟨rfl | rfl, _⟩⟩ := performAuth_cases hs
    · exact inv_serveAuth hi ha hid hserve
    · exact ⟨hi, .refl _⟩
    · exact inv_serveAuth hi ha hid hserve
  env w req w' ps hi hv := by
    cases hv
    have hle : Extends w { w with requests := w.requests ++ [req] } :=
      { Extends.refl w with requests := List.prefix_append _ _ }
    exact ⟨AuthInv.record hi hle rfl rfl, hle⟩
  forks _ := rfl

/-! ## The handlers meet it -/

section Handlers

variable {P : World → Prop} {α : Type}

/-- The program meets the discipline where `P` holds, and leaves `Q` behind. -/
abbrev Meets (lib : AuthLib) (cfg : AuthConfig) (P : World → Prop) (p : AuthProgram α)
    (Q : α → World → Prop) : Prop :=
  (authMachine lib cfg).Triple (authGrowth lib cfg).discipline P p Q

abbrev Ends (lib : AuthLib) (cfg : AuthConfig) (P : World → Prop) (p : AuthProgram Unit) : Prop :=
  Meets lib cfg P p fun _ _ => True

/-- What goes upwards. -/
abbrev Kept (P : World → Prop) : Prop := ∀ w w', Extends w w' → P w → P w'

theorem Kept.and {S : World → Prop} (hP : Kept P) (hS : Kept S) : Kept fun w => P w ∧ S w :=
  fun w w' hle h => ⟨hP w w' hle h.1, hS w w' hle h.2⟩

/-- A response without a token. -/
theorem ends_json {r : AuthReply} (h : ∀ w, AuthAllowed lib cfg (.json c r) w) :
    Ends lib cfg P (authOp (.json c r)) :=
  .of_confined (.perform h)

theorem ends_fail (status : Nat) (error : String) : Ends lib cfg P (fail c status error) :=
  ends_json fun _ => trivial

/-- An effect that is always allowed, and tells nothing. -/
theorem meets_call {o : AuthOp} {f : o.Reply → AuthProgram α} {Q : α → World → Prop} (hP : Kept P)
    (h : ∀ w, AuthAllowed lib cfg o w) (hf : ∀ r, Meets lib cfg P (f r) Q) :
    Meets lib cfg P (authOp o >>= f) Q := by
  refine (auth_respected lib cfg).call_triple (fun _ _ => True) hP (fun w _ => h w)
    (fun _ _ _ _ _ _ _ _ => trivial) ?_
  intro r
  exact (hf r).conseq (fun _ hw => hw.1) fun _ _ hq => hq

/-- What an effect that is answered tells. -/
theorem answered_performAuth {o : AuthOp} {fate : AuthFate} {r : o.Reply}
    (h : performAuth w o fate = some (w', r))
    (hr : ∀ msg, r ≠ o.refusal msg) : serveAuth w fate o = some (w', r) := by
  obtain ⟨_, w₁, r₁, hserve, ⟨rfl, rfl⟩ | ⟨_, msg, heq⟩⟩ := performAuth_cases h
  · exact hserve
  · exact absurd heq (hr msg)

theorem register_ends (body : Except String RegisterRequest) :
    Ends lib cfg (fun w => w.requests[c]? = some (.register body)) (register c body) := by
  have hkept : Kept fun w => w.requests[c]? = some (.register body) := fun _ _ hle h => hle.request h
  refine meets_call hkept (fun _ => trivial) fun admitted => ?_
  cases admitted with
  | false => exact ends_json fun _ => trivial
  | true =>
    cases body with
    | error err => exact ends_fail _ _
    | ok req =>
      refine meets_call hkept (fun _ => trivial) fun found => ?_
      match found with
      | .error _ => exact ends_fail _ _
      | .ok (some _) => exact ends_fail _ _
      | .ok none =>
        refine (auth_respected lib cfg).call_triple
          (fun r w => ∀ hash, r = .ok hash → (req.password, hash) ∈ w.hashes) hkept
          (fun _ _ => trivial) ?_ fun r => ?_
        · rintro w fate w' r _ _ _ hs hash rfl
          have hserve := answered_performAuth hs fun _ => nofun
          cases hserve
          exact List.mem_cons_self
        · cases r with
          | error _ => exact ends_fail _ _
          | ok hash =>
            have hchosen : ∀ w, (w.requests[c]? = some (.register (.ok req)) ∧
                ∀ h, Except.ok (ε := String) hash = .ok h → (req.password, h) ∈ w.hashes) →
                  Chosen w req.username hash :=
              fun w hw => ⟨c, req, hw.1, rfl, hw.2 hash rfl⟩
            refine Machine.Triple.conseq (P := fun w => Chosen w req.username hash) ?_ hchosen fun _ _ hq => hq
            refine (auth_respected lib cfg).call_triple (fun _ _ => True)
              (fun _ _ hle h => h.mono hle) (fun w hw => hw)
              (fun _ _ _ _ _ _ _ _ => trivial) fun r => ?_
            cases r with
            | error _ => exact ends_fail _ _
            | ok row => exact ends_json fun _ => trivial

/-- The end of both logins, on behalf of the owner. -/
theorem respondToken_ends (failure : String) (user : User) :
    Ends lib cfg (fun w => AskedByOwner lib w c user.username user.id)
      (respondToken lib cfg c failure user) := by
  have hkept : Kept fun w => AskedByOwner lib w c user.username user.id := fun _ _ hle h => h.mono hle
  refine meets_call hkept (fun _ => trivial) fun now => ?_
  cases htoken : generateToken lib cfg now user.id user.username with
  | error _ => exact ends_fail _ _
  | ok token =>
    refine (auth_respected lib cfg).call_triple (fun _ _ => True) hkept (fun w hw => ⟨hw, _, htoken⟩)
      (fun _ _ _ _ _ _ _ _ => trivial) fun _ => ?_
    exact .ret fun _ _ => trivial

/-- The row that is found by its name. -/
theorem findByUsername_eq {users : Users} {username : String} {u : User}
    (h : findByUsername users username = some u) :
    ∃ r ∈ users.rows, r.username = username ∧ u = r.toUser (r.githubID.getD "") := by
  obtain ⟨r, hfind, rfl⟩ := Option.map_eq_some_iff.mp h
  have hname := List.find?_some (p := fun r : UserRow => decide (r.username = username)) hfind
  exact ⟨r, List.mem_of_find?_eq_some hfind, of_decide_eq_true hname, rfl⟩

/-- A row like the one a user was scanned from. -/
def HasAccount (w : World) (username : String) (u : User) : Prop :=
  ∃ r ∈ w.accounts.users.rows, r.id = u.id ∧ r.username = u.username ∧ u.username = username ∧
    r.passwordHash.getD "" = u.passwordHash

theorem HasAccount.mono {username : String} {u : User} (hle : Extends w w') (h : HasAccount w username u) :
    HasAccount w' username u := by
  obtain ⟨r, hr, hid, hname, husername, hhash⟩ := h
  obtain ⟨r', hr', hsame⟩ := hle.rows r hr
  exact ⟨r', hr', hsame.id.trans hid, hsame.username.trans hname, husername, hsame.passwordHash ▸ hhash⟩

theorem login_ends (hlib : lib.Lawful) (body : Except String LoginRequest) :
    Ends lib cfg (fun w => w.requests[c]? = some (.login body)) (login lib cfg c body) := by
  have hkept : Kept fun w => w.requests[c]? = some (.login body) := fun _ _ hle h => hle.request h
  refine meets_call hkept (fun _ => trivial) fun admitted => ?_
  cases admitted with
  | false => exact ends_json fun _ => trivial
  | true =>
    cases body with
    | error err => exact ends_fail _ _
    | ok req =>
      refine (auth_respected lib cfg).call_triple
        (fun r w => ∀ u, r = .ok (some u) → HasAccount w req.username u) hkept
        (fun _ _ => trivial) ?_ fun r => ?_
      · rintro w fate w' r _ _ _ hs u rfl
        have hserve := answered_performAuth hs fun _ => nofun
        simp only [serveAuth] at hserve
        obtain ⟨rfl, hfound⟩ := Prod.mk.injEq _ _ _ _ ▸ Option.some.inj hserve
        obtain ⟨r, hr, hname, rfl⟩ := findByUsername_eq (Except.ok.inj hfound)
        exact ⟨r, hr, rfl, rfl, hname, rfl⟩
      · match r with
        | .error _ => exact ends_fail _ _
        | .ok none => exact ends_fail _ _
        | .ok (some user) =>
          show Ends lib cfg _
            (if lib.compareHashAndPassword user.passwordHash req.password = false then _ else _)
          by_cases hmatch : lib.compareHashAndPassword user.passwordHash req.password = false
          · rw [if_pos hmatch]
            exact ends_fail _ _
          · rw [if_neg hmatch]
            refine (respondToken_ends _ user).conseq ?_ fun _ _ hq => hq
            rintro w ⟨hreq, hfound⟩
            obtain ⟨r, hr, hid, hname, husername, hhash⟩ := hfound user rfl
            refine ⟨r, hr, hid, hname, ?_⟩
            rw [← hhash, Bool.not_eq_false] at hmatch
            cases hstored : r.passwordHash with
            | none =>
              rw [hstored] at hmatch
              exact absurd hmatch
                (by rw [show (none : Option String).getD "" = "" from rfl, hlib.empty_hash]; decide)
            | some hash =>
              rw [hstored] at hmatch
              exact .password req hash hreq (hname.trans husername) hstored hmatch

/-- A row of the user that a statement of `GetOrCreateByGitHubID` has returned. -/
def HasGitHub (w : World) (githubID : String) (id : Nat) (username : String) : Prop :=
  ∃ r ∈ w.accounts.users.rows, r.id = id ∧ r.username = username ∧ r.githubID = some githubID

theorem HasGitHub.mono {githubID username : String} {id : Nat} (hle : Extends w w')
    (h : HasGitHub w githubID id username) :
    HasGitHub w' githubID id username := by
  obtain ⟨r, hr, hid, hname, hgithub⟩ := h
  obtain ⟨r', hr', hsame⟩ := hle.rows r hr
  exact ⟨r', hr', hsame.id.trans hid, hsame.username.trans hname, hsame.githubID.trans hgithub⟩

section GitHub

variable {githubID username email avatarURL : String}

/-- What `GetOrCreateByGitHubID` returns is an account of the user it was asked for. -/
def ReturnsAccount (c : Nat) (githubID : String) (result : Except String User) (w : World) : Prop :=
  NamedTo w c githubID ∧ ∀ u, result = .ok u → HasGitHub w githubID u.id u.username

theorem kept_namedTo : Kept fun w => NamedTo w c githubID := fun _ _ hle h => h.mono hle

theorem error_returnsAccount (err : String) :
    Meets lib cfg (fun w => NamedTo w c githubID) (.ret (.error err)) (ReturnsAccount c githubID) :=
  .ret fun _ hw => ⟨hw, nofun⟩

/-- A query by `github_id`. -/
theorem find_meets {f : Except String (Option User) → AuthProgram α} {Q : α → World → Prop}
    (hf : ∀ r, Meets lib cfg (fun w => NamedTo w c githubID ∧
      ∀ u, r = .ok (some u) → HasGitHub w githubID u.id u.username) (f r) Q) :
    Meets lib cfg (fun w => NamedTo w c githubID) (authOp (.user (.find githubID)) >>= f) Q := by
  refine (auth_respected lib cfg).call_triple
    (fun r w => ∀ u, r = .ok (some u) → HasGitHub w githubID u.id u.username)
    kept_namedTo (fun _ _ => trivial) ?_ hf
  rintro w fate w' r _ _ _ hs u rfl
  have hserve := answered_performAuth hs fun _ => nofun
  simp only [serveAuth, serveUser, Option.map_some] at hserve
  obtain ⟨rfl, hfound⟩ := Prod.mk.injEq _ _ _ _ ▸ Option.some.inj hserve
  obtain ⟨r, hfind, hscan⟩ := Option.bind_eq_some_iff.mp (Except.ok.inj hfound)
  have hgithub : r.githubID = some githubID :=
    of_decide_eq_true (List.find?_some (p := fun r : UserRow => decide (r.githubID = some githubID)) hfind)
  rw [hgithub] at hscan
  cases hscan
  exact ⟨r, List.mem_of_find?_eq_some hfind, rfl, rfl, hgithub⟩

/-- An insert that is answered has added the row. -/
theorem insert_meets {f : Except UserError (Nat × Nat) → AuthProgram α} {Q : α → World → Prop}
    (hf : ∀ r, Meets lib cfg (fun w => NamedTo w c githubID ∧
      ∀ id createdAt, r = .ok (id, createdAt) → HasGitHub w githubID id username) (f r) Q) :
    Meets lib cfg (fun w => NamedTo w c githubID)
      (authOp (.user (.insert username githubID email avatarURL)) >>= f) Q := by
  refine (auth_respected lib cfg).call_triple
    (fun r w => ∀ id createdAt, r = .ok (id, createdAt) → HasGitHub w githubID id username)
    kept_namedTo (fun w hw => ⟨c, hw⟩) ?_ hf
  rintro w fate w' r _ _ _ hs id createdAt rfl
  have hserve := answered_performAuth hs fun _ => nofun
  obtain ⟨⟨accounts, r⟩, hrun, heq⟩ := Option.map_eq_some_iff.mp hserve
  cases heq
  obtain ⟨hfree, heq⟩ | ⟨_, heq⟩ := dite_eq_iff.mp hrun
  · cases heq
    exact ⟨_, List.mem_cons_self, rfl, rfl, rfl⟩
  · split at heq <;> cases heq

theorem createLoop_meets (n : Nat) (currentUsername : String) :
    Meets lib cfg (fun w => NamedTo w c githubID)
      (onUsers (createLoop githubID username email avatarURL n currentUsername))
        (ReturnsAccount c githubID) := by
  induction n generalizing currentUsername with
  | zero => exact error_returnsAccount _
  | succ n ih =>
    refine insert_meets fun r => ?_
    match r with
    | .ok (id, createdAt) => exact .ret fun w hw => ⟨hw.1, fun u hu => Except.ok.inj hu ▸ hw.2 id createdAt rfl⟩
    | .error (.other msg) => exact (error_returnsAccount msg).conseq (fun _ hw => hw.1) fun _ _ hq => hq
    | .error (.uniqueViolation .githubID) =>
      refine Machine.Triple.conseq (find_meets fun r => ?_) (fun _ hw => hw.1) fun _ _ hq => hq
      match r with
      | .error err => exact (error_returnsAccount err).conseq (fun _ hw => hw.1) fun _ _ hq => hq
      | .ok none => exact (ih currentUsername).conseq (fun _ hw => hw.1) fun _ _ hq => hq
      | .ok (some u) => exact .ret fun w hw => ⟨hw.1, fun u' hu => Except.ok.inj hu ▸ hw.2 u rfl⟩
    | .error (.uniqueViolation .pkey) | .error (.uniqueViolation .username) =>
      refine Machine.Triple.conseq (P := fun w => NamedTo w c githubID) ?_ (fun _ hw => hw.1) fun _ _ hq => hq
      exact meets_call kept_namedTo (fun _ => trivial) fun suffix => ih _

theorem getOrCreate_meets :
    Meets lib cfg (fun w => NamedTo w c githubID)
      (onUsers (getOrCreateByGitHubID githubID username email avatarURL))
      (ReturnsAccount c githubID) := by
  refine find_meets fun r => ?_
  match r with
  | .error err => exact (error_returnsAccount err).conseq (fun _ hw => hw.1) fun _ _ hq => hq
  | .ok none => exact (createLoop_meets 5 username).conseq (fun _ hw => hw.1) fun _ _ hq => hq
  | .ok (some u) =>
    have hret : ∀ avatarURL,
        Meets lib cfg (fun w => NamedTo w c githubID ∧ HasGitHub w githubID u.id u.username)
        (.ret (.ok { u with avatarURL := avatarURL })) (ReturnsAccount c githubID) :=
      fun avatarURL => .ret fun w hw => ⟨hw.1, fun u' hu => Except.ok.inj hu ▸ hw.2⟩
    refine Machine.Triple.conseq (P := fun w => NamedTo w c githubID ∧ HasGitHub w githubID u.id u.username) ?_
      (fun w hw => ⟨hw.1, hw.2 u rfl⟩) fun _ _ hq => hq
    by_cases havatar : u.avatarURL ≠ avatarURL
    · have hkept : Kept fun w => NamedTo w c githubID ∧ HasGitHub w githubID u.id u.username :=
        kept_namedTo.and fun _ _ hle h => h.mono hle
      show Meets lib cfg _ (onUsers (if u.avatarURL ≠ avatarURL then _ else _)) _
      rw [if_pos havatar]
      exact meets_call hkept (fun _ => trivial) fun _ => hret avatarURL
    · show Meets lib cfg _ (onUsers (if u.avatarURL ≠ avatarURL then _ else _)) _
      rw [if_neg havatar]
      exact hret u.avatarURL

end GitHub

theorem loginGitHubUser_ends (ghUser : GitHubUser) :
    Ends lib cfg (fun w => NamedTo w c (toString ghUser.id)) (loginGitHubUser lib cfg c ghUser) := by
  refine Machine.Triple.bind getOrCreate_meets fun result => ?_
  cases result with
  | error _ => exact ends_fail _ _
  | ok user =>
    refine (respondToken_ends _ user).conseq ?_ fun _ _ hq => hq
    rintro w ⟨hnamed, haccount⟩
    obtain ⟨r, hr, hid, hname, hgithub⟩ := haccount user rfl
    exact ⟨r, hr, hid, hname, .gitHub _ hgithub hnamed⟩

theorem handleGitHubCallback_ends (req : CallbackRequest) :
    Ends lib cfg (fun w => w.requests[c]? = some (.callback req)) (handleGitHubCallback lib cfg c req) := by
  have hkept : Kept fun w => w.requests[c]? = some (.callback req) := fun _ _ hle h => hle.request h
  unfold handleGitHubCallback
  split
  · exact ends_fail _ _
  split
  · exact ends_fail _ _
  split
  · exact ends_fail _ _
  rename_i cookieState hcookie
  split
  · exact ends_fail _ _
  rename_i hstate
  have hmatches : req.cookieState = .ok req.state := by
    rw [hcookie, not_ne_iff.mp fun h => hstate (.inr h)]
  refine (auth_respected lib cfg).call_triple (fun r w => ∀ accessToken, r = .ok accessToken →
    (c, req.code, accessToken) ∈ w.exchanged) hkept (fun _ _ => trivial) ?_ fun r => ?_
  · rintro w fate w' r _ _ _ hs accessToken rfl
    have hserve := answered_performAuth hs fun _ => nofun
    cases hserve
    exact List.mem_cons_self
  cases r with
  | error _ => exact ends_fail _ _
  | ok accessToken =>
    have hkept' : Kept fun w => w.requests[c]? = some (.callback req) ∧
        (c, req.code, accessToken) ∈ w.exchanged :=
      hkept.and fun _ _ hle h => hle.exchanged h
    refine Machine.Triple.conseq (P := fun w => w.requests[c]? = some (.callback req) ∧
      (c, req.code, accessToken) ∈ w.exchanged) ?_ (fun w hw => ⟨hw.1, hw.2 accessToken rfl⟩) fun _ _ hq => hq
    refine (auth_respected lib cfg).call_triple
      (fun r w => ∀ ghUser, r = .ok ghUser → (accessToken, ghUser) ∈ w.shown)
      hkept' (fun _ _ => trivial) ?_ fun r => ?_
    · rintro w fate w' r _ _ _ hs ghUser rfl
      have hserve := answered_performAuth hs fun _ => nofun
      simp only [serveAuth] at hserve
      split at hserve <;> cases hserve
      exact List.mem_cons_self
    · match r with
      | .error (.get _) => exact ends_fail _ _
      | .error (.decode _) => exact ends_fail _ _
      | .ok ghUser =>
        refine (loginGitHubUser_ends ghUser).conseq ?_ fun _ _ hq => hq
        rintro w ⟨⟨hreq, hexchanged⟩, hshown⟩
        exact ⟨req, accessToken, ghUser, hreq, hmatches, hexchanged, hshown ghUser rfl, rfl⟩

end Handlers

/-! ## Runs -/

theorem auth_starts (hlib : lib.Lawful) : (authGrowth lib cfg).Starts (authMachine lib cfg) := by
  intro w req w' ps hv p hp
  cases hv
  obtain rfl := List.mem_singleton.mp hp
  have hreq : (w.requests ++ [req])[w.requests.length]? = some req := List.getElem?_concat_length
  cases req with
  | register body => exact (register_ends body).wp _ hreq
  | login body => exact (login_ends hlib body).wp _ hreq
  | callback req => exact (handleGitHubCallback_ends req).wp _ hreq

theorem authInv_reach (hlib : lib.Lawful) {s : Config World AuthOp AuthOp.Reply}
    (h : (authMachine lib cfg).Reach Machine.anyMove ⟨emptyWorld, []⟩ s) : AuthInv lib cfg s.world :=
  (auth_respected lib cfg).inv_reach (auth_starts hlib)
    ⟨fun _ hr => absurd hr List.not_mem_nil, fun _ hr => absurd hr List.not_mem_nil,
      fun _ _ _ _ h => absurd h List.not_mem_nil⟩ h

/-! ## The middlewares -/

theorem cutSpace_bearer (token : String) : cutSpace ("Bearer " ++ token) = some ("Bearer", token) := by
  have hlist : ("Bearer " ++ token).toList = ['B', 'e', 'a', 'r', 'e', 'r'] ++ ' ' :: token.toList := by
    rw [String.toList_append]
    rfl
  unfold cutSpace
  rw [hlist]
  simp [List.takeWhile, List.dropWhile, String.ofList_toList]

/-- A token that was signed here and passes names the account it was signed for. -/
theorem authMiddleware_signed (hlib : lib.Lawful)
    {claims : TokenClaims} {token : String} {now : Int} {ctx : Context}
    (hsigned : lib.signedString cfg.jwtSecret claims = .ok token)
    (h : authMiddleware lib cfg now ("Bearer " ++ token) = .ok ctx) :
    ctx = ⟨some (int64OfFloat64 lib.outOfRange (float64OfNat claims.userID)), some claims.username⟩ := by
  unfold authMiddleware at h
  split at h
  · cases h
  rw [cutSpace_bearer] at h
  simp only [ne_eq, not_true_eq_false, if_false] at h
  split at h
  · cases h
  · rename_i parsed hparse
    obtain ⟨hvalid, hclaims⟩ := hlib.parse_signed _ _ _ _ _ _ hsigned (by rfl) hparse
    rw [hvalid, hclaims] at h
    exact (Except.ok.inj h).symm

theorem isAdminUsername_iff {username : String} :
    isAdminUsername cfg username = true ↔ username ∈ loadAdminUsers cfg := by
  unfold isAdminUsername
  split
  · rename_i hempty
    subst hempty
    have hnone : "" ∉ loadAdminUsers cfg := by
      unfold loadAdminUsers
      dsimp only
      split
      · exact List.not_mem_nil
      · intro hmem
        exact of_decide_eq_true (List.mem_filter.mp hmem).2 rfl
    exact ⟨nofun, fun h => absurd h hnone⟩
  · exact decide_eq_true_iff

theorem adminMiddleware_iff {userID : Option Int} {username : String} :
    adminMiddleware cfg ⟨userID, some username⟩ = .ok () ↔ username ∈ loadAdminUsers cfg := by
  rw [← isAdminUsername_iff]
  show (if isAdminUsername cfg username then _ else _) = _ ↔ _
  split
  · rename_i hadmin
    exact ⟨fun _ => hadmin, fun _ => rfl⟩
  · rename_i hadmin
    exact ⟨nofun, fun h => absurd h hadmin⟩

/-- The request `c` may speak for the account: it has the password that was chosen when the
account was registered, or comes from the owner at GitHub if the account is one of GitHub's. -/
inductive Entitled (lib : AuthLib) (w : World) (c : Nat) (r : UserRow) : Prop where
  | password (req : LoginRequest) (hash : String) (hreq : w.requests[c]? = some (.login (.ok req)))
      (hname : r.username = req.username) (hgithub : r.githubID = none) (hhash : r.passwordHash = some hash)
      (hchosen : Chosen w r.username hash) (hmatch : lib.compareHashAndPassword hash req.password = true)
  | gitHub (githubID : String) (hhash : r.passwordHash = none) (hgithub : r.githubID = some githubID)
      (hnamed : NamedTo w c githubID)

/-- An account is entered the way it has come about. -/
theorem entitled_of_origin {r : UserRow} (horigin : Origin w r) (howner : FromOwner lib w c r) :
    Entitled lib w c r := by
  cases howner with
  | password req hash hreq hname hhash hmatch =>
    cases horigin with
    | registration hgithub hchosen =>
        exact .password req hash hreq hname hgithub hhash (hchosen hash hhash) hmatch
    | gitHub _ _ hnone _ _ => exact absurd (hnone.symm.trans hhash) nofun
  | gitHub githubID hgithub hnamed =>
    cases horigin with
    | registration hnone _ => exact absurd (hnone.symm.trans hgithub) nofun
    | gitHub _ _ hhash _ _ => exact .gitHub githubID hhash hgithub hnamed

/-- The libraries, as far as one account goes. -/
def aliceLib : AuthLib where
  compareHashAndPassword hash password := hash = "$2a$" ++ password
  signedString secret claims :=
    if secret = "secret" ∧ claims = ⟨7, "alice", 86400⟩ then .ok "header.claims.signature" else .error "no key"
  parse _ tokenString keyfunc :=
    if tokenString = "header.claims.signature" ∧ keyfunc ⟨true, "HS256"⟩ = .ok "secret" then
      .ok ⟨some (TokenClaims.readBack ⟨7, "alice", 86400⟩), true⟩
    else .error "token is malformed"
  outOfRange _ := -9223372036854775808

theorem aliceLib_lawful : aliceLib.Lawful where
  empty_hash password := by
    show decide ("" = "$2a$" ++ password) = false
    refine decide_eq_false fun h => ?_
    have hlength := congrArg String.length h
    rw [String.length_append, show "".length = 0 from rfl, show "$2a$".length = 4 from rfl] at hlength
    omega
  parse_signed secret claims tokenString now keyfunc token hsigned _ hparse := by
    simp only [aliceLib] at hsigned hparse
    split at hsigned
    · rename_i hknown
      split at hparse
      · cases hparse
        rw [hknown.2]
        exact ⟨rfl, rfl⟩
      · cases hparse
    · cases hsigned

def aliceConfig : AuthConfig := ⟨"secret", 24, "root, alice"⟩

/-- One operation that is served. -/
def served (text : String) (i : Nat) : Move AuthFate AuthRequest :=
  .call i ⟨.served, ⟨7, 0, .pkey, none⟩, true, text, .error (.get ""), 0⟩

/-- A registration and a login. -/
def registerAndLogin : List (Move AuthFate AuthRequest) :=
  [.env (.register (.ok ⟨"alice", "wonderland", ""⟩)), served "" 0, served "" 0,
    served "$2a$wonderland" 0, served "" 0, served "" 0, .env (.login (.ok ⟨"alice", "wonderland"⟩)),
    served "" 1, served "" 1, served "" 1, served "" 1]

def loggedInState : Config World AuthOp AuthOp.Reply :=
  (authMachine aliceLib aliceConfig).play Machine.anyMove ⟨emptyWorld, []⟩ registerAndLogin

end DeepOj.Api.Auth
