import DeepOj.Conc.Ending
import DeepOj.Conc.Machine
import DeepOj.Sql.Table

/-!
# The `users` table and the login through GitHub

A login looks its account up and creates it when there is none. Both are single statements, so
that other logins come between them; the constraints of the table are all that keeps them apart.
-/

namespace DeepOj.Repository

open Conc Sql

/-- A row of `users`; a column that is null is `none`. -/
structure UserRow where
  id : Nat
  username : String
  passwordHash : Option String
  email : Option String
  githubID : Option String
  avatarURL : Option String
  createdAt : Nat
  deriving DecidableEq, Repr

/-- `model.User`. -/
structure User where
  id : Nat
  username : String
  passwordHash : String
  email : String
  githubID : String
  avatarURL : String
  createdAt : Nat
  deriving DecidableEq, Repr

/-- The constraints `users_pkey`, `users_username_key` and `users_github_id_key`. -/
inductive UserConstraint where
  | pkey
  | username
  | githubID
  deriving DecidableEq, Repr

theorem UserConstraint.forall_iff {p : UserConstraint → Prop} :
    (p .pkey ∧ p .username ∧ p .githubID) ↔ ∀ i, p i := by
  constructor
  · intro h i
    cases i with
    | pkey => exact h.1
    | username => exact h.2.1
    | githubID => exact h.2.2
  · intro h
    exact ⟨h _, h _, h _⟩

instance (p : UserConstraint → Prop) [DecidablePred p] : Decidable (∀ i, p i) :=
  decidable_of_iff _ UserConstraint.forall_iff

/-- The type of the column a constraint is on. -/
@[reducible] def UserConstraint.Key : UserConstraint → Type
  | .pkey => Nat
  | .username => String
  | .githubID => String

instance : (i : UserConstraint) → DecidableEq i.Key
  | .pkey => inferInstanceAs (DecidableEq Nat)
  | .username => inferInstanceAs (DecidableEq String)
  | .githubID => inferInstanceAs (DecidableEq String)

/-- What a constraint compares. -/
def userKey : (i : UserConstraint) → UserRow → Option i.Key
  | .pkey, r => some r.id
  | .username, r => some r.username
  | .githubID, r => r.githubID

abbrev Users := Table userKey

/-- The error of a statement on `users`. -/
inductive UserError where
  | uniqueViolation (constraint : UserConstraint)
  | other (msg : String)
  deriving DecidableEq, Repr

/-- What a login does outside its own process. -/
inductive UserOp where
  /-- The row with this `github_id`. -/
  | find (githubID : String)
  | updateAvatar (avatarURL : String) (id : Nat)
  | insert (username githubID email avatarURL : String)
  /-- `generateRandomHex(2)`. -/
  | randomHex
  /-- The call is over. -/
  | finish (result : Except String User)

/-- What comes back. -/
@[reducible] def UserOp.Reply : UserOp → Type
  | .find _ => Except String (Option User)
  | .updateAvatar .. => Except String Unit
  | .insert .. => Except UserError (Nat × Nat)
  | .randomHex => Option (UInt8 × UInt8)
  | .finish _ => Unit

abbrev UserProgram (α : Type) : Type := Prog UserOp UserOp.Reply α

abbrev userOp (o : UserOp) : UserProgram o.Reply := Prog.perform o

/-- Two hexadecimal digits. -/
def hexByte (b : UInt8) : String :=
  let digit := fun n => "0123456789abcdef".toList.getD n '0'
  String.ofList [digit (b.toNat / 16), digit (b.toNat % 16)]

/-- The suffix of a second try; a generator that fails leaves it empty. -/
def hexSuffix : Option (UInt8 × UInt8) → String
  | some (a, b) => hexByte a ++ hexByte b
  | none => ""

section Login

variable (githubID username email avatarURL : String)

/-- The loop of `GetOrCreateByGitHubID` with `n` tries left. -/
def createLoop : Nat → (currentUsername : String) → UserProgram (Except String User)
  | 0, _ => pure (.error "failed to create user after retries due to username conflicts")
  | n + 1, currentUsername => do
    match ← userOp (.insert currentUsername githubID email avatarURL) with
    | .ok (id, createdAt) => pure (.ok ⟨id, currentUsername, "", email, githubID, avatarURL, createdAt⟩)
    | .error (.uniqueViolation .githubID) =>
      -- another login has created the account in the meantime
      match ← userOp (.find githubID) with
      | .ok (some u) => pure (.ok u)
      | .ok none => createLoop n currentUsername
      | .error err => pure (.error err)
    | .error (.uniqueViolation _) =>
      let suffix ← userOp .randomHex
      createLoop n (username ++ "_" ++ hexSuffix suffix)
    | .error (.other msg) => pure (.error msg)

/-- `GetOrCreateByGitHubID`. -/
def getOrCreateByGitHubID : UserProgram (Except String User) := do
  match ← userOp (.find githubID) with
  | .ok (some u) =>
    if u.avatarURL ≠ avatarURL then
      let _ ← userOp (.updateAvatar avatarURL u.id)
      pure (.ok { u with avatarURL := avatarURL })
    else pure (.ok u)
  | .error err => pure (.error err)
  | .ok none => createLoop githubID username email avatarURL 5 username

/-- A call that hands its result over. -/
def login : UserProgram Unit := do
  let result ← getOrCreateByGitHubID githubID username email avatarURL
  userOp (.finish result)

end Login

/-! ## The table -/

/-- The row as it is scanned, `github_id` being the one that is asked for. -/
def UserRow.toUser (r : UserRow) (githubID : String) : User where
  id := r.id
  username := r.username
  passwordHash := r.passwordHash.getD ""
  email := r.email.getD ""
  githubID := githubID
  avatarURL := r.avatarURL.getD ""
  createdAt := r.createdAt

/-- The query of `GetOrCreateByGitHubID`. -/
def findByGitHubID (users : Users) (githubID : String) : Option User :=
  (users.rows.find? fun r => r.githubID = some githubID).bind fun r => r.githubID.map r.toUser

def setAvatar (avatarURL : String) (id : Nat) (r : UserRow) : UserRow :=
  if r.id = id then { r with avatarURL := some avatarURL } else r

theorem userKey_setAvatar (avatarURL : String) (id : Nat) (i : UserConstraint) (r : UserRow) :
    userKey i (setAvatar avatarURL id r) = userKey i r := by
  unfold setAvatar
  split
  · cases i <;> rfl
  · rfl

/-- The table, and the rows that logins have added, the last one first. -/
structure Accounts where
  users : Users
  created : List UserRow

/-- What a statement leaves open: the column defaults, the constraint that is reported when
several are violated, and the random bytes. -/
structure Supply where
  id : Nat
  createdAt : Nat
  reported : UserConstraint
  random : Option (UInt8 × UInt8)
  deriving DecidableEq, Repr

/-- How an operation ends, and what it leaves open. -/
structure UserFate where
  ending : Ending
  supply : Supply
  deriving DecidableEq, Repr

/-- The row of a login. -/
def newUserRow (s : Supply) (username githubID email avatarURL : String) : UserRow where
  id := s.id
  username := username
  passwordHash := none
  email := some email
  githubID := some githubID
  avatarURL := some avatarURL
  createdAt := s.createdAt

/-- The execution of one operation. -/
def serveUser (w : Accounts) (s : Supply) : (o : UserOp) → Option (Accounts × o.Reply)
  | .find githubID => some (w, .ok (findByGitHubID w.users githubID))
  | .updateAvatar avatarURL id =>
    some ({ w with users := w.users.update (setAvatar avatarURL id) (userKey_setAvatar avatarURL id) }, .ok ())
  | .insert username githubID email avatarURL =>
    let r := newUserRow s username githubID email avatarURL
    if h : ∀ i, ¬ w.users.Violates r i then
      some (⟨w.users.insert r h, r :: w.created⟩, .ok (s.id, s.createdAt))
    else if w.users.Violates r s.reported then some (w, .error (.uniqueViolation s.reported))
    else none
  | .randomHex => some (w, s.random)
  | .finish _ => some (w, ())

/-- The reply of an operation that fails. -/
def UserOp.refusal : (o : UserOp) → (msg : String) → o.Reply
  | .find _, msg => .error msg
  | .updateAvatar .., msg => .error msg
  | .insert .., msg => .error (.other msg)
  | .randomHex, _ => none
  | .finish _, _ => ()

def performUser (w : Accounts) (o : UserOp) (fate : UserFate) : Option (Accounts × o.Reply) :=
  (serveUser w fate.supply o).map (fate.ending.apply w o.refusal)

/-- What comes from outside: a login, or a registration (`CreateUser`). -/
inductive UserEvent where
  | login (githubID username email avatarURL : String)
  | register (id : Nat) (username : String) (passwordHash : Option String) (email : String) (createdAt : Nat)
  deriving DecidableEq, Repr

/-- The row of a registration, which has no `github_id`. -/
def registeredRow (id : Nat) (username : String) (passwordHash : Option String) (email : String)
    (createdAt : Nat) : UserRow where
  id := id
  username := username
  passwordHash := passwordHash
  email := some email
  githubID := none
  avatarURL := none
  createdAt := createdAt

/-- The logins as an interleaving machine. -/
def loginMachine : Machine Accounts UserOp UserOp.Reply UserFate UserEvent where
  sem := performUser
  forks _ := []
  env w
    | .login githubID username email avatarURL => some (w, [login githubID username email avatarURL])
    | .register id username passwordHash email createdAt =>
      let r := registeredRow id username passwordHash email createdAt
      if h : ∀ i, ¬ w.users.Violates r i then some ({ w with users := w.users.insert r h }, []) else none

end DeepOj.Repository
