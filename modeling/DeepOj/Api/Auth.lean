import DeepOj.Go.Float64
import DeepOj.Go.Strings
import DeepOj.Repository.User

/-!
# Accounts and tokens

Registration, login by password and login through GitHub, and the two middlewares that decide
whom a request comes from. The password hashes, the tokens and GitHub itself are libraries and
services of others.
-/

namespace DeepOj.Api.Auth

open Conc Sql Repository Go

/-! ## Tokens -/

/-- The claims that `generateToken` puts into a token. -/
structure TokenClaims where
  userID : Nat
  username : String
  exp : Int
  deriving DecidableEq, Repr

/-- A claim as `encoding/json` gives it to `jwt.MapClaims`. -/
inductive ClaimValue where
  | number (f : ℚ)
  | text (s : String)
  | other
  deriving DecidableEq

abbrev MapClaims := List (String × ClaimValue)

/-- What the key function of `jwt.Parse` looks at. -/
structure SigningMethod where
  hmac : Bool
  alg : String
  deriving DecidableEq, Repr

/-- `jwt.Token`, with its claims if they are `MapClaims`. -/
structure Token where
  claims : Option MapClaims
  valid : Bool
  deriving DecidableEq

/-- What the services use of `bcrypt` and `jwt`, and of the conversion that Go leaves open. -/
structure AuthLib where
  compareHashAndPassword : (hash password : String) → Bool
  /-- `SignedString` of a token with `SigningMethodHS256`. -/
  signedString : (secret : String) → TokenClaims → Except String String
  parse : (now : Int) → (tokenString : String) → (keyfunc : SigningMethod → Except String String) →
    Except String Token
  outOfRange : ℚ → Int

/-- The claims of a token that has gone through JSON. -/
def TokenClaims.readBack (claims : TokenClaims) : MapClaims :=
  [("exp", .number (float64OfInt claims.exp)), ("user_id", .number (float64OfNat claims.userID)),
    ("username", .text claims.username)]

/-- What the libraries promise. -/
structure AuthLib.Lawful (lib : AuthLib) : Prop where
  /-- `CompareHashAndPassword` refuses a hash that is too short. -/
  empty_hash : ∀ password, lib.compareHashAndPassword "" password = false
  /-- A signed token that is accepted has the claims it was signed with. -/
  parse_signed : ∀ secret claims tokenString now keyfunc token,
    lib.signedString secret claims = .ok tokenString → keyfunc ⟨true, "HS256"⟩ = .ok secret →
    lib.parse now tokenString keyfunc = .ok token → token.valid = true ∧ token.claims = some claims.readBack

/-- The settings that the handlers and the middlewares read. -/
structure AuthConfig where
  jwtSecret : String
  jwtExpireHours : Int
  adminUsers : String
  deriving DecidableEq, Repr

/-- `time.Duration(hours) * time.Hour`, in nanoseconds. The product wraps. -/
def getJWTExpireDuration (cfg : AuthConfig) : Int :=
  (cfg.jwtExpireHours * 3600000000000).bmod 18446744073709551616

/-- `generateToken`, `now` being in nanoseconds. -/
def generateToken (lib : AuthLib) (cfg : AuthConfig) (now : Nat) (userID : Nat) (username : String) :
    Except String String :=
  lib.signedString cfg.jwtSecret ⟨userID, username, (now + getJWTExpireDuration cfg) / 1000000000⟩

/-! ## The handlers -/

/-- `model.RegisterRequest`. -/
structure RegisterRequest where
  username : String
  password : String
  email : String
  deriving DecidableEq, Repr

/-- `model.LoginRequest`. -/
structure LoginRequest where
  username : String
  password : String
  deriving DecidableEq, Repr

/-- The callback of GitHub, with the `oauth_state` cookie that comes along. -/
structure CallbackRequest where
  code : String
  state : String
  cookieState : Except String String
  deriving DecidableEq, Repr

/-- A request; a body is what `ShouldBindJSON` makes of it. -/
inductive AuthRequest where
  | register (body : Except String RegisterRequest)
  | login (body : Except String LoginRequest)
  | callback (req : CallbackRequest)
  deriving DecidableEq, Repr

/-- The user that GitHub describes. What its answer leaves out is zero. -/
structure GitHubUser where
  id : Int
  login : String
  email : String
  avatarURL : String
  deriving DecidableEq, Repr

/-- A response. -/
inductive AuthReply where
  | error (status : Nat) (error : String) (code : Option String)
  | registered (id : Nat) (username : String)
  /-- `model.LoginResponse`. -/
  | loggedIn (token username : String) (userID : Nat)
  deriving DecidableEq, Repr

/-- Why GitHub's answer about a user is of no use. -/
inductive GitHubError where
  | get (msg : String)
  | decode (msg : String)
  deriving DecidableEq, Repr

/-- What a handler does outside its own process, for the request `c`. -/
inductive AuthOp where
  | checkRateLimit
  | getUserByUsername (username : String)
  | generateFromPassword (password : String)
  | createUser (username passwordHash email : String)
  /-- A statement of `GetOrCreateByGitHubID`. -/
  | user (o : UserOp)
  | exchange (c : Nat) (code : String)
  | getGitHubUser (accessToken : String)
  | now
  | json (c : Nat) (r : AuthReply)

@[reducible] def AuthOp.Reply : AuthOp → Type
  | .checkRateLimit => Bool
  | .getUserByUsername _ => Except String (Option User)
  | .generateFromPassword _ => Except String String
  | .createUser .. => Except UserError (Nat × Nat)
  | .user o => o.Reply
  | .exchange .. => Except String String
  | .getGitHubUser _ => Except GitHubError GitHubUser
  | .now => Nat
  | .json .. => Unit

abbrev AuthProgram (α : Type) : Type := Prog AuthOp AuthOp.Reply α

abbrev authOp (o : AuthOp) : AuthProgram o.Reply := Prog.perform o

/-- A method of the repository, called by a handler. -/
abbrev onUsers {α : Type} (p : UserProgram α) : AuthProgram α := p.embed .user fun _ r => r

section Handlers

variable (lib : AuthLib) (cfg : AuthConfig) (c : Nat)

def fail (status : Nat) (error : String) : AuthProgram Unit := authOp (.json c (.error status error none))

def register (body : Except String RegisterRequest) : AuthProgram Unit := do
  match ← authOp .checkRateLimit with
  | false => authOp (.json c (.error 429 "请求过于频繁" (some "RATE_LIMITED")))
  | true =>
    match body with
    | .error err => fail c 400 ("请求参数错误: " ++ err)
    | .ok req =>
      match ← authOp (.getUserByUsername req.username) with
      | .error _ => fail c 500 "数据库错误"
      | .ok (some _) => fail c 409 "用户名已存在"
      | .ok none =>
        match ← authOp (.generateFromPassword req.password) with
        | .error _ => fail c 500 "密码处理失败"
        | .ok hashedPassword =>
          match ← authOp (.createUser req.username hashedPassword req.email) with
          | .error _ => fail c 500 "创建用户失败"
          | .ok (id, _) => authOp (.json c (.registered id req.username))

/-- The end of both logins. -/
def respondToken (failure : String) (user : User) : AuthProgram Unit := do
  let now ← authOp .now
  match generateToken lib cfg now user.id user.username with
  | .error _ => fail c 500 failure
  | .ok token => authOp (.json c (.loggedIn token user.username user.id))

def login (body : Except String LoginRequest) : AuthProgram Unit := do
  match ← authOp .checkRateLimit with
  | false => authOp (.json c (.error 429 "请求过于频繁" (some "RATE_LIMITED")))
  | true =>
    match body with
    | .error err => fail c 400 ("请求参数错误: " ++ err)
    | .ok req =>
      match ← authOp (.getUserByUsername req.username) with
      | .error _ => fail c 500 "数据库错误"
      | .ok none => fail c 401 "用户名或密码错误"
      | .ok (some user) =>
        if lib.compareHashAndPassword user.passwordHash req.password = false then fail c 401 "用户名或密码错误"
        else respondToken lib cfg c "令牌生成失败" user

/-- The database's part of `HandleGitHubCallback`, and the token. -/
def loginGitHubUser (ghUser : GitHubUser) : AuthProgram Unit := do
  match ← onUsers (getOrCreateByGitHubID (toString ghUser.id) ghUser.login ghUser.email ghUser.avatarURL) with
  | .error err => fail c 500 ("Database error: " ++ err)
  | .ok user => respondToken lib cfg c "Failed to generate token" user

/-- `HandleGitHubCallback`. The status of GitHub's answer is not looked at. -/
def handleGitHubCallback (req : CallbackRequest) : AuthProgram Unit :=
  if req.code = "" then fail c 400 "缺少 Code 参数"
  else if req.state = "" then fail c 400 "缺少 state 参数"
  else
    match req.cookieState with
    | .error _ => fail c 400 "state 校验失败"
    | .ok cookieState =>
      if cookieState = "" ∨ cookieState ≠ req.state then fail c 400 "state 校验失败"
      else do
        match ← authOp (.exchange c req.code) with
        | .error _ => fail c 500 "GitHub 认证失败"
        | .ok accessToken =>
          match ← authOp (.getGitHubUser accessToken) with
          | .error (.get _) => fail c 500 "获取用户信息失败"
          | .error (.decode _) => fail c 500 "解析用户信息失败"
          | .ok ghUser => loginGitHubUser lib cfg c ghUser

def handle : AuthRequest → AuthProgram Unit
  | .register body => register c body
  | .login body => login lib cfg c body
  | .callback req => handleGitHubCallback lib cfg c req

end Handlers

/-! ## The middlewares -/

/-- The response of a middleware that aborts. -/
structure Denied where
  status : Nat
  error : String
  code : String
  deriving DecidableEq, Repr

/-- What `AuthMiddleware` sets in the context of a request. -/
structure Context where
  userID : Option Int
  username : Option String
  deriving DecidableEq, Repr

/-- `strings.SplitN(s, " ", 2)`, where it gives two parts. -/
def cutSpace (s : String) : Option (String × String) :=
  let head := s.toList.takeWhile (· ≠ ' ')
  match s.toList.dropWhile (· ≠ ' ') with
  | [] => none
  | _ :: rest => some (String.ofList head, String.ofList rest)

/-- The key function of `AuthMiddleware`. -/
def jwtKey (cfg : AuthConfig) (method : SigningMethod) : Except String String :=
  if method.hmac = false then .error ("签名算法不符合预期: " ++ method.alg) else .ok cfg.jwtSecret

/-- `claims["user_id"].(float64)`, converted. -/
def claimedUserID (lib : AuthLib) (claims : MapClaims) : Option Int :=
  match claims.lookup "user_id" with
  | some (.number f) => some (int64OfFloat64 lib.outOfRange f)
  | _ => none

/-- `claims["username"].(string)`. -/
def claimedUsername (claims : MapClaims) : Option String :=
  match claims.lookup "username" with
  | some (.text s) => some s
  | _ => none

def authMiddleware (lib : AuthLib) (cfg : AuthConfig) (now : Int) (authHeader : String) :
    Except Denied Context :=
  if authHeader = "" then .error ⟨401, "缺少 Authorization 请求头", "UNAUTHORIZED"⟩
  else
    match cutSpace authHeader with
    | none => .error ⟨401, "Authorization 格式无效", "UNAUTHORIZED"⟩
    | some (scheme, tokenString) =>
      if scheme ≠ "Bearer" then .error ⟨401, "Authorization 格式无效", "UNAUTHORIZED"⟩
      else
        match lib.parse now tokenString (jwtKey cfg) with
        | .error _ => .error ⟨401, "Token 无效", "UNAUTHORIZED"⟩
        | .ok token =>
          match token.claims, token.valid with
          | some claims, true => .ok ⟨claimedUserID lib claims, claimedUsername claims⟩
          | _, _ => .error ⟨401, "Token 声明无效", "UNAUTHORIZED"⟩

def loadAdminUsers (cfg : AuthConfig) : List String :=
  let raw := trimSpace cfg.adminUsers
  if raw = "" then []
  else ((raw.toList.splitOn ',').map fun v => trimSpace (String.ofList v)).filter (· ≠ "")

def isAdminUsername (cfg : AuthConfig) (username : String) : Bool :=
  if username = "" then false else username ∈ loadAdminUsers cfg

def adminMiddleware (cfg : AuthConfig) (ctx : Context) : Except Denied Unit :=
  match ctx.username with
  | none => .error ⟨401, "未登录", "UNAUTHORIZED"⟩
  | some username => if isAdminUsername cfg username then .ok () else .error ⟨403, "无权限", "FORBIDDEN"⟩

/-! ## The machine -/

/-- The accounts, and what has passed between the services, GitHub and the clients. A request is
known by its place in the list. -/
structure World where
  accounts : Accounts
  requests : List AuthRequest
  /-- Each password with a hash that was made of it. -/
  hashes : List (String × String)
  /-- The code in a request, and the access token that GitHub gave for it. -/
  exchanged : List (Nat × String × String)
  /-- Whom GitHub named to the bearer of an access token. -/
  shown : List (String × GitHubUser)
  responses : List (Nat × AuthReply)

/-- The query of `GetUserByUsername`. -/
def findByUsername (users : Users) (username : String) : Option User :=
  (users.rows.find? fun r => r.username = username).map fun r => r.toUser (r.githubID.getD "")

/-- How an operation ends, and what it leaves open. -/
structure AuthFate where
  ending : Ending
  supply : Supply
  admitted : Bool
  /-- The salted hash, or the access token. -/
  text : String
  gitHub : Except GitHubError GitHubUser
  clock : Nat
  deriving DecidableEq

/-- The execution of one operation. -/
def serveAuth (w : World) (fate : AuthFate) : (o : AuthOp) → Option (World × o.Reply)
  | .checkRateLimit => some (w, fate.admitted)
  | .getUserByUsername username => some (w, .ok (findByUsername w.accounts.users username))
  | .generateFromPassword password =>
      some ({ w with hashes := (password, fate.text) :: w.hashes }, .ok fate.text)
  | .createUser username passwordHash email =>
    let r := registeredRow fate.supply.id username (if passwordHash = "" then none else some passwordHash) email
      fate.supply.createdAt
    if h : ∀ i, ¬ w.accounts.users.Violates r i then
      some ({ w with accounts := { w.accounts with users := w.accounts.users.insert r h } },
        .ok (fate.supply.id, fate.supply.createdAt))
    else if w.accounts.users.Violates r fate.supply.reported then
      some (w, .error (.uniqueViolation fate.supply.reported))
    else none
  | .user o => (serveUser w.accounts fate.supply o).map fun p => ({ w with accounts := p.1 }, p.2)
  | .exchange c code => some ({ w with exchanged := (c, code, fate.text) :: w.exchanged }, .ok fate.text)
  | .getGitHubUser accessToken =>
    match fate.gitHub with
    | .ok ghUser => some ({ w with shown := (accessToken, ghUser) :: w.shown }, .ok ghUser)
    | .error err => some (w, .error err)
  | .now => some (w, fate.clock)
  | .json c r => some ({ w with responses := (c, r) :: w.responses }, ())

/-- The reply of an operation that fails. A rate limit that cannot be checked is not enforced. -/
def AuthOp.refusal : (o : AuthOp) → (msg : String) → o.Reply
  | .checkRateLimit, _ => true
  | .getUserByUsername _, msg => .error msg
  | .generateFromPassword _, msg => .error msg
  | .createUser .., msg => .error (.other msg)
  | .user o, msg => o.refusal msg
  | .exchange .., msg => .error msg
  | .getGitHubUser _, msg => .error (.get msg)
  | .now, _ => 0
  | .json .., _ => ()

/-- One operation. The ids are those of a `BIGSERIAL` column. -/
def performAuth (w : World) (o : AuthOp) (fate : AuthFate) : Option (World × o.Reply) :=
  if fate.supply.id < 9223372036854775808 then
    (serveAuth w fate o).map (fate.ending.apply w o.refusal)
  else none

/-- The handlers as an interleaving machine: any number of instances, one database. -/
def authMachine (lib : AuthLib) (cfg : AuthConfig) :
    Machine World AuthOp AuthOp.Reply AuthFate AuthRequest where
  sem := performAuth
  forks _ := []
  env w req := some ({ w with requests := w.requests ++ [req] }, [handle lib cfg w.requests.length req])

/-- The world before anybody has an account. -/
def emptyWorld : World := ⟨⟨⟨[], List.Pairwise.nil⟩, []⟩, [], [], [], [], []⟩

end DeepOj.Api.Auth
