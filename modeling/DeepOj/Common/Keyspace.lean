import DeepOj.Go.Trim

/-!
# The Redis key space

`NamespacedRedisKey` brings a key into the namespace `<prefix>[:env]`. Producers
write keys that went through it, and consumers send them through it once more.
-/

namespace DeepOj.Common

open Go

/-- The environment variables the key space depends on; an unset one is empty. -/
structure Environ where
  redisKeyPrefix : Bytes
  redisKeyEnv : Bytes
  deriving DecidableEq

def defaultRedisKeyPrefix : Bytes := utf8 "deepoj"
def legacyRedisKeyPrefix : Bytes := utf8 "oj"

def colon : UInt8 := 58

/-- `RedisKeyPrefix`. -/
def redisKeyPrefix (env : Environ) : Bytes :=
  let pre := trimSpaces env.redisKeyPrefix
  if pre = [] then defaultRedisKeyPrefix else pre

/-- `RedisKeyEnv`. -/
def redisKeyEnv (env : Environ) : Bytes := trimSpaces env.redisKeyEnv

/-- `RedisKeyNamespace`. -/
def redisKeyNamespace (env : Environ) : Bytes :=
  if redisKeyEnv env = [] then redisKeyPrefix env
  else redisKeyPrefix env ++ colon :: redisKeyEnv env

/-- What `NamespacedRedisKey` makes of a key that begins with the configured prefix. -/
def normalizePrefixed (env : Environ) (raw : Bytes) : Bytes :=
  let ns := redisKeyNamespace env
  let envName := redisKeyEnv env
  let remainder := trimPrefix (trimPrefix raw (redisKeyPrefix env)) [colon]
  if envName ≠ [] ∧ remainder = envName then ns
  else
    let remainder :=
      if envName ≠ [] ∧ hasPrefix remainder (envName ++ [colon]) then
        trimPrefix remainder (envName ++ [colon])
      else remainder
    let remainder := trimPrefix remainder [colon]
    if remainder = [] then ns else ns ++ colon :: remainder

/-- What it makes of an old `oj:` key. -/
def normalizeLegacy (env : Environ) (raw : Bytes) : Bytes :=
  let ns := redisKeyNamespace env
  let remainder := trimPrefix raw (legacyRedisKeyPrefix ++ [colon])
  if remainder = [] then ns else ns ++ colon :: trimPrefix remainder [colon]

/-- `NamespacedRedisKey`. -/
def namespacedRedisKey (env : Environ) (raw : Bytes) : Bytes :=
  let raw := trimSpaces raw
  let ns := redisKeyNamespace env
  if raw = [] then ns
  else if raw = ns ∨ hasPrefix raw (ns ++ [colon]) then raw
  else if raw = redisKeyPrefix env ∨ hasPrefix raw (redisKeyPrefix env ++ [colon]) then
    normalizePrefixed env raw
  else if hasPrefix raw (legacyRedisKeyPrefix ++ [colon]) then normalizeLegacy env raw
  else ns ++ colon :: trimPrefix raw [colon]

/-! ## The namespace -/

section Namespace

variable (env : Environ)

/-- No encoding of a space contains a colon. -/
theorem colon_notMem_spaces : ∀ sp ∈ spaces, colon ∉ sp := by decide

theorem trimmed_redisKeyPrefix : Trimmed (redisKeyPrefix env) := by
  unfold redisKeyPrefix
  simp only
  split
  · exact ⟨by decide, by decide⟩
  · exact trimmed_trimSpaces _

theorem redisKeyPrefix_ne_nil : redisKeyPrefix env ≠ [] := by
  unfold redisKeyPrefix
  simp only
  split
  · decide
  · assumption

theorem trimmed_redisKeyNamespace : Trimmed (redisKeyNamespace env) := by
  unfold redisKeyNamespace
  split
  · exact trimmed_redisKeyPrefix env
  · have henv : Trimmed (redisKeyEnv env) := trimmed_trimSpaces _
    exact (trimmed_redisKeyPrefix env).append_cons colon_notMem_spaces henv.back

theorem redisKeyNamespace_ne_nil : redisKeyNamespace env ≠ [] := by
  have hpre := redisKeyPrefix_ne_nil env
  unfold redisKeyNamespace
  split
  · exact hpre
  · intro h
    exact hpre (List.append_eq_nil_iff.mp h).1

end Namespace

/-- The key is the namespace itself or lies below it. -/
def InNamespace (env : Environ) (key : Bytes) : Prop :=
  key = redisKeyNamespace env ∨ hasPrefix key (redisKeyNamespace env ++ [colon]) = true

instance (env : Environ) (key : Bytes) : Decidable (InNamespace env key) :=
  inferInstanceAs (Decidable (_ ∨ _))

section Keys

variable {env : Environ} {raw key : Bytes}

theorem inNamespace_below (env : Environ) (r : Bytes) :
    InNamespace env (redisKeyNamespace env ++ colon :: r) := by
  refine .inr (hasPrefix_iff.mpr ⟨r, ?_⟩)
  simp

/-- A trimmed key of the namespace is left alone. -/
theorem namespacedRedisKey_of_inNamespace (h : InNamespace env key) (ht : Trimmed key) :
    namespacedRedisKey env key = key := by
  have hne : key ≠ [] := by
    intro hnil
    subst hnil
    rcases h with h | h
    · exact redisKeyNamespace_ne_nil env h.symm
    · have hin := List.prefix_nil.mp (hasPrefix_iff.mp h)
      simp at hin
  unfold namespacedRedisKey
  simp only [ht.trimSpaces]
  rw [if_neg hne]
  exact if_pos h

/-- The namespace, or an end of the key below it. -/
def BelowNamespace (env : Environ) (raw key : Bytes) : Prop :=
  key = redisKeyNamespace env ∨ ∃ r, r <:+ raw ∧ key = redisKeyNamespace env ++ colon :: r

/-- What is cut off a key that begins with the configured prefix are beginnings. -/
theorem normalizePrefixed_below (env : Environ) (raw : Bytes) :
    BelowNamespace env raw (normalizePrefixed env raw) := by
  have hcut : trimPrefix (trimPrefix raw (redisKeyPrefix env)) [colon] <:+ raw :=
    (trimPrefix_suffix _ _).trans (trimPrefix_suffix _ _)
  have hend : ∀ remainder, remainder <:+ raw → BelowNamespace env raw
      (if trimPrefix remainder [colon] = [] then redisKeyNamespace env
        else redisKeyNamespace env ++ colon :: trimPrefix remainder [colon]) := by
    intro remainder hr
    by_cases hnil : trimPrefix remainder [colon] = []
    · rw [if_pos hnil]
      exact .inl rfl
    · rw [if_neg hnil]
      exact .inr ⟨_, (trimPrefix_suffix _ _).trans hr, rfl⟩
  unfold normalizePrefixed
  simp only
  split
  · exact .inl rfl
  · apply hend
    split
    · exact (trimPrefix_suffix _ _).trans hcut
    · exact hcut

theorem normalizeLegacy_below (env : Environ) (raw : Bytes) :
    BelowNamespace env raw (normalizeLegacy env raw) := by
  unfold normalizeLegacy
  simp only
  split
  · exact .inl rfl
  · exact .inr ⟨_, (trimPrefix_suffix _ _).trans (trimPrefix_suffix _ _), rfl⟩

/-- Every branch answers the key itself, if it is in the namespace, or what lies below it. -/
theorem namespacedRedisKey_cases (env : Environ) (raw : Bytes) :
    (namespacedRedisKey env raw = trimSpaces raw ∧ InNamespace env (trimSpaces raw)) ∨
      BelowNamespace env (trimSpaces raw) (namespacedRedisKey env raw) := by
  unfold namespacedRedisKey
  simp only
  by_cases hnil : trimSpaces raw = []
  · rw [if_pos hnil]
    exact .inr (.inl rfl)
  rw [if_neg hnil]
  by_cases hin : InNamespace env (trimSpaces raw)
  · refine .inl ⟨?_, hin⟩
    exact if_pos hin
  have hout : ¬ (trimSpaces raw = redisKeyNamespace env ∨
      hasPrefix (trimSpaces raw) (redisKeyNamespace env ++ [colon]) = true) := hin
  rw [if_neg hout]
  right
  split
  · exact normalizePrefixed_below env _
  split
  · exact normalizeLegacy_below env _
  · exact .inr ⟨_, trimPrefix_suffix _ _, rfl⟩

theorem inNamespace_namespacedRedisKey (env : Environ) (raw : Bytes) :
    InNamespace env (namespacedRedisKey env raw) := by
  rcases namespacedRedisKey_cases env raw with ⟨h, hin⟩ | h | ⟨r, _, h⟩
  · rw [h]
    exact hin
  · exact .inl h
  · rw [h]
    exact inNamespace_below env r

theorem trimmed_namespacedRedisKey (env : Environ) (raw : Bytes) : Trimmed (namespacedRedisKey env raw) := by
  have hraw : Trimmed (trimSpaces raw) := trimmed_trimSpaces raw
  rcases namespacedRedisKey_cases env raw with ⟨h, _⟩ | h | ⟨r, hr, h⟩
  · rw [h]
    exact hraw
  · rw [h]
    exact trimmed_redisKeyNamespace env
  · rw [h]
    exact (trimmed_redisKeyNamespace env).append_cons colon_notMem_spaces (hraw.back_of_suffix hr)

theorem namespacedRedisKey_ne_nil (env : Environ) (raw : Bytes) : namespacedRedisKey env raw ≠ [] := by
  rcases inNamespace_namespacedRedisKey env raw with h | h
  · rw [h]
    exact redisKeyNamespace_ne_nil env
  · intro hnil
    rw [hnil] at h
    have hin := List.prefix_nil.mp (hasPrefix_iff.mp h)
    simp at hin

theorem namespacedRedisKey_idem (env : Environ) (raw : Bytes) :
    namespacedRedisKey env (namespacedRedisKey env raw) = namespacedRedisKey env raw :=
  namespacedRedisKey_of_inNamespace (inNamespace_namespacedRedisKey env raw)
    (trimmed_namespacedRedisKey env raw)

/-- White space around a key makes no difference. -/
theorem namespacedRedisKey_trimSpaces (env : Environ) (raw : Bytes) :
    namespacedRedisKey env (trimSpaces raw) = namespacedRedisKey env raw := by
  unfold namespacedRedisKey
  simp only [(trimmed_trimSpaces raw).trimSpaces]

end Keys

/-! ## The keys of a job -/

def taskPayloadPrefix : Bytes := utf8 "task:payload:"
def defaultJobStreamKey : Bytes := utf8 "deepoj:jobs"

/-- `getEnvString` of the API and the scheduler: a blank value counts as none. -/
def getEnvString (value : Option Bytes) (fallback : Bytes) : Bytes :=
  match value with
  | some v => if trimSpaces v ≠ [] then trimSpaces v else fallback
  | none => fallback

/-- `getEnv` of the worker. -/
def getEnv (value : Option Bytes) (fallback : Bytes) : Bytes := value.getD fallback

section Jobs

variable (env : Environ) (jobStreamKey : Option Bytes)

/-- The key `enqueueJobToStream`, `dispatchOne` and the repair loop set, and the `payload_ref` they
write. -/
def payloadRef (jobID : Bytes) : Bytes := namespacedRedisKey env (taskPayloadPrefix ++ jobID)

/-- `requiredStreamField`, of a text. -/
def requiredStreamField (value : Bytes) : Option Bytes :=
  let s := trimSpaces value
  if s = [] then none else some s

/-- The key `handleMessage` and `handleReclaimedMessage` read the payload from, if the field is not
missing. -/
def payloadKey (value : Bytes) : Option Bytes :=
  (requiredStreamField value).map (namespacedRedisKey env)

/-- The stream of `enqueueJobToStream`, and the `stream_key` `HandleSubmit` stores. -/
def enqueueStreamKey : Bytes :=
  namespacedRedisKey env (getEnvString jobStreamKey defaultJobStreamKey)

/-- The stream of `dispatchOne`, from the stored `stream_key`. -/
def dispatchStreamKey (stored : Bytes) : Bytes :=
  let streamKey := trimSpaces stored
  namespacedRedisKey env
    (if streamKey = [] then getEnvString jobStreamKey defaultJobStreamKey else streamKey)

/-- `JobStreamKey` of `LoadControlPlaneConfig`. -/
def controlPlaneStreamKey : Bytes :=
  let streamKey := trimSpaces (getEnvString jobStreamKey defaultJobStreamKey)
  namespacedRedisKey env (if streamKey = [] then defaultJobStreamKey else streamKey)

/-- The stream of the repair loop. -/
def repairStreamKey : Bytes := namespacedRedisKey env (controlPlaneStreamKey env jobStreamKey)

/-- `JobStreamKey` of the worker that is given this key. -/
def workerStreamKey (raw : Bytes) : Bytes := namespacedRedisKey env raw

theorem payloadKey_namespaced (raw : Bytes) :
    payloadKey env (namespacedRedisKey env raw) = some (namespacedRedisKey env raw) := by
  have htrim : trimSpaces (namespacedRedisKey env raw) = namespacedRedisKey env raw :=
    (trimmed_namespacedRedisKey env raw).trimSpaces
  unfold payloadKey requiredStreamField
  simp only [htrim]
  rw [if_neg (namespacedRedisKey_ne_nil env raw), Option.map_some, namespacedRedisKey_idem]

theorem getEnvString_trimmed :
    Trimmed (getEnvString jobStreamKey defaultJobStreamKey) ∧
      getEnvString jobStreamKey defaultJobStreamKey ≠ [] := by
  have hdefault : Trimmed defaultJobStreamKey := ⟨by decide, by decide⟩
  cases jobStreamKey with
  | none => exact ⟨hdefault, by decide⟩
  | some v =>
    unfold getEnvString
    simp only
    split
    · exact ⟨trimmed_trimSpaces v, by assumption⟩
    · exact ⟨hdefault, by decide⟩

/-- A stored `stream_key` that has been namespaced is used as it is. -/
theorem dispatchStreamKey_namespaced (raw : Bytes) :
    dispatchStreamKey env jobStreamKey (namespacedRedisKey env raw) = namespacedRedisKey env raw := by
  unfold dispatchStreamKey
  simp only [(trimmed_namespacedRedisKey env raw).trimSpaces]
  rw [if_neg (namespacedRedisKey_ne_nil env raw), namespacedRedisKey_idem]

theorem repairStreamKey_eq : repairStreamKey env jobStreamKey = enqueueStreamKey env jobStreamKey := by
  obtain ⟨htrim, hne⟩ := getEnvString_trimmed jobStreamKey
  unfold repairStreamKey controlPlaneStreamKey enqueueStreamKey
  simp only [htrim.trimSpaces]
  rw [if_neg hne, namespacedRedisKey_idem]

/-- The worker reads the setting without trimming it: that makes no difference unless it is set and
blank. -/
theorem workerStreamKey_getEnv (h : ∀ v, jobStreamKey = some v → trimSpaces v ≠ []) :
    workerStreamKey env (getEnv jobStreamKey defaultJobStreamKey) = enqueueStreamKey env jobStreamKey := by
  cases jobStreamKey with
  | none => rfl
  | some v =>
    show namespacedRedisKey env v = namespacedRedisKey env (if trimSpaces v ≠ [] then trimSpaces v else _)
    rw [if_pos (h v rfl), namespacedRedisKey_trimSpaces]

end Jobs

/-- The namespace `oj:oj`, in which the old prefix is the configured one. -/
example : namespacedRedisKey ⟨utf8 "oj", utf8 " oj "⟩ (utf8 "oj::oj:jobs ") = utf8 "oj:oj:oj:jobs" := by
  decide +kernel

end DeepOj.Common
