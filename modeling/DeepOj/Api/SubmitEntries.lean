import DeepOj.Api.Fingerprint
import DeepOj.Conc.Ending
import DeepOj.Conc.Record

/-!
# Whose entry a submission is answered from

Any number of submissions share the result cache and the in-flight keys. The keys are made from
hashes, so that different submissions use different keys only as far as their hashes differ.
-/

namespace DeepOj.Api

open Cluster Conc Go Common

/-! ## The entries -/

/-- The entries under hashed keys, and for which submissions the result cache has been filled. -/
structure Entries where
  redis : Bytes → Option RedisValue
  filled : List (Components × RedisValue)

def Entries.put (w : Entries) (key : Bytes) (v : Option RedisValue) : Entries :=
  { w with redis := Function.update w.redis key v }

/-- What a request leaves open: how it ends, and what everything else answers. -/
structure Choice where
  ending : Ending
  other : (e : Effect) → e.Reply

/-- A move of the environment. -/
inductive EntryMove where
  | submit (cfg : ApiConfig) (caller : Caller) (body : SubmitRequest)
  /-- Another component fills the result cache. -/
  | fill (c : Components) (v : RedisValue)
  | expire (key : Bytes)

section Machine

variable (sha256 : Bytes → Vector UInt8 32) (env : Environ)

/-- The key, if it is one of the hashed ones. -/
def hashedKey : RedisKey → Option Bytes
  | ⟨_, .cache fingerprint⟩ => some (cacheKey sha256 env (utf8 fingerprint))
  | ⟨_, .inflight fingerprint⟩ => some (inflightKey sha256 env (utf8 fingerprint))
  | _ => none

/-- The execution of a request on a hashed key. -/
def serveEntry (w : Entries) : (q : Request) → Option (Entries × Except String q.Response)
  | .get _ k => (hashedKey sha256 env k).map fun key => (w, .ok (w.redis key))
  | .set k v => (hashedKey sha256 env k).map fun key => (w.put key (some v), .ok ())
  | .setNX k v => (hashedKey sha256 env k).map fun key =>
    match w.redis key with
    | some _ => (w, .ok false)
    | none => (w.put key (some v), .ok true)
  | .del k => (hashedKey sha256 env k).map fun key => (w.put key none, .ok ())
  | _ => none

/-- The meaning of one effect; what is not about a hashed key may be answered by anything. -/
def performEntry (w : Entries) : (e : Effect) → Choice → Option (Entries × e.Reply)
  | .act a, ch => some (w, ch.other (.act a))
  | .request q, ch =>
    match serveEntry sha256 env w q with
    | none => some (w, ch.other (.request q))
    | some p => some (ch.ending.apply w .error p)

/-- The submissions as an interleaving machine. -/
def submitMachine : Machine Entries Effect Effect.Reply Choice EntryMove where
  sem := performEntry sha256 env
  forks _ := []
  env w
    | .submit cfg caller body => some (w, [handleSubmit cfg caller body])
    | .fill c v =>
      some ({ w.put (cacheKey sha256 env c.text) (some v) with filled := (c, v) :: w.filled }, [])
    | .expire key => some (w.put key none, [])

end Machine

/-! ## Records -/

/-- What a submission is about, and what it has learnt and answered. -/
structure Submitted where
  request : Option SubmitRequest := none
  testcaseHash : Option String := none
  drawn : List String := []
  /-- What it has read from the result cache. -/
  cached : List RedisValue := []
  /-- The job ids it has read from an in-flight key. -/
  given : List String := []
  answered : List ApiReply := []

def Submitted.components (g : Submitted) : Option Components :=
  match g.request, g.testcaseHash with
  | some req, some hash => some (componentsOf req hash)
  | _, _ => none

/-- What an effect and its reply add to a record. -/
def Submitted.next (g : Submitted) : (e : Effect) → e.Reply → Submitted
  | .act .uuid, jobID => { g with drawn := jobID :: g.drawn }
  | .act (.reply _ a), _ => { g with answered := a :: g.answered }
  | .request (.getProblem _), .ok hash => { g with testcaseHash := some hash }
  | .request (.get _ ⟨_, .cache _⟩), .ok (some v) => { g with cached := v :: g.cached }
  | .request (.get _ ⟨_, .inflight _⟩), .ok (some (.text jobID)) => { g with given := jobID :: g.given }
  | _, _ => g

/-- The record a submission starts with: without a problem there is no hash to look up. -/
def Submitted.start (cfg : ApiConfig) (body : SubmitRequest) : Submitted where
  request := some (normalizeRequest cfg body)
  testcaseHash := if (normalizeRequest cfg body).problemID > 0 then none else some ""

def submitRecorder : Recorder Effect Effect.Reply EntryMove Submitted where
  start
    | .submit cfg _ body => .start cfg body
    | _ => {}
  fork _ := {}
  next := Submitted.next

/-- A hashed key is made from the components of the record. -/
def Submitted.Uses (g : Submitted) : RedisKey → Prop
  | ⟨_, .cache fingerprint⟩ | ⟨_, .inflight fingerprint⟩ =>
    ∃ c, g.components = some c ∧ utf8 fingerprint = c.text
  | _ => True

/-- What a submission may do: it uses its own keys, stores an id of its own under the in-flight key,
and answers with an id of its own or with what it has read. -/
def EntryRule (g : Submitted) : Effect → Prop
  | .request (.getProblem _) => g.testcaseHash = none
  | .request (.get _ k) => g.Uses k
  | .request (.set k _) => ∀ fingerprint, k.name ≠ .cache fingerprint ∧ k.name ≠ .inflight fingerprint
  | .request (.setNX k v) =>
    g.Uses k ∧ (∃ fingerprint, k.name = .inflight fingerprint) ∧ ∃ j ∈ g.drawn, v = .text j
  | .act (.reply _ (.queuing j)) => j ∈ g.drawn ∨ j ∈ g.given
  | .act (.reply _ (.status _ _ _ data)) => ∃ v ∈ g.cached, v.asMap = data
  | _ => True

/-- Nothing is expected of the replies. -/
def entryRules : Rules Effect Effect.Reply Submitted where
  allowed := EntryRule
  promised _ _ _ := True
  ended _ := True

section Records

variable {g g' : Submitted}

/-- `g'` is a later state of the record `g`. -/
structure Submitted.Extends (g g' : Submitted) : Prop where
  components : ∀ c, g.components = some c → g'.components = some c
  drawn : g.drawn ⊆ g'.drawn
  given : g.given ⊆ g'.given
  cached : g.cached ⊆ g'.cached

theorem Submitted.Extends.refl (g : Submitted) : g.Extends g :=
  ⟨fun _ h => h, fun _ h => h, fun _ h => h, fun _ h => h⟩

/-- What a record says about its submission does not change: the hash is looked up once. -/
theorem Submitted.extends_next {e : Effect} (h : EntryRule g e) (r : e.Reply) : g.Extends (g.next e r) := by
  cases e with
  | act a =>
    cases a with
    | uuid => exact ⟨fun _ h => h, List.subset_cons_self _ _, fun _ h => h, fun _ h => h⟩
    | reply _ a => exact ⟨fun _ h => h, fun _ h => h, fun _ h => h, fun _ h => h⟩
    | _ => exact .refl g
  | request q =>
    cases q with
    | getProblem id =>
      cases r with
      | error err => exact .refl g
      | ok hash =>
        have hnone : g.testcaseHash = none := h
        refine ⟨?_, fun _ h => h, fun _ h => h, fun _ h => h⟩
        intro c hc
        unfold Submitted.components at hc
        rw [hnone] at hc
        cases hreq : g.request <;> rw [hreq] at hc <;> cases hc
    | get reader k =>
      obtain ⟨ns, name⟩ := k
      cases r with
      | error err => cases name <;> exact .refl g
      | ok v =>
        cases v with
        | none => cases name <;> exact .refl g
        | some v =>
          cases name with
          | cache fp => exact ⟨fun _ h => h, fun _ h => h, fun _ h => h, List.subset_cons_self _ _⟩
          | inflight fp =>
            cases v with
            | text j => exact ⟨fun _ h => h, fun _ h => h, List.subset_cons_self _ _, fun _ h => h⟩
            | _ => exact .refl g
          | _ => exact .refl g
    | _ => exact .refl g

/-- A reply is one of those the rules know. -/
def Answered (g : Submitted) : ApiReply → Prop
  | .error _ => True
  | .queuing j => j ∈ g.drawn ∨ j ∈ g.given
  | .status _ _ _ data => ∃ v ∈ g.cached, v.asMap = data

theorem Submitted.Extends.answered (hx : g.Extends g') {a : ApiReply} (ha : Answered g a) : Answered g' a := by
  cases a with
  | error code => trivial
  | queuing j =>
    rcases ha with ha | ha
    · exact .inl (hx.drawn ha)
    · exact .inr (hx.given ha)
  | status _ _ _ data =>
    obtain ⟨v, hv, hm⟩ := ha
    exact ⟨v, hx.cached hv, hm⟩

/-- The rules know a new answer. -/
theorem mem_answered_next {e : Effect} {r : e.Reply} {a : ApiReply} (hrule : EntryRule g e)
    (ha : a ∈ (g.next e r).answered) : a ∈ g.answered ∨ Answered g a := by
  cases e with
  | act act =>
    cases act with
    | reply _ b =>
      rcases List.mem_cons.mp ha with rfl | ha
      · right
        cases a with
        | error code => trivial
        | queuing j => exact hrule
        | status _ _ _ data => exact hrule
      · exact .inl ha
    | _ => exact .inl ha
  | request q =>
    cases q with
    | getProblem id => cases r <;> exact .inl ha
    | get reader k =>
      obtain ⟨ns, name⟩ := k
      cases r with
      | error err => cases name <;> exact .inl ha
      | ok v =>
        cases v with
        | none => cases name <;> exact .inl ha
        | some v =>
          cases name with
          | inflight fp => cases v <;> exact .inl ha
          | _ => exact .inl ha
    | _ => exact .inl ha

end Records

/-! ## The handler follows the rules -/

section Handler

variable {α : Type} {g : Submitted} {j : String} {c : Components} {fp : String}

/-- The program follows the rules from this record. -/
abbrev Follows (g : Submitted) (p : Program α) (Q : Submitted → α → Prop) : Prop :=
  Obeys submitRecorder entryRules g p Q

theorem follows_reply (caller : Caller) {a : ApiReply} (h : EntryRule g (.act (.reply caller.request a))) :
    Follows g (reply caller a) fun _ _ => True :=
  Obeys.perform h fun _ _ => trivial

theorem follows_delThenError (caller : Caller) (k : RedisKey) (code : String) :
    Follows g (do let _ ← request (.del k); reply caller (.error code)) fun _ _ => True :=
  Obeys.effect trivial fun _ _ => follows_reply caller trivial

theorem follows_enqueueJobToStream (j : String) (task : Repository.TaskRequest) :
    Follows g (enqueueJobToStream j task) fun g' _ => g' = g := by
  unfold enqueueJobToStream
  refine Obeys.effect trivial fun ts _ => Obeys.effect ?_ fun r _ => ?_
  · intro fingerprint
    constructor <;> intro h <;> cases h
  · cases r with
    | error err => exact Obeys.pure rfl
    | ok u =>
      refine Obeys.effect trivial fun r _ => ?_
      cases r with
      | error err => exact Obeys.effect trivial fun _ _ => Obeys.pure rfl
      | ok i => exact Obeys.pure rfl

/-- The id of the answer is the submission's own. -/
theorem follows_persistSubmission (cfg : ApiConfig) (caller : Caller) (req : SubmitRequest) (fp : String) (hj : j ∈ g.drawn) :
    Follows g (persistSubmission cfg caller req fp j) fun _ _ => True := by
  unfold persistSubmission
  refine Obeys.effect trivial fun ts _ => ?_
  dsimp only
  by_cases hout : cfg.outboxEnabled = true
  · rw [if_pos hout]
    refine Obeys.effect trivial fun r _ => ?_
    cases r with
    | error err => exact follows_delThenError caller _ _
    | ok i => exact follows_reply caller (.inl hj)
  · rw [if_neg hout]
    refine Obeys.effect trivial fun r _ => ?_
    cases r with
    | error err => exact follows_delThenError caller _ _
    | ok u =>
      refine (follows_enqueueJobToStream j _).bind fun g' r hg => ?_
      cases r with
      | error err => exact follows_delThenError caller _ _
      | ok i =>
        refine follows_reply caller (.inl ?_)
        rw [hg]
        exact hj

/-- The data of the answer is what the cache held. -/
theorem follows_submitCached (caller : Caller) (req : SubmitRequest) {v : RedisValue} {m : Repository.ResultMap} (hv : v ∈ g.cached)
    (hm : v.asMap = some m) : Follows g (submitCached caller req m) fun _ _ => True := by
  unfold submitCached
  refine Obeys.effect trivial fun j _ => Obeys.effect trivial fun r _ => ?_
  cases r with
  | error err => exact follows_reply caller trivial
  | ok u => exact Obeys.effect trivial fun _ _ => follows_reply caller ⟨v, hv, hm⟩

/-- The in-flight key is made from the submission's own components. -/
theorem follows_submitFresh (cfg : ApiConfig) (caller : Caller) (req : SubmitRequest) (hc : g.components = some c)
    (hfp : utf8 fp = c.text) : Follows g (submitFresh cfg caller req fp) fun _ _ => True := by
  unfold submitFresh
  refine Obeys.effect trivial fun j _ => ?_
  dsimp only
  have hpersist : Follows { g with drawn := j :: g.drawn } (persistSubmission cfg caller req fp j) _ :=
    follows_persistSubmission cfg caller req fp List.mem_cons_self
  refine Obeys.effect ⟨⟨c, hc, hfp⟩, ⟨fp, rfl⟩, j, List.mem_cons_self, rfl⟩ fun r _ => ?_
  cases r with
  | error err => exact hpersist
  | ok fresh =>
    cases fresh with
    | true => exact hpersist
    | false =>
      refine Obeys.effect ⟨c, hc, hfp⟩ fun r _ => ?_
      cases r with
      | error err => exact hpersist
      | ok v =>
        cases v with
        | none => exact hpersist
        | some v =>
          cases v with
          | text existing =>
            show Follows _ (if existing = "" then _ else _) _
            by_cases he : existing = ""
            · rw [if_pos he]
              exact follows_persistSubmission cfg caller req fp List.mem_cons_self
            · rw [if_neg he]
              exact follows_reply caller (.inr List.mem_cons_self)
          | envelope p => exact hpersist
          | result m => exact hpersist

theorem follows_submitUncached (cfg : ApiConfig) (caller : Caller) (req : SubmitRequest) (hc : g.components = some c)
    (hfp : utf8 fp = c.text) : Follows g (submitUncached cfg caller req fp) fun _ _ => True := by
  unfold submitUncached
  have hfresh := follows_submitFresh cfg caller req hc hfp
  by_cases hcap : cfg.submitMaxInflight > 0
  · rw [if_pos hcap]
    refine Obeys.effect trivial fun r _ => ?_
    cases r with
    | error err => exact hfresh
    | ok active =>
      dsimp only
      by_cases ha : active ≥ cfg.submitMaxInflight
      · rw [if_pos ha]
        exact follows_reply caller trivial
      · rw [if_neg ha]
        exact hfresh
  · rw [if_neg hcap]
    exact hfresh

/-- The hash is the one the record keeps. -/
theorem follows_testcaseHashOf (id : Int) (hg : g.testcaseHash = if id > 0 then none else some "") :
    Follows g (testcaseHashOf id) fun g' hash => ∀ h, hash = some h →
      g'.testcaseHash = some h ∧ g'.request = g.request := by
  unfold testcaseHashOf
  by_cases hid : id > 0
  · rw [if_pos hid] at hg ⊢
    refine Obeys.effect hg fun r _ => ?_
    cases r with
    | error err =>
      refine Obeys.pure ?_
      intro h hh
      cases hh
    | ok hash =>
      refine Obeys.pure ?_
      intro h hh
      cases hh
      exact ⟨rfl, rfl⟩
  · rw [if_neg hid] at hg ⊢
    refine Obeys.pure ?_
    intro h hh
    cases hh
    exact ⟨hg, rfl⟩

/-- Every key is made from the fingerprint of the request and the hash of its problem. -/
theorem follows_handleSubmit (cfg : ApiConfig) (caller : Caller) (body : SubmitRequest) :
    Follows (.start cfg body) (handleSubmit cfg caller body) fun _ _ => True := by
  unfold handleSubmit
  refine Obeys.effect trivial fun allowed _ => ?_
  split_ifs
  any_goals exact follows_reply caller trivial
  refine (follows_testcaseHashOf (normalizeRequest cfg body).problemID rfl).bind fun g hash hg => ?_
  cases hash with
  | none => exact follows_reply caller trivial
  | some hash =>
    obtain ⟨hhash, hreq⟩ := hg hash rfl
    have hc : g.components = some (componentsOf (normalizeRequest cfg body) hash) := by
      unfold Submitted.components
      rw [hhash, hreq]
      rfl
    have hfp := utf8_generateCacheKey (normalizeRequest cfg body) hash
    have hmiss := follows_submitUncached cfg caller (normalizeRequest cfg body) hc hfp
    dsimp only
    refine Obeys.effect ⟨_, hc, hfp⟩ fun r _ => ?_
    cases r with
    | error err => exact hmiss
    | ok v =>
      cases v with
      | none => exact hmiss
      | some v =>
        have hhit : ∀ m, v.asMap = some m → Follows { g with cached := v :: g.cached }
            (submitCached caller (normalizeRequest cfg body) m) fun _ _ => True := fun m hm =>
          follows_submitCached caller _ List.mem_cons_self hm
        have hmiss' : Follows { g with cached := v :: g.cached }
            (submitUncached cfg caller (normalizeRequest cfg body)
              (generateCacheKey (normalizeRequest cfg body) hash)) fun _ _ => True :=
          follows_submitUncached cfg caller _ hc hfp
        show Follows _ (if v.isEmpty then _ else _) _
        split_ifs
        · exact hmiss'
        · cases hm : v.asMap with
          | none => exact Obeys.effect trivial fun _ _ => hmiss'
          | some m => exact hhit m hm

end Handler

/-! ## Runs -/

/-- The submissions with their records. -/
abbrev SubmitState := RecordedConfig Entries Effect Effect.Reply Submitted

/-- No submission yet, and no entry. -/
def noEntries : SubmitState := ⟨⟨fun _ => none, []⟩, []⟩

/-- The value is there because of a submission with these components. -/
def OfSame (s : SubmitState) (c : Components) (v : RedisValue) : Prop :=
  (∃ t ∈ s.threads, t.1.components = some c ∧ ∃ j ∈ t.1.drawn, v = .text j) ∨ (c, v) ∈ s.world.filled

/-- A submission has had these components, or the result cache has been filled for them. -/
def Known (s : SubmitState) (c : Components) : Prop :=
  (∃ t ∈ s.threads, t.1.components = some c) ∨ ∃ v, (c, v) ∈ s.world.filled

theorem OfSame.known {s : SubmitState} {c : Components} {v : RedisValue} (h : OfSame s c v) : Known s c := by
  rcases h with ⟨t, ht, hc, _⟩ | hfilled
  · exact .inl ⟨t, ht, hc⟩
  · exact .inr ⟨v, hfilled⟩

/-- The submission has read this value under one of its keys. -/
def Submitted.HasRead (g : Submitted) (v : RedisValue) : Prop :=
  v ∈ g.cached ∨ ∃ j ∈ g.given, v = .text j

section Runs

variable (sha256 : Bytes → Vector UInt8 32) (env : Environ)

/-- A run of the submissions. -/
abbrev SubmitRun (s : SubmitState) : Prop :=
  Run ((submitMachine sha256 env).record submitRecorder) always noEntries s

/-- A key that is made from the components. -/
def KeyOf (c : Components) (key : Bytes) : Prop :=
  key = cacheKey sha256 env c.text ∨ key = inflightKey sha256 env c.text

/-- The value stands, or stood, under a key of the components `c`; whose value it is, only the hash tells. -/
def FoundBy (s : SubmitState) (c : Components) (v : RedisValue) : Prop :=
  ∃ key c', KeyOf sha256 env c key ∧ KeyOf sha256 env c' key ∧ OfSame s c' v

/-- Every entry is a submission's, under a key of that submission. -/
def EntriesOwned (s : SubmitState) : Prop :=
  ∀ key v, s.world.redis key = some v → ∃ c, KeyOf sha256 env c key ∧ OfSame s c v

/-- What a submission has read was found under one of its own keys. -/
def ReadsFound (s : SubmitState) : Prop :=
  ∀ t ∈ s.threads, ∀ v, t.1.HasRead v → ∃ c, t.1.components = some c ∧ FoundBy sha256 env s c v

/-- What a submission has answered the rules know. -/
def AllAnswered (s : SubmitState) : Prop := ∀ t ∈ s.threads, ∀ a ∈ t.1.answered, Answered t.1 a

end Runs

section Steps

variable {sha256 : Bytes → Vector UInt8 32} {env : Environ} {g : Submitted} {w w' : Entries} {e : Effect}
  {ch : Choice} {r : e.Reply} {key : Bytes} {v : RedisValue}

theorem submit_disciplined : (submitMachine sha256 env).Disciplined submitRecorder entryRules where
  env := by
    intro w m w' ps h p hp
    cases m with
    | submit cfg caller body =>
      cases h
      rw [List.mem_singleton.mp hp]
      exact (follows_handleSubmit cfg caller body).heeds
    | fill c v =>
      cases h
      cases hp
    | expire key =>
      cases h
      cases hp
  forks := by
    intro e p hp
    cases hp

/-- The key of a record's own request is made from its components. -/
theorem Submitted.Uses.keyOf {k : RedisKey} (hk : g.Uses k) (hkey : hashedKey sha256 env k = some key) :
    ∃ c, g.components = some c ∧ KeyOf sha256 env c key := by
  obtain ⟨ns, name⟩ := k
  cases name with
  | cache fp =>
    obtain ⟨c, hc, hfp⟩ := hk
    have heq : some (cacheKey sha256 env (utf8 fp)) = some key := hkey
    rw [hfp] at heq
    exact ⟨c, hc, .inl (Option.some.inj heq).symm⟩
  | inflight fp =>
    obtain ⟨c, hc, hfp⟩ := hk
    have heq : some (inflightKey sha256 env (utf8 fp)) = some key := hkey
    rw [hfp] at heq
    exact ⟨c, hc, .inr (Option.some.inj heq).symm⟩
  | _ => cases hkey

/-- A request about a hashed key is served, or fails, or is served without the handler knowing. -/
theorem performEntry_request {q : Request} {r : Effect.Reply (.request q)}
    (h : performEntry sha256 env w (.request q) ch = some (w', r)) :
    (serveEntry sha256 env w q = none ∧ w' = w) ∨
    ∃ w₁ r₁, serveEntry sha256 env w q = some (w₁, r₁) ∧ (w' = w ∨ w' = w₁) ∧
      (r = r₁ ∨ ∃ msg, r = .error msg) := by
  have hcase : performEntry sha256 env w (.request q) ch = match serveEntry sha256 env w q with
    | none => some (w, ch.other (.request q))
    | some p => some (ch.ending.apply w .error p) := rfl
  rw [hcase] at h
  cases hserve : serveEntry sha256 env w q with
  | none =>
    rw [hserve] at h
    cases h
    exact .inl ⟨rfl, rfl⟩
  | some served =>
    rw [hserve] at h
    refine .inr ⟨served.1, served.2, rfl, ?_⟩
    rcases Ending.apply_cases (Option.some.inj h) with ⟨hw, hr⟩ | ⟨hw, hr⟩
    · exact ⟨.inr hw, .inl hr⟩
    · exact ⟨hw, .inr hr⟩

/-- The entries have not changed, up to removals and an id of the submission's own under its own key. -/
structure Kept (sha256 : Bytes → Vector UInt8 32) (env : Environ) (g : Submitted) (w w' : Entries) : Prop where
  filled : w'.filled = w.filled
  redis : ∀ key v, w'.redis key = some v → w.redis key = some v ∨
    ∃ c, g.components = some c ∧ KeyOf sha256 env c key ∧ ∃ j ∈ g.drawn, v = .text j

theorem Kept.refl (w : Entries) : Kept sha256 env g w w := ⟨rfl, fun _ _ h => .inl h⟩

theorem kept_serveEntry {q : Request} {r : Except String q.Response} (hrule : EntryRule g (.request q))
    (h : serveEntry sha256 env w q = some (w', r)) : Kept sha256 env g w w' := by
  cases q with
  | get reader k =>
    obtain ⟨key, _, hserve⟩ := Option.map_eq_some_iff.mp h
    cases hserve
    exact .refl w
  | set k v =>
    -- no program writes a hashed key this way
    obtain ⟨key, hkey, _⟩ := Option.map_eq_some_iff.mp h
    obtain ⟨ns, name⟩ := k
    cases name with
    | cache fp => exact absurd rfl (hrule fp).1
    | inflight fp => exact absurd rfl (hrule fp).2
    | _ => cases hkey
  | setNX k v =>
    obtain ⟨key, hkey, hserve⟩ := Option.map_eq_some_iff.mp h
    obtain ⟨huses, _, hvalue⟩ := hrule
    cases hold : w.redis key with
    | some v' =>
      rw [hold] at hserve
      cases hserve
      exact .refl w
    | none =>
      rw [hold] at hserve
      cases hserve
      refine ⟨rfl, ?_⟩
      intro key' v' hv'
      by_cases heq : key' = key
      · subst heq
        obtain ⟨c, hc, hof⟩ := huses.keyOf hkey
        have hput : (w.put key' (some v)).redis key' = some v := Function.update_self ..
        rw [hput] at hv'
        cases hv'
        exact .inr ⟨c, hc, hof, hvalue⟩
      · have hput : (w.put key (some v)).redis key' = w.redis key' := Function.update_of_ne heq ..
        rw [hput] at hv'
        exact .inl hv'
  | del k =>
    obtain ⟨key, _, hserve⟩ := Option.map_eq_some_iff.mp h
    cases hserve
    refine ⟨rfl, ?_⟩
    intro key' v' hv'
    by_cases heq : key' = key
    · subst heq
      have hput : (w.put key' none).redis key' = none := Function.update_self ..
      rw [hput] at hv'
      cases hv'
    · have hput : (w.put key none).redis key' = w.redis key' := Function.update_of_ne heq ..
      rw [hput] at hv'
      exact .inl hv'
  | _ => cases h

theorem kept_performEntry (hrule : EntryRule g e) (h : performEntry sha256 env w e ch = some (w', r)) :
    Kept sha256 env g w w' := by
  cases e with
  | act a =>
    cases h
    exact .refl w
  | request q =>
    rcases performEntry_request h with ⟨_, rfl⟩ | ⟨w₁, r₁, hserve, rfl | rfl, _⟩
    · exact .refl _
    · exact .refl _
    · exact kept_serveEntry hrule hserve

/-- A value that is read stands under a key of the submission. -/
theorem hasRead_performEntry (hrule : EntryRule g e) (h : performEntry sha256 env w e ch = some (w', r))
    (hv : (g.next e r).HasRead v) :
    g.HasRead v ∨ ∃ c key, g.components = some c ∧ KeyOf sha256 env c key ∧ w.redis key = some v := by
  cases e with
  | act a => cases a <;> exact .inl hv
  | request q =>
    cases q with
    | getProblem id => cases r <;> exact .inl hv
    | get reader k =>
      -- what is answered is what the key holds
      have hheld : ∀ key, hashedKey sha256 env k = some key → r = .ok (some v) → g.HasRead v ∨
          ∃ c key, g.components = some c ∧ KeyOf sha256 env c key ∧ w.redis key = some v := by
        intro key hkey hr
        have huses : g.Uses k := hrule
        have hserve : serveEntry sha256 env w (.get reader k) = some (w, .ok (w.redis key)) := by
          show (hashedKey sha256 env k).map _ = _
          rw [hkey]
          rfl
        rcases performEntry_request h with ⟨hnone, _⟩ | ⟨w₁, r₁, hserve', _, hans⟩
        · rw [hserve] at hnone
          cases hnone
        · rw [hserve] at hserve'
          cases hserve'
          obtain ⟨c, hc, hof⟩ := huses.keyOf hkey
          rcases hans with hans | ⟨msg, hans⟩
          · rw [hr] at hans
            exact .inr ⟨c, key, hc, hof, (Except.ok.inj hans).symm⟩
          · rw [hr] at hans
            cases hans
      obtain ⟨ns, name⟩ := k
      cases r with
      | error err => cases name <;> exact .inl hv
      | ok value =>
        cases value with
        | none => cases name <;> exact .inl hv
        | some value =>
          cases name with
          | cache fp =>
            rcases hv with hmem | hgiven
            · rcases List.mem_cons.mp hmem with rfl | hmem
              · exact hheld _ rfl rfl
              · exact .inl (.inl hmem)
            · exact .inl (.inr hgiven)
          | inflight fp =>
            cases value with
            | text j =>
              rcases hv with hmem | ⟨j', hj', rfl⟩
              · exact .inl (.inl hmem)
              · rcases List.mem_cons.mp hj' with rfl | hj'
                · exact hheld _ rfl rfl
                · exact .inl (.inr ⟨j', hj', rfl⟩)
            | _ => exact .inl hv
          | _ => exact .inl hv
    | _ => exact .inl hv

end Steps

section Reached

variable {sha256 : Bytes → Vector UInt8 32} {env : Environ} {s s' : SubmitState} {m : Move Choice EntryMove}

/-- What every submission does follows the rules. -/
theorem allHeed_submit (h : SubmitRun sha256 env s) : Machine.AllHeed submitRecorder entryRules s := by
  refine h.invariant ?_ ?_
  · intro t ht
    cases ht
  · intro s s' m hs _ hstep
    exact submit_disciplined.record hs (fun _ _ _ _ _ _ _ _ _ _ => trivial) (fun _ _ _ _ => trivial) hstep

/-- A submission stays, with what its record says. -/
theorem submit_forward (hs : Machine.AllHeed submitRecorder entryRules s)
    (hstep : (submitMachine sha256 env).record submitRecorder s m = some s') {t : Submitted × Program Unit}
    (ht : t ∈ s.threads) : ∃ t' ∈ s'.threads, t.1.Extends t'.1 := by
  obtain ht | ⟨i, c, g, e, k, r, rfl, hi, rfl, hsem, hnext⟩ | ⟨i, rfl, hi, hdead⟩ :=
    Machine.record_forward hstep ht
  · exact ⟨t, ht, .refl t.1⟩
  · exact ⟨_, hnext, Submitted.extends_next (hs.allowed hi) r⟩
  · exact ⟨_, hdead, .refl t.1⟩

theorem filled_step (hs : Machine.AllHeed submitRecorder entryRules s)
    (hstep : (submitMachine sha256 env).record submitRecorder s m = some s') : s.world.filled ⊆ s'.world.filled := by
  obtain ⟨i, c, g, e, k, w, r, rfl, hi, hsem, rfl⟩ | ⟨i, rfl, rfl⟩ | ⟨v, w, ps, rfl, hv, rfl⟩ :=
    Machine.record_cases hstep
  · rw [(kept_performEntry (hs.allowed hi) hsem).filled]
    exact fun _ h => h
  · exact fun _ h => h
  · cases v with
    | submit cfg caller body =>
      cases hv
      exact fun _ h => h
    | fill c v =>
      cases hv
      exact List.subset_cons_self _ _
    | expire key =>
      cases hv
      exact fun _ h => h

theorem OfSame.step (hs : Machine.AllHeed submitRecorder entryRules s)
    (hstep : (submitMachine sha256 env).record submitRecorder s m = some s') {c : Components} {v : RedisValue}
    (h : OfSame s c v) : OfSame s' c v := by
  rcases h with ⟨t, ht, hc, j, hj, hv⟩ | hfilled
  · obtain ⟨t', ht', hx⟩ := submit_forward hs hstep ht
    exact .inl ⟨t', ht', hx.components c hc, j, hx.drawn hj, hv⟩
  · exact .inr (filled_step hs hstep hfilled)

theorem FoundBy.step (hs : Machine.AllHeed submitRecorder entryRules s)
    (hstep : (submitMachine sha256 env).record submitRecorder s m = some s') {c : Components} {v : RedisValue}
    (h : FoundBy sha256 env s c v) : FoundBy sha256 env s' c v := by
  obtain ⟨key, c', hk, hk', hof⟩ := h
  exact ⟨key, c', hk, hk', hof.step hs hstep⟩

theorem EntriesOwned.step (hs : Machine.AllHeed submitRecorder entryRules s) (he : EntriesOwned sha256 env s)
    (hstep : (submitMachine sha256 env).record submitRecorder s m = some s') : EntriesOwned sha256 env s' := by
  have hold : ∀ key v, s.world.redis key = some v → ∃ c, KeyOf sha256 env c key ∧ OfSame s' c v := by
    intro key v hv
    obtain ⟨c, hk, hof⟩ := he key v hv
    exact ⟨c, hk, hof.step hs hstep⟩
  intro key v hv
  have hmove := Machine.record_cases hstep
  obtain ⟨i, c, g, e, k, w, r, rfl, hi, hsem, hs'⟩ | ⟨i, rfl, hs'⟩ | ⟨mv, w, ps, rfl, hmv, hs'⟩ := hmove
  · have hw : s'.world = w := by rw [hs']
    rw [hw] at hv
    rcases (kept_performEntry (hs.allowed hi) hsem).redis key v hv with hkept | ⟨c, hc, hk, j, hj, hv⟩
    · exact hold key v hkept
    · obtain ⟨t', ht', hx⟩ := submit_forward hs hstep (List.mem_of_getElem? hi)
      exact ⟨c, hk, .inl ⟨t', ht', hx.components c hc, j, hx.drawn hj, hv⟩⟩
  · rw [hs'] at hv
    exact hold key v hv
  · have hw : s'.world = w := by rw [hs']
    rw [hw] at hv
    cases mv with
    | submit cfg caller body =>
      cases hmv
      exact hold key v hv
    | fill c value =>
      cases hmv
      by_cases heq : key = cacheKey sha256 env c.text
      · rw [heq] at hv
        have hput := (Function.update_self ..).symm.trans hv
        cases hput
        refine ⟨c, .inl heq, .inr ?_⟩
        rw [hw]
        exact List.mem_cons_self
      · exact hold key v ((Function.update_of_ne heq ..).symm.trans hv)
    | expire key' =>
      cases hmv
      by_cases heq : key = key'
      · rw [heq] at hv
        have hput := (Function.update_self ..).symm.trans hv
        cases hput
      · exact hold key v ((Function.update_of_ne heq ..).symm.trans hv)

theorem ReadsFound.step (hs : Machine.AllHeed submitRecorder entryRules s) (he : EntriesOwned sha256 env s)
    (hr : ReadsFound sha256 env s) (hstep : (submitMachine sha256 env).record submitRecorder s m = some s') :
    ReadsFound sha256 env s' := by
  have hold : ∀ t ∈ s.threads, ∀ v, t.1.HasRead v →
      ∃ c, t.1.components = some c ∧ FoundBy sha256 env s' c v := by
    intro t ht v hv
    obtain ⟨c, hc, hf⟩ := hr t ht v hv
    exact ⟨c, hc, hf.step hs hstep⟩
  have hnothing : ∀ {g : Submitted} {v : RedisValue}, g.cached = [] → g.given = [] → ¬ g.HasRead v := by
    intro g v hcached hgiven hv
    rcases hv with hv | ⟨j, hj, _⟩
    · rw [hcached] at hv
      cases hv
    · rw [hgiven] at hj
      cases hj
  intro t ht v hv
  obtain ht | ⟨i, ch, g, e, k, r, rfl, hi, hsem, rfl⟩ | ⟨i, t₀, ht₀, rfl, rfl⟩ |
    ⟨i, ch, g, e, k, r, rfl, hi, hsem, hg, hp⟩ | ⟨mv, ps, rfl, hmv, hg, hp⟩ := Machine.mem_record hstep ht
  · exact hold t ht v hv
  · have hthread := List.mem_of_getElem? hi
    have hrule := hs.allowed hi
    have hx := Submitted.extends_next hrule r
    rcases hasRead_performEntry hrule hsem hv with hv | ⟨c, key, hc, hk, hentry⟩
    · obtain ⟨c, hc, hf⟩ := hold _ hthread v hv
      exact ⟨c, hx.components c hc, hf⟩
    · obtain ⟨c', hk', hof⟩ := he key v hentry
      exact ⟨c, hx.components c hc, key, c', hk, hk', hof.step hs hstep⟩
  · exact hold t₀ ht₀ v hv
  · cases hp
  · rw [hg] at hv
    cases mv <;> exact absurd hv (hnothing rfl rfl)

theorem AllAnswered.step (hs : Machine.AllHeed submitRecorder entryRules s) (ha : AllAnswered s)
    (hstep : (submitMachine sha256 env).record submitRecorder s m = some s') : AllAnswered s' := by
  intro t ht a hmem
  obtain ht | ⟨i, ch, g, e, k, r, rfl, hi, hsem, rfl⟩ | ⟨i, t₀, ht₀, rfl, rfl⟩ |
    ⟨i, ch, g, e, k, r, rfl, hi, hsem, hg, hp⟩ | ⟨mv, ps, rfl, hmv, hg, hp⟩ := Machine.mem_record hstep ht
  · exact ha t ht a hmem
  · have hrule := hs.allowed hi
    have hx := Submitted.extends_next hrule r
    rcases mem_answered_next hrule hmem with hmem | hans
    · exact hx.answered (ha _ (List.mem_of_getElem? hi) a hmem)
    · exact hx.answered hans
  · exact ha t₀ ht₀ a hmem
  · cases hp
  · rw [hg] at hmem
    cases mv <;> cases hmem

/-- What holds of the entries and of what has been read, in every run. -/
theorem entries_of_run (h : SubmitRun sha256 env s) :
    EntriesOwned sha256 env s ∧ ReadsFound sha256 env s ∧ AllAnswered s := by
  induction h with
  | init =>
    refine ⟨?_, ?_, ?_⟩
    · intro key v hv
      cases hv
    · intro t ht
      cases ht
    · intro t ht
      cases ht
  | step m hrun _ hstep ih =>
    obtain ⟨he, hr, ha⟩ := ih
    have hs := allHeed_submit hrun
    exact ⟨he.step hs hstep, hr.step hs he hstep, ha.step hs hstep⟩

/-- A key of two submissions tells that their hashes agree. -/
theorem hash_of_keyOf {c c' : Components} {key : Bytes} (h : KeyOf sha256 env c key)
    (h' : KeyOf sha256 env c' key) : sha256 c.text = sha256 c'.text := by
  have hsplit : ∀ {c key}, KeyOf sha256 env c key → ∃ front, IsFront front ∧
      key = namespacedRedisKey env (front ++ colon :: hexText (sha256 c.text).toList) := by
    intro c key hk
    rcases hk with rfl | rfl
    · refine ⟨_, .inl rfl, ?_⟩
      have hfront : cacheKeyPrefix = utf8 "oj:cache" ++ [colon] := by decide
      unfold cacheKey rawCacheKey
      rw [hfront, List.append_assoc, List.singleton_append]
    · refine ⟨_, .inr rfl, ?_⟩
      have hfront : inFlightKeyPrefix ++ cacheKeyPrefix = utf8 "oj:inflight:oj:cache" ++ [colon] := by decide
      unfold inflightKey rawCacheKey
      rw [← List.append_assoc, hfront, List.append_assoc, List.singleton_append]
  have hlong : ∀ v : Vector UInt8 32, v.toList ≠ [] := by
    intro v hnil
    have hlen := congrArg List.length hnil
    simp at hlen
  obtain ⟨front, hfront, hkey⟩ := hsplit h
  obtain ⟨front', hfront', hkey'⟩ := hsplit h'
  have hbytes := namespacedRedisKey_hash_inj hfront hfront' (hlong _) (hlong _) (hkey.symm.trans hkey')
  exact Vector.toList_inj.mp hbytes

end Reached

/-- The answer is the submission's own, or one that was given for the same components. -/
def AnsweredFromSame (s : SubmitState) (g : Submitted) : ApiReply → Prop
  | .error _ => True
  | .queuing j => j ∈ g.drawn ∨ ∃ c, g.components = some c ∧ OfSame s c (.text j)
  | .status _ _ _ data => ∃ c v, g.components = some c ∧ v.asMap = data ∧ OfSame s c v

/-- The text that is hashed tells the six components when the hash of the test cases has no bar. As
long as different texts of the run have different hashes, no submission is answered from an entry
of a different one. -/
theorem entries_not_confused :
    (∀ req testcaseHash, utf8 (generateCacheKey req testcaseHash) = (componentsOf req testcaseHash).text) ∧
    (∀ c c' : Components, bar ∉ c.testcaseHash → bar ∉ c'.testcaseHash → c.text = c'.text → c = c') ∧
    ∀ (sha256 : Bytes → Vector UInt8 32) (env : Environ) (s : SubmitState), SubmitRun sha256 env s →
      (∀ c, Known s c → bar ∉ c.testcaseHash) →
      (∀ c c', Known s c → Known s c' → sha256 c.text = sha256 c'.text → c.text = c'.text) →
      ∀ t ∈ s.threads, ∀ a ∈ t.1.answered, AnsweredFromSame s t.1 a := by
  refine ⟨utf8_generateCacheKey, fun c c' => Components.text_inj, ?_⟩
  intro sha256 env s hrun hbar hfree t ht a ha
  obtain ⟨_, hreads, hanswered⟩ := entries_of_run hrun
  have hsame : ∀ v, t.1.HasRead v → ∃ c, t.1.components = some c ∧ OfSame s c v := by
    intro v hv
    obtain ⟨c, hc, key, c', hk, hk', hof⟩ := hreads t ht v hv
    have hknown : Known s c := .inl ⟨t, ht, hc⟩
    have htext := hfree c c' hknown hof.known (hash_of_keyOf hk hk')
    rw [← Components.text_inj (hbar c hknown) (hbar c' hof.known) htext] at hof
    exact ⟨c, hc, hof⟩
  have hknow := hanswered t ht a ha
  cases a with
  | error code => trivial
  | queuing j =>
    rcases hknow with hdrawn | hgiven
    · exact .inl hdrawn
    · exact .inr (hsame _ (.inr ⟨j, hgiven, rfl⟩))
  | status _ _ _ data =>
    obtain ⟨v, hv, hm⟩ := hknow
    obtain ⟨c, hc, hof⟩ := hsame v (.inl hv)
    exact ⟨c, v, hc, hm, hof⟩

section Resubmitted

/-- Every store but Redis takes what it is given; the generator returns `jobID`. -/
def otherReplies (jobID : String) : (e : Effect) → e.Reply
  | .act .now => 0
  | .act .uuid => jobID
  | .act (.judge ..) => .busy ""
  | .act .newRun => 0
  | .act (.cancelRun _) => ()
  | .act (.go _) => ()
  | .act (.selectTick _) => false
  | .act (.sendHeartbeat ..) => ()
  | .act (.recvHeartbeat _) => {}
  | .act .rateLimit => true
  | .act (.reply ..) => ()
  | .request (.insertWithOutbox ..) => .ok 0
  | .request _ => .error ""

/-- SHA-256, on the one text that is hashed here. -/
def sampleHash (bs : Bytes) : Vector UInt8 32 :=
  if bs = utf8 "x|1|1000|128|0|" then
    #v[213, 202, 255, 29, 198, 47, 225, 57, 6, 25, 152, 100, 224, 49, 205, 209,
      74, 99, 125, 64, 183, 7, 244, 138, 66, 15, 76, 5, 194, 133, 233, 253]
  else Vector.replicate 32 0

/-- The same program is submitted twice, and the first submission has stored its id. -/
def resubmitted : List (Move Choice EntryMove) :=
  let submit := .env (.submit ⟨65536, 1000, 10000, 128, 512, 0, true⟩ ⟨0, "", some 7, false⟩ ⟨"x", 1, 0, 0, 0⟩)
  [submit, submit] ++ List.replicate 6 (.call 0 ⟨.served, otherReplies "job-1"⟩) ++
    List.replicate 6 (.call 1 ⟨.served, otherReplies "job-2"⟩)

set_option maxRecDepth 4000 in
/-- The second submission is answered with the id of the first, which has the same components. -/
theorem entries_not_confused_resubmitted :
    let s := playAll ((submitMachine sampleHash ⟨[], []⟩).record submitRecorder) always noEntries resubmitted
    ∃ t ∈ s.threads, "job-1" ∉ t.1.drawn ∧ .queuing "job-1" ∈ t.1.answered ∧
      AnsweredFromSame s t.1 (.queuing "job-1") := by
  intro s
  have hrun : SubmitRun sampleHash ⟨[], []⟩ s := Run.init.playAll resubmitted
  have hthread : ∃ t ∈ s.threads, "job-1" ∉ t.1.drawn ∧ .queuing "job-1" ∈ t.1.answered := by decide +kernel
  obtain ⟨t, ht, hdrawn, hanswered⟩ := hthread
  have hknown : ∀ c, Known s c → c = ⟨utf8 "x", 1, 1000, 128, 0, []⟩ := by
    have hall : ∀ t ∈ s.threads, ∀ c ∈ t.1.components, c = ⟨utf8 "x", 1, 1000, 128, 0, []⟩ := by decide +kernel
    have hfilled : s.world.filled = [] := by decide +kernel
    intro c hc
    rcases hc with ⟨t, ht, hc⟩ | ⟨v, hc⟩
    · exact hall t ht c hc
    · rw [hfilled] at hc
      cases hc
  refine ⟨t, ht, hdrawn, hanswered, entries_not_confused.2.2 sampleHash _ s hrun ?_ ?_ t ht _ hanswered⟩
  · intro c hc
    rw [hknown c hc]
    exact List.not_mem_nil
  · intro c c' hc hc' _
    rw [hknown c hc, hknown c' hc']

end Resubmitted

end DeepOj.Api
