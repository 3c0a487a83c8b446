import DeepOj.Cluster.Poison

/-!
# The payload of an entry

A dispatcher stores the payload, appends the entry, and removes the payload again
when the append reports an error. Every entry keeps its payload as long as such a
removal meets neither an entry of the job nor a dispatcher about to append one.
-/

namespace DeepOj.Cluster

open Repository Worker Api

/-- The job thread `i` is about to append an entry for. -/
def appends (s : State) (i : Nat) : Option String :=
  match s.nextAt i with
  | some (.request (.xadd v)) => v.jobID
  | _ => none

/-- The row of the job is done. -/
def isDone (w : World) (j : String) : Bool :=
  match w.submissions j with
  | some r => r.state = "done"
  | none => false

/-- The stream has an entry of the job. -/
def hasEntry (w : World) (j : String) : Bool :=
  w.stream.any fun e => e.values.jobID = some j

/-- The payload of the job is not needed: the job is done, or it has no entry and
no thread is about to append one. -/
def payloadUnneeded (s : State) (j : String) : Bool :=
  isDone s.world j ||
    (!hasEntry s.world j && (List.range s.threads.length).all fun i => decide (appends s i ≠ some j))

/-- The time to live of no payload ends. -/
def lastsPayload : Step → Bool
  | .env (.expire ⟨_, .payload _⟩) => false
  | _ => true

/-- No payload is removed while it is needed. -/
def removesUnneeded (s : State) (m : Step) : Bool :=
  match sent s m with
  | some (.del ⟨_, .payload j⟩, served) => !served || payloadUnneeded s j
  | _ => true

/-- The condition of a run in which payloads do not expire. -/
def PayloadsLast (_ : State) (m : Step) : Prop := lastsPayload m = true

instance (s : State) (m : Step) : Decidable (PayloadsLast s m) :=
  inferInstanceAs (Decidable (_ = _))

/-- The condition of a run that keeps the payloads that are needed. -/
def KeepsPayloads (s : State) (m : Step) : Prop := PayloadsLast s m ∧ removesUnneeded s m = true

instance (s : State) (m : Step) : Decidable (KeepsPayloads s m) :=
  inferInstanceAs (Decidable (_ ∧ _))

theorem rowDone_of_isDone {w : World} {j : String} (h : isDone w j = true) : RowDone w j := by
  unfold isDone at h
  split at h
  · rename_i r hr
    exact ⟨r, hr, of_decide_eq_true h⟩
  · cases h

/-- The payload of the job is needed: it has an entry, or is about to get one. -/
def Needed (s : State) (j : String) : Prop :=
  (∃ (i : Nat) (e : StreamEntry), s.world.stream[i]? = some e ∧ e.values.jobID = some j) ∨
    ∃ i, appends s i = some j

theorem done_of_needed {s : State} {j : String} (hn : Needed s j)
    (h : payloadUnneeded s j = true) : RowDone s.world j := by
  obtain hd | hno := Bool.or_eq_true_iff.mp h
  · exact rowDone_of_isDone hd
  · obtain ⟨hentry, happend⟩ := Bool.and_eq_true_iff.mp hno
    obtain ⟨i, e, he, hj⟩ | ⟨i, hi⟩ := hn
    · have hhas : hasEntry s.world j = true :=
        List.any_eq_true.mpr ⟨e, List.mem_of_getElem? he, decide_eq_true hj⟩
      rw [hhas] at hentry
      cases hentry
    · have hlt : i < s.threads.length := by
        unfold appends at hi
        split at hi
        · rename_i v hv
          obtain ⟨p, hp, _⟩ := Option.bind_eq_some_iff.mp hv
          exact (List.getElem?_eq_some_iff.mp hp).1
        · cases hi
      have hne := List.all_eq_true.mp happend i (List.mem_range.mpr hlt)
      exact absurd hi (of_decide_eq_true hne)

/-- An effect keeps the payload of a job that needs it. -/
theorem payloadReady_perform {s : State} {i : Nat} {c : Fate} {e : Effect} {w : World}
    {r : e.Reply} (hok : KeepsPayloads s (.call i c)) (hn : s.nextAt i = some e)
    (hp : perform s.world e c = some (w, r)) {v : StreamValues}
    (hneeded : ∀ j, v.jobID = some j → Needed s j) (hv : PayloadReady s.world v) :
    PayloadReady w v := by
  have g : Grows s.world w := grows_perform hp
  obtain ⟨j, hj, href, hk | hd⟩ := hv
  · refine ⟨j, hj, href, ?_⟩
    have hkeep : ∀ q, e = .request q → c.served = true → Change s.world q w →
        (w.redis (payloadKey j)).isSome = true ∨ RowDone w j := by
      intro q hq hserved hc
      obtain hk' | rfl := hc.redis hk
      · exact .inl hk'
      · -- the payload is removed, so the job is done
        subst hq
        have hun : removesUnneeded s (.call i c) = true := hok.2
        simp only [removesUnneeded, sent, hn, payloadKey, namespacedRedisKey, hserved,
          Bool.not_true, Bool.false_or] at hun
        exact .inr (stable_rowDone j _ _ g (done_of_needed (hneeded j hj) hun))
    have hsame : SameData s.world w → (w.redis (payloadKey j)).isSome = true ∨ RowDone w j := by
      intro hd
      rw [hd.redis]
      exact .inl hk
    cases e with
    | act a =>
      obtain ⟨ch, ha⟩ := perform_act hp
      exact hsame (quiet_actLocally ha).data
    | request q =>
      cases c with
      | ok ch =>
        have hw : w = (serve s.world ch q).1 := by rw [Option.some.inj hp]
        exact hkeep q rfl rfl (hw ▸ change_serve s.world ch q)
      | lost ch msg =>
        obtain ⟨rfl, _⟩ := Prod.mk.inj (Option.some.inj hp)
        exact hkeep q rfl rfl (change_serve s.world ch q)
      | failed msg =>
        obtain ⟨rfl, _⟩ := Prod.mk.inj (Option.some.inj hp)
        exact hsame (sameData_drop s.world q)
  · exact ⟨j, hj, href, .inr (stable_rowDone j _ _ g hd)⟩

/-- So does a move of the environment, when no payload expires. -/
theorem payloadReady_envStep {s : State} {v : Env} {w : World} {ps : List (Program Unit)}
    (hok : KeepsPayloads s (.env v)) (hv : envStep s.world v = some (w, ps))
    {values : StreamValues} (h : PayloadReady s.world values) : PayloadReady w values := by
  obtain ⟨j, hj, href, hk | hd⟩ := h
  · refine ⟨j, hj, href, .inl ?_⟩
    have hc := change_envStep hv
    cases hc with
    | same hd _ => rw [hd.redis]; exact hk
    | asked _ _ hd _ => rw [hd.redis]; exact hk
    | dbTick => exact hk
    | give _ _ => exact hk
    | expire =>
      rename_i k
      have hne : payloadKey j ≠ k := by
        intro heq
        subst heq
        have hlast : lastsPayload (.env (.expire (payloadKey j))) = true := hok.1
        simp [lastsPayload, payloadKey, namespacedRedisKey] at hlast
      rw [s.world.setKey_of_ne hne]
      exact hk
    | fillCache =>
      rw [s.world.setKey_of_ne (by simp [payloadKey, namespacedRedisKey])]
      exact hk
  · exact ⟨j, hj, href, .inr (stable_rowDone j _ _ (grows_envStep hv) hd)⟩

/-- The contract with kept payloads covers every such run. -/
theorem sound_kept : system.Sound (contract true) KeepsPayloads where
  call_inv := fun _ _ _ _ _ _ _ hs hj _ _ hp => hs.extend (extends_perform hs hj hp)
  call_rely := by
    intro s i c e k w r hs hj ht hok hp n e' hne hnext
    refine ⟨grows_perform hp, fun _ v he hv => ?_⟩
    subst he
    refine payloadReady_perform hok (nextAt_of_thread ht) hp (fun j hj => .inr ⟨n, ?_⟩) hv
    simp only [appends, hnext, hj]
  fork_wp := fun _ _ _ _ _ _ hj hp _ => wp_forks hj hp
  env_inv := fun _ _ _ _ hs _ hv => hs.extend (extends_envStep hv)
  env_rely := fun _ _ _ _ _ hok hv _ _ _ =>
    ⟨grows_envStep hv, fun _ _ _ h => payloadReady_envStep hok hv h⟩
  env_wp := fun _ _ _ _ _ _ hv _ => wp_envStep hv

/-- Every entry of the stream has its payload, or its job is done. -/
def PayloadsReady (w : World) : Prop :=
  ∀ (i : Nat) (e : StreamEntry), w.stream[i]? = some e → PayloadReady w e.values

/-- In a run in which no payload expires, and a payload is only removed when its job
is done, or has no entry and no dispatcher is about to append one: every entry of a
job that is not done finds its payload. -/
theorem payload_available {s : State} (h : system.Reach KeepsPayloads start s) {i : Nat}
    {e : StreamEntry} {j : String} (he : s.world.stream[i]? = some e)
    (hj : e.values.jobID = some j) (hd : ¬ RowDone s.world j) :
    e.values.payloadRef = some (payloadKey j) ∧ ∃ v, s.world.redis (payloadKey j) = some v := by
  have hall : PayloadsReady s.world := by
    refine sound_kept.world_invariant (J := PayloadsReady) good_start ?_ ?_ ?_ h
    · intro i e he
      simp [start, World.empty] at he
    · intro s i c e k w r _ hJ hallowed ht hok hp _ n e' he'
      obtain ⟨e₀, he₀, hv, _⟩ | ⟨hP, _, hw⟩ := (moved_of_perform hallowed.forget hp).entry he'
      · rw [← hv]
        exact payloadReady_perform hok (nextAt_of_thread ht) hp
          (fun j hj => .inl ⟨n, e₀, he₀, hj⟩) (hJ n e₀ he₀)
      · -- an entry is appended while its payload is there
        obtain ⟨rfl, _⟩ := of_decide_eq_true hP
        obtain ⟨j, hj, href, hready⟩ := hallowed.2 rfl
        rw [hw]
        exact ⟨j, hj, href, hready⟩
    · intro s v w ps _ hJ hok hv _ n e' he'
      obtain ⟨e₀, he₀, hval, _⟩ | ⟨hP, _⟩ :=
        (Moved.env (P := fun _ _ _ => false) (change_envStep hv)).entry he'
      · rw [← hval]
        exact payloadReady_envStep hok hv (hJ n e₀ he₀)
      · cases hP
  obtain ⟨j', hj', href, hk⟩ := hall i e he
  rw [hj] at hj'
  cases hj'
  exact ⟨href, Option.isSome_iff_exists.mp (hk.resolve_right hd)⟩

/-- An append fails, its dispatcher removes the payload, and a later one retries. -/
def retried : List Step :=
  submission ++ [dispatch] ++ calls 1 2 ++ [.call 1 (.failed "redis down")] ++ calls 1 2 ++
    [.env (.dbTick 1000000), dispatch] ++ calls 2 4

set_option maxRecDepth 4000 in
/-- The entry of the retry finds its payload. -/
theorem payload_available_retried :
    let s := system.play KeepsPayloads start retried
    ∃ e, s.world.stream[0]? = some e ∧ e.values.payloadRef = some (payloadKey "job-1") ∧
      ∃ v, s.world.redis (payloadKey "job-1") = some v := by
  intro s
  have hentry : (s.world.stream[0]?).map (fun e => e.values.jobID) = some (some "job-1") := by
    decide +kernel
  have hrow : (s.world.submissions "job-1").map (·.state) = some "pending" := by decide +kernel
  obtain ⟨e, he, hj⟩ := Option.map_eq_some_iff.mp hentry
  have hd : ¬ RowDone s.world "job-1" := by
    rintro ⟨r, hr, hd⟩
    rw [hr] at hrow
    exact absurd ((Option.some.inj hrow).symm.trans hd) (by decide)
  exact ⟨e, he, payload_available (system.reach_play KeepsPayloads .init _) he hj hd⟩

/-- The append takes effect but reports an error: the payload is removed, and the
worker that gets the entry is about to poison the job. -/
def ambiguousAppend : List Step :=
  submission ++ [dispatch] ++ calls 1 2 ++ [.call 1 (.lost {} "timeout")] ++ calls 1 1 ++
    [.env (.deliver (worker "w1") 0), .call 2 (.ok { uuid := "t1" })] ++ calls 2 1

/-- The entry of that run has lost its payload, and its job is poisoned. -/
theorem payload_removed : ∃ s, system.Reach PayloadsLast start s ∧
    (∃ e, s.world.stream[0]? = some e ∧ e.values.jobID = some "job-1" ∧ e.delivery ≠ .acked) ∧
    ¬ RowDone s.world "job-1" ∧ s.world.redis (payloadKey "job-1") = none ∧
    poisons s 2 = some "job-1" := by
  let s := system.play PayloadsLast start ambiguousAppend
  have hentry : (s.world.stream[0]?).map (fun e => (e.values.jobID, e.delivery)) =
      some (some "job-1", .pending "w1" 0) := by decide +kernel
  have hrow : (s.world.submissions "job-1").map (·.state) = some "pending" := by decide +kernel
  have hkey : (s.world.redis (payloadKey "job-1")).isNone = true := by decide +kernel
  obtain ⟨e, he, hj⟩ := Option.map_eq_some_iff.mp hentry
  obtain ⟨hj, hdel⟩ := Prod.mk.inj hj
  refine ⟨s, system.reach_play PayloadsLast .init _, ⟨e, he, hj, ?_⟩, ?_,
    Option.isNone_iff_eq_none.mp hkey, by decide +kernel⟩
  · rw [hdel]
    decide
  · rintro ⟨r, hr, hd⟩
    rw [hr] at hrow
    exact absurd ((Option.some.inj hrow).symm.trans hd) (by decide)

end DeepOj.Cluster
