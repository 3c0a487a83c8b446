import DeepOj.Conc.Ending
import DeepOj.Conc.Record
import DeepOj.Redis.Counter

/-!
# The rate limiter

A request is counted under its key by one command, and the counter is given its expiry by another
one, which only the request that has started the counter sends. If that one is late, fails or is
never sent, the counter outlives its window.
-/

namespace DeepOj.Api

open Conc Redis

/-- The commands of a request, and the end of its check. -/
inductive RateOp where
  /-- `INCR`, on behalf of the request. -/
  | incr (request : Nat) (key : String)
  | expire (key : String) (seconds : Int)
  | answer (request : Nat) (allowed : Bool)
  deriving DecidableEq, Repr

@[reducible] def RateOp.Reply : RateOp → Type
  | .incr .. => Except String Nat
  | .expire .. => Except String Bool
  | .answer .. => Unit

abbrev RateProgram (α : Type) : Type := Prog RateOp RateOp.Reply α

abbrev rateOp (o : RateOp) : RateProgram o.Reply := Prog.perform o

/-- The seconds the client sends for a duration in nanoseconds: a fraction of a second is one second. -/
def formatSec (window : Int) : Int :=
  if 0 < window ∧ window < 1000000000 then 1 else window.tdiv 1000000000

/-- `consumeRateLimit`. -/
def consumeRateLimit (request : Nat) (key : String) (limit window : Int) : RateProgram Bool := do
  match ← rateOp (.incr request key) with
  | .error _ => pure true
  | .ok count =>
    let allowed := decide ((count : Int) ≤ limit)
    if count = 1 then
      let _ ← rateOp (.expire key (formatSec window))
      pure allowed
    else pure allowed

/-- The check of one request. -/
def checkRequest (request : Nat) (key : String) (limit window : Int) : RateProgram Unit := do
  let allowed ← consumeRateLimit request key limit window
  rateOp (.answer request allowed)

/-! ## The machine -/

/-- A request that has been counted. -/
structure Arrival where
  request : Nat
  key : String
  time : Nat
  deriving DecidableEq, Repr

/-- The database, how many requests have come, and those that have been counted, the last one first. -/
structure Limiter where
  db : Counters String
  requests : Nat
  arrivals : List Arrival

/-- The execution of one command. -/
def serveRate (w : Limiter) : (o : RateOp) → Limiter × o.Reply
  | .incr request key =>
    ({ w with db := (w.db.incr key).1, arrivals := ⟨request, key, w.db.now⟩ :: w.arrivals }, .ok (w.db.incr key).2)
  | .expire key seconds => ({ w with db := (w.db.expire key seconds).1 }, .ok (w.db.expire key seconds).2)
  | .answer .. => (w, ())

def RateOp.refusal : (o : RateOp) → (msg : String) → o.Reply
  | .incr .., msg => .error msg
  | .expire .., msg => .error msg
  | .answer .., _ => ()

/-- A request comes, time passes, or the server drops a key. -/
inductive RateEvent where
  | arrive (request : Nat) (key : String) (limit window : Int)
  | elapse (ms : Nat)
  | evict (key : String)
  deriving DecidableEq, Repr

/-- The requests as an interleaving machine. -/
def limiterMachine : Machine Limiter RateOp RateOp.Reply Ending RateEvent where
  sem w o ending := some (ending.apply w o.refusal (serveRate w o))
  forks _ := []
  env w
    | .arrive request key limit window =>
      if request = w.requests then
        some ({ w with requests := w.requests + 1 }, [checkRequest request key limit window])
      else none
    | .elapse ms => some ({ w with db := { w.db with now := w.db.now + ms } }, [])
    | .evict key => some ({ w with db := w.db.put key none }, [])

/-! ## Records -/

/-- What a request is checked for, the count it was given, and whether it was denied. -/
structure RateCall where
  request : Nat := 0
  key : String := ""
  limit : Int := 0
  window : Int := 0
  counted : Option Nat := none
  denied : Bool := false
  deriving DecidableEq, Repr

def RateCall.next (g : RateCall) : (o : RateOp) → o.Reply → RateCall
  | .incr .., .ok count => { g with counted := some count }
  | .answer _ false, _ => { g with denied := true }
  | _, _ => g

def rateRecorder : Recorder RateOp RateOp.Reply RateEvent RateCall where
  start
    | .arrive request key limit window => { request := request, key := key, limit := limit, window := window }
    | _ => {}
  fork _ := {}
  next := RateCall.next

/-- A request counts itself under its own key, and is denied for the count it was given. -/
def RateRule (g : RateCall) : RateOp → Prop
  | .incr request key => request = g.request ∧ key = g.key ∧ g.denied = false
  | .expire .. => True
  | .answer _ allowed => allowed = false → ∃ n : Nat, g.counted = some n ∧ g.limit < n

def rateRules : Rules RateOp RateOp.Reply RateCall where
  allowed := RateRule
  promised _ _ _ := True
  ended _ := True

abbrev RateState := RecordedConfig Limiter RateOp RateOp.Reply RateCall

abbrev RateMove := Move Ending RateEvent

/-- An empty database. -/
def noRequests (now : Nat) : RateState := ⟨⟨⟨now, fun _ => none⟩, 0, []⟩, []⟩

/-! ## What the limiter is for -/

/-- At `s` the time `t` lies in the preceding window; times are in milliseconds, windows in nanoseconds. -/
def Within (window : Int) (t s : Nat) : Prop := ((s : Int) - t) * 1000000 ≤ window

instance (window : Int) (t s : Nat) : Decidable (Within window t s) := inferInstanceAs (Decidable (_ ≤ _))

/-- More requests than the limit, counting this one, came in the window before it. -/
def Crowded (arrivals : List Arrival) (g : RateCall) : Prop :=
  ∃ a earlier, (a :: earlier) <:+ arrivals ∧ a.request = g.request ∧
    g.limit < ((a :: earlier).countP fun b => b.key = g.key ∧ Within g.window b.time a.time)

/-- Only such requests are denied. -/
def DeniesRightly (s : RateState) : Prop :=
  ∀ t ∈ s.threads, 1 ≤ t.1.limit → t.1.denied = true → Crowded s.world.arrivals t.1

/-- A request that is the first one in its window is let through. -/
def AdmitsAfterPause (s : RateState) : Prop :=
  ∀ t ∈ s.threads, 1 ≤ t.1.limit →
    (∀ a earlier, (a :: earlier) <:+ s.world.arrivals → a.request = t.1.request →
      ∀ b ∈ earlier, b.key = t.1.key → ¬ Within t.1.window b.time a.time) → t.1.denied = false

/-- The counter that is counted on next. -/
def countsOn (s : RateState) (i : Nat) : Option Counter :=
  match s.nextAt i with
  | some (.incr _ key) => s.world.db.live key
  | _ => none

/-- A request that comes to a counter at its limit comes within a window of the counter's start. -/
def FindsFresh (s : RateState) : RateMove → Prop
  | .call i _ => ∀ c ∈ countsOn s i, ∀ t ∈ s.threads[i]?, t.1.limit ≤ c.count →
    Within t.1.window c.startedAt s.world.db.now
  | _ => True

instance (s : RateState) (m : RateMove) : Decidable (FindsFresh s m) := by
  cases m <;> unfold FindsFresh <;> infer_instance

/-! ## The check keeps the rules -/

section Check

variable {request : Nat} {key : String} {limit window : Int}

/-- A request that is refused was given a count beyond its limit. -/
theorem obeys_consumeRateLimit (g : RateCall) (hrequest : g.request = request) (hkey : g.key = key)
    (hlimit : g.limit = limit) (hdenied : g.denied = false) :
    Obeys rateRecorder rateRules g (consumeRateLimit request key limit window) fun g' allowed =>
      allowed = false → ∃ n : Nat, g'.counted = some n ∧ g'.limit < n := by
  refine .effect ⟨hrequest.symm, hkey.symm, hdenied⟩ fun r _ => ?_
  cases r with
  | error err => exact .pure fun h => by cases h
  | ok count =>
    have hcount : decide ((count : Int) ≤ limit) = false →
        ∃ n : Nat, some count = some n ∧ g.limit < n := by
      intro h
      refine ⟨count, rfl, ?_⟩
      rw [hlimit]
      exact Int.not_le.mp (of_decide_eq_false h)
    show Obeys _ _ _ (if count = 1 then _ else _) _
    by_cases hone : count = 1
    · rw [if_pos hone]
      exact .effect trivial fun _ _ => .pure hcount
    · rw [if_neg hone]
      exact .pure hcount

theorem obeys_checkRequest (g : RateCall) (hrequest : g.request = request) (hkey : g.key = key)
    (hlimit : g.limit = limit) (hdenied : g.denied = false) :
    Obeys rateRecorder rateRules g (checkRequest request key limit window) fun _ _ => True := by
  refine (obeys_consumeRateLimit g hrequest hkey hlimit hdenied).bind fun g' allowed hallowed => ?_
  refine .perform ?_ fun _ _ => trivial
  exact hallowed

theorem limiter_disciplined : limiterMachine.Disciplined rateRecorder rateRules where
  env := by
    intro w v w' ps h p hp
    cases v with
    | arrive request key limit window =>
      obtain ⟨_, heq⟩ | ⟨_, heq⟩ := ite_eq_iff.mp h
      · cases heq
        rw [List.mem_singleton.mp hp]
        exact (obeys_checkRequest _ rfl rfl rfl rfl).heeds
      · cases heq
    | elapse ms =>
      cases h
      cases hp
    | evict key =>
      cases h
      cases hp
  forks := by
    intro o p hp
    cases hp

end Check

/-! ## Runs -/

/-- A counter counts requests that have come since it was started. -/
def CountsArrivals (w : Limiter) : Prop :=
  ∀ key c, w.db.counters key = some c → c.startedAt ≤ w.db.now ∧
    c.count ≤ w.arrivals.countP fun b => b.key = key ∧ c.startedAt ≤ b.time

/-- Every request that was given a count beyond its limit came in a crowd. -/
structure RateInv (s : RateState) : Prop where
  heed : Machine.AllHeed rateRecorder rateRules s
  counters : CountsArrivals s.world
  counted : ∀ t ∈ s.threads, 1 ≤ t.1.limit → ∀ n : Nat, t.1.counted = some n → t.1.limit < n →
    Crowded s.world.arrivals t.1
  denied : ∀ t ∈ s.threads, t.1.denied = true → ∃ n : Nat, t.1.counted = some n ∧ t.1.limit < n

section Steps

variable {w w' : Limiter} {g : RateCall} {o : RateOp} {ending : Ending} {s s' : RateState} {m : RateMove}

theorem sem_limiter {r : o.Reply} (h : limiterMachine.sem w o ending = some (w', r)) :
    (w' = (serveRate w o).1 ∧ r = (serveRate w o).2) ∨
    ((w' = w ∨ w' = (serveRate w o).1) ∧ ∃ msg, r = o.refusal msg) :=
  Ending.apply_cases (Option.some.inj h)

/-- From outside no request is counted: one comes, time passes, or a key is dropped. -/
theorem env_limiter {v : RateEvent} {ps : List (RateProgram Unit)} (h : limiterMachine.env w v = some (w', ps)) :
    w'.arrivals = w.arrivals ∧
      ((∃ later, w.db.now ≤ later ∧ w'.db = { w.db with now := later }) ∨ ∃ key, w'.db = w.db.put key none) := by
  cases v with
  | arrive request key limit window =>
    obtain ⟨_, heq⟩ | ⟨_, heq⟩ := ite_eq_iff.mp h
    · cases heq
      exact ⟨rfl, .inl ⟨w.db.now, Nat.le_refl _, rfl⟩⟩
    · cases heq
  | elapse ms =>
    cases h
    exact ⟨rfl, .inl ⟨w.db.now + ms, Nat.le_add_right _ _, rfl⟩⟩
  | evict key =>
    cases h
    exact ⟨rfl, .inr ⟨key, rfl⟩⟩

/-- A counter that `INCR` leaves counts the requests with its key since it was started, this one too. -/
theorem countsArrivals_incr (hw : CountsArrivals w) (request : Nat) (key : String) :
    CountsArrivals (serveRate w (.incr request key)).1 := by
  intro key' c hc
  have hnow : (serveRate w (.incr request key)).1.db.now = w.db.now := Counters.now_incr
  have harrivals : (serveRate w (.incr request key)).1.arrivals = ⟨request, key, w.db.now⟩ :: w.arrivals := rfl
  rw [hnow, harrivals]
  rcases Counters.counters_incr hc with ⟨hother, hold⟩ | ⟨rfl, ⟨c₀, hlive, rfl⟩ | ⟨_, rfl⟩⟩
  · obtain ⟨hstart, hcount⟩ := hw key' c hold
    refine ⟨hstart, Nat.le_trans hcount ?_⟩
    exact (List.sublist_cons_self _ _).countP_le
  · obtain ⟨hstart, hcount⟩ := hw key' c₀ (Counters.counters_of_live hlive)
    refine ⟨hstart, ?_⟩
    rw [List.countP_cons, if_pos (by simpa using hstart)]
    exact Nat.succ_le_succ hcount
  · refine ⟨Nat.le_refl _, ?_⟩
    rw [List.countP_cons, if_pos (by simp)]
    exact Nat.le_add_left 1 _

theorem countsArrivals_serveRate (hw : CountsArrivals w) (o : RateOp) : CountsArrivals (serveRate w o).1 := by
  cases o with
  | incr request key => exact countsArrivals_incr hw request key
  | expire key seconds =>
    intro key' c hc
    have hnow : (serveRate w (.expire key seconds)).1.db.now = w.db.now := Counters.now_expire seconds
    rw [hnow]
    obtain ⟨c₀, hc₀, hcount, hstart⟩ := Counters.counters_expire hc
    rw [← hcount, ← hstart]
    exact hw key' c₀ hc₀
  | answer request allowed => exact hw

theorem countsArrivals_sem {r : o.Reply} (hw : CountsArrivals w)
    (h : limiterMachine.sem w o ending = some (w', r)) : CountsArrivals w' := by
  rcases sem_limiter h with ⟨rfl, _⟩ | ⟨rfl | rfl, _⟩
  · exact countsArrivals_serveRate hw o
  · exact hw
  · exact countsArrivals_serveRate hw o

theorem countsArrivals_env {v : RateEvent} {ps : List (RateProgram Unit)} (hw : CountsArrivals w)
    (h : limiterMachine.env w v = some (w', ps)) : CountsArrivals w' := by
  obtain ⟨harrivals, ⟨later, hlater, hdb⟩ | ⟨key, hdb⟩⟩ := env_limiter h
  · intro key c hc
    rw [hdb] at hc ⊢
    rw [harrivals]
    obtain ⟨hstart, hcount⟩ := hw key c hc
    exact ⟨Nat.le_trans hstart hlater, hcount⟩
  · intro key' c hc
    rw [hdb] at hc ⊢
    rw [harrivals, Counters.now_put]
    by_cases hk : key' = key
    · have hput := (Counters.put_self w.db key none).symm
      rw [hk] at hc
      cases hput.trans hc
    · exact hw key' c ((Counters.put_of_ne hk none).symm.trans hc)

/-- The requests that have been counted stay. -/
theorem arrivals_step (h : limiterMachine.record rateRecorder s m = some s') :
    s.world.arrivals <:+ s'.world.arrivals := by
  have hserve : ∀ w o, w.arrivals <:+ (serveRate w o).1.arrivals := by
    intro w o
    cases o with
    | incr request key => exact List.suffix_cons _ _
    | _ => exact List.suffix_rfl
  obtain ⟨i, c, g, o, k, w, r, rfl, hi, hsem, rfl⟩ | ⟨i, rfl, rfl⟩ | ⟨v, w, ps, rfl, hv, rfl⟩ :=
    Machine.record_cases h
  · show s.world.arrivals <:+ w.arrivals
    rcases sem_limiter hsem with ⟨rfl, _⟩ | ⟨rfl | rfl, _⟩
    · exact hserve _ o
    · exact List.suffix_rfl
    · exact hserve _ o
  · exact List.suffix_rfl
  · show s.world.arrivals <:+ w.arrivals
    have hsame := (env_limiter hv).1
    exact hsame ▸ List.suffix_rfl

theorem Crowded.mono {arrivals arrivals' : List Arrival} (h : Crowded arrivals g) (hs : arrivals <:+ arrivals') :
    Crowded arrivals' g := by
  obtain ⟨a, earlier, hsuffix, hrest⟩ := h
  exact ⟨a, earlier, hsuffix.trans hs, hrest⟩

/-- Who is given a count beyond the limit by a counter of the window has come in a crowd. -/
theorem crowded_incr (hw : CountsArrivals w) (hlimit : 1 ≤ g.limit)
    (hfresh : ∀ c, w.db.live g.key = some c → g.limit ≤ c.count → Within g.window c.startedAt w.db.now)
    (hbeyond : g.limit < (w.db.incr g.key).2) :
    Crowded (⟨g.request, g.key, w.db.now⟩ :: w.arrivals) g := by
  refine ⟨_, _, List.suffix_rfl, rfl, ?_⟩
  unfold Counters.incr at hbeyond
  cases hlive : w.db.live g.key with
  | none =>
    rw [hlive] at hbeyond
    exact absurd hbeyond (Int.not_lt.mpr hlimit)
  | some c =>
    rw [hlive] at hbeyond
    have hcast : g.limit < ((c.count + 1 : Nat) : Int) := hbeyond
    have hwindow := hfresh c hlive (by omega)
    obtain ⟨hstart, hcount⟩ := hw g.key c (Counters.counters_of_live hlive)
    -- what has been counted since the counter was started lies in the window
    have hin : ∀ t, c.startedAt ≤ t → Within g.window t w.db.now := by
      intro t ht
      unfold Within at hwindow ⊢
      omega
    have hmore : w.arrivals.countP (fun b => b.key = g.key ∧ c.startedAt ≤ b.time) ≤
        w.arrivals.countP fun b => b.key = g.key ∧ Within g.window b.time w.db.now := by
      apply List.countP_mono_left
      intro b _ hb
      rw [decide_eq_true_iff] at hb ⊢
      exact ⟨hb.1, hin b.time hb.2⟩
    have hown : Within g.window w.db.now w.db.now := hin _ hstart
    rw [List.countP_cons, if_pos (decide_eq_true ⟨rfl, hown⟩)]
    show g.limit < ((w.arrivals.countP (fun b => b.key = g.key ∧ Within g.window b.time w.db.now) + 1 : Nat) : Int)
    omega

/-- What a request is checked for does not change. -/
theorem crowded_next {arrivals : List Arrival} (r : o.Reply) (h : Crowded arrivals g) :
    Crowded arrivals (g.next o r) := by
  cases o with
  | incr request key => cases r <;> exact h
  | expire key seconds => exact h
  | answer request allowed => cases allowed <;> exact h

theorem limit_next (r : o.Reply) : (g.next o r).limit = g.limit := by
  cases o with
  | incr request key => cases r <;> rfl
  | expire key seconds => rfl
  | answer request allowed => cases allowed <;> rfl

/-- A count is given by `INCR` only. -/
theorem counted_next {r : o.Reply} {n : Nat} (h : (g.next o r).counted = some n) :
    g.counted = some n ∨ ∃ request key, o = .incr request key ∧ r ≍ (.ok n : Except String Nat) := by
  cases o with
  | incr request key =>
    cases r with
    | error err => exact .inl h
    | ok count =>
      right
      refine ⟨request, key, rfl, ?_⟩
      rw [show count = n from Option.some.inj h]
  | expire key seconds => exact .inl h
  | answer request allowed => cases allowed <;> exact .inl h

theorem denied_next {r : o.Reply} (hrule : RateRule g o) (hg : g.denied = true → ∃ n : Nat, g.counted = some n ∧ g.limit < n)
    (h : (g.next o r).denied = true) : ∃ n : Nat, (g.next o r).counted = some n ∧ (g.next o r).limit < n := by
  cases o with
  | incr request key =>
    have hdenied : g.denied = true := by cases r <;> exact h
    rw [hrule.2.2] at hdenied
    cases hdenied
  | expire key seconds => exact hg h
  | answer request allowed =>
    cases allowed with
    | true => exact hg h
    | false => exact hrule rfl

theorem RateInv.step (hs : RateInv s) (hok : FindsFresh s m) (h : limiterMachine.record rateRecorder s m = some s') :
    RateInv s' where
  heed := limiter_disciplined.record hs.heed (fun _ _ _ _ _ _ _ _ _ _ => trivial) (fun _ _ _ _ => trivial) h
  counters := by
    obtain ⟨i, c, g, o, k, w, r, rfl, hi, hsem, rfl⟩ | ⟨i, rfl, rfl⟩ | ⟨v, w, ps, rfl, hv, rfl⟩ :=
      Machine.record_cases h
    · exact countsArrivals_sem hs.counters hsem
    · exact hs.counters
    · exact countsArrivals_env hs.counters hv
  counted := by
    have hold : ∀ t ∈ s.threads, 1 ≤ t.1.limit → ∀ n : Nat, t.1.counted = some n → t.1.limit < n →
        Crowded s'.world.arrivals t.1 := by
      intro t ht hlimit n hn hbeyond
      exact (hs.counted t ht hlimit n hn hbeyond).mono (arrivals_step h)
    intro t ht hlimit n hn hbeyond
    obtain ht | ⟨i, c, g, o, k, r, rfl, hi, hsem, rfl⟩ | ⟨i, t₀, ht₀, rfl, rfl⟩ |
      ⟨i, c, g, o, k, r, rfl, hi, hsem, hg, hp⟩ | ⟨v, ps, rfl, hv, hg, hp⟩ := Machine.mem_record h ht
    · exact hold t ht hlimit n hn hbeyond
    · change 1 ≤ (g.next o r).limit at hlimit
      change (g.next o r).limit < n at hbeyond
      rw [limit_next] at hlimit hbeyond
      apply crowded_next
      rcases counted_next hn with hn | ⟨request, key, rfl, hr⟩
      · exact hold _ (List.mem_of_getElem? hi) hlimit n hn hbeyond
      · have hr := eq_of_heq hr
        obtain ⟨rfl, rfl, _⟩ := hs.heed.allowed hi
        rcases sem_limiter hsem with ⟨hw, hreply⟩ | ⟨_, msg, hreply⟩
        · have hcount : n = (s.world.db.incr g.key).2 := Except.ok.inj (hr.symm.trans hreply)
          rw [hw]
          rw [hcount] at hbeyond
          refine crowded_incr hs.counters hlimit ?_ hbeyond
          intro c hc hstands
          have hnext : s.nextAt i = some (.incr g.request g.key) := RecordedConfig.nextAt_of_thread hi
          have hcounts : c ∈ countsOn s i := by
            show countsOn s i = some c
            unfold countsOn
            rw [hnext]
            exact hc
          exact hok c hcounts _ hi hstands
        · rw [hr] at hreply
          cases hreply
    · exact hold t₀ ht₀ hlimit n hn hbeyond
    · cases hp
    · rw [hg] at hn
      cases v <;> cases hn
  denied := by
    intro t ht hdenied
    obtain ht | ⟨i, c, g, o, k, r, rfl, hi, hsem, rfl⟩ | ⟨i, t₀, ht₀, rfl, rfl⟩ |
      ⟨i, c, g, o, k, r, rfl, hi, hsem, hg, hp⟩ | ⟨v, ps, rfl, hv, hg, hp⟩ := Machine.mem_record h ht
    · exact hs.denied t ht hdenied
    · exact denied_next (hs.heed.allowed hi) (hs.denied _ (List.mem_of_getElem? hi)) hdenied
    · exact hs.denied t₀ ht₀ hdenied
    · cases hp
    · rw [hg] at hdenied
      cases v <;> cases hdenied

end Steps

theorem rateInv_of_run {now : Nat} {s : RateState}
    (h : Run (limiterMachine.record rateRecorder) FindsFresh (noRequests now) s) : RateInv s := by
  refine h.invariant ?_ fun s s' m hs hok hstep => hs.step hok hstep
  refine ⟨?_, ?_, ?_, ?_⟩
  · intro t ht
    cases ht
  · intro key c hc
    cases hc
  · intro t ht
    cases ht
  · intro t ht
    cases ht

/-- An expiry that is set in the instant a counter is started keeps it within its window. -/
theorem within_of_prompt_expiry {db : Counters String} {key : String} {c₀ c : Counter} {window : Int} {later : Nat}
    (hwindow : 1000000000 ≤ window) (hlive : db.live key = some c₀) (hstart : c₀.startedAt = db.now)
    (hlater : Counters.live { (db.expire key (formatSec window)).1 with now := later } key = some c) :
    Within window c.startedAt later := by
  have hsec : formatSec window = window / 1000000000 := by
    unfold formatSec
    rw [if_neg (by omega), Int.tdiv_eq_ediv_of_nonneg (by omega)]
  have hput : (db.expire key (formatSec window)).1 =
      db.put key (some { c₀ with expiresAt := some (db.now + (formatSec window).toNat * 1000) }) := by
    unfold Counters.expire
    rw [hlive]
    show (if formatSec window ≤ 0 then _ else _ : Counters String × Bool).1 = _
    rw [if_neg (by omega)]
  rw [hput] at hlater
  have hstored := Counters.counters_of_live hlater
  have hc := Option.some.inj ((Counters.put_self db key _).symm.trans hstored)
  have hexpiry := (Option.filter_eq_some_iff.mp hlater).2
  rw [← hc] at hexpiry ⊢
  have hnow : later ≤ db.now + (formatSec window).toNat * 1000 := of_decide_eq_true hexpiry
  show ((later : Int) - c₀.startedAt) * 1000000 ≤ window
  rw [hstart]
  omega

/-- As long as no request comes to a counter at its limit that has outlived the window, only
requests in a crowd are denied, and who has paused for a window is let through. -/
theorem denied_only_in_crowd (now : Nat) (s : RateState)
    (h : Run (limiterMachine.record rateRecorder) FindsFresh (noRequests now) s) :
    DeniesRightly s ∧ AdmitsAfterPause s := by
  have hs := rateInv_of_run h
  have hright : DeniesRightly s := by
    intro t ht hlimit hdenied
    obtain ⟨n, hn, hbeyond⟩ := hs.denied t ht hdenied
    exact hs.counted t ht hlimit n hn hbeyond
  refine ⟨hright, ?_⟩
  intro t ht hlimit halone
  by_contra hdenied
  obtain ⟨a, earlier, hsuffix, hrequest, hcrowd⟩ := hright t ht hlimit (eq_true_of_ne_false hdenied)
  have hnone : (earlier.countP fun b => b.key = t.1.key ∧ Within t.1.window b.time a.time) = 0 := by
    rw [List.countP_eq_zero]
    intro b hb
    rw [decide_eq_true_iff]
    rintro ⟨hkey, hwithin⟩
    exact halone a earlier hsuffix hrequest b hb hkey hwithin
  rw [List.countP_cons, hnone] at hcrowd
  split at hcrowd <;> omega

/-- A window of a minute in which the request after the first one is refused. -/
def twoInAMinute : List RateMove :=
  [.env (.arrive 0 "rate_limit:auth:ip:10.0.0.1" 1 60000000000), .call 0 .served, .call 0 .served, .call 0 .served,
    .env (.elapse 1000), .env (.arrive 1 "rate_limit:auth:ip:10.0.0.1" 1 60000000000), .call 1 .served,
    .call 1 .served]

theorem denied_only_in_crowd_minute :
    let s := playAll (limiterMachine.record rateRecorder) FindsFresh (noRequests 0) twoInAMinute
    s.threads.map (fun t => t.1.denied) = [false, true] ∧ DeniesRightly s ∧ AdmitsAfterPause s :=
  ⟨by decide +kernel, denied_only_in_crowd 0 _ (Run.init.playAll twoInAMinute)⟩

/-- `EXPIRE` fails, and an hour later the counter is still there. -/
def afterAnHour : List RateMove :=
  [.env (.arrive 0 "rate_limit:auth:ip:10.0.0.1" 1 60000000000), .call 0 .served, .call 0 (.failed "timeout"),
    .call 0 .served, .env (.elapse 3600000),
    .env (.arrive 1 "rate_limit:auth:ip:10.0.0.1" 1 60000000000), .call 1 .served, .call 1 .served]

/-- The only request of its minute is denied. -/
theorem denied_after_an_hour :
    ¬ ∀ now s, Run (limiterMachine.record rateRecorder) always (noRequests now) s →
      DeniesRightly s ∧ AdmitsAfterPause s := by
  intro hall
  have hrun : Run (limiterMachine.record rateRecorder) always (noRequests 0)
      (playAll (limiterMachine.record rateRecorder) always (noRequests 0) afterAnHour) :=
    Run.init.playAll afterAnHour
  obtain ⟨hright, _⟩ := hall 0 _ hrun
  have hthread : ∃ t ∈ (playAll (limiterMachine.record rateRecorder) always (noRequests 0) afterAnHour).threads,
      t.1 = ⟨1, "rate_limit:auth:ip:10.0.0.1", 1, 60000000000, some 2, true⟩ := by decide +kernel
  have harrivals : (playAll (limiterMachine.record rateRecorder) always (noRequests 0) afterAnHour).world.arrivals =
      [⟨1, "rate_limit:auth:ip:10.0.0.1", 3600000⟩, ⟨0, "rate_limit:auth:ip:10.0.0.1", 0⟩] := by decide +kernel
  obtain ⟨t, ht, hcall⟩ := hthread
  obtain ⟨a, earlier, hsuffix, hrequest, hcrowd⟩ :=
    hright t ht (Int.le_of_eq (by rw [hcall])) (by rw [hcall])
  rw [harrivals] at hsuffix
  rw [hcall] at hrequest hcrowd
  rcases List.suffix_cons_iff.mp hsuffix with heq | hsuffix
  · -- of the two requests that were counted, only this one is in the window
    cases heq
    exact absurd hcrowd (by decide)
  · rcases List.suffix_cons_iff.mp hsuffix with heq | hnil
    · cases heq
      cases hrequest
    · cases List.suffix_nil.mp hnil

end DeepOj.Api
