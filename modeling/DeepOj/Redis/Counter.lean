import Mathlib.Data.List.Basic
import Mathlib.Logic.Function.Basic
import Mathlib.Tactic.Common

/-!
# Counters with an expiry

`INCR` and `EXPIRE` on one database. The clock counts milliseconds; a key that has expired is as
good as absent.
-/

namespace DeepOj.Redis

/-- A counter. When it was started is history, the server does not keep it. -/
structure Counter where
  count : Nat
  expiresAt : Option Nat
  startedAt : Nat
  deriving DecidableEq, Repr

structure Counters (K : Type) where
  now : Nat
  counters : K → Option Counter

namespace Counters

variable {K : Type} [DecidableEq K] (db : Counters K) (key : K)

/-- The counter under a key, unless it has expired. -/
def live : Option Counter := (db.counters key).filter fun c => c.expiresAt.all fun e => decide (db.now ≤ e)

def put (c : Option Counter) : Counters K := { db with counters := Function.update db.counters key c }

/-- `INCR`: an absent counter is started, without an expiry. -/
def incr : Counters K × Nat :=
  match db.live key with
  | some c => (db.put key (some { c with count := c.count + 1 }), c.count + 1)
  | none => (db.put key (some ⟨1, none, db.now⟩), 1)

/-- `EXPIRE`: a time that is not in the future removes the key. -/
def expire (seconds : Int) : Counters K × Bool :=
  match db.live key with
  | some c =>
    if seconds ≤ 0 then (db.put key none, true)
    else (db.put key (some { c with expiresAt := some (db.now + seconds.toNat * 1000) }), true)
  | none => (db, false)

variable {db} {key key' : K} {c : Counter}

@[simp] theorem now_put (x : Option Counter) : (db.put key x).now = db.now := rfl

theorem put_self (db : Counters K) (key : K) (x : Option Counter) : (db.put key x).counters key = x := Function.update_self ..

theorem put_of_ne (h : key' ≠ key) (x : Option Counter) : (db.put key x).counters key' = db.counters key' :=
  Function.update_of_ne h ..

omit [DecidableEq K] in
theorem counters_of_live (h : db.live key = some c) : db.counters key = some c :=
  (Option.filter_eq_some_iff.mp h).1

theorem now_incr : (db.incr key).1.now = db.now := by
  unfold incr
  cases db.live key <;> rfl

theorem now_expire (seconds : Int) : (db.expire key seconds).1.now = db.now := by
  unfold expire
  cases db.live key with
  | none => rfl
  | some c =>
    dsimp only
    split <;> rfl

/-- A counter after `INCR` is an old one, or the one that has been counted or started. -/
theorem counters_incr (h : (db.incr key).1.counters key' = some c) :
    (key' ≠ key ∧ db.counters key' = some c) ∨
    (key' = key ∧ ((∃ c₀, db.live key = some c₀ ∧ c = { c₀ with count := c₀.count + 1 }) ∨
      db.live key = none ∧ c = ⟨1, none, db.now⟩)) := by
  unfold incr at h
  by_cases hk : key' = key
  · subst hk
    right
    refine ⟨rfl, ?_⟩
    cases hlive : db.live key' with
    | some c₀ =>
      rw [hlive, put_self] at h
      exact .inl ⟨c₀, rfl, (Option.some.inj h).symm⟩
    | none =>
      rw [hlive, put_self] at h
      exact .inr ⟨rfl, (Option.some.inj h).symm⟩
  · left
    refine ⟨hk, ?_⟩
    cases hlive : db.live key with
    | some c₀ =>
      rw [hlive, put_of_ne hk] at h
      exact h
    | none =>
      rw [hlive, put_of_ne hk] at h
      exact h

/-- `EXPIRE` does not change what a counter counts. -/
theorem counters_expire {seconds : Int} (h : (db.expire key seconds).1.counters key' = some c) :
    ∃ c₀, db.counters key' = some c₀ ∧ c₀.count = c.count ∧ c₀.startedAt = c.startedAt := by
  unfold expire at h
  cases hlive : db.live key with
  | none =>
    rw [hlive] at h
    exact ⟨c, h, rfl, rfl⟩
  | some c₀ =>
    rw [hlive] at h
    by_cases hk : key' = key
    · subst hk
      dsimp only at h
      split at h
      · rw [put_self] at h
        cases h
      · rw [put_self] at h
        cases h
        exact ⟨c₀, counters_of_live hlive, rfl, rfl⟩
    · dsimp only at h
      split at h
      · rw [put_of_ne hk] at h
        exact ⟨c, h, rfl, rfl⟩
      · rw [put_of_ne hk] at h
        exact ⟨c, h, rfl, rfl⟩

end Counters

end DeepOj.Redis
