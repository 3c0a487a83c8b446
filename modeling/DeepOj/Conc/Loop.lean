import Mathlib.Logic.Function.Iterate
import Mathlib.Tactic.Common

/-!
# Loops that end from inside

A `while (true)` loop: each turn either goes round again with a new state or
leaves with a value. `run` executes it with bounded fuel; `Leaves` says how it
ends, with no bound.
-/

namespace DeepOj.Conc

/-- What one turn of a loop does. -/
inductive Turn (S A : Type) where
  | again (s : S)
  | leave (a : A)

namespace Loop

variable {S A : Type} {body : S → Turn S A} {s s' last : S} {a : A}

/-- The value the loop leaves with, if it does within `fuel` turns. -/
def run (body : S → Turn S A) : Nat → S → Option A
  | 0, _ => none
  | fuel + 1, s =>
    match body s with
    | .again s' => run body fuel s'
    | .leave a => some a

/-- Started in a state, the loop leaves with a value, in its turn at `last`. -/
inductive Leaves (body : S → Turn S A) : S → S → A → Prop where
  | leave {s : S} {a : A} (h : body s = .leave a) : Leaves body s s a
  | again {s s' last : S} {a : A} (h : body s = .again s') (hl : Leaves body s' last a) :
      Leaves body s last a

/-- A bounded execution that returns is a way the loop ends. -/
theorem leaves_of_run {fuel : Nat} (h : run body fuel s = some a) :
    ∃ last, Leaves body s last a := by
  induction fuel generalizing s with
  | zero => exact absurd h (by simp [run])
  | succ fuel ih =>
    rw [run] at h
    cases hb : body s with
    | again s' =>
      rw [hb] at h
      obtain ⟨last, hl⟩ := ih h
      exact ⟨last, .again hb hl⟩
    | leave b =>
      rw [hb] at h
      cases h
      exact ⟨s, .leave hb⟩

/-- A loop that ends is executed to its end by some fuel. -/
theorem Leaves.run (h : Leaves body s last a) : ∃ fuel, run body fuel s = some a := by
  induction h with
  | leave h => exact ⟨1, by simp [Loop.run, h]⟩
  | again h _ ih =>
    obtain ⟨fuel, hf⟩ := ih
    exact ⟨fuel + 1, by simpa [Loop.run, h] using hf⟩

/-- The turn that leaves is the one at `last`. -/
theorem Leaves.body_last (h : Leaves body s last a) : body last = .leave a := by
  induction h with
  | leave h => exact h
  | again _ _ ih => exact ih

/-- How a loop ends is determined by where it starts. -/
theorem Leaves.unique (h : Leaves body s last a) {last' : S} {b : A}
    (h' : Leaves body s last' b) : last' = last ∧ b = a := by
  induction h with
  | leave h =>
    cases h' with
    | leave hb => exact ⟨rfl, by cases h.symm.trans hb; rfl⟩
    | again hb => cases h.symm.trans hb
  | again h _ ih =>
    cases h' with
    | leave hb => cases h.symm.trans hb
    | again hb hl =>
      cases h.symm.trans hb
      exact ih hl

/-- Where every turn that goes round moves by `step`, the loop ends at the first
iterate of `step` at which its body leaves. -/
theorem leaves_iff_iterate {step : S → S} (hstep : ∀ s s', body s = .again s' → s' = step s) :
    Leaves body s last a ↔
      ∃ n, last = step^[n] s ∧ (∀ j < n, ∃ s', body (step^[j] s) = .again s') ∧
        body last = .leave a := by
  constructor
  · intro h
    induction h with
    | leave h => exact ⟨0, rfl, fun j hj => absurd hj (Nat.not_lt_zero j), h⟩
    | again h _ ih =>
      obtain ⟨n, hlast, hquiet, hb⟩ := ih
      rw [hstep _ _ h] at hlast hquiet
      refine ⟨n + 1, hlast, fun j hj => ?_, hb⟩
      cases j with
      | zero => exact ⟨_, h⟩
      | succ j => exact hquiet j (by omega)
  · rintro ⟨n, rfl, hquiet, hb⟩
    induction n generalizing s with
    | zero => exact .leave hb
    | succ n ih =>
      obtain ⟨s', hs'⟩ := hquiet 0 (Nat.succ_pos n)
      have hs := hstep _ _ hs'
      refine .again hs' (hs ▸ ih (fun j hj => hquiet (j + 1) (by omega)) hb)

end Loop

end DeepOj.Conc
