import Mathlib.Logic.Basic
import Mathlib.Tactic.Common

/-!
# Runs of a step function

A step function answers a move with the next state, or refuses it. A run takes
moves that all meet a condition on the state they are made in.
-/

namespace DeepOj.Conc

variable {S M : Type}

/-- The states reached from `s₀` by moves that all meet `ok`. -/
inductive Run (step : S → M → Option S) (ok : S → M → Prop) (s₀ : S) : S → Prop where
  | init : Run step ok s₀ s₀
  | step {s s' : S} (m : M) : Run step ok s₀ s → ok s m → step s m = some s' → Run step ok s₀ s'

/-- The condition every move meets. -/
def always (_ : S) (_ : M) : Prop := True

instance (s : S) (m : M) : Decidable (always s m) := inferInstanceAs (Decidable True)

/-- Take the moves in order; a move that is refused or does not meet `ok` is skipped. -/
def playAll (step : S → M → Option S) (ok : S → M → Prop) [∀ s m, Decidable (ok s m)] (s : S) :
    List M → S
  | [] => s
  | m :: ms => playAll step ok (if ok s m then (step s m).getD s else s) ms

namespace Run

variable {step : S → M → Option S} {ok ok' : S → M → Prop} {s₀ s : S}

/-- What holds at the start and is kept by every admissible move holds throughout. -/
theorem invariant {J : S → Prop} (h₀ : J s₀)
    (hJ : ∀ s s' m, J s → ok s m → step s m = some s' → J s') (h : Run step ok s₀ s) : J s := by
  induction h with
  | init => exact h₀
  | step m _ hok hstep ih => exact hJ _ _ m ih hok hstep

/-- A run under a stronger condition is a run. -/
theorem mono (hok : ∀ s m, ok s m → ok' s m) (h : Run step ok s₀ s) : Run step ok' s₀ s := by
  induction h with
  | init => exact .init
  | step m _ hm hstep ih => exact .step m ih (hok _ m hm) hstep

theorem trans {s₁ : S} (h₁ : Run step ok s₀ s₁) (h₂ : Run step ok s₁ s) : Run step ok s₀ s := by
  induction h₂ with
  | init => exact h₁
  | step m _ hm hstep ih => exact .step m ih hm hstep

/-- Moves that are taken one by one make a run. -/
theorem playAll [∀ s m, Decidable (ok s m)] (h : Run step ok s₀ s) (ms : List M) :
    Run step ok s₀ (playAll step ok s ms) := by
  induction ms generalizing s with
  | nil => exact h
  | cons m ms ih =>
    rw [Conc.playAll]
    by_cases hm : ok s m
    · rw [if_pos hm]
      cases hs : step s m with
      | none => exact ih h
      | some s' => exact ih (.step m h hm hs)
    · rw [if_neg hm]
      exact ih h

end Run

end DeepOj.Conc
