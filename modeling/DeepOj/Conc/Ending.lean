import Mathlib.Tactic.Common

/-!
# How requests end

A request to a server is served, or fails, or is served and its reply is lost.
-/

namespace DeepOj.Conc

inductive Ending where
  | served
  | failed (msg : String)
  | lost (msg : String)
  deriving DecidableEq, Repr

variable {W ρ : Type}

/-- What becomes of a request that the server answers by `p.2`, leaving `p.1` behind. -/
def Ending.apply (w : W) (refuse : String → ρ) : Ending → W × ρ → W × ρ
  | .served, p => p
  | .failed msg, _ => (w, refuse msg)
  | .lost msg, p => (p.1, refuse msg)

/-- A request that is not answered may have been served all the same. -/
theorem Ending.apply_cases {w w' : W} {refuse : String → ρ} {e : Ending} {p : W × ρ} {r : ρ}
    (h : e.apply w refuse p = (w', r)) :
    (w' = p.1 ∧ r = p.2) ∨ ((w' = w ∨ w' = p.1) ∧ ∃ msg, r = refuse msg) := by
  cases e with
  | served =>
    cases h
    exact .inl ⟨rfl, rfl⟩
  | failed msg =>
    cases h
    exact .inr ⟨.inl rfl, msg, rfl⟩
  | lost msg =>
    cases h
    exact .inr ⟨.inr rfl, msg, rfl⟩

end DeepOj.Conc
