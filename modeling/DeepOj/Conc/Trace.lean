import Mathlib.Data.List.Basic
import Mathlib.Tactic.Common

/-!
# Sequential histories

The states a fold passes through, and relations that hold from every earlier
state to every later one.
-/

namespace DeepOj.Conc

variable {S A : Type} {f : S → A → S} {r : S → S → Prop}

/-- A preorder kept by every step relates a start state to every later one. -/
theorem rel_of_mem_scanl (hrefl : ∀ s, r s s) (htrans : ∀ s t u, r s t → r t u → r s u)
    (hstep : ∀ s a, r s (f s a)) {s t : S} {as : List A} (h : t ∈ as.scanl f s) : r s t := by
  induction as generalizing s with
  | nil =>
    rw [List.scanl_nil, List.mem_singleton] at h
    exact h ▸ hrefl s
  | cons a as ih =>
    rw [List.scanl_cons] at h
    rcases List.mem_cons.mp (by simpa using h) with rfl | h
    · exact hrefl t
    · exact htrans s _ t (hstep s a) (ih h)

/-- A preorder kept by every step relates every earlier state to every later one. -/
theorem pairwise_scanl (hrefl : ∀ s, r s s) (htrans : ∀ s t u, r s t → r t u → r s u)
    (hstep : ∀ s a, r s (f s a)) (s : S) (as : List A) : (as.scanl f s).Pairwise r := by
  induction as generalizing s with
  | nil => simp
  | cons a as ih =>
    rw [List.scanl_cons]
    refine List.pairwise_cons.mpr ⟨fun t ht => ?_, ih (f s a)⟩
    exact htrans s _ t (hstep s a) (rel_of_mem_scanl hrefl htrans hstep ht)

end DeepOj.Conc
