import DeepOj.Conc.Run

/-!
# Forward simulation

A step function is simulated by another one when each of its steps is answered by a run of
the other that leads back into the relation. Then each of its runs is.
-/

namespace DeepOj.Conc

variable {S M T N : Type}

/-- Every admissible step from related states is answered by a run to related states. -/
def Simulates (step : S → M → Option S) (ok : S → M → Prop) (step' : T → N → Option T) (ok' : T → N → Prop)
    (R : S → T → Prop) : Prop :=
  ∀ s t m s', R s t → ok s m → step s m = some s' → ∃ t', Run step' ok' t t' ∧ R s' t'

variable {step : S → M → Option S} {ok : S → M → Prop} {step' : T → N → Option T} {ok' : T → N → Prop}
  {R : S → T → Prop}

/-- Run induction: what holds step by step holds of whole runs. -/
theorem Simulates.run (h : Simulates step ok step' ok' R) {s₀ s : S} {t₀ : T} (h₀ : R s₀ t₀)
    (hrun : Run step ok s₀ s) : ∃ t, Run step' ok' t₀ t ∧ R s t := by
  induction hrun with
  | init => exact ⟨t₀, .init, h₀⟩
  | step m _ hok hstep ih =>
    obtain ⟨t, hrun, hr⟩ := ih
    obtain ⟨t', hrun', hr'⟩ := h _ t m _ hr hok hstep
    exact ⟨t', hrun.trans hrun', hr'⟩

namespace Run

/-- One move. -/
theorem one {s s' : S} (m : M) (hok : ok s m) (hstep : step s m = some s') : Run step ok s s' :=
  .step m .init hok hstep

end Run

end DeepOj.Conc
