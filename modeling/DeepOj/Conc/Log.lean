import DeepOj.Conc.Machine

/-!
# Logged runs

A machine whose world also keeps a log of the replies an observer is interested in, the last
one first.
-/

namespace DeepOj.Conc

variable {W E : Type} {R : E → Type} {C V L : Type}

/-- Forget the log. -/
def Config.unlog (s : Config (W × List L) E R) : Config W E R := ⟨s.world.1, s.threads⟩

namespace Machine

/-- No thread is killed. -/
def uncrashed (_ : Config W E R) : Move C V → Prop
  | .crash _ => False
  | _ => True

instance (s : Config W E R) (m : Move C V) : Decidable (uncrashed s m) := by
  cases m <;> unfold uncrashed <;> infer_instance

variable (M : Machine W E R C V) (note : (e : E) → R e → List L)

/-- The machine, with what `note` keeps of every reply. -/
def logged : Machine (W × List L) E R C V where
  sem s e c := (M.sem s.1 e c).map fun p => ((p.1, note e p.2 ++ s.2), p.2)
  forks := M.forks
  env s v := (M.env s.1 v).map fun p => ((p.1, s.2), p.2)

variable {M note}

theorem sem_logged {s w : W × List L} {e : E} {c : C} {r : R e}
    (h : (M.logged note).sem s e c = some (w, r)) :
    M.sem s.1 e c = some (w.1, r) ∧ w.2 = note e r ++ s.2 := by
  obtain ⟨⟨w', r'⟩, hsem, heq⟩ := Option.map_eq_some_iff.mp h
  cases heq
  exact ⟨hsem, rfl⟩

theorem env_logged {s w : W × List L} {v : V} {ps : List (Prog E R Unit)}
    (h : (M.logged note).env s v = some (w, ps)) : M.env s.1 v = some (w.1, ps) ∧ w.2 = s.2 := by
  obtain ⟨⟨w', ps'⟩, henv, heq⟩ := Option.map_eq_some_iff.mp h
  cases heq
  exact ⟨henv, rfl⟩

/-- The log follows the run, it does not influence it. -/
theorem step_unlog (note : (e : E) → R e → List L) (s : Config (W × List L) E R) (m : Move C V) :
    ((M.logged note).step s m).map Config.unlog = M.step s.unlog m := by
  obtain ⟨⟨w, log⟩, threads⟩ := s
  cases m with
  | call i c =>
    simp only [step, Config.unlog, logged]
    cases threads[i]? with
    | none => rfl
    | some p =>
      cases p with
      | ret u => rfl
      | call e k =>
        dsimp only
        cases M.sem w e c <;> rfl
  | crash i => rfl
  | env v =>
    simp only [step, Config.unlog, logged]
    cases M.env w v <;> rfl

/-- Forgetting the log of a run leaves a run. -/
theorem reach_unlog {s₀ s : Config (W × List L) E R} (h : (M.logged note).Reach uncrashed s₀ s) :
    M.Reach uncrashed s₀.unlog s.unlog := by
  induction h with
  | init => exact .init
  | step m _ hok hstep ih =>
    refine .step m ih ?_ ?_
    · cases m <;> exact hok
    · rw [← step_unlog note, hstep]
      rfl

end Machine

end DeepOj.Conc
