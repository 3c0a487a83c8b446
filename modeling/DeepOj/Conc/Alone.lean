import DeepOj.Conc.Machine

/-!
# Threads that run alone

What one thread can do while the others stand still, and the run of the machine this
gives. A thread whose effects never block runs to its end.
-/

namespace DeepOj.Conc

variable {W E : Type} {R : E → Type} {C V : Type} {α β : Type}

namespace Machine

variable (M : Machine W E R C V) (good : C → Prop)

/-- Alone and with choices from `good`, the program takes the world from `w` to `w'`, has
`p'` left to do and has started the threads `fs`. -/
inductive Alone : W → Prog E R α → W → Prog E R α → List (Prog E R Unit) → Prop where
  | refl (w : W) (p : Prog E R α) : Alone w p w p []
  | step {w w₁ w' : W} {e : E} {k : R e → Prog E R α} {c : C} {r : R e} {p' : Prog E R α}
      {fs : List (Prog E R Unit)} : good c → M.sem w e c = some (w₁, r) →
      Alone w₁ (k r) w' p' fs → Alone w (.call e k) w' p' (M.forks e ++ fs)

variable {M good}

theorem Alone.trans {w w' w'' : W} {p p' p'' : Prog E R α} {fs fs' : List (Prog E R Unit)}
    (h : M.Alone good w p w' p' fs) (h' : M.Alone good w' p' w'' p'' fs') :
    M.Alone good w p w'' p'' (fs ++ fs') := by
  induction h with
  | refl w p => exact h'
  | step hc hs _ ih =>
    rw [List.append_assoc]
    exact .step hc hs (ih h')

/-- What comes after the program waits. -/
theorem Alone.bind {w w' : W} {p p' : Prog E R α} {fs : List (Prog E R Unit)}
    (h : M.Alone good w p w' p' fs) (f : α → Prog E R β) :
    M.Alone good w (p >>= f) w' (p' >>= f) fs := by
  induction h with
  | refl w p => exact .refl w _
  | step hc hs _ ih => exact .step hc hs ih

/-- One effect, which starts no thread, and the rest. -/
theorem Alone.call {w w₁ w' : W} {e : E} {k : R e → Prog E R α} {c : C} {r : R e} {p' : Prog E R α}
    {fs : List (Prog E R Unit)} (hc : good c) (hf : M.forks e = []) (hs : M.sem w e c = some (w₁, r))
    (h : M.Alone good w₁ (k r) w' p' fs) : M.Alone good w (.call e k) w' p' fs := by
  have hstep := Alone.step hc hs h
  rwa [hf] at hstep

/-- A program that has returned goes on with what comes after it. -/
theorem Alone.andThen {w w' w'' : W} {p : Prog E R α} {a : α} {f : α → Prog E R β} {p' : Prog E R β}
    {fs fs' : List (Prog E R Unit)} (h : M.Alone good w p w' (.ret a) fs)
    (h' : M.Alone good w' (f a) w'' p' fs') : M.Alone good w (p >>= f) w'' p' (fs ++ fs') :=
  (h.bind f).trans h'

/-- Effects that can always be performed, start no thread and keep `I` make programs that
run to their end and keep `I`. -/
theorem Alone.complete {P : E → Prop} {I : W → Prop}
    (hP : ∀ w e, P e → I w → M.forks e = [] ∧ ∃ c w' r, good c ∧ M.sem w e c = some (w', r) ∧ I w')
    {p : Prog E R α} (hp : p.Confined P) {w : W} (hw : I w) :
    ∃ w' a, M.Alone good w p w' (.ret a) [] ∧ I w' := by
  obtain ⟨huses⟩ := hp
  induction p generalizing w with
  | ret a => exact ⟨w, a, .refl w _, hw⟩
  | call e k ih =>
    obtain ⟨hf, c, w₁, r, hc, hs, hw₁⟩ := hP w e huses.1 hw
    obtain ⟨w', a, h, hw'⟩ := ih r hw₁ (huses.2 r)
    exact ⟨w', a, .call hc hf hs h, hw'⟩

/-- What one thread does alone is a run of the machine. -/
theorem Alone.reach {ok : Config W E R → Move C V → Prop} (hok : ∀ s i c, good c → ok s (.call i c))
    {w w' : W} {p p' : Prog E R Unit} {fs : List (Prog E R Unit)} (h : M.Alone good w p w' p' fs)
    {s₀ : Config W E R} {ts : List (Prog E R Unit)} {i : Nat} (hi : ts[i]? = some p)
    (hs : M.Reach ok s₀ ⟨w, ts⟩) : M.Reach ok s₀ ⟨w', ts.set i p' ++ fs⟩ := by
  induction h generalizing ts with
  | refl w p =>
    have hset : ts.set i p = ts := by
      rw [← (List.getElem?_eq_some_iff.mp hi).2, List.set_getElem_self]
    rw [List.append_nil, hset]
    exact hs
  | @step w w₁ _ e k c r _ _ hc hsem _ ih =>
    have hlt : i < ts.length := (List.getElem?_eq_some_iff.mp hi).1
    have hstep : M.step ⟨w, ts⟩ (.call i c) = some ⟨w₁, ts.set i (k r) ++ M.forks e⟩ := by
      simp only [Machine.step, hi, hsem]
    have hi₁ : (ts.set i (k r) ++ M.forks e)[i]? = some (k r) := by
      rw [List.getElem?_append_left (by simpa using hlt), List.getElem?_set_self hlt]
    have hrest := ih hi₁ (.step _ hs (hok _ i c hc) hstep)
    rwa [List.set_append_left _ _ (by simpa using hlt), List.set_set, List.append_assoc] at hrest

end Machine

end DeepOj.Conc
