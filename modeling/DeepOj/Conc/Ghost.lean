import DeepOj.Conc.Record

/-!
# Ghost state and pairs of records

A machine may carry a ghost that follows its effects and their choices and
influences nothing. Two recorders of one machine can run side by side; the rules
of each are checked alone.
-/

namespace DeepOj.Conc

variable {W E : Type} {R : E → Type} {C V H G G' α : Type}

/-- Forget the ghost. -/
def Config.unghost (s : Config (W × H) E R) : Config W E R := ⟨s.world.1, s.threads⟩

namespace Machine

variable (M : Machine W E R C V) (f : H → E → C → H)

/-- The machine with a ghost: `f` says what an effect and its choice do to it. -/
def ghost : Machine (W × H) E R C V where
  sem s e c := (M.sem s.1 e c).map fun p => ((p.1, f s.2 e c), p.2)
  forks := M.forks
  env s v := (M.env s.1 v).map fun p => ((p.1, s.2), p.2)

variable {M f}

theorem sem_ghost {s w : W × H} {e : E} {c : C} {r : R e}
    (h : (M.ghost f).sem s e c = some (w, r)) :
    M.sem s.1 e c = some (w.1, r) ∧ w.2 = f s.2 e c := by
  obtain ⟨⟨w', r'⟩, hsem, heq⟩ := Option.map_eq_some_iff.mp h
  cases heq
  exact ⟨hsem, rfl⟩

theorem env_ghost {s w : W × H} {v : V} {ps : List (Prog E R Unit)}
    (h : (M.ghost f).env s v = some (w, ps)) : M.env s.1 v = some (w.1, ps) ∧ w.2 = s.2 := by
  obtain ⟨⟨w', ps'⟩, henv, heq⟩ := Option.map_eq_some_iff.mp h
  cases heq
  exact ⟨henv, rfl⟩

/-- A move can be made with the ghost exactly if it can be made without. -/
theorem step_unghost (f : H → E → C → H) (s : Config (W × H) E R) (m : Move C V) :
    ((M.ghost f).step s m).map Config.unghost = M.step s.unghost m := by
  obtain ⟨⟨w, g⟩, threads⟩ := s
  cases m with
  | call i c =>
    simp only [step, Config.unghost, ghost]
    cases threads[i]? with
    | none => rfl
    | some p =>
      cases p with
      | ret u => rfl
      | call e k =>
        dsimp only
        cases M.sem w e c <;> rfl
  | crash i => rfl
  | env v =>
    simp only [step, Config.unghost, ghost]
    cases M.env w v <;> rfl

/-- Every run is the run of a machine with a ghost, whatever the ghost is at the start. -/
theorem exists_ghost {ok : Config W E R → Move C V → Prop} {s₀ s : Config W E R}
    (h : M.Reach ok s₀ s) (g : H) :
    ∃ s' : Config (W × H) E R, s'.unghost = s ∧
      (M.ghost f).Reach (fun s m => ok s.unghost m) ⟨(s₀.world, g), s₀.threads⟩ s' := by
  induction h with
  | init => exact ⟨⟨(s₀.world, g), s₀.threads⟩, rfl, .init⟩
  | step m _ hok hstep ih =>
    obtain ⟨s', rfl, hreach⟩ := ih
    have hmap := step_unghost (M := M) f s' m
    rw [hstep] at hmap
    obtain ⟨t, ht, rfl⟩ := Option.map_eq_some_iff.mp hmap
    exact ⟨t, rfl, .step m hreach hok ht⟩

end Machine

/-! ## Two records of one thread -/

/-- Two recorders side by side. -/
def Recorder.both (K : Recorder E R V G) (K' : Recorder E R V G') : Recorder E R V (G × G') where
  start v := (K.start v, K'.start v)
  fork e := (K.fork e, K'.fork e)
  next g e r := (K.next g.1 e r, K'.next g.2 e r)

/-- The rules of both records. -/
def Rules.both (L : Rules E R G) (L' : Rules E R G') : Rules E R (G × G') where
  allowed g e := L.allowed g.1 e ∧ L'.allowed g.2 e
  promised g e r := L.promised g.1 e r ∧ L'.promised g.2 e r
  ended g := L.ended g.1 ∧ L'.ended g.2

variable {K : Recorder E R V G} {K' : Recorder E R V G'} {L : Rules E R G} {L' : Rules E R G'}

/-- A program that heeds each of the records heeds both. -/
theorem Heeds.both {g : G} {g' : G'} {p : Prog E R α} {Q : G → α → Prop} {Q' : G' → α → Prop}
    (h : Heeds K L g p Q) (h' : Heeds K' L' g' p Q') :
    Heeds (K.both K') (L.both L') (g, g') p fun g a => Q g.1 a ∧ Q' g.2 a := by
  induction p generalizing g g' with
  | ret a => exact ⟨h, h'⟩
  | call e k ih =>
    refine ⟨⟨h.1, h'.1⟩, ?_⟩
    intro r hr
    exact ih r (h.2 r hr.1) (h'.2 r hr.2)

namespace Machine.Disciplined

variable {M : Machine W E R C V}

theorem both (h : M.Disciplined K L) (h' : M.Disciplined K' L') :
    M.Disciplined (K.both K') (L.both L') where
  env w v w' ps hv p hp := (h.env w v w' ps hv p hp).both (h'.env w v w' ps hv p hp)
  forks e p hp := (h.forks e p hp).both (h'.forks e p hp)

/-- The ghost changes nothing for the programs. -/
theorem ghost {f : H → E → C → H} (h : M.Disciplined K L) : (M.ghost f).Disciplined K L where
  env w v w' ps hv p hp := h.env w.1 v w'.1 ps (env_ghost hv).1 p hp
  forks := h.forks

end Machine.Disciplined

end DeepOj.Conc
