import DeepOj.Conc.Prog

/-!
# Interleaving machines

A machine runs any number of programs against one shared world. A move of the
scheduler lets one thread perform its next effect, kills one thread, or lets
the environment act; the environment also resolves what an effect leaves open
(a failure, a lost reply, a clock reading).
-/

namespace DeepOj.Conc

variable {W E : Type} {R : E → Type} {C V : Type}

/-- A shared world, the meaning of one effect on it, and the environment. -/
structure Machine (W E : Type) (R : E → Type) (C V : Type) where
  /-- The effect `e`, resolved by the choice `c`; `none` when `e` is blocked. -/
  sem : W → (e : E) → C → Option (W × R e)
  /-- The threads an effect starts. -/
  forks : E → List (Prog E R Unit)
  /-- An environment move: its effect on the world and the threads it starts. -/
  env : W → V → Option (W × List (Prog E R Unit))

/-- A configuration: the world and the threads, dead ones included. -/
structure Config (W E : Type) (R : E → Type) where
  world : W
  threads : List (Prog E R Unit)

/-- One move of the scheduler. -/
inductive Move (C V : Type) where
  | call (i : Nat) (c : C)
  | crash (i : Nat)
  | env (v : V)
  deriving DecidableEq

/-- The effect thread `i` performs next. -/
def Config.nextAt (s : Config W E R) (i : Nat) : Option E :=
  s.threads[i]?.bind Prog.next

/-- The next effects once thread `i` has become `p` and `ps` have been started. -/
theorem Config.nextAt_set_append {s : Config W E R} {w : W} {i k : Nat} {p : Prog E R Unit}
    {ps : List (Prog E R Unit)} {e : E}
    (h : (⟨w, s.threads.set i p ++ ps⟩ : Config W E R).nextAt k = some e) :
    (k = i ∧ p.next = some e) ∨ (k ≠ i ∧ s.nextAt k = some e) ∨ ∃ q ∈ ps, q.next = some e := by
  obtain ⟨q, hq, he⟩ := Option.bind_eq_some_iff.mp h
  rw [List.getElem?_append] at hq
  split at hq
  · rw [List.getElem?_set] at hq
    by_cases hk : i = k
    · rw [if_pos hk] at hq
      split at hq
      · cases hq
        exact .inl ⟨hk.symm, he⟩
      · cases hq
    · rw [if_neg hk] at hq
      exact .inr (.inl ⟨Ne.symm hk, by simp only [nextAt, hq, Option.bind_some, he]⟩)
  · exact .inr (.inr ⟨q, List.mem_of_getElem? hq, he⟩)

namespace Machine

variable (M : Machine W E R C V)

/-- One move. -/
def step (s : Config W E R) : Move C V → Option (Config W E R)
  | .call i c =>
    match s.threads[i]? with
    | some (.call e k) =>
      match M.sem s.world e c with
      | some (w, r) => some ⟨w, s.threads.set i (k r) ++ M.forks e⟩
      | none => none
    | _ => none
  | .crash i => some ⟨s.world, s.threads.set i (.ret ())⟩
  | .env v =>
    match M.env s.world v with
    | some (w, ps) => some ⟨w, s.threads ++ ps⟩
    | none => none

/-- What one move can do. -/
theorem step_cases {s s' : Config W E R} {m : Move C V} (h : M.step s m = some s') :
    (∃ i c e k w r, m = .call i c ∧ s.threads[i]? = some (.call e k) ∧
        M.sem s.world e c = some (w, r) ∧
        s' = ⟨w, s.threads.set i (k r) ++ M.forks e⟩) ∨
    (∃ i, m = .crash i ∧ s' = ⟨s.world, s.threads.set i (.ret ())⟩) ∨
    (∃ v w ps, m = .env v ∧ M.env s.world v = some (w, ps) ∧ s' = ⟨w, s.threads ++ ps⟩) := by
  cases m with
  | call i c =>
    refine .inl ?_
    simp only [step] at h
    split at h
    · rename_i e k ht
      split at h
      · rename_i w r hs
        exact ⟨i, c, e, k, w, r, rfl, ht, hs, (Option.some.inj h).symm⟩
      · cases h
    · cases h
  | crash i => exact .inr (.inl ⟨i, rfl, (Option.some.inj h).symm⟩)
  | env v =>
    refine .inr (.inr ?_)
    simp only [step] at h
    split at h
    · rename_i w ps hv
      exact ⟨v, w, ps, rfl, hv, (Option.some.inj h).symm⟩
    · cases h

/-! ## Runs -/

/-- The configurations reached from `s₀` by moves that all meet `ok`. -/
inductive Reach (ok : Config W E R → Move C V → Prop) (s₀ : Config W E R) :
    Config W E R → Prop where
  | init : Reach ok s₀ s₀
  | step {s s' : Config W E R} (m : Move C V) :
      Reach ok s₀ s → ok s m → M.step s m = some s' → Reach ok s₀ s'

/-- The condition every move meets. -/
def anyMove (_ : Config W E R) (_ : Move C V) : Prop := True

instance (s : Config W E R) (m : Move C V) : Decidable (anyMove s m) :=
  inferInstanceAs (Decidable True)

variable {M}

/-- Run induction: what holds at the start and is kept by every admissible move
holds throughout. -/
theorem Reach.invariant {ok : Config W E R → Move C V → Prop} {s₀ : Config W E R}
    {J : Config W E R → Prop} (h₀ : J s₀)
    (hJ : ∀ s s' m, J s → ok s m → M.step s m = some s' → J s')
    {s : Config W E R} (h : M.Reach ok s₀ s) : J s := by
  induction h with
  | init => exact h₀
  | step m _ hok hstep ih => exact hJ _ _ m ih hok hstep

/-- Play a schedule. A move that is blocked or not admissible is skipped. -/
def play (M : Machine W E R C V) (ok : Config W E R → Move C V → Prop)
    [∀ s m, Decidable (ok s m)] (s : Config W E R) : List (Move C V) → Config W E R
  | [] => s
  | m :: ms => play M ok (if ok s m then (M.step s m).getD s else s) ms

/-- A played schedule is a run. -/
theorem reach_play (M : Machine W E R C V) (ok : Config W E R → Move C V → Prop)
    [∀ s m, Decidable (ok s m)] {s₀ s : Config W E R} (h : M.Reach ok s₀ s)
    (ms : List (Move C V)) : M.Reach ok s₀ (M.play ok s ms) := by
  induction ms generalizing s with
  | nil => exact h
  | cons m ms ih =>
    rw [play]
    by_cases hm : ok s m
    · rw [if_pos hm]
      cases hs : M.step s m with
      | none => exact ih h
      | some s' => exact ih (.step m h hm hs)
    · rw [if_neg hm]
      exact ih h

end Machine

end DeepOj.Conc
