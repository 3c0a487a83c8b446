import DeepOj.Conc.Machine

/-!
# Rely/guarantee reasoning

A discipline fixes an invariant of the world, when an effect may be performed,
and what the other threads may do to the world while a thread waits to perform
its next effect. A program is proved once, alone, against the discipline; the
soundness theorem then covers every interleaving.
-/

namespace DeepOj.Conc

variable {W E : Type} {R : E → Type} {C V : Type} {α β : Type}

/-- The contract the threads of a machine keep towards each other. -/
structure Discipline (W E : Type) where
  /-- Holds of the world between any two moves. -/
  Inv : W → Prop
  /-- The justification a thread owes when it performs `e`. -/
  Allowed : E → W → Prop
  /-- What a thread about to perform `e` relies on the others to keep. -/
  Rely : E → W → W → Prop
  rely_refl : ∀ e w, Rely e w w
  rely_trans : ∀ e w₁ w₂ w₃, Rely e w₁ w₂ → Rely e w₂ w₃ → Rely e w₁ w₃

namespace Machine

variable (M : Machine W E R C V) (D : Discipline W E)

/-- The weakest precondition of a program under interference: before each
effect the others may have acted, the effect must be allowed, and the rest must
do for every way the effect can end. -/
def wp : Prog E R α → (α → W → Prop) → W → Prop
  | .ret a, Q, w => Q a w
  | .call e k, Q, w =>
    ∀ w₁, D.Rely e w w₁ → D.Inv w₁ → D.Allowed e w₁ ∧
      ∀ c w₂ r, M.sem w₁ e c = some (w₂, r) → D.Inv w₂ → wp (k r) Q w₂

variable {M D}

theorem wp_bind {p : Prog E R α} {f : α → Prog E R β} {Q : β → W → Prop} {w : W} :
    M.wp D (p >>= f) Q w ↔ M.wp D p (fun a w => M.wp D (f a) Q w) w := by
  induction p generalizing w with
  | ret a => exact Iff.rfl
  | call e k ih => simp only [Prog.call_bind, wp, ih]

theorem wp_mono {p : Prog E R α} {Q Q' : α → W → Prop} {w : W}
    (hQ : ∀ a w, Q a w → Q' a w) (h : M.wp D p Q w) : M.wp D p Q' w := by
  induction p generalizing w with
  | ret a => exact hQ a w h
  | call e k ih =>
    intro w₁ hr hi
    obtain ⟨ha, hk⟩ := h w₁ hr hi
    exact ⟨ha, fun c w₂ r hs hi₂ => ih r (hk c w₂ r hs hi₂)⟩

/-- Interference the next effect tolerates keeps the weakest precondition. -/
theorem wp_rely {e : E} {k : R e → Prog E R α} {Q : α → W → Prop} {w w' : W}
    (hr : D.Rely e w w') (h : M.wp D (.call e k) Q w) : M.wp D (.call e k) Q w' :=
  fun w₁ hr₁ hi => h w₁ (D.rely_trans e w w' w₁ hr hr₁) hi

/-! ## Triples -/

variable (M D)

/-- From a world satisfying `P`, the program meets the discipline and returns
with `Q`. -/
structure Triple (P : W → Prop) (p : Prog E R α) (Q : α → W → Prop) : Prop where
  wp : ∀ w, P w → M.wp D p Q w

variable {M D}

theorem Triple.ret {P : W → Prop} {a : α} {Q : α → W → Prop} (h : ∀ w, P w → Q a w) :
    M.Triple D P (.ret a) Q := ⟨h⟩

theorem Triple.bind {P : W → Prop} {p : Prog E R α} {Q : α → W → Prop}
    {f : α → Prog E R β} {Q' : β → W → Prop}
    (hp : M.Triple D P p Q) (hf : ∀ a, M.Triple D (Q a) (f a) Q') :
    M.Triple D P (p >>= f) Q' := by
  refine ⟨fun w hw => ?_⟩
  exact wp_bind.mpr (wp_mono (fun a w' => (hf a).wp w') (hp.wp w hw))

theorem Triple.conseq {P P' : W → Prop} {p : Prog E R α} {Q Q' : α → W → Prop}
    (h : M.Triple D P p Q) (hP : ∀ w, P' w → P w) (hQ : ∀ a w, Q a w → Q' a w) :
    M.Triple D P' p Q' :=
  ⟨fun w hw => wp_mono hQ (h.wp w (hP w hw))⟩

/-- One effect: the precondition survives interference and justifies the effect,
and every outcome of the effect gives the rest what it needs. -/
theorem Triple.call {P : W → Prop} {e : E} {k : R e → Prog E R α} {Q : α → W → Prop}
    (S : R e → W → Prop)
    (hstable : ∀ w w', D.Rely e w w' → P w → P w')
    (hallowed : ∀ w, D.Inv w → P w → D.Allowed e w)
    (heffect : ∀ w c w' r, D.Inv w → P w → M.sem w e c = some (w', r) → D.Inv w' → S r w')
    (hk : ∀ r, M.Triple D (S r) (k r) Q) :
    M.Triple D P (.call e k) Q := by
  refine ⟨fun w hw w₁ hr hi => ?_⟩
  have hw₁ : P w₁ := hstable w w₁ hr hw
  exact ⟨hallowed w₁ hi hw₁,
    fun c w₂ r hs hi₂ => (hk r).wp w₂ (heffect w₁ c w₂ r hi hw₁ hs hi₂)⟩

/-- A program whose effects are allowed in every world meets the discipline. -/
theorem Triple.of_confined {P : W → Prop} {p : Prog E R α}
    (h : p.Confined fun e => ∀ w, D.Allowed e w) : M.Triple D P p fun _ _ => True := by
  suffices hp : ∀ w, M.wp D p (fun _ _ => True) w from ⟨fun w _ => hp w⟩
  obtain ⟨huses⟩ := h
  induction p with
  | ret a => exact fun _ => trivial
  | call e k ih =>
    intro w w₁ _ _
    exact ⟨huses.1 w₁, fun c w₂ r _ _ => ih r (huses.2 r) w₂⟩

/-- A fact that neither the others nor the program's own effects can undo stays. -/
theorem Triple.frame {P : W → Prop} {p : Prog E R α} {Q : α → W → Prop} {F : W → Prop}
    (hrely : ∀ e w w', D.Rely e w w' → F w → F w')
    (hsem : ∀ w e c w' r, M.sem w e c = some (w', r) → F w → F w')
    (h : M.Triple D P p Q) :
    M.Triple D (fun w => P w ∧ F w) p fun a w => Q a w ∧ F w := by
  suffices hp : ∀ w, F w → M.wp D p Q w → M.wp D p (fun a w => Q a w ∧ F w) w from
    ⟨fun w hw => hp w hw.2 (h.wp w hw.1)⟩
  clear h
  induction p with
  | ret a => exact fun w hF hw => ⟨hw, hF⟩
  | call e k ih =>
    intro w hF hw w₁ hr hi
    obtain ⟨ha, hk⟩ := hw w₁ hr hi
    have hF₁ : F w₁ := hrely e w w₁ hr hF
    exact ⟨ha, fun c w₂ r hs hi₂ => ih r w₂ (hsem w₁ e c w₂ r hs hF₁) (hk c w₂ r hs hi₂)⟩

/-! ## Soundness -/

/-- The invariant holds and every thread meets the discipline from here. -/
structure Good (M : Machine W E R C V) (D : Discipline W E) (s : Config W E R) : Prop where
  inv : D.Inv s.world
  threads : ∀ p ∈ s.threads, M.wp D p (fun _ _ => True) s.world

/-- What the machine must satisfy for a discipline to be sound on the runs whose
moves meet `ok`. -/
structure Sound (M : Machine W E R C V) (D : Discipline W E)
    (ok : Config W E R → Move C V → Prop) : Prop where
  /-- An allowed effect keeps the invariant. -/
  call_inv : ∀ s i c e k w r, D.Inv s.world → D.Allowed e s.world →
    s.threads[i]? = some (.call e k) → ok s (.call i c) →
    M.sem s.world e c = some (w, r) → D.Inv w
  /-- An allowed effect keeps what every other thread relies on. -/
  call_rely : ∀ s i c e k w r, D.Inv s.world → D.Allowed e s.world →
    s.threads[i]? = some (.call e k) → ok s (.call i c) →
    M.sem s.world e c = some (w, r) →
    ∀ j e', j ≠ i → s.nextAt j = some e' → D.Rely e' s.world w
  /-- The threads an allowed effect starts meet the discipline. -/
  fork_wp : ∀ w e c w' r, D.Inv w → D.Allowed e w → M.sem w e c = some (w', r) → D.Inv w' →
    ∀ p ∈ M.forks e, M.wp D p (fun _ _ => True) w'
  env_inv : ∀ s v w ps, D.Inv s.world → ok s (.env v) → M.env s.world v = some (w, ps) → D.Inv w
  env_rely : ∀ s v w ps, D.Inv s.world → ok s (.env v) → M.env s.world v = some (w, ps) →
    ∀ j e', s.nextAt j = some e' → D.Rely e' s.world w
  env_wp : ∀ s v w ps, D.Inv s.world → ok s (.env v) → M.env s.world v = some (w, ps) →
    D.Inv w → ∀ p ∈ ps, M.wp D p (fun _ _ => True) w

/-- The effect of a waiting thread is allowed. -/
theorem Good.allowed {s : Config W E R} (h : Good M D s) {i : Nat} {e : E}
    {k : R e → Prog E R Unit} (ht : s.threads[i]? = some (.call e k)) :
    D.Allowed e s.world :=
  (h.threads _ (List.mem_of_getElem? ht) s.world (D.rely_refl e _) h.inv).1

theorem Good.allowedAt {s : Config W E R} (h : Good M D s) {i : Nat} {e : E}
    (hn : s.nextAt i = some e) : D.Allowed e s.world := by
  obtain ⟨p, hp, he⟩ := Option.bind_eq_some_iff.mp hn
  cases p with
  | ret a => cases he
  | call e' k =>
    cases he
    exact h.allowed hp

/-- A thread left alone keeps meeting the discipline. -/
theorem wp_of_rely {p : Prog E R α} {Q : α → W → Prop} {w w' : W}
    (hr : ∀ e, p.next = some e → D.Rely e w w') (hQ : ∀ a, p = .ret a → Q a w → Q a w')
    (h : M.wp D p Q w) : M.wp D p Q w' := by
  cases p with
  | ret a => exact hQ a rfl h
  | call e k => exact wp_rely (hr e rfl) h

/-- One move keeps the invariant and every thread's proof. -/
theorem Sound.step {ok : Config W E R → Move C V → Prop} (hS : Sound M D ok)
    {s s' : Config W E R} {m : Move C V} (h : Good M D s) (hok : ok s m)
    (hstep : M.step s m = some s') : Good M D s' := by
  obtain ⟨i, c, e, k, w, r, rfl, ht, hs, rfl⟩ | ⟨i, rfl, rfl⟩ | ⟨v, w, ps, rfl, hv, rfl⟩ :=
    M.step_cases hstep
  · -- thread `i` performs `e`; every other thread sees it as interference
    have ha : D.Allowed e s.world := h.allowed ht
    have hi : D.Inv w := hS.call_inv s i c e k w r h.inv ha ht hok hs
    refine ⟨hi, fun p hp => ?_⟩
    rcases List.mem_append.mp hp with hp | hp
    · obtain ⟨j, hj⟩ := List.getElem?_of_mem hp
      rw [List.getElem?_set] at hj
      split at hj
      · split at hj
        · cases hj
          have hw := h.threads _ (List.mem_of_getElem? ht) s.world (D.rely_refl e _) h.inv
          exact hw.2 c w r hs hi
        · cases hj
      · rename_i hne
        refine wp_of_rely (fun e' he' => ?_) (fun _ _ _ => trivial)
          (h.threads p (List.mem_of_getElem? hj))
        exact hS.call_rely s i c e k w r h.inv ha ht hok hs j e' (Ne.symm hne)
          (by simp [Config.nextAt, hj, he'])
    · exact hS.fork_wp s.world e c w r h.inv ha hs hi p hp
  · -- a killed thread owes nothing
    refine ⟨h.inv, fun p hp => ?_⟩
    rcases List.mem_or_eq_of_mem_set hp with hp | rfl
    · exact h.threads p hp
    · trivial
  · have hi : D.Inv w := hS.env_inv s v w ps h.inv hok hv
    refine ⟨hi, fun p hp => ?_⟩
    rcases List.mem_append.mp hp with hp | hp
    · obtain ⟨j, hj⟩ := List.getElem?_of_mem hp
      refine wp_of_rely (fun e' he' => ?_) (fun _ _ _ => trivial) (h.threads p hp)
      exact hS.env_rely s v w ps h.inv hok hv j e' (by simp [Config.nextAt, hj, he'])
    · exact hS.env_wp s v w ps h.inv hok hv hi p hp

/-- Every configuration of an admissible run keeps the discipline. -/
theorem Sound.reach {ok : Config W E R → Move C V → Prop} (hS : Sound M D ok)
    {s₀ s : Config W E R} (h₀ : Good M D s₀) (h : M.Reach ok s₀ s) : Good M D s :=
  h.invariant h₀ fun _ _ _ hg hok hstep => hS.step hg hok hstep

/-- An invariant of the world that every allowed effect and every environment
move keeps holds throughout the run. -/
theorem Sound.world_invariant {ok : Config W E R → Move C V → Prop} (hS : Sound M D ok)
    {J : W → Prop} {s₀ s : Config W E R} (h₀ : Good M D s₀) (hJ₀ : J s₀.world)
    (hcall : ∀ s i c e k w r, Good M D s → J s.world → D.Allowed e s.world →
      s.threads[i]? = some (.call e k) → ok s (.call i c) →
      M.sem s.world e c = some (w, r) → D.Inv w → J w)
    (henv : ∀ s v w ps, Good M D s → J s.world → ok s (.env v) →
      M.env s.world v = some (w, ps) → D.Inv w → J w)
    (h : M.Reach ok s₀ s) : J s.world := by
  suffices hb : Good M D s ∧ J s.world from hb.2
  refine h.invariant (J := fun s => Good M D s ∧ J s.world) ⟨h₀, hJ₀⟩ ?_
  rintro s s' m ⟨hg, hj⟩ hok hstep
  have hg' : Good M D s' := hS.step hg hok hstep
  refine ⟨hg', ?_⟩
  obtain ⟨i, c, e, k, w, r, rfl, ht, hs, rfl⟩ | ⟨i, rfl, rfl⟩ | ⟨v, w, ps, rfl, hv, rfl⟩ :=
    M.step_cases hstep
  · exact hcall s i c e k w r hg hj (hg.allowed ht) ht hok hs hg'.inv
  · exact hj
  · exact henv s v w ps hg hj hok hv hg'.inv

end Machine

end DeepOj.Conc
