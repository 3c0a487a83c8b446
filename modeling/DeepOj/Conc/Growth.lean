import DeepOj.Conc.Rely

/-!
# Worlds that only grow

Where no move takes anything back, interference is one preorder for all effects, and a thread
keeps whatever it has learned that goes upwards in it.
-/

namespace DeepOj.Conc

variable {W E : Type} {R : E → Type} {C V : Type} {α : Type}

/-- A discipline that relies on nothing but growth. -/
structure Growth (W E : Type) where
  Inv : W → Prop
  Allowed : E → W → Prop
  Le : W → W → Prop
  refl : ∀ w, Le w w
  trans : ∀ w₁ w₂ w₃, Le w₁ w₂ → Le w₂ w₃ → Le w₁ w₃

namespace Growth

variable (G : Growth W E) (M : Machine W E R C V)

def discipline : Discipline W E where
  Inv := G.Inv
  Allowed := G.Allowed
  Rely _ := G.Le
  rely_refl _ := G.refl
  rely_trans _ := G.trans

/-- What goes upwards. -/
def Stable (P : W → Prop) : Prop := ∀ w w', G.Le w w' → P w → P w'

/-- Every move keeps the invariant and takes the world upwards. -/
structure Respected : Prop where
  call : ∀ w e c w' r, G.Inv w → G.Allowed e w → M.sem w e c = some (w', r) → G.Inv w' ∧ G.Le w w'
  env : ∀ w v w' ps, G.Inv w → M.env w v = some (w', ps) → G.Inv w' ∧ G.Le w w'
  forks : ∀ e, M.forks e = []

/-- The programs that the environment starts meet the discipline. -/
def Starts : Prop :=
  ∀ w v w' ps, M.env w v = some (w', ps) → ∀ p ∈ ps, M.wp G.discipline p (fun _ _ => True) w'

variable {G M}

namespace Respected

theorem sound (h : G.Respected M) (hstart : G.Starts M) {ok : Config W E R → Move C V → Prop} :
    Machine.Sound M G.discipline ok where
  call_inv s _ c e _ w r hi ha _ _ hs := (h.call s.world e c w r hi ha hs).1
  call_rely s _ c e _ w r hi ha _ _ hs _ _ _ _ := (h.call s.world e c w r hi ha hs).2
  fork_wp w e c w' r _ _ _ _ p hp := by
    rw [h.forks] at hp
    exact absurd hp List.not_mem_nil
  env_inv s v w ps hi _ hv := (h.env s.world v w ps hi hv).1
  env_rely s v w ps hi _ hv _ _ _ := (h.env s.world v w ps hi hv).2
  env_wp s v w ps _ _ hv _ := hstart s.world v w ps hv

/-- The invariant holds in every configuration that a run without threads at first leads to. -/
theorem inv_reach (h : G.Respected M) (hstart : G.Starts M) {ok : Config W E R → Move C V → Prop} {w : W}
    (hw : G.Inv w) {s : Config W E R} (hs : M.Reach ok ⟨w, []⟩ s) : G.Inv s.world := by
  have h₀ : Machine.Good M G.discipline ⟨w, []⟩ := ⟨hw, fun _ hp => absurd hp List.not_mem_nil⟩
  exact ((h.sound hstart).reach h₀ hs).inv

/-- One effect, where a fact is learned from its reply. -/
theorem call_triple (h : G.Respected M) {P : W → Prop} {e : E} {k : R e → Prog E R α} {Q : α → W → Prop}
    (S : R e → W → Prop) (hP : G.Stable P) (hallowed : ∀ w, P w → G.Allowed e w)
    (hlearn : ∀ w c w' r, G.Inv w → P w → G.Le w w' → M.sem w e c = some (w', r) → S r w')
    (hk : ∀ r, M.Triple G.discipline (fun w => P w ∧ S r w) (k r) Q) :
    M.Triple G.discipline P (.call e k) Q := by
  refine .call (fun r w => P w ∧ S r w) (fun w w' hle h => hP w w' hle h) (fun w _ hp => hallowed w hp) ?_ hk
  intro w c w' r hi hp hs _
  have hle : G.Le w w' := (h.call w e c w' r hi (hallowed w hp) hs).2
  exact ⟨hP w w' hle hp, hlearn w c w' r hi hp hle hs⟩

end Respected

end Growth

end DeepOj.Conc
