import DeepOj.Conc.Prog

/-!
# What a program does

A run of a program with all its effects and their replies, in order.
-/

namespace DeepOj.Conc

variable {E : Type} {R : E → Type} {α β : Type}

/-- An effect with the reply it got. -/
abbrev Event (E : Type) (R : E → Type) := Σ e : E, R e

namespace Prog

/-- The program returns `a` after these events. -/
inductive Runs : Prog E R α → List (Event E R) → α → Prop where
  | ret (a : α) : Runs (.ret a) [] a
  | call {e : E} {k : R e → Prog E R α} (r : R e) {tr : List (Event E R)} {a : α} (h : Runs (k r) tr a) :
      Runs (.call e k) (⟨e, r⟩ :: tr) a

variable {p : Prog E R α} {f : α → Prog E R β} {tr : List (Event E R)} {a : α} {b : β} {e : E}

@[simp] theorem runs_ret {a a' : α} : Runs (.ret a : Prog E R α) tr a' ↔ tr = [] ∧ a = a' := by
  constructor
  · rintro ⟨⟩
    exact ⟨rfl, rfl⟩
  · rintro ⟨rfl, rfl⟩
    exact .ret a

@[simp] theorem runs_call {k : R e → Prog E R α} :
    Runs (.call e k) tr a ↔ ∃ r tr', tr = ⟨e, r⟩ :: tr' ∧ Runs (k r) tr' a := by
  constructor
  · intro h
    cases h with
    | call r h => exact ⟨r, _, rfl, h⟩
  · rintro ⟨r, tr', rfl, h⟩
    exact .call r h

/-- A run of two programs in a row is a run of the first, then one of the second. -/
theorem runs_bind : Runs (p >>= f) tr b ↔
    ∃ tr₁ tr₂ a, tr = tr₁ ++ tr₂ ∧ Runs p tr₁ a ∧ Runs (f a) tr₂ b := by
  induction p generalizing tr with
  | ret a =>
    rw [ret_bind]
    constructor
    · exact fun h => ⟨[], tr, a, rfl, .ret a, h⟩
    · rintro ⟨tr₁, tr₂, a', rfl, hp, h⟩
      obtain ⟨rfl, rfl⟩ := runs_ret.mp hp
      exact h
  | call e k ih =>
    rw [call_bind, runs_call]
    constructor
    · rintro ⟨r, tr', rfl, h⟩
      obtain ⟨tr₁, tr₂, a, rfl, hp, hf⟩ := (ih r).mp h
      exact ⟨_, tr₂, a, rfl, .call r hp, hf⟩
    · rintro ⟨tr₁, tr₂, a, rfl, hp, hf⟩
      obtain ⟨r, tr', rfl, hk⟩ := runs_call.mp hp
      exact ⟨r, tr' ++ tr₂, rfl, (ih r).mpr ⟨tr', tr₂, a, rfl, hk, hf⟩⟩

theorem runs_perform {r : R e} : Runs (perform e) tr r ↔ tr = [⟨e, r⟩] := by
  unfold perform
  rw [runs_call]
  constructor
  · rintro ⟨r', tr', rfl, h⟩
    obtain ⟨rfl, rfl⟩ := runs_ret.mp h
    rfl
  · rintro rfl
    exact ⟨r, [], rfl, .ret r⟩

theorem runs_perform_bind {f : R e → Prog E R β} :
    Runs (perform e >>= f) tr b ↔ ∃ r tr', tr = ⟨e, r⟩ :: tr' ∧ Runs (f r) tr' b := by
  rw [perform_bind, runs_call]

/-- A run stays within the footprint. -/
theorem Runs.uses {P : E → Prop} (h : Runs p tr a) (hp : Uses P p) : ∀ ev ∈ tr, P ev.1 := by
  induction h with
  | ret a => simp
  | call r _ ih =>
    intro ev hev
    rcases List.mem_cons.mp hev with rfl | hev
    · exact hp.1
    · exact ih (hp.2 r) ev hev

/-- The events of a program whose effects are answered by a function of the effect. -/
def events (reply : (e : E) → R e) : Prog E R α → List (Event E R)
  | .ret _ => []
  | .call e k => ⟨e, reply e⟩ :: events reply (k (reply e))

theorem runs_events (reply : (e : E) → R e) (p : Prog E R α) : Runs p (p.events reply) (p.answer reply) := by
  induction p with
  | ret a => exact .ret a
  | call e k ih => exact .call (reply e) (ih (reply e))

end Prog

end DeepOj.Conc
