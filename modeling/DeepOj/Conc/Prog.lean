import Mathlib.Logic.Basic
import Mathlib.Tactic.Common

/-!
# Programs over a signature of effects

A program is a tree of effect calls: it either returns, or performs one
effect and continues with the reply. One call is one atomic step of the
system the program runs in; everything between two calls is pure.
-/

namespace DeepOj.Conc

variable {E : Type} {R : E → Type} {α β γ : Type}

/-- A program performing effects `e : E`, each answered by a reply in `R e`. -/
inductive Prog (E : Type) (R : E → Type) (α : Type) : Type where
  | ret (a : α) : Prog E R α
  | call (e : E) (k : R e → Prog E R α) : Prog E R α

namespace Prog

/-- Sequential composition. -/
def bind : Prog E R α → (α → Prog E R β) → Prog E R β
  | .ret a, f => f a
  | .call e k, f => .call e fun r => bind (k r) f

instance : Monad (Prog E R) where
  pure := .ret
  bind := bind

/-- The program that performs one effect and returns its reply. -/
def perform (e : E) : Prog E R (R e) := .call e .ret

@[simp] theorem pure_eq (a : α) : (pure a : Prog E R α) = .ret a := rfl

@[simp] theorem ret_bind (a : α) (f : α → Prog E R β) : (Prog.ret a >>= f) = f a := rfl

@[simp] theorem call_bind (e : E) (k : R e → Prog E R α) (f : α → Prog E R β) :
    (Prog.call e k >>= f) = .call e fun r => k r >>= f := rfl

@[simp] theorem perform_bind (e : E) (f : R e → Prog E R β) :
    (perform e >>= f) = .call e f := rfl

theorem bind_ret (p : Prog E R α) : (p >>= Prog.ret) = p := by
  induction p with
  | ret a => rfl
  | call e k ih => rw [call_bind]; congr 1; funext r; exact ih r

theorem bind_assoc (p : Prog E R α) (f : α → Prog E R β) (g : β → Prog E R γ) :
    (p >>= f >>= g) = (p >>= fun a => f a >>= g) := by
  induction p with
  | ret a => rfl
  | call e k ih => simp only [call_bind]; congr 1; funext r; exact ih r

instance : LawfulMonad (Prog E R) :=
  LawfulMonad.mk' _ bind_ret (fun _ _ => rfl) bind_assoc

/-- The effect a program performs next, if it has not returned. -/
def next : Prog E R α → Option E
  | .ret _ => none
  | .call e _ => some e

@[simp] theorem next_call (e : E) (k : R e → Prog E R α) : (Prog.call e k).next = some e := rfl

/-- The program as part of one that performs other effects besides. -/
def embed {E' : Type} {R' : E' → Type} (f : E → E') (back : ∀ e, R' (f e) → R e) : Prog E R α → Prog E' R' α
  | .ret a => .ret a
  | .call e k => .call (f e) fun r => embed f back (k (back e r))

/-! ## Footprints -/

/-- Every effect the program can perform satisfies `P`. -/
def Uses (P : E → Prop) : Prog E R α → Prop
  | .ret _ => True
  | .call e k => P e ∧ ∀ r, Uses P (k r)

variable {P : E → Prop}

theorem uses_perform {e : E} : Uses P (perform e : Prog E R (R e)) ↔ P e :=
  and_iff_left fun _ => trivial

/-- Footprints compose. -/
theorem Uses.bind {p : Prog E R α} {f : α → Prog E R β}
    (hp : Uses P p) (hf : ∀ a, Uses P (f a)) : Uses P (p >>= f) := by
  induction p with
  | ret a => exact hf a
  | call e k ih => exact ⟨hp.1, fun r => ih r (hp.2 r)⟩

theorem Uses.mono {Q : E → Prop} {p : Prog E R α} (hPQ : ∀ e, P e → Q e) (hp : Uses P p) : Uses Q p := by
  induction p with
  | ret a => trivial
  | call e k ih => exact ⟨hPQ e hp.1, fun r => ih r (hp.2 r)⟩

/-- `Uses`, closed to evaluation. -/
structure Confined (P : E → Prop) (p : Prog E R α) : Prop where
  uses : p.Uses P

namespace Confined

theorem bind {p : Prog E R α} {f : α → Prog E R β} (hp : Confined P p) (hf : ∀ a, Confined P (f a)) :
    Confined P (p >>= f) := ⟨hp.uses.bind fun a => (hf a).uses⟩

theorem ret (a : α) : Confined P (.ret a : Prog E R α) := ⟨trivial⟩

theorem call {e : E} {k : R e → Prog E R α} (he : P e) (hk : ∀ r, Confined P (k r)) :
    Confined P (.call e k) := ⟨he, fun r => (hk r).uses⟩

theorem perform {e : E} (he : P e) : Confined P (perform e : Prog E R (R e)) := ⟨uses_perform.mpr he⟩

theorem mono {Q : E → Prop} (hPQ : ∀ e, P e → Q e) {p : Prog E R α} (hp : Confined P p) : Confined Q p :=
  ⟨hp.uses.mono hPQ⟩

end Confined

/-- However it is answered, the program performs an effect that satisfies `P`. -/
def Performs (P : E → Prop) : Prog E R α → Prop
  | .ret _ => False
  | .call e k => P e ∨ ∀ r, Performs P (k r)

theorem Performs.bind_left {p : Prog E R α} (hp : Performs P p) (f : α → Prog E R β) : Performs P (p >>= f) := by
  induction p with
  | ret a => exact hp.elim
  | call e k ih => exact hp.imp_right fun hk r => ih r (hk r)

theorem Performs.bind_right (p : Prog E R α) {f : α → Prog E R β} (hf : ∀ a, Performs P (f a)) :
    Performs P (p >>= f) := by
  induction p with
  | ret a => exact hf a
  | call e k ih => exact .inr ih

/-! ## Results -/

/-- The program can return `a` when every effect is answered as `ans` says. -/
inductive Returns (ans : (e : E) → R e → Prop) : Prog E R α → α → Prop where
  | ret (a : α) : Returns ans (.ret a) a
  | call {e : E} {k : R e → Prog E R α} {r : R e} {a : α} (h : ans e r) (hk : Returns ans (k r) a) :
      Returns ans (.call e k) a

variable {ans : (e : E) → R e → Prop}

@[simp] theorem returns_ret {a b : α} : Returns ans (.ret a : Prog E R α) b ↔ a = b :=
  ⟨fun h => by cases h; rfl, fun h => h ▸ .ret a⟩

@[simp] theorem returns_call {e : E} {k : R e → Prog E R α} {a : α} :
    Returns ans (.call e k) a ↔ ∃ r, ans e r ∧ Returns ans (k r) a :=
  ⟨fun h => by cases h with | call h hk => exact ⟨_, h, hk⟩, fun ⟨_, h, hk⟩ => .call h hk⟩

/-- However it is answered, what the program returns satisfies `Q`. -/
def Always (Q : α → Prop) : Prog E R α → Prop
  | .ret a => Q a
  | .call _ k => ∀ r, Always Q (k r)

theorem Always.bind {Q : α → Prop} {Q' : β → Prop} {p : Prog E R α} {f : α → Prog E R β} (hp : p.Always Q)
    (hf : ∀ a, Q a → (f a).Always Q') : (p >>= f).Always Q' := by
  induction p with
  | ret a => exact hf a hp
  | call e k ih => exact fun r => ih r (hp r)

theorem Always.of_returns {Q : α → Prop} {p : Prog E R α} {a : α} (hp : p.Always Q) (h : Returns ans p a) :
    Q a := by
  induction h with
  | ret a => exact hp
  | call _ _ ih => exact ih (hp _)

/-- Every effect satisfies `P`, and what the program returns satisfies `Q`. -/
structure Yields (P : E → Prop) (Q : α → Prop) (p : Prog E R α) : Prop where
  uses : p.Uses P
  always : p.Always Q

namespace Yields

variable {Q : α → Prop} {p : Prog E R α}

theorem ret {a : α} (h : Q a) : Yields P Q (.ret a : Prog E R α) := ⟨trivial, h⟩

theorem call {e : E} {k : R e → Prog E R α} (he : P e) (hk : ∀ r, Yields P Q (k r)) : Yields P Q (.call e k) :=
  ⟨⟨he, fun r => (hk r).uses⟩, fun r => (hk r).always⟩

theorem bind {Q' : β → Prop} {f : α → Prog E R β} (hp : Yields P Q p) (hf : ∀ a, Q a → Yields P Q' (f a)) :
    Yields P Q' (p >>= f) := by
  obtain ⟨huses, halways⟩ := hp
  induction p with
  | ret a => exact hf a halways
  | call e k ih => exact .call huses.1 fun r => ih r (huses.2 r) (halways r)

/-- Where the effects of the rest depend on what comes first. -/
theorem bind_confined {f : α → Prog E R β} (hp : Yields P Q p) (hf : ∀ a, Q a → Confined P (f a)) :
    Confined P (p >>= f) := by
  obtain ⟨huses, halways⟩ := hp
  induction p with
  | ret a => exact hf a halways
  | call e k ih => exact .call huses.1 fun r => ih r (huses.2 r) (halways r)

end Yields

theorem Confined.yields {p : Prog E R α} (h : Confined P p) : Yields P (fun _ => True) p := by
  obtain ⟨h⟩ := h
  induction p with
  | ret a => exact .ret trivial
  | call e k ih => exact .call h.1 fun r => ih r (h.2 r)

/-- What the program returns when every effect is answered by a function of the effect. -/
def answer (reply : (e : E) → R e) : Prog E R α → α
  | .ret a => a
  | .call e k => answer reply (k (reply e))

theorem returns_answer {reply : (e : E) → R e} (h : ∀ e, ans e (reply e)) (p : Prog E R α) :
    Returns ans p (p.answer reply) := by
  induction p with
  | ret a => exact .ret a
  | call e k ih => exact .call (h e) (ih _)

end Prog

end DeepOj.Conc
