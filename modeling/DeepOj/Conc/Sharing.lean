import Mathlib.Data.List.Induction
import Mathlib.Logic.Function.Basic
import Mathlib.Tactic.Common

/-!
# Parties that share a resource

Each party reads the resource, changes it, and goes on with what it has read.
A party is undisturbed if it never notices whether the others move at all.
-/

namespace DeepOj.Conc

/-- What a step of a party in state `S` does with a resource `R` that it observes as `O`. -/
structure Sharing (R S O : Type) where
  observe : S → R → O
  effect : S → R → R
  next : S → O → S

/-- The resource, and the state of each party. -/
structure Shared (ι R S : Type) where
  resource : R
  parties : ι → S

namespace Sharing

variable {ι R S O : Type} [DecidableEq ι] (sys : Sharing R S O)

/-- What party `i` reads if it moves now. -/
def seen (s : Shared ι R S) (i : ι) : O :=
  sys.observe (s.parties i) s.resource

/-- One step of party `i`. -/
def step (s : Shared ι R S) (i : ι) : Shared ι R S :=
  { resource := sys.effect (s.parties i) s.resource
    parties := Function.update s.parties i (sys.next (s.parties i) (sys.seen s i)) }

/-- The parties move in this order. -/
def exec (s : Shared ι R S) (order : List ι) : Shared ι R S :=
  order.foldl sys.step s

/-- As `exec`, but only party `i` takes its steps. -/
def alone (s : Shared ι R S) (i : ι) (order : List ι) : Shared ι R S :=
  sys.exec s (order.filter (· = i))

variable {sys} {s : Shared ι R S} {i j : ι} {order : List ι}

theorem exec_append (pre post : List ι) :
    sys.exec s (pre ++ post) = sys.exec (sys.exec s pre) post :=
  List.foldl_append

theorem exec_concat (pre : List ι) (j : ι) :
    sys.exec s (pre ++ [j]) = sys.step (sys.exec s pre) j :=
  exec_append pre [j]

theorem alone_concat_self (pre : List ι) :
    sys.alone s i (pre ++ [i]) = sys.step (sys.alone s i pre) i := by
  unfold alone
  rw [List.filter_append, exec_append]
  simp [exec]

theorem alone_concat_other (h : j ≠ i) (pre : List ι) :
    sys.alone s i (pre ++ [j]) = sys.alone s i pre := by
  unfold alone
  rw [List.filter_append]
  simp [h]

@[simp] theorem step_parties_self : (sys.step s i).parties i = sys.next (s.parties i) (sys.seen s i) :=
  Function.update_self ..

@[simp] theorem step_parties_other (h : j ≠ i) : (sys.step s j).parties i = s.parties i :=
  Function.update_of_ne h.symm ..

/-- Party `i` is where it would be had the others not moved. -/
def InStep (sys : Sharing R S O) (s : Shared ι R S) (i : ι) (order : List ι) : Prop :=
  (sys.exec s order).parties i = (sys.alone s i order).parties i

/-- What party `i` reads next is what it would find had the others not moved. -/
def ReadsOwn (sys : Sharing R S O) (s : Shared ι R S) (i : ι) (order : List ι) : Prop :=
  sys.observe ((sys.exec s order).parties i) (sys.exec s order).resource =
    sys.observe ((sys.exec s order).parties i) (sys.alone s i order).resource

/-- A party stays in step while it reads its own. -/
theorem InStep.concat {pre : List ι} (h : sys.InStep s i pre)
    (hown : j = i → sys.ReadsOwn s i pre) : sys.InStep s i (pre ++ [j]) := by
  unfold InStep at h ⊢
  rw [exec_concat]
  by_cases hj : j = i
  · subst hj
    have hread := hown rfl
    unfold ReadsOwn at hread
    rw [alone_concat_self, step_parties_self, step_parties_self]
    unfold seen
    rw [hread, h]
  · rw [alone_concat_other hj, step_parties_other hj, h]

/-- A party in step that shows the same after a step as it would alone has read its own. -/
theorem InStep.readsOwn {V : Type} {view : S → V} {pre : List ι} (h : sys.InStep s i pre)
    (htells : ∀ p r r', view (sys.next p (sys.observe p r)) = view (sys.next p (sys.observe p r')) →
      sys.observe p r = sys.observe p r')
    (hview : view ((sys.exec s (pre ++ [i])).parties i) =
      view ((sys.alone s i (pre ++ [i])).parties i)) : sys.ReadsOwn s i pre := by
  rw [exec_concat, alone_concat_self, step_parties_self, step_parties_self] at hview
  unfold InStep at h
  unfold seen at hview
  rw [← h] at hview
  exact htells _ _ _ hview

/-- A party that always reads its own is always in step. -/
theorem inStep_of_readsOwn (h : ∀ pre, pre ++ [i] <+: order → sys.ReadsOwn s i pre) :
    ∀ pre, pre <+: order → sys.InStep s i pre := by
  intro pre
  induction pre using List.reverseRecOn with
  | nil => intro _; rfl
  | append_singleton pre j ih =>
    intro hpre
    have hinit : pre <+: order := (List.prefix_append pre [j]).trans hpre
    refine (ih hinit).concat ?_
    rintro rfl
    exact h pre hpre

/-- If what a party shows of itself tells what it has read, then it shows at every moment what
it would show alone exactly when it reads its own at every step. -/
theorem shows_alike_iff {V : Type} (view : S → V)
    (htells : ∀ p r r', view (sys.next p (sys.observe p r)) = view (sys.next p (sys.observe p r')) →
      sys.observe p r = sys.observe p r') :
    (∀ pre, pre <+: order →
        view ((sys.exec s pre).parties i) = view ((sys.alone s i pre).parties i)) ↔
      ∀ pre, pre ++ [i] <+: order → sys.ReadsOwn s i pre := by
  constructor
  · intro hview
    -- by induction on the prefix: being in step turns equal views into equal reads
    have hin : ∀ pre, pre <+: order → sys.InStep s i pre := by
      intro pre
      induction pre using List.reverseRecOn with
      | nil => intro _; rfl
      | append_singleton pre j ih =>
        intro hpre
        have hpres := ih ((List.prefix_append pre [j]).trans hpre)
        refine hpres.concat ?_
        rintro rfl
        exact hpres.readsOwn htells (hview _ hpre)
    intro pre hpre
    exact (hin pre ((List.prefix_append pre [i]).trans hpre)).readsOwn htells (hview _ hpre)
  · intro hown pre hpre
    exact congrArg view (inStep_of_readsOwn hown pre hpre)

end Sharing

end DeepOj.Conc
