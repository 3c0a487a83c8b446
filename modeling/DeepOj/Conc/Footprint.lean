import DeepOj.Conc.Sharing

/-!
# Reading nothing stale

A shared resource made of cells. For one party a cell is stale when another party
has changed it since it last depended on the party's own steps alone. A party that
reads no stale cell does not notice the others.
-/

namespace DeepOj.Conc

/-- Which cells of the resource the steps of a party read and change, and what the new content
of a cell depends on. -/
structure Footprint {R S O : Type} (sys : Sharing R S O) (K : Type) (V : K → Type) where
  look : (k : K) → R → V k
  reads : S → List K
  changes : S → K → Bool
  deps : S → K → List K
  observe_congr : ∀ p r r', (∀ k ∈ reads p, look k r = look k r') →
    sys.observe p r = sys.observe p r'
  effect_congr : ∀ p r r' k, (∀ k' ∈ deps p k, look k' r = look k' r') →
    look k (sys.effect p r) = look k (sys.effect p r')
  effect_frame : ∀ p r k, changes p k = false → look k (sys.effect p r) = look k r

namespace Footprint

variable {ι R S O K : Type} {V : K → Type} [DecidableEq ι] {sys : Sharing R S O}
  (F : Footprint sys K V) {s : Shared ι R S} {i j : ι} {order : List ι}

/-- What is stale for party `i` after party `j` has moved. -/
def mark (i j : ι) (p : S) (stale : K → Bool) (k : K) : Bool :=
  if j = i then (F.deps p k).any stale else stale k || F.changes p k

def staleFrom (i : ι) : Shared ι R S → (K → Bool) → List ι → K → Bool
  | _, stale, [] => stale
  | s, stale, j :: order => staleFrom i (sys.step s j) (F.mark i j (s.parties j) stale) order

/-- What is stale for party `i` after these moves. -/
def stale (s : Shared ι R S) (i : ι) (order : List ι) : K → Bool :=
  F.staleFrom i s (fun _ => false) order

variable {F}

theorem staleFrom_concat (marks : K → Bool) (pre : List ι) (j : ι) :
    F.staleFrom i s marks (pre ++ [j]) =
      F.mark i j ((sys.exec s pre).parties j) (F.staleFrom i s marks pre) := by
  induction pre generalizing s marks with
  | nil => rfl
  | cons x pre ih => exact ih _

theorem stale_concat (pre : List ι) (j : ι) :
    F.stale s i (pre ++ [j]) = F.mark i j ((sys.exec s pre).parties j) (F.stale s i pre) :=
  staleFrom_concat _ pre j

/-- Party `i` is about to read no stale cell. -/
def ReadsFresh (F : Footprint sys K V) (s : Shared ι R S) (i : ι) (order : List ι) : Prop :=
  ∀ k ∈ F.reads ((sys.exec s order).parties i), F.stale s i order k = false

/-- As long as it reads nothing stale, a party is where it would be alone, and so is every cell
that is not stale. -/
theorem agree (pre : List ι) (h : ∀ q, q ++ [i] <+: pre → F.ReadsFresh s i q) :
    sys.InStep s i pre ∧ ∀ k, F.stale s i pre k = false →
      F.look k (sys.exec s pre).resource = F.look k (sys.alone s i pre).resource := by
  induction pre using List.reverseRecOn with
  | nil => exact ⟨rfl, fun _ _ => rfl⟩
  | append_singleton pre j ih =>
    obtain ⟨hin, hcells⟩ := ih fun q hq => h q (hq.trans (List.prefix_append pre [j]))
    constructor
    · refine hin.concat ?_
      rintro rfl
      have hfresh := h pre (List.prefix_refl _)
      exact F.observe_congr _ _ _ fun k hk => hcells k (hfresh k hk)
    · intro k hk
      rw [stale_concat, mark] at hk
      rw [Sharing.exec_concat]
      by_cases hj : j = i
      · subst hj
        rw [if_pos rfl] at hk
        rw [Sharing.alone_concat_self]
        -- both take the same step, on cells that agree
        show F.look k (sys.effect ((sys.exec s pre).parties j) _) =
          F.look k (sys.effect ((sys.alone s j pre).parties j) _)
        unfold Sharing.InStep at hin
        rw [← hin]
        refine F.effect_congr _ _ _ _ fun k' hk' => hcells k' ?_
        exact Bool.eq_false_iff.mpr fun hs => absurd hk (by
          rw [Bool.not_eq_false, List.any_eq_true]
          exact ⟨k', hk', hs⟩)
      · rw [if_neg hj, Bool.or_eq_false_iff] at hk
        rw [Sharing.alone_concat_other hj]
        show F.look k (sys.effect ((sys.exec s pre).parties j) _) = _
        rw [F.effect_frame _ _ _ hk.2]
        exact hcells k hk.1

section View

variable {A : Type} {view : S → Option A}

/-- What a party has settled on stays. -/
theorem view_append (hkeep : ∀ p o a, view p = some a → view (sys.next p o) = some a) {pre : List ι}
    {a : A} (h : view ((sys.exec s pre).parties i) = some a) (post : List ι) :
    view ((sys.exec s (pre ++ post)).parties i) = some a := by
  induction post using List.reverseRecOn with
  | nil => rwa [List.append_nil]
  | append_singleton post j ih =>
    rw [← List.append_assoc, Sharing.exec_concat]
    by_cases hj : j = i
    · subst hj
      rw [Sharing.step_parties_self]
      exact hkeep _ _ _ ih
    · rw [Sharing.step_parties_other hj]
      exact ih

/-- A party that reads nothing stale until it settles on something settles on what it would have
settled on alone. -/
theorem view_eq (view : S → Option A)
    (hkeep : ∀ p o a, view p = some a → view (sys.next p o) = some a)
    (h : ∀ q, q ++ [i] <+: order → view ((sys.exec s q).parties i) = none → F.ReadsFresh s i q) :
    view ((sys.exec s order).parties i) = view ((sys.alone s i order).parties i) := by
  induction order using List.reverseRecOn with
  | nil => rfl
  | append_singleton pre j ih =>
    have hpre := ih fun q hq => h q (hq.trans (List.prefix_append pre [j]))
    cases hv : view ((sys.exec s pre).parties i) with
    | none =>
      -- it had not settled before either, so it has read nothing stale so far
      have hnone : ∀ q, q <+: pre → view ((sys.exec s q).parties i) = none := by
        rintro q ⟨post, rfl⟩
        cases hq : view ((sys.exec s q).parties i) with
        | none => rfl
        | some a =>
          rw [view_append hkeep hq post] at hv
          cases hv
      have hin := (agree (F := F) (s := s) (i := i) (pre ++ [j]) fun q hq => by
        refine h q hq (hnone q ?_)
        rw [List.prefix_concat_iff] at hq
        rcases hq with hq | hq
        · have hqp : q = pre := (List.append_inj' hq rfl).1
          subst hqp
          exact List.prefix_refl _
        · exact (List.prefix_append q [i]).trans hq).1
      exact congrArg view hin
    | some a =>
      rw [hv] at hpre
      rw [view_append hkeep hv [j]]
      by_cases hj : j = i
      · subst hj
        rw [Sharing.alone_concat_self, Sharing.step_parties_self]
        exact (hkeep _ _ _ hpre.symm).symm
      · rw [Sharing.alone_concat_other hj]
        exact hpre

end View

end Footprint

end DeepOj.Conc
