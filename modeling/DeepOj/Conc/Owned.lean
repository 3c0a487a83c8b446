import DeepOj.Conc.Record

/-!
# Names with one owner

A thread comes to own a name that has not been used before. What belongs to a name is changed by
its owner, and by the others only in ways that the owner puts up with; so the owner may rely on
what it knows of it.
-/

namespace DeepOj.Conc

variable {W E : Type} {R : E → Type} {C V G ι X : Type}

/-- Which name a record owns, what belongs to a name, and what its owner knows of that. -/
structure Ownership (W G ι X : Type) where
  own : G → Option ι
  view : W → ι → X
  Used : W → ι → Prop
  /-- What others may do to what belongs to a name. -/
  Meddle : X → X → Prop
  Knows : ι → G → X → Prop
  knows_meddle : ∀ x g v v', Meddle v v' → Knows x g v → Knows x g v'

namespace Ownership

variable (O : Ownership W G ι X)

/-- A thread, its record being `g` before and `g'` after, has taken the world from `w` to `w'`. -/
structure Fair (w w' : W) (g g' : G) : Prop where
  used : ∀ x, O.Used w x → O.Used w' x
  own : O.own g' = O.own g ∨ ∃ x, O.own g' = some x ∧ ¬ O.Used w x ∧ O.Used w' x
  meddle : ∀ x, O.Used w x → O.own g' ≠ some x → O.Meddle (O.view w x) (O.view w' x)
  knows : ∀ x, O.own g' = some x → (O.own g = some x → O.Knows x g (O.view w x)) → O.Knows x g' (O.view w' x)

/-- No name has two owners, and each owner knows its own. -/
structure Holds (w : W) (gs : List G) : Prop where
  apart : ∀ (i j : Nat) (g g' : G) (x : ι), gs[i]? = some g → gs[j]? = some g' →
    O.own g = some x → O.own g' = some x → i = j
  used : ∀ g ∈ gs, ∀ x, O.own g = some x → O.Used w x
  knows : ∀ g ∈ gs, ∀ x, O.own g = some x → O.Knows x g (O.view w x)

variable {O} {w w' : W} {g g' : G} {gs : List G}

theorem holds_nil : O.Holds w [] where
  apart i j g g' x hg := by
    rw [List.getElem?_nil] at hg
    cases hg
  used _ hg := absurd hg List.not_mem_nil
  knows _ hg := absurd hg List.not_mem_nil

namespace Holds

/-- The owner of a name is known by its place. -/
theorem not_owned (h : O.Holds w gs) {i j : Nat} {x : ι} (hi : gs[i]? = some g) (hfair : O.Fair w w' g g')
    (hown : O.own g' = some x) (hij : j ≠ i) {a : G} (hj : gs[j]? = some a) : O.own a ≠ some x := by
  intro ha
  obtain hsame | ⟨y, hy, hfresh, _⟩ := hfair.own
  · exact hij (h.apart j i a g x hj hi ha (hsame ▸ hown))
  · rw [hown] at hy
    cases hy
    exact hfresh (h.used a (List.mem_of_getElem? hj) x ha)

/-- A step of one thread. -/
theorem set (h : O.Holds w gs) {i : Nat} (hi : gs[i]? = some g) (hfair : O.Fair w w' g g') :
    O.Holds w' (gs.set i g') := by
  have hlt : i < gs.length := (List.getElem?_eq_some_iff.mp hi).1
  have hcases : ∀ {j : Nat} {a : G}, (gs.set i g')[j]? = some a →
      (j = i ∧ a = g') ∨ (j ≠ i ∧ gs[j]? = some a) := by
    intro j a hj
    by_cases hij : j = i
    · subst hij
      rw [List.getElem?_set_self hlt] at hj
      exact .inl ⟨rfl, (Option.some.inj hj).symm⟩
    · rw [List.getElem?_set_ne (Ne.symm hij)] at hj
      exact .inr ⟨hij, hj⟩
  refine ⟨fun j k a b x ha hb hax hbx => ?_, fun a hmem x hax => ?_, fun a hmem x hax => ?_⟩
  · obtain ⟨rfl, rfl⟩ | ⟨hji, hja⟩ := hcases ha
    · obtain ⟨rfl, rfl⟩ | ⟨hki, hkb⟩ := hcases hb
      · rfl
      · exact absurd hbx (h.not_owned hi hfair hax hki hkb)
    · obtain ⟨rfl, rfl⟩ | ⟨hki, hkb⟩ := hcases hb
      · exact absurd hax (h.not_owned hi hfair hbx hji hja)
      · exact h.apart j k a b x hja hkb hax hbx
  · obtain ⟨j, hj⟩ := List.getElem?_of_mem hmem
    obtain ⟨rfl, rfl⟩ | ⟨_, hj⟩ := hcases hj
    · obtain hsame | ⟨y, hy, _, hused⟩ := hfair.own
      · exact hfair.used x (h.used g (List.mem_of_getElem? hi) x (hsame ▸ hax))
      · rw [hax] at hy
        cases hy
        exact hused
    · exact hfair.used x (h.used a (List.mem_of_getElem? hj) x hax)
  · obtain ⟨j, hj⟩ := List.getElem?_of_mem hmem
    obtain ⟨rfl, rfl⟩ | ⟨hji, hj⟩ := hcases hj
    · exact hfair.knows x hax fun hg => h.knows g (List.mem_of_getElem? hi) x hg
    · have hmem := List.mem_of_getElem? hj
      refine O.knows_meddle x a _ _ (hfair.meddle x (h.used a hmem x hax) fun hg => ?_) (h.knows a hmem x hax)
      exact h.not_owned hi hfair hg hji hj hax

/-- A thread that starts owns nothing. -/
theorem append (h : O.Holds w gs) (hused : ∀ x, O.Used w x → O.Used w' x)
    (hmeddle : ∀ x, O.Used w x → O.Meddle (O.view w x) (O.view w' x)) {gs' : List G}
    (hnew : ∀ g ∈ gs', O.own g = none) :
    O.Holds w' (gs ++ gs') := by
  have hold : ∀ {a x}, a ∈ gs ++ gs' → O.own a = some x → a ∈ gs := by
    intro a x hmem hax
    refine (List.mem_append.mp hmem).resolve_right fun hmem => ?_
    rw [hnew a hmem] at hax
    cases hax
  have hindex : ∀ {j : Nat} {a : G} {x : ι}, (gs ++ gs')[j]? = some a → O.own a = some x → gs[j]? = some a := by
    intro j a x hj hax
    by_cases hlt : j < gs.length
    · rwa [List.getElem?_append_left hlt] at hj
    · rw [List.getElem?_append_right (Nat.le_of_not_lt hlt)] at hj
      rw [hnew a (List.mem_of_getElem? hj)] at hax
      cases hax
  refine ⟨fun j k a b x ha hb hax hbx => ?_, fun a hmem x hax => ?_, fun a hmem x hax => ?_⟩
  · exact h.apart j k a b x (hindex ha hax) (hindex hb hbx) hax hbx
  · exact hused x (h.used a (hold hmem hax) x hax)
  · have hmem := hold hmem hax
    exact O.knows_meddle x a _ _ (hmeddle x (h.used a hmem x hax)) (h.knows a hmem x hax)

/-- One move of a machine whose effects start no threads. -/
theorem record {M : Machine W E R C V} {K : Recorder E R V G} {s s' : RecordedConfig W E R G} {m : Move C V}
    (h : O.Holds s.world (s.threads.map Prod.fst)) (hforks : ∀ e, M.forks e = [])
    (hcall : ∀ (i : Nat) c g e k w r, s.threads[i]? = some (g, .call e k) → M.sem s.world e c = some (w, r) →
      O.Fair s.world w g (K.next g e r))
    (henv : ∀ v w ps, M.env s.world v = some (w, ps) → (∀ x, O.Used s.world x → O.Used w x) ∧
      (∀ x, O.Used s.world x → O.Meddle (O.view s.world x) (O.view w x)) ∧ O.own (K.start v) = none)
    (hstep : M.record K s m = some s') : O.Holds s'.world (s'.threads.map Prod.fst) := by
  obtain ⟨i, c, g, e, k, w, r, rfl, hi, hsem, rfl⟩ | ⟨i, rfl, rfl⟩ | ⟨v, w, ps, rfl, hv, rfl⟩ :=
    Machine.record_cases hstep
  · rw [hforks e, List.map_nil, List.append_nil, List.map_set]
    refine h.set ?_ (hcall i c g e k w r hi hsem)
    rw [List.getElem?_map, hi]
    rfl
  · rw [Machine.records_crash]
    exact h
  · obtain ⟨hused, hmeddle, hown⟩ := henv v w ps hv
    rw [List.map_append, List.map_map]
    refine h.append hused hmeddle fun g hg => ?_
    obtain ⟨p, _, rfl⟩ := List.mem_map.mp hg
    exact hown

end Holds

end Ownership

end DeepOj.Conc
