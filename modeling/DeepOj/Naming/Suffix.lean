import Mathlib.Data.List.Induction
import Mathlib.Data.List.Nodup

/-!
# Names told apart by suffixes

Names are asked for, one after the other. Who asks for a name in use is given it with a suffix that
tells the key of the request; nobody looks whether that name is in use as well.
-/

namespace DeepOj.Naming

/-- A name that is asked for, under a key. -/
structure Request (K N : Type*) where
  key : K
  name : N
  deriving DecidableEq, Repr

section Clashes

variable {K N : Type*} (suffixed : N → K → N)

/-- Such a request comes to a name in use: an earlier one asks for it, or it is the name with which
an earlier one that came to a name in use was told apart. -/
inductive Repeats : List (Request K N) → Request K N → Prop where
  | asked {earlier : List (Request K N)} {r q : Request K N} :
      q ∈ earlier → q.name = r.name → Repeats earlier r
  | told {before after : List (Request K N)} {r q : Request K N} :
      Repeats before q → r.name = suffixed q.name q.key → Repeats (before ++ q :: after) r

/-- A request comes to a name in use, and an earlier one asks for the name it would be told apart by. -/
def Clash (rs : List (Request K N)) : Prop :=
  ∃ earlier r later, rs = earlier ++ r :: later ∧ Repeats suffixed earlier r ∧
    ∃ q ∈ earlier, q.name = suffixed r.name r.key

variable {suffixed}

theorem Repeats.mono {earlier : List (Request K N)} {r : Request K N} (h : Repeats suffixed earlier r)
    (more : List (Request K N)) : Repeats suffixed (earlier ++ more) r := by
  cases h with
  | asked hq hname => exact .asked (List.mem_append_left _ hq) hname
  | told hq hname =>
    rw [List.append_assoc, List.cons_append]
    exact .told hq hname

theorem clash_concat {rs : List (Request K N)} {r : Request K N} :
    Clash suffixed (rs ++ [r]) ↔
      Clash suffixed rs ∨ (Repeats suffixed rs r ∧ ∃ q ∈ rs, q.name = suffixed r.name r.key) := by
  constructor
  · rintro ⟨earlier, p, later, heq, hclash⟩
    rcases List.eq_nil_or_concat later with rfl | ⟨later, last, rfl⟩
    · obtain ⟨rfl, hlast⟩ := List.append_inj' heq rfl
      obtain rfl := List.singleton_inj.mp hlast
      exact .inr hclash
    · rw [List.concat_eq_append, ← List.cons_append, ← List.append_assoc] at heq
      exact .inl ⟨earlier, p, later, (List.append_inj' heq rfl).1, hclash⟩
  · rintro (⟨earlier, p, later, rfl, hclash⟩ | hclash)
    · exact ⟨earlier, p, later ++ [r], by simp, hclash⟩
    · exact ⟨rs, r, [], rfl, hclash⟩

end Clashes

section Assign

variable {K N : Type*} [DecidableEq N] (suffixed : N → K → N)

/-- The name a request is given while these are in use. -/
def pick (used : List N) (r : Request K N) : N :=
  if r.name ∈ used then suffixed r.name r.key else r.name

/-- The names the requests are given, in order. -/
def assign (used : List N) : List (Request K N) → List N
  | [] => []
  | r :: rs => pick suffixed used r :: assign (pick suffixed used r :: used) rs

/-- The names that are given where none is in use at first. -/
def names (rs : List (Request K N)) : List N := assign suffixed [] rs

variable {suffixed}

/-! ## What is in use -/

theorem pick_of_mem {used : List N} {r : Request K N} (h : r.name ∈ used) :
    pick suffixed used r = suffixed r.name r.key := if_pos h

theorem pick_of_notMem {used : List N} {r : Request K N} (h : r.name ∉ used) :
    pick suffixed used r = r.name := if_neg h

/-- It makes no difference in which order the names came into use. -/
theorem pick_congr {used used' : List N} (h : ∀ x, x ∈ used ↔ x ∈ used') (r : Request K N) :
    pick suffixed used r = pick suffixed used' r := by
  unfold pick
  simp only [h]

theorem assign_append (used : List N) (rs rs' : List (Request K N)) :
    assign suffixed used (rs ++ rs') =
      assign suffixed used rs ++ assign suffixed ((assign suffixed used rs).reverse ++ used) rs' := by
  induction rs generalizing used with
  | nil => rfl
  | cons r rs ih =>
    show pick suffixed used r :: assign suffixed _ (rs ++ rs') = _
    rw [ih]
    simp [assign]

/-- The last request is given its name while all the others are in use. -/
theorem names_concat (rs : List (Request K N)) (r : Request K N) :
    names suffixed (rs ++ [r]) = names suffixed rs ++ [pick suffixed (names suffixed rs) r] := by
  unfold names
  rw [assign_append]
  show _ ++ [pick suffixed _ r] = _
  have hsame : ∀ x, x ∈ (assign suffixed [] rs).reverse ++ [] ↔ x ∈ assign suffixed [] rs := by simp
  rw [pick_congr hsame]

theorem names_subset (rs rs' : List (Request K N)) : names suffixed rs ⊆ names suffixed (rs ++ rs') := by
  unfold names
  rw [assign_append]
  exact List.subset_append_left _ _

/-- A name that is asked for is in use from then on. -/
theorem name_mem_names {rs : List (Request K N)} {q : Request K N} (hq : q ∈ rs) :
    q.name ∈ names suffixed rs := by
  induction rs using List.reverseRecOn with
  | nil => cases hq
  | append_singleton rs r ih =>
    rw [names_concat]
    rcases List.mem_append.mp hq with hq | hq
    · exact List.mem_append_left _ (ih hq)
    · obtain rfl := List.mem_singleton.mp hq
      by_cases hused : q.name ∈ names suffixed rs
      · exact List.mem_append_left _ hused
      · rw [pick_of_notMem hused]
        exact List.mem_append_right _ (List.mem_singleton_self _)

/-- Whose name a name in use is. -/
theorem exists_of_mem_names {rs : List (Request K N)} {x : N} (hx : x ∈ names suffixed rs) :
    ∃ before q after, rs = before ++ q :: after ∧ x = pick suffixed (names suffixed before) q := by
  induction rs using List.reverseRecOn with
  | nil => cases hx
  | append_singleton rs r ih =>
    rw [names_concat] at hx
    rcases List.mem_append.mp hx with hx | hx
    · obtain ⟨before, q, after, rfl, hpick⟩ := ih hx
      exact ⟨before, q, after ++ [r], by simp, hpick⟩
    · exact ⟨rs, r, [], rfl, List.mem_singleton.mp hx⟩

/-- The names in use are those that requests so far have asked for or have been told apart by. -/
theorem repeats_iff {earlier : List (Request K N)} {r : Request K N} :
    Repeats suffixed earlier r ↔ r.name ∈ names suffixed earlier := by
  constructor
  · intro h
    induction h with
    | asked hq hname =>
      rw [← hname]
      exact name_mem_names hq
    | @told before after r q _ hname ih =>
      have hgiven : r.name ∈ names suffixed (before ++ [q]) := by
        rw [names_concat, pick_of_mem ih, hname]
        exact List.mem_append_right _ (List.mem_singleton_self _)
      have hmore : r.name ∈ names suffixed ((before ++ [q]) ++ after) := names_subset _ after hgiven
      rwa [List.append_assoc] at hmore
  · intro h
    induction earlier using List.reverseRecOn generalizing r with
    | nil => cases h
    | append_singleton earlier q ih =>
      rw [names_concat] at h
      rcases List.mem_append.mp h with h | h
      · exact (ih h).mono [q]
      · have hname := List.mem_singleton.mp h
        by_cases hused : q.name ∈ names suffixed earlier
        · rw [pick_of_mem hused] at hname
          exact .told (ih hused) hname
        · rw [pick_of_notMem hused] at hname
          exact .asked (List.mem_append_right _ (List.mem_singleton_self q)) hname.symm

/-! ## When the names are distinct -/

/-- A request is given a name in use exactly if it clashes: two that are told apart have other keys. -/
theorem pick_mem_iff (hkey : ∀ a k b l, suffixed a k = suffixed b l → k = l) {earlier : List (Request K N)}
    {r : Request K N} (hr : r.key ∉ earlier.map Request.key) :
    pick suffixed (names suffixed earlier) r ∈ names suffixed earlier ↔
      Repeats suffixed earlier r ∧ ∃ q ∈ earlier, q.name = suffixed r.name r.key := by
  rw [repeats_iff]
  constructor
  · intro hmem
    by_cases hused : r.name ∈ names suffixed earlier
    · refine ⟨hused, ?_⟩
      rw [pick_of_mem hused] at hmem
      obtain ⟨before, q, after, rfl, hpick⟩ := exists_of_mem_names hmem
      have hq : q ∈ before ++ q :: after := List.mem_append_right _ List.mem_cons_self
      refine ⟨q, hq, ?_⟩
      by_cases hqused : q.name ∈ names suffixed before
      · -- the suffix tells the key, which is the request's own
        rw [pick_of_mem hqused] at hpick
        exact absurd (List.mem_map.mpr ⟨q, hq, (hkey _ _ _ _ hpick).symm⟩) hr
      · rw [pick_of_notMem hqused] at hpick
        exact hpick.symm
    · rw [pick_of_notMem hused] at hmem
      exact absurd hmem hused
  · rintro ⟨hused, q, hq, hname⟩
    rw [pick_of_mem hused, ← hname]
    exact name_mem_names hq

/-- The names are pairwise distinct exactly if no request clashes. -/
theorem nodup_names_iff (hkey : ∀ a k b l, suffixed a k = suffixed b l → k = l) {rs : List (Request K N)}
    (hkeys : (rs.map Request.key).Nodup) : (names suffixed rs).Nodup ↔ ¬ Clash suffixed rs := by
  induction rs using List.reverseRecOn with
  | nil =>
    refine iff_of_true List.nodup_nil ?_
    rintro ⟨earlier, r, later, heq, _⟩
    cases earlier <;> cases heq
  | append_singleton rs r ih =>
    rw [List.map_append, List.map_singleton, ← List.concat_eq_append, List.nodup_concat] at hkeys
    rw [names_concat, ← List.concat_eq_append, List.nodup_concat, ih hkeys.2, clash_concat,
      pick_mem_iff hkey hkeys.1, not_or]
    exact and_comm

end Assign

end DeepOj.Naming
