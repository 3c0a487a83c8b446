import Mathlib.Data.List.Perm.Basic
import Mathlib.Data.List.Nodup

/-!
# `container/list`

A list of elements that are known by their addresses. An element keeps its address
and its value wherever it is moved.
-/

namespace DeepOj.Go

/-- A `list.List`: its elements from the front, each with its address. -/
abbrev LinkedList (α : Type) := List (Nat × α)

namespace LinkedList

variable {α : Type}

/-- `PushFront`, of a new element. -/
def pushFront (l : LinkedList α) (e : Nat) (v : α) : LinkedList α := (e, v) :: l

def remove (l : LinkedList α) (e : Nat) : LinkedList α := l.filter (·.1 ≠ e)

def moveToFront (l : LinkedList α) (e : Nat) : LinkedList α :=
  match l.find? (·.1 = e) with
  | some x => x :: remove l e
  | none => l

def back (l : LinkedList α) : Option (Nat × α) := l.getLast?

/-- No two elements share an address. -/
def Distinct (l : LinkedList α) : Prop := (l.map Prod.fst).Nodup

variable {l : LinkedList α} {x y : Nat × α} {e : Nat} {v : α}

theorem Distinct.eq_of_mem (h : Distinct l) (hx : x ∈ l) (hy : y ∈ l) (heq : x.1 = y.1) : x = y :=
  List.inj_on_of_nodup_map h hx hy heq

theorem Distinct.remove (h : Distinct l) : Distinct (remove l e) :=
  h.sublist (List.filter_sublist.map _)

theorem Distinct.pushFront (h : Distinct l) (hnew : ∀ x ∈ l, x.1 ≠ e) : Distinct (pushFront l e v) := by
  refine List.nodup_cons.mpr ⟨?_, h⟩
  intro hmem
  obtain ⟨x, hx, heq⟩ := List.mem_map.mp hmem
  exact hnew x hx heq

theorem mem_remove : x ∈ remove l e ↔ x ∈ l ∧ x.1 ≠ e := by
  simp [remove]

/-- An element that is in the list comes to the front. -/
theorem moveToFront_of_mem (h : Distinct l) (hx : x ∈ l) : moveToFront l x.1 = x :: remove l x.1 := by
  unfold moveToFront
  have hsome : (l.find? (·.1 = x.1)).isSome = true := List.find?_isSome.mpr ⟨x, hx, by simp⟩
  obtain ⟨y, hy⟩ := Option.isSome_iff_exists.mp hsome
  have heq : y.1 = x.1 := by simpa using List.find?_some hy
  rw [hy, h.eq_of_mem (List.mem_of_find?_eq_some hy) hx heq]

/-- What is taken out and put in front is a rearrangement. -/
theorem cons_remove_perm (h : Distinct l) (hx : x ∈ l) : (x :: remove l x.1).Perm l := by
  induction l with
  | nil => cases hx
  | cons y l ih =>
    obtain ⟨hnot, htail⟩ := List.nodup_cons.mp h
    have hother : ∀ z ∈ l, z.1 ≠ y.1 := by
      intro z hz heq
      exact hnot (heq ▸ List.mem_map_of_mem hz)
    rcases List.mem_cons.mp hx with rfl | hx
    · have hkeep : remove (x :: l) x.1 = l := by
        unfold remove
        rw [List.filter_cons_of_neg (by simp), List.filter_eq_self]
        intro z hz
        simpa using hother z hz
      rw [hkeep]
    · have hkeep : remove (y :: l) x.1 = y :: remove l x.1 := by
        unfold remove
        rw [List.filter_cons_of_pos (by simpa using (hother x hx).symm)]
      rw [hkeep]
      exact (List.Perm.swap y x _).trans ((ih htail hx).cons y)

theorem moveToFront_perm (h : Distinct l) (hx : x ∈ l) : (moveToFront l x.1).Perm l := by
  rw [moveToFront_of_mem h hx]
  exact cons_remove_perm h hx

end LinkedList

end DeepOj.Go
