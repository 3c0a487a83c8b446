import Mathlib.Data.List.Pairwise

/-!
# Tables with unique constraints

Each constraint gives a row a key, or none where its columns are null. No two rows of a table
have a key in common.
-/

namespace DeepOj.Sql

variable {R ι : Type} {κ : ι → Type}

/-- The rows of a table, newest first. -/
structure Table (key : (i : ι) → R → Option (κ i)) where
  rows : List R
  unique : rows.Pairwise fun r r' => ∀ i k, key i r = some k → key i r' ≠ some k

namespace Table

variable {key : (i : ι) → R → Option (κ i)} (t : Table key)

/-- The row has a key that is in the table. -/
def Violates (r : R) (i : ι) : Prop := ∃ r' ∈ t.rows, key i r' = key i r ∧ (key i r).isSome

instance [∀ i, DecidableEq (κ i)] (r : R) (i : ι) : Decidable (t.Violates r i) :=
  inferInstanceAs (Decidable (∃ r' ∈ t.rows, _))

/-- Add a row that violates nothing. -/
def insert (r : R) (h : ∀ i, ¬ t.Violates r i) : Table key where
  rows := r :: t.rows
  unique := by
    refine List.pairwise_cons.mpr ⟨?_, t.unique⟩
    intro r' hr' i k hk hk'
    apply h i
    rw [Violates, hk]
    exact ⟨r', hr', hk', rfl⟩

/-- Change the rows, but not their keys. -/
def update (f : R → R) (h : ∀ i r, key i (f r) = key i r) : Table key where
  rows := t.rows.map f
  unique := by
    refine List.pairwise_map.mpr (t.unique.imp ?_)
    intro r r' hne i k hk
    rw [h] at hk ⊢
    exact hne i k hk

variable {t} {r r' : R} {i : ι} {k : κ i}

@[simp] theorem rows_insert {h : ∀ i, ¬ t.Violates r i} : (t.insert r h).rows = r :: t.rows := rfl

@[simp] theorem rows_update {f : R → R} {h : ∀ i r, key i (f r) = key i r} :
    (t.update f h).rows = t.rows.map f := rfl

/-- A key tells the row. -/
theorem eq_of_key (hr : r ∈ t.rows) (hr' : r' ∈ t.rows) (hk : key i r = some k) (hk' : key i r' = some k) :
    r = r' := by
  by_contra hne
  have hsymm : Std.Symm fun r r' : R => ∀ i k, key i r = some k → key i r' ≠ some k :=
    ⟨fun _ _ h i k hk hk' => h i k hk' hk⟩
  exact t.unique.forall hr hr' hne i k hk hk'

/-- At most one row has the key. -/
theorem countP_key_le [∀ i, DecidableEq (κ i)] (t : Table key) (i : ι) (k : κ i) :
    t.rows.countP (fun r => decide (key i r = some k)) ≤ 1 := by
  obtain ⟨rows, hunique⟩ := t
  show rows.countP _ ≤ 1
  induction rows with
  | nil => exact Nat.zero_le 1
  | cons r rows ih =>
    obtain ⟨hhead, htail⟩ := List.pairwise_cons.mp hunique
    by_cases hk : key i r = some k
    · have hrest : rows.countP (fun r => decide (key i r = some k)) = 0 := by
        rw [List.countP_eq_zero]
        intro r' hr'
        rw [decide_eq_true_iff]
        exact hhead r' hr' i k hk
      have hcount : (r :: rows).countP (fun r => decide (key i r = some k)) = 1 := by
        rw [List.countP_cons, hrest, if_pos (decide_eq_true hk)]
      exact Nat.le_of_eq hcount
    · rw [List.countP_cons, if_neg (by rwa [decide_eq_true_iff])]
      exact ih htail

end Table

end DeepOj.Sql
