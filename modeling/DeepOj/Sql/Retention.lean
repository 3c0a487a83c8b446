import Mathlib.Data.List.Count
import Mathlib.Data.List.Perm.Basic
import Mathlib.Data.List.Sort
import Mathlib.Tactic.Common

/-!
# Deleting old rows in batches

A statement deletes the oldest of the finished rows before a cutoff, so many at most, and a
loop repeats it until it finds fewer. Others write to the table in the meantime.
-/

namespace DeepOj.Sql

/-- What a table says of a row: its identity, when it was last written, and that no one needs
it any more. -/
structure Kind (R K : Type) where
  id : R → K
  updatedAt : R → Nat
  finished : R → Bool

namespace Kind

variable {R K : Type} (kind : Kind R K)

/-- The row is finished and was last written before the cutoff. -/
def Old (cutoff : Int) (r : R) : Prop := kind.finished r = true ∧ (kind.updatedAt r : Int) < cutoff

instance (cutoff : Int) (r : R) : Decidable (kind.Old cutoff r) := inferInstanceAs (Decidable (_ ∧ _))

/-- `SELECT COUNT(1)` of the old rows. -/
def countOld (cutoff : Int) (rows : List R) : Nat := rows.countP (kind.Old cutoff)

/-- The rows that `ORDER BY updated_at ASC LIMIT batch` selects. -/
def targets (cutoff : Int) (batch : Nat) (rows : List R) : List R :=
  ((rows.filter (kind.Old cutoff)).insertionSort (kind.updatedAt · ≤ kind.updatedAt ·)).take batch

section Select

variable {kind} {cutoff : Int} {batch : Nat} {rows : List R} {r : R}

theorem mem_targets (h : r ∈ kind.targets cutoff batch rows) : r ∈ rows ∧ kind.Old cutoff r := by
  have hdue := (List.perm_insertionSort _ _).mem_iff.mp (List.mem_of_mem_take h)
  obtain ⟨hin, hold⟩ := List.mem_filter.mp hdue
  exact ⟨hin, of_decide_eq_true hold⟩

/-- It takes as many as there are, up to the limit. -/
theorem length_targets : (kind.targets cutoff batch rows).length = min batch (kind.countOld cutoff rows) := by
  simp only [targets, countOld, List.length_take, List.length_insertionSort, List.countP_eq_length_filter]

end Select

/-! ## Other writers -/

section Write

variable {kind} {cutoff : Int} {rows : List R} {f : R → R}

/-- A row written now is not old. -/
theorem not_old_of_le {r : R} (h : cutoff ≤ kind.updatedAt r) : ¬ kind.Old cutoff r := fun hold =>
  absurd hold.2 (not_lt.mpr h)

theorem countOld_append {r : R} (h : cutoff ≤ kind.updatedAt r) :
    kind.countOld cutoff (rows ++ [r]) = kind.countOld cutoff rows := by
  simp [countOld, List.countP_append, not_old_of_le h]

/-- Rows that are left alone or written now do not become old. -/
theorem countOld_map_le (h : ∀ r, f r = r ∨ cutoff ≤ kind.updatedAt (f r)) :
    kind.countOld cutoff (rows.map f) ≤ kind.countOld cutoff rows := by
  unfold countOld
  rw [List.countP_map]
  apply List.countP_mono_left
  intro r _ hold
  obtain heq | hle := h r
  · rwa [Function.comp_apply, heq] at hold
  · exact absurd (of_decide_eq_true hold) (not_old_of_le hle)

end Write

/-! ## One statement -/

section Delete

variable [DecidableEq K]

/-- The rows left by `DELETE`, which goes by identity. -/
def deleteOldest (cutoff : Int) (batch : Nat) (rows : List R) : List R :=
  rows.filter fun r => kind.id r ∉ (kind.targets cutoff batch rows).map kind.id

variable {kind} {cutoff : Int} {batch : Nat} {rows : List R} {r : R}

theorem deleteOldest_sublist : (kind.deleteOldest cutoff batch rows).Sublist rows := List.filter_sublist

/-- A row is either deleted or kept. -/
theorem mem_deleteOldest (cutoff : Int) (batch : Nat) (hr : r ∈ rows) :
    r ∈ kind.deleteOldest cutoff batch rows ∨
    ∃ d ∈ kind.targets cutoff batch rows, kind.id d = kind.id r := by
  by_cases hid : kind.id r ∈ (kind.targets cutoff batch rows).map kind.id
  · exact .inr (List.mem_map.mp hid)
  · exact .inl (List.mem_filter.mpr ⟨hr, decide_eq_true hid⟩)

/-- Where identities are unique, these rows are the deleted ones and no others. -/
theorem filter_targets_perm (hn : (rows.map kind.id).Nodup) :
    (rows.filter fun r => kind.id r ∈ (kind.targets cutoff batch rows).map kind.id).Perm
      (kind.targets cutoff batch rows) := by
  have hrows : rows.Nodup := hn.of_map
  have htargets : (kind.targets cutoff batch rows).Nodup :=
    (((List.perm_insertionSort _ _).nodup_iff.mpr (hrows.filter _))).sublist (List.take_sublist _ _)
  refine (List.perm_ext_iff_of_nodup (hrows.filter _) htargets).mpr fun r => ?_
  rw [List.mem_filter, decide_eq_true_iff]
  constructor
  · rintro ⟨hr, hid⟩
    obtain ⟨d, hd, heq⟩ := List.mem_map.mp hid
    exact List.inj_on_of_nodup_map hn (mem_targets hd).1 hr heq ▸ hd
  · exact fun hd => ⟨(mem_targets hd).1, List.mem_map_of_mem hd⟩

/-- What was old is deleted or still old. -/
theorem countOld_deleteOldest (cutoff : Int) (batch : Nat) (hn : (rows.map kind.id).Nodup) :
    kind.countOld cutoff (kind.deleteOldest cutoff batch rows) + (kind.targets cutoff batch rows).length =
      kind.countOld cutoff rows := by
  have hsplit := (List.filter_append_perm
    (fun r => decide (kind.id r ∈ (kind.targets cutoff batch rows).map kind.id)) rows).countP_eq
      (kind.Old cutoff)
  rw [List.countP_append] at hsplit
  have hdeleted : (rows.filter fun r => kind.id r ∈ (kind.targets cutoff batch rows).map kind.id).countP
      (kind.Old cutoff) = (kind.targets cutoff batch rows).length := by
    rw [(filter_targets_perm hn).countP_eq, List.countP_eq_length]
    exact fun r hr => decide_eq_true (mem_targets hr).2
  have hkept : kind.deleteOldest cutoff batch rows =
      rows.filter fun r => !decide (kind.id r ∈ (kind.targets cutoff batch rows).map kind.id) := by
    simp only [deleteOldest, decide_not]
  rw [hdeleted, ← hkept] at hsplit
  unfold countOld
  omega

/-- By any cutoff, fewer rows are old afterwards. -/
theorem countOld_deleteOldest_le (cutoff' : Int) :
    kind.countOld cutoff' (kind.deleteOldest cutoff batch rows) ≤ kind.countOld cutoff' rows :=
  deleteOldest_sublist.countP_le

end Delete

/-! ## The loop -/

/-- What a loop has to show: the estimate it was started with, the statements it has
executed, and the rows they have deleted. -/
structure Counter where
  estimate : Nat
  statements : Nat := 0
  deleted : Nat := 0
  deriving DecidableEq, Repr

def Counter.add (c : Counter) (deleted : Nat) : Counter :=
  { c with statements := c.statements + 1, deleted := c.deleted + deleted }

/-- The loop goes on: so far every statement has found a whole batch. -/
structure Counting (kind : Kind R K) (cutoff : Int) (batch : Nat) (rows : List R) (c : Counter) : Prop where
  bounded : kind.countOld cutoff rows + c.deleted ≤ c.estimate
  full : c.deleted = c.statements * batch

/-- The loop is over, and has left no old row. -/
structure Counted (kind : Kind R K) (cutoff : Int) (batch : Nat) (rows : List R) (c : Counter) : Prop where
  none : kind.countOld cutoff rows = 0
  bounded : c.deleted ≤ c.estimate
  statements : c.statements ≤ c.deleted / batch + 1

section Loop

variable {kind} {cutoff : Int} {batch : Nat} {rows rows' : List R} {c : Counter}

theorem counting_start (rows : List R) : Counting kind cutoff batch rows ⟨kind.countOld cutoff rows, 0, 0⟩ :=
  ⟨le_refl _, (Nat.zero_mul batch).symm⟩

theorem Counting.mono (h : Counting kind cutoff batch rows c)
    (hle : kind.countOld cutoff rows' ≤ kind.countOld cutoff rows) : Counting kind cutoff batch rows' c :=
  ⟨(Nat.add_le_add_right hle _).trans h.bounded, h.full⟩

theorem Counted.mono (h : Counted kind cutoff batch rows c)
    (hle : kind.countOld cutoff rows' ≤ kind.countOld cutoff rows) : Counted kind cutoff batch rows' c :=
  ⟨Nat.le_zero.mp (h.none ▸ hle), h.bounded, h.statements⟩

/-- So the estimate bounds the statements, whatever the other writers do. -/
theorem Counting.statements_le (h : Counting kind cutoff batch rows c) (hpos : 0 < batch) :
    c.statements ≤ c.estimate / batch := by
  rw [Nat.le_div_iff_mul_le hpos, ← h.full]
  exact (Nat.le_add_left _ _).trans h.bounded

theorem Counted.statements_le (h : Counted kind cutoff batch rows c) :
    c.statements ≤ c.estimate / batch + 1 :=
  h.statements.trans (Nat.add_le_add_right (Nat.div_le_div_right h.bounded) 1)

variable [DecidableEq K]

/-- A statement that finds a whole batch lets the loop go on. -/
theorem Counting.again (h : Counting kind cutoff batch rows c) (hn : (rows.map kind.id).Nodup)
    (hfull : ¬ (kind.targets cutoff batch rows).length < batch) :
    Counting kind cutoff batch (kind.deleteOldest cutoff batch rows)
      (c.add (kind.targets cutoff batch rows).length) := by
  have hcount := countOld_deleteOldest cutoff batch hn
  have hlen : (kind.targets cutoff batch rows).length = min batch (kind.countOld cutoff rows) := length_targets
  have heq : (kind.targets cutoff batch rows).length = batch := by omega
  have hbounded := h.bounded
  refine ⟨?_, ?_⟩
  · simp only [Counter.add]
    omega
  · simp only [Counter.add, h.full, heq, Nat.succ_mul]

/-- One that finds fewer ends it. -/
theorem Counting.last (h : Counting kind cutoff batch rows c) (hn : (rows.map kind.id).Nodup)
    (hfew : (kind.targets cutoff batch rows).length < batch) :
    Counted kind cutoff batch (kind.deleteOldest cutoff batch rows)
      (c.add (kind.targets cutoff batch rows).length) := by
  have hcount := countOld_deleteOldest cutoff batch hn
  have hlen : (kind.targets cutoff batch rows).length = min batch (kind.countOld cutoff rows) := length_targets
  have hbounded := h.bounded
  have hpos : 0 < batch := by omega
  refine ⟨by omega, ?_, ?_⟩
  · simp only [Counter.add]
    omega
  · have hle : c.statements ≤ (c.deleted + (kind.targets cutoff batch rows).length) / batch := by
      rw [Nat.le_div_iff_mul_le hpos, ← h.full]
      exact Nat.le_add_right _ _
    simp only [Counter.add]
    omega

end Loop

end Kind

end DeepOj.Sql
