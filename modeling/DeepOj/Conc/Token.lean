import DeepOj.Conc.Record

/-!
# Tokens

A token is held by the record of one thread, which keeps it, gives it up or hands it on to a
thread that it starts. So what the holder of the only token does is done by no other thread.
-/

namespace DeepOj.Conc.Machine

variable {W E : Type} {R : E → Type} {C V G α : Type} {M : Machine W E R C V} {K : Recorder E R V G}
  {f : G → Nat} {s s' : RecordedConfig W E R G}

theorem add_le_sum_map {l : List α} {f : α → Nat} {i j : Nat} {a b : α} (hi : l[i]? = some a)
    (hj : l[j]? = some b) (hne : i ≠ j) : f a + f b ≤ (l.map f).sum := by
  induction l generalizing i j with
  | nil => simp at hi
  | cons x l ih =>
    rw [List.map_cons, List.sum_cons]
    have hle : ∀ {n : Nat} {c : α}, l[n]? = some c → f c ≤ (l.map f).sum := by
      intro n c hn
      obtain ⟨l₁, l₂, rfl⟩ := List.append_of_mem (List.mem_of_getElem? hn)
      simp only [List.map_append, List.map_cons, List.sum_append, List.sum_cons]
      omega
    cases i with
    | zero =>
      cases j with
      | zero => exact absurd rfl hne
      | succ j =>
        obtain rfl : x = a := by simpa using hi
        exact Nat.add_le_add_left (hle (n := j) (by simpa using hj)) _
    | succ i =>
      cases j with
      | zero =>
        obtain rfl : x = b := by simpa using hj
        have := hle (n := i) (by simpa using hi)
        omega
      | succ j =>
        have := ih (i := i) (j := j) (by simpa using hi) (by simpa using hj) (by omega)
        omega

/-- Where there is at most one token, whoever holds one is the same thread. -/
theorem holder_unique (h : total f s ≤ 1) {i j : Nat} {t t' : G × Prog E R Unit} (hi : s.threads[i]? = some t)
    (hj : s.threads[j]? = some t') (ht : 1 ≤ f t.1) (ht' : 1 ≤ f t'.1) : i = j := by
  by_contra hne
  have hsum : f t.1 + f t'.1 ≤ total f s := add_le_sum_map (f := fun t => f t.1) hi hj hne
  omega

/-- Where there is a token, a thread holds it. -/
theorem exists_holder (h : 1 ≤ total f s) : ∃ t ∈ s.threads, 1 ≤ f t.1 := by
  by_contra hnone
  push Not at hnone
  have hzero : total f s = s.threads.length * 0 :=
    sum_map_const fun t ht => Nat.lt_one_iff.mp (hnone t ht)
  omega

/-- Where no thread holds a token, there is none. -/
theorem total_eq_zero (h : ∀ t ∈ s.threads, f t.1 = 0) : total f s = 0 :=
  (sum_map_const h).trans (Nat.mul_zero _)

end DeepOj.Conc.Machine
