import DeepOj.Go.Bytes

/-!
# Trimmed texts

What `strings.TrimSpace` leaves has no white space at either end, and a text that
has none is left as it is. White space does not reach across another byte.
-/

namespace DeepOj.Go

/-- `strings.TrimPrefix`. -/
def trimPrefix (s pre : Bytes) : Bytes := if hasPrefix s pre then s.drop pre.length else s

theorem hasPrefix_iff {s pre : Bytes} : hasPrefix s pre = true ↔ pre <+: s := by
  rw [hasPrefix, List.isPrefixOf_iff_prefix]

/-- What is left of a text is its end. -/
theorem trimPrefix_suffix (s pre : Bytes) : trimPrefix s pre <:+ s := by
  unfold trimPrefix
  split
  · exact List.drop_suffix _ s
  · exact List.suffix_refl s

@[simp] theorem trimPrefix_append (pre s : Bytes) : trimPrefix (pre ++ s) pre = s := by
  have h : hasPrefix (pre ++ s) pre = true := hasPrefix_iff.mpr (List.prefix_append pre s)
  rw [trimPrefix, if_pos h, List.drop_left]

/-! ## Cutting from the front -/

/-- None of these texts stands in front. -/
def OpensClean (cut : List Bytes) (s : Bytes) : Prop := ∀ pre ∈ cut, hasPrefix s pre = false

instance (cut : List Bytes) (s : Bytes) : Decidable (OpensClean cut s) :=
  inferInstanceAs (Decidable (∀ pre ∈ cut, hasPrefix s pre = false))

theorem OpensClean.of_prefix {cut : List Bytes} {s t : Bytes} (h : OpensClean cut s) (ht : t <+: s) :
    OpensClean cut t := by
  intro pre hpre
  rw [Bool.eq_false_iff]
  intro hin
  have hs : hasPrefix s pre = true := hasPrefix_iff.mpr ((hasPrefix_iff.mp hin).trans ht)
  rw [h pre hpre] at hs
  cases hs

/-- A byte that occurs in none of them closes the front. -/
theorem OpensClean.append_cons {cut : List Bytes} {a : Bytes} {c : UInt8} (hc : ∀ pre ∈ cut, c ∉ pre)
    (h : OpensClean cut a) (r : Bytes) : OpensClean cut (a ++ c :: r) := by
  intro pre hpre
  rw [Bool.eq_false_iff]
  intro hin
  have hwhole := hasPrefix_iff.mp hin
  rcases List.prefix_or_prefix_of_prefix hwhole (List.prefix_append a (c :: r)) with hle | hge
  · have ha : hasPrefix a pre = true := hasPrefix_iff.mpr hle
    rw [h pre hpre] at ha
    cases ha
  · obtain ⟨t, rfl⟩ := hge
    have ht : t <+: c :: r := (List.prefix_append_right_inj a).mp hwhole
    cases t with
    | nil =>
      rw [List.append_nil] at hpre
      have ha : hasPrefix a a = true := hasPrefix_iff.mpr (List.prefix_refl a)
      rw [h a hpre] at ha
      cases ha
    | cons b t =>
      have hb : b = c := (List.cons_prefix_cons.mp ht).1
      exact hc _ hpre (by simp [hb])

theorem trimLeft_suffix (cut : List Bytes) (n : Nat) (s : Bytes) : trimLeft cut n s <:+ s := by
  induction n generalizing s with
  | zero => exact List.suffix_refl s
  | succ n ih =>
    rw [trimLeft]
    split
    · exact (ih _).trans (List.drop_suffix _ s)
    · exact List.suffix_refl s

/-- With a turn for every byte, nothing to cut is left. -/
theorem opensClean_trimLeft {cut : List Bytes} (hcut : ∀ pre ∈ cut, pre ≠ []) (n : Nat) {s : Bytes}
    (h : s.length ≤ n) : OpensClean cut (trimLeft cut n s) := by
  induction n generalizing s with
  | zero =>
    have hs : s = [] := List.length_eq_zero_iff.mp (Nat.le_zero.mp h)
    subst hs
    intro pre hpre
    rw [Bool.eq_false_iff]
    intro hin
    exact hcut pre hpre (List.prefix_nil.mp (hasPrefix_iff.mp hin))
  | succ n ih =>
    rw [trimLeft]
    split
    · rename_i pre hfind
      have hlen : 0 < pre.length := List.length_pos_of_ne_nil (hcut pre (List.mem_of_find?_eq_some hfind))
      apply ih
      rw [List.length_drop]
      omega
    · rename_i hnone
      intro pre hpre
      exact Bool.eq_false_iff.mpr (List.find?_eq_none.mp hnone pre hpre)

/-- A byte that occurs in none of them stays. -/
theorem mem_trimLeft {cut : List Bytes} {c : UInt8} (hc : ∀ pre ∈ cut, c ∉ pre) (n : Nat) {s : Bytes} (h : c ∈ s) :
    c ∈ trimLeft cut n s := by
  induction n generalizing s with
  | zero => exact h
  | succ n ih =>
    rw [trimLeft]
    split
    · rename_i pre hfind
      have hopens : hasPrefix s pre = true := List.find?_some hfind
      obtain ⟨rest, rfl⟩ := hasPrefix_iff.mp hopens
      apply ih
      rw [List.drop_left]
      exact (List.mem_append.mp h).resolve_left (hc pre (List.mem_of_find?_eq_some hfind))
    · exact h

/-! ## Trimmed texts -/

/-- There is no white space at either end. -/
structure Trimmed (s : Bytes) : Prop where
  front : OpensClean spaces s
  back : OpensClean (spaces.map List.reverse) s.reverse

theorem trimmed_trimSpaces (s : Bytes) : Trimmed (trimSpaces s) := by
  have hfront : ∀ pre ∈ spaces, pre ≠ [] := by decide
  have hback : ∀ pre ∈ spaces.map List.reverse, pre ≠ [] := by decide
  unfold trimSpaces
  constructor
  · -- the front is that of the text cut from the left
    have hclean := opensClean_trimLeft hfront s.length (Nat.le_refl _)
    apply hclean.of_prefix
    rw [← List.reverse_suffix, List.reverse_reverse]
    exact trimLeft_suffix _ _ _
  · rw [List.reverse_reverse]
    apply opensClean_trimLeft hback
    exact Nat.le_of_eq List.length_reverse

theorem notMem_reversed_spaces {c : UInt8} (hc : ∀ sp ∈ spaces, c ∉ sp) :
    ∀ pre ∈ spaces.map List.reverse, c ∉ pre := by
  intro pre hpre
  obtain ⟨sp, hsp, rfl⟩ := List.mem_map.mp hpre
  rw [List.mem_reverse]
  exact hc sp hsp

/-- A byte that occurs in no white space stays. -/
theorem mem_trimSpaces {c : UInt8} (hc : ∀ sp ∈ spaces, c ∉ sp) {s : Bytes} (h : c ∈ s) : c ∈ trimSpaces s := by
  unfold trimSpaces
  rw [List.mem_reverse]
  apply mem_trimLeft (notMem_reversed_spaces hc)
  rw [List.mem_reverse]
  exact mem_trimLeft hc _ h

theorem Trimmed.trimSpaces {s : Bytes} (h : Trimmed s) : trimSpaces s = s := by
  unfold Go.trimSpaces
  simp only [trimLeft_eq_self h.front, trimLeft_eq_self h.back, List.reverse_reverse]

/-- Two ends without white space around a byte that is in none. -/
theorem Trimmed.append_cons {a r : Bytes} {c : UInt8} (hc : ∀ pre ∈ spaces, c ∉ pre) (ha : Trimmed a)
    (hr : OpensClean (spaces.map List.reverse) r.reverse) : Trimmed (a ++ c :: r) := by
  constructor
  · exact ha.front.append_cons hc r
  · have h := OpensClean.append_cons (notMem_reversed_spaces hc) hr a.reverse
    simpa using h

/-- The end of a trimmed text has no white space behind it. -/
theorem Trimmed.back_of_suffix {s r : Bytes} (h : Trimmed s) (hr : r <:+ s) :
    OpensClean (spaces.map List.reverse) r.reverse :=
  h.back.of_prefix (List.reverse_prefix.mpr hr)

end DeepOj.Go
