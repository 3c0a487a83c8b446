import Mathlib.Data.List.Basic

/-!
# Byte strings

File names and program output are byte strings, of any encoding.
-/

namespace DeepOj.Go

abbrev Bytes := List UInt8

/-- The bytes of a text. -/
def utf8 (s : String) : Bytes :=
  s.toList.flatMap String.utf8EncodeChar

/-- `strings.HasPrefix`. -/
def hasPrefix (s pre : Bytes) : Bool :=
  pre.isPrefixOf s

/-- `strings.HasSuffix`. -/
def hasSuffix (s suf : Bytes) : Bool :=
  suf.isSuffixOf s

/-- `strings.TrimSuffix`. -/
def trimSuffix (s suf : Bytes) : Bytes :=
  if hasSuffix s suf then s.take (s.length - suf.length) else s

/-- The encodings of the white space `strings.TrimSpace` removes. -/
def spaces : List Bytes :=
  ([9, 10, 11, 12, 13, 32, 0x85, 0xA0, 0x1680, 0x2028, 0x2029, 0x202F, 0x205F, 0x3000] ++
    List.range' 0x2000 11).map fun n => String.utf8EncodeChar (Char.ofNat n)

/-- Remove up to `n` of these from the front. -/
def trimLeft (cut : List Bytes) : Nat → Bytes → Bytes
  | 0, s => s
  | n + 1, s =>
    match cut.find? (hasPrefix s) with
    | some pre => trimLeft cut n (s.drop pre.length)
    | none => s

/-- `strings.TrimSpace`, of bytes. -/
def trimSpaces (s : Bytes) : Bytes :=
  let s := trimLeft spaces s.length s
  (trimLeft (spaces.map List.reverse) s.length s.reverse).reverse

theorem hasSuffix_iff {s suf : Bytes} : hasSuffix s suf = true ↔ ∃ p, s = p ++ suf := by
  rw [hasSuffix, List.isSuffixOf_iff_suffix]
  constructor
  · rintro ⟨p, hp⟩
    exact ⟨p, hp.symm⟩
  · rintro ⟨p, rfl⟩
    exact List.suffix_append p suf

@[simp] theorem hasSuffix_append (p suf : Bytes) : hasSuffix (p ++ suf) suf = true :=
  hasSuffix_iff.mpr ⟨p, rfl⟩

@[simp] theorem trimSuffix_append (p suf : Bytes) : trimSuffix (p ++ suf) suf = p := by
  unfold trimSuffix
  rw [if_pos (hasSuffix_append p suf), List.length_append, Nat.add_sub_cancel,
    List.take_left]

/-- Nothing is removed where no text to be cut stands in front. -/
theorem trimLeft_eq_self {cut : List Bytes} {s : Bytes} (h : ∀ pre ∈ cut, hasPrefix s pre = false)
    (n : Nat) : trimLeft cut n s = s := by
  cases n with
  | zero => rfl
  | succ n =>
    have hnone : cut.find? (hasPrefix s) = none :=
      List.find?_eq_none.mpr fun pre hpre => by rw [h pre hpre]; exact Bool.false_ne_true
    rw [trimLeft, hnone]

theorem hasPrefix_of_head {b : UInt8} {pre : Bytes} (hne : pre ≠ []) (h : pre.head? ≠ some b)
    (s : Bytes) : hasPrefix (b :: s) pre = false := by
  cases pre with
  | nil => exact absurd rfl hne
  | cons a pre =>
    have hab : a ≠ b := by
      rintro rfl
      exact h rfl
    rw [hasPrefix, List.isPrefixOf, beq_false_of_ne hab, Bool.false_and]

/-- What stands behind the last separator is read from the right. -/
theorem append_cons_right_inj {α : Type} {s : α} {x x' y y' : List α} (hy : s ∉ y) (hy' : s ∉ y')
    (h : x ++ s :: y = x' ++ s :: y') : x = x' ∧ y = y' := by
  rcases List.append_eq_append_iff.mp h with ⟨mid, hx, hmid⟩ | ⟨mid, hx, hmid⟩
  · cases mid with
    | nil =>
      rw [List.append_nil] at hx
      exact ⟨hx.symm, (List.cons.inj hmid).2⟩
    | cons a mid =>
      rw [(List.cons.inj hmid).2] at hy
      exact absurd (List.mem_append_right mid List.mem_cons_self) hy
  · cases mid with
    | nil =>
      rw [List.append_nil] at hx
      exact ⟨hx, (List.cons.inj hmid).2.symm⟩
    | cons a mid =>
      rw [(List.cons.inj hmid).2] at hy'
      exact absurd (List.mem_append_right mid List.mem_cons_self) hy'

/-- An object has no white space around it. -/
theorem trimSpaces_braces (s : Bytes) : trimSpaces (123 :: (s ++ [125])) = 123 :: (s ++ [125]) := by
  have hfirst : ∀ pre ∈ spaces, pre ≠ [] ∧ pre.head? ≠ some 123 := by decide
  have hlast : ∀ pre ∈ spaces.map List.reverse, pre ≠ [] ∧ pre.head? ≠ some 125 := by decide
  have hfront : ∀ n, trimLeft spaces n (123 :: (s ++ [125])) = 123 :: (s ++ [125]) :=
    trimLeft_eq_self fun pre hpre => hasPrefix_of_head (hfirst pre hpre).1 (hfirst pre hpre).2 _
  have hback : ∀ n, trimLeft (spaces.map List.reverse) n (123 :: (s ++ [125])).reverse =
      (123 :: (s ++ [125])).reverse := by
    refine trimLeft_eq_self fun pre hpre => ?_
    rw [← List.cons_append, List.reverse_append]
    exact hasPrefix_of_head (hlast pre hpre).1 (hlast pre hpre).2 _
  rw [trimSpaces]
  simp only [hfront, hback, List.reverse_reverse]

end DeepOj.Go
