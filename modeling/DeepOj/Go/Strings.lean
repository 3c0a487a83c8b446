import Mathlib.Data.List.DropRight

/-!
# The string functions of the Go standard library the services call

Defined on the characters of a string, so that they evaluate in the kernel.
-/

namespace DeepOj.Go

/-- `unicode.IsSpace`. -/
def isSpace (c : Char) : Bool :=
  c.toNat ∈ [0x09, 0x0A, 0x0B, 0x0C, 0x0D, 0x20, 0x85, 0xA0, 0x1680, 0x2028, 0x2029, 0x202F,
    0x205F, 0x3000] || (0x2000 ≤ c.toNat && c.toNat ≤ 0x200A)

/-- `strings.TrimSpace`. -/
def trimSpace (s : String) : String :=
  String.ofList ((s.toList.dropWhile isSpace).rdropWhile isSpace)

/-- A trimmed string has nothing left to trim. -/
theorem trimSpace_idem (s : String) : trimSpace (trimSpace s) = trimSpace s := by
  unfold trimSpace
  rw [String.toList_ofList]
  -- the left end: what remains still begins with the first character kept
  have hleft : ((s.toList.dropWhile isSpace).rdropWhile isSpace).dropWhile isSpace =
      (s.toList.dropWhile isSpace).rdropWhile isSpace := by
    refine List.dropWhile_eq_self_iff.mpr fun hpos => ?_
    have hpre := List.rdropWhile_prefix isSpace (l := s.toList.dropWhile isSpace)
    have hpos' : 0 < (s.toList.dropWhile isSpace).length := lt_of_lt_of_le hpos hpre.length_le
    have heq := hpre.getElem hpos
    rw [heq]
    exact List.dropWhile_get_zero_not _ _ hpos'
  rw [hleft, List.rdropWhile_idempotent]

/-- `unicode.ToLower` as far as an ASCII string can tell: U+0130 and U+212A are
the only characters outside ASCII whose lower case is an ASCII letter. -/
def toLowerChar (c : Char) : Char :=
  if 65 ≤ c.toNat ∧ c.toNat ≤ 90 then Char.ofNat (c.toNat + 32)
  else if c.toNat = 0x130 then 'i'
  else if c.toNat = 0x212A then 'k'
  else c

/-- `strings.ToLower`, for comparison with ASCII strings. -/
def toLower (s : String) : String :=
  String.ofList (s.toList.map toLowerChar)

end DeepOj.Go
