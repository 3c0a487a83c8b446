import Mathlib.Algebra.Ring.Nat
import Mathlib.Data.Rat.Defs
import Mathlib.Tactic.Common

/-!
# Whole numbers as `float64`

A whole number that goes through a `float64` comes back as the nearest number with a
significand of 53 bits.
-/

namespace DeepOj.Go

/-- The nearest multiple of `unit`; between two of them, the even one. -/
def roundToMultiple (unit n : Nat) : Nat :=
  if 2 * (n % unit) < unit ∨ (2 * (n % unit) = unit ∧ n / unit % 2 = 0) then n / unit * unit
  else (n / unit + 1) * unit

/-- The distance between the `float64` numbers around `n`. -/
def ulp (n : Nat) : Nat := 2 ^ (n.log2 + 1 - 53)

/-- The `float64` nearest to `n`, which is below `2 ^ 1024`. -/
def float64OfNat (n : Nat) : Nat := roundToMultiple (ulp n) n

def float64OfInt (n : Int) : Int := n.sign * float64OfNat n.natAbs

/-- The conversion to `int64`. What a number out of range gives is left to the implementation. -/
def int64OfFloat64 (outOfRange : ℚ → Int) (f : ℚ) : Int :=
  let n := f.num.tdiv f.den
  if -9223372036854775808 ≤ n ∧ n < 9223372036854775808 then n else outOfRange f

variable {unit n : Nat}

theorem roundToMultiple_eq_iff (hunit : 0 < unit) : roundToMultiple unit n = n ↔ unit ∣ n := by
  unfold roundToMultiple
  constructor
  · intro h
    split at h
    · exact ⟨n / unit, by rw [Nat.mul_comm]; exact h.symm⟩
    · exact ⟨n / unit + 1, by rw [Nat.mul_comm]; exact h.symm⟩
  · intro h
    rw [Nat.mod_eq_zero_of_dvd h, if_pos (.inl hunit)]
    exact Nat.div_mul_cancel h

theorem ulp_pos (n : Nat) : 0 < ulp n := Nat.two_pow_pos _

/-- A number comes back if its digits past the first 53 are zero. -/
theorem float64OfNat_eq_iff (n : Nat) : float64OfNat n = n ↔ ulp n ∣ n :=
  roundToMultiple_eq_iff (ulp_pos n)

theorem float64OfNat_of_le (h : n ≤ 9007199254740992) : float64OfNat n = n := by
  rw [float64OfNat_eq_iff]
  obtain rfl | hlt := Nat.eq_or_lt_of_le h
  · decide
  · have hunit : ulp n = 1 := by
      unfold ulp
      by_cases h0 : n = 0
      · subst h0
        decide
      · have hlog : n.log2 < 53 := (Nat.log2_lt h0).mpr hlt
        rw [Nat.sub_eq_zero_of_le (by omega), Nat.pow_zero]
    rw [hunit]
    exact Nat.one_dvd n

/-- The first number that does not come back. -/
example : float64OfNat 9007199254740993 = 9007199254740992 := by decide

theorem int64OfFloat64_natCast (outOfRange : ℚ → Int) (h : n < 9223372036854775808) :
    int64OfFloat64 outOfRange (n : ℚ) = n := by
  have htrunc : (n : ℚ).num.tdiv (n : ℚ).den = (n : Int) := by
    rw [Rat.num_natCast, Rat.den_natCast]
    exact Int.tdiv_one _
  unfold int64OfFloat64
  dsimp only
  rw [htrunc, if_pos]
  omega

end DeepOj.Go
