import DeepOj.Repository.Outbox
import Mathlib.Algebra.Order.Round
import Mathlib.Data.Rat.Floor
import Mathlib.Tactic.Linarith

/-!
# The backoff of a claimed event

The claim statement computes the next delay from bounds that the caller has brought into
range: exponential in the attempts, capped, shaken by ten percent, and capped again.
-/

namespace DeepOj.Repository

/-- Rounding to a nearest integer; how ties are broken is left open. -/
structure Rounding where
  round : ℚ → ℤ
  nearest : ∀ x, |(round x : ℚ) - x| ≤ 1 / 2

namespace Rounding

variable (R : Rounding) {x y : ℚ}

theorem round_intCast (n : ℤ) : R.round n = n := by
  have hnear := abs_le.mp (R.nearest n)
  have hlo : (n : ℚ) - 1 < R.round n := by linarith
  have hhi : (R.round n : ℚ) < n + 1 := by linarith
  have hlo' : n - 1 < R.round n := by exact_mod_cast hlo
  have hhi' : R.round n < n + 1 := by exact_mod_cast hhi
  omega

/-- Two integers that are rounded to in the wrong order have one number between them. -/
theorem monotone (h : x ≤ y) : R.round x ≤ R.round y := by
  by_contra hgt
  rw [not_le] at hgt
  have hgap : (R.round y : ℚ) + 1 ≤ R.round x := by exact_mod_cast hgt
  have hx := abs_le.mp (R.nearest x)
  have hy := abs_le.mp (R.nearest y)
  have heq : x = y := by linarith
  rw [heq] at hgt
  exact absurd hgt (lt_irrefl _)

end Rounding

/-- Ties away from the integer below. -/
def halfUp : Rounding where
  round x := (x + 1 / 2).floor
  nearest x := by
    have hround : ((x + 1 / 2).floor : ℤ) = round x := (round_eq x).symm
    rw [hround, abs_sub_comm]
    exact abs_sub_round x

/-- `rint`: ties to the even integer. -/
def rint (x : ℚ) : ℤ :=
  let below := x.floor
  if x - below < 1 / 2 then below
  else if 1 / 2 < x - below then below + 1
  else if below % 2 = 0 then below else below + 1

/-- The conversion of a `double precision` value to `BIGINT`. -/
def halfEven : Rounding where
  round := rint
  nearest x := by
    have hlo : (x.floor : ℚ) ≤ x := Int.floor_le x
    have hhi : x < x.floor + 1 := Int.lt_floor_add_one x
    unfold rint
    simp only
    rw [abs_le]
    split
    · constructor <;> linarith
    · split
      · push_cast
        constructor <;> linarith
      · split
        · constructor <;> linarith
        · push_cast
          constructor <;> linarith

/-! ## The statement -/

/-- What the claim statement computes, from the inside out. -/
structure BackoffSteps where
  power : ℚ
  grown : ℚ
  capped : ℚ
  factor : ℚ
  shaken : ℚ
  atLeastOne : ℚ
  clamped : ℚ

def backoffSteps (base cap attempts : Nat) (r : ℚ) : BackoffSteps :=
  let power : ℚ := 2 ^ min attempts 30
  let grown := base * power
  let capped := min grown cap
  let factor := 9 / 10 + r * (1 / 5)
  let shaken := capped * factor
  let atLeastOne := max 1 shaken
  ⟨power, grown, capped, factor, shaken, atLeastOne, min cap atLeastOne⟩

/-- The delay, as it is rounded in the end. -/
def backoffDelay (R : Rounding) (base cap attempts : Nat) (r : ℚ) : ℤ :=
  R.round (backoffSteps base cap attempts r).clamped

/-- `ClaimPendingOutboxEvents` on durations, in nanoseconds. -/
def durationBounds (baseBackoff maxBackoff : Int64) : Nat × Nat :=
  backoffBounds (baseBackoff.toInt.tdiv 1000000) (maxBackoff.toInt.tdiv 1000000)

/-- The digits a `NUMERIC` may have before the point. -/
def numericDigits : Nat := 131072

/-- A `NUMERIC` can be as large. -/
def FitsNumeric (x : ℚ) : Prop := |x| < 10 ^ numericDigits

/-- Nothing on the way is too large. -/
structure BackoffSteps.Fit (s : BackoffSteps) : Prop where
  power : FitsNumeric s.power
  grown : FitsNumeric s.grown
  capped : FitsNumeric s.capped
  factor : FitsNumeric s.factor
  shaken : FitsNumeric s.shaken
  atLeastOne : FitsNumeric s.atLeastOne
  clamped : FitsNumeric s.clamped

section Backoff

variable {base cap attempts attempts' : Nat} {r : ℚ}

/-- The delay of the claim is this one, with one way to break ties. -/
theorem backoffMs_eq (base cap attempts : Nat) (r : ℚ) :
    (backoffMs base cap attempts r : ℤ) = backoffDelay halfUp base cap attempts r := by
  have hcap : (0 : ℚ) ≤ cap := Nat.cast_nonneg cap
  have hnonneg : 0 ≤ backoffDelay halfUp base cap attempts r := by
    have hclamped : (((0 : ℤ) : ℚ)) ≤ (backoffSteps base cap attempts r).clamped := by
      rw [Int.cast_zero]
      exact le_min hcap (le_max_of_le_left zero_le_one)
    have hmono := halfUp.monotone hclamped
    rw [halfUp.round_intCast] at hmono
    exact hmono
  exact Int.toNat_of_nonneg hnonneg

theorem one_le_capped (hbase : 1 ≤ base) (hcap : base ≤ cap) :
    1 ≤ (backoffSteps base cap attempts r).capped := by
  have hb : (1 : ℚ) ≤ base := by exact_mod_cast hbase
  have hc : (base : ℚ) ≤ cap := by exact_mod_cast hcap
  have hpower : (1 : ℚ) ≤ 2 ^ min attempts 30 := one_le_pow₀ (by norm_num)
  exact le_min (one_le_mul_of_one_le_of_one_le hb hpower) (hb.trans hc)

/-- The second cap and the least delay change nothing beyond ten percent. -/
theorem clamped_near (attempts : Nat) (h0 : 0 ≤ r) (h1 : r < 1) (hbase : 1 ≤ base) (hcap : base ≤ cap) :
    |(backoffSteps base cap attempts r).clamped - (backoffSteps base cap attempts r).capped| ≤
      (backoffSteps base cap attempts r).capped / 10 := by
  have hone : 1 ≤ (backoffSteps base cap attempts r).capped := one_le_capped hbase hcap
  have hle : (backoffSteps base cap attempts r).capped ≤ cap := min_le_right _ _
  show |min (cap : ℚ) (max 1 ((backoffSteps base cap attempts r).capped * (9 / 10 + r * (1 / 5)))) -
    (backoffSteps base cap attempts r).capped| ≤ _
  generalize (backoffSteps base cap attempts r).capped = v at hone hle
  have hlo : v * (9 / 10) ≤ v * (9 / 10 + r * (1 / 5)) := by
    apply mul_le_mul_of_nonneg_left _ (by linarith)
    linarith
  have hhi : v * (9 / 10 + r * (1 / 5)) ≤ v * (11 / 10) := by
    apply mul_le_mul_of_nonneg_left _ (by linarith)
    linarith
  rw [abs_le]
  constructor
  · -- nothing falls below nine tenths: the cap is not below the value
    have hmin : v * (9 / 10) ≤ min (cap : ℚ) (max 1 (v * (9 / 10 + r * (1 / 5)))) :=
      le_min (by linarith) (le_max_of_le_right hlo)
    linarith
  · -- nothing rises above eleven tenths, one is not above the value
    have hmax : max 1 (v * (9 / 10 + r * (1 / 5))) ≤ v * (11 / 10) := max_le (by linarith) hhi
    have hmin := min_le_right (cap : ℚ) (max 1 (v * (9 / 10 + r * (1 / 5))))
    linarith

theorem clamped_monotone (h0 : 0 ≤ r) (hle : attempts ≤ attempts') :
    (backoffSteps base cap attempts r).clamped ≤ (backoffSteps base cap attempts' r).clamped := by
  have hb : (0 : ℚ) ≤ base := Nat.cast_nonneg base
  have hpower : (2 : ℚ) ^ min attempts 30 ≤ 2 ^ min attempts' 30 :=
    pow_le_pow_right₀ (by norm_num) (min_le_min_right 30 hle)
  have hcapped : (backoffSteps base cap attempts r).capped ≤ (backoffSteps base cap attempts' r).capped :=
    min_le_min_right _ (mul_le_mul_of_nonneg_left hpower hb)
  have hfactor : (0 : ℚ) ≤ 9 / 10 + r * (1 / 5) := by linarith
  exact min_le_min_left _ (max_le_max_left _ (mul_le_mul_of_nonneg_right hcapped hfactor))

/-- The delay lies between one millisecond and the cap. -/
theorem backoffDelay_bounds (R : Rounding) (attempts : Nat) (r : ℚ) (hbase : 1 ≤ base) (hcap : base ≤ cap) :
    1 ≤ backoffDelay R base cap attempts r ∧ backoffDelay R base cap attempts r ≤ cap := by
  have hc : (1 : ℚ) ≤ cap := by exact_mod_cast hbase.trans hcap
  constructor
  · have hone : ((1 : ℤ) : ℚ) ≤ (backoffSteps base cap attempts r).clamped := by
      rw [Int.cast_one]
      exact le_min hc (le_max_left _ _)
    have hmono := R.monotone hone
    rw [R.round_intCast] at hmono
    exact hmono
  · have hle : (backoffSteps base cap attempts r).clamped ≤ ((cap : ℤ) : ℚ) := by
      rw [Int.cast_natCast]
      exact min_le_left _ _
    have hmono := R.monotone hle
    rw [R.round_intCast] at hmono
    exact hmono

/-- Durations are turned into bounds in order, and far from the end of `BIGINT`. -/
theorem durationBounds_range (baseBackoff maxBackoff : Int64) :
    1 ≤ (durationBounds baseBackoff maxBackoff).1 ∧
      (durationBounds baseBackoff maxBackoff).1 ≤ (durationBounds baseBackoff maxBackoff).2 ∧
      (durationBounds baseBackoff maxBackoff).2 ≤ 9223372036854 := by
  have hms : ∀ d : Int64, d.toInt.tdiv 1000000 ≤ 9223372036854 := by
    intro d
    have hlt := d.toInt_lt
    have hle : d.toInt.tdiv 1000000 ≤ (2 ^ 63 - 1 : Int).tdiv 1000000 :=
      Int.tdiv_le_tdiv (by decide) (by omega)
    exact hle.trans (by decide)
  have hbase := hms baseBackoff
  have hmax := hms maxBackoff
  unfold durationBounds backoffBounds
  generalize baseBackoff.toInt.tdiv 1000000 = b at hbase ⊢
  generalize maxBackoff.toInt.tdiv 1000000 = m at hmax ⊢
  simp only
  by_cases hb : b ≤ 0 <;> by_cases hm : m ≤ 0 <;> simp only [hb, hm, if_true, if_false] <;>
    split <;> omega

theorem fitsNumeric_of_le {x : ℚ} (h0 : 0 ≤ x) (hx : x ≤ 10 ^ 22) : FitsNumeric x := by
  have hlt : (10 : ℚ) ^ 22 < 10 ^ numericDigits :=
    pow_lt_pow_right₀ (by norm_num) (by decide)
  show |x| < 10 ^ numericDigits
  rw [abs_of_nonneg h0]
  exact hx.trans_lt hlt

theorem backoffSteps_fit (h0 : 0 ≤ r) (h1 : r < 1) (hbase : base ≤ cap) (hcap : cap ≤ 9223372036854) :
    (backoffSteps base cap attempts r).Fit := by
  have hb0 : (0 : ℚ) ≤ base := Nat.cast_nonneg base
  have hc0 : (0 : ℚ) ≤ cap := Nat.cast_nonneg cap
  have hc : (cap : ℚ) ≤ 9223372036854 := by exact_mod_cast hcap
  have hb : (base : ℚ) ≤ 9223372036854 := by exact_mod_cast hbase.trans hcap
  have hpower0 : (0 : ℚ) ≤ 2 ^ min attempts 30 := by positivity
  have hpower : (2 : ℚ) ^ min attempts 30 ≤ 2 ^ 30 :=
    pow_le_pow_right₀ (by norm_num) (min_le_right _ _)
  have hgrown : (base : ℚ) * 2 ^ min attempts 30 ≤ 9223372036854 * 2 ^ 30 :=
    mul_le_mul hb hpower hpower0 (by norm_num)
  have hgrown0 : (0 : ℚ) ≤ base * 2 ^ min attempts 30 := mul_nonneg hb0 hpower0
  have hcapped0 : (0 : ℚ) ≤ min ((base : ℚ) * 2 ^ min attempts 30) cap := le_min hgrown0 hc0
  have hcapped : min ((base : ℚ) * 2 ^ min attempts 30) cap ≤ 9223372036854 :=
    (min_le_right _ _).trans hc
  have hfactor0 : (0 : ℚ) ≤ 9 / 10 + r * (1 / 5) := by linarith
  have hfactor : 9 / 10 + r * (1 / 5) ≤ (11 / 10 : ℚ) := by linarith
  have hshaken : min ((base : ℚ) * 2 ^ min attempts 30) cap * (9 / 10 + r * (1 / 5)) ≤
      9223372036854 * (11 / 10) := mul_le_mul hcapped hfactor hfactor0 (by norm_num)
  have hshaken0 := mul_nonneg hcapped0 hfactor0
  have hone : max 1 (min ((base : ℚ) * 2 ^ min attempts 30) cap * (9 / 10 + r * (1 / 5))) ≤
      9223372036854 * (11 / 10) := max_le (by norm_num) hshaken
  have hone0 : (0 : ℚ) ≤ max 1 (min ((base : ℚ) * 2 ^ min attempts 30) cap * (9 / 10 + r * (1 / 5))) :=
    le_max_of_le_left zero_le_one
  exact
    { power := fitsNumeric_of_le hpower0 (hpower.trans (by norm_num))
      grown := fitsNumeric_of_le hgrown0 (hgrown.trans (by norm_num))
      capped := fitsNumeric_of_le hcapped0 (hcapped.trans (by norm_num))
      factor := fitsNumeric_of_le hfactor0 (hfactor.trans (by norm_num))
      shaken := fitsNumeric_of_le hshaken0 (hshaken.trans (by norm_num))
      atLeastOne := fitsNumeric_of_le hone0 (hone.trans (by norm_num))
      clamped := fitsNumeric_of_le (le_min hc0 hone0) ((min_le_left _ _).trans (hc.trans (by norm_num))) }

end Backoff

end DeepOj.Repository
