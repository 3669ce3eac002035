import Mathlib.Data.Int.Log
import Mathlib.Data.Rat.Floor
import Mathlib.Tactic.Linarith
import Mathlib.Tactic.NormNum

/-! # Rounding half to even

The nearest integer, and the nearest multiple of a unit, with ties to the even one; and the
binary64 number that is nearest to a value, as far as it has no more than 53 binary digits.  Over
any ordered field with a floor.
-/
namespace OmniCare.Rounding

variable {K : Type*} [Field K] [LinearOrder K] [IsStrictOrderedRing K] [FloorRing K]

/-- The nearest integer, and of two that are as near the even one. -/
def roundHalfEven (x : K) : ℤ :=
  if Int.fract x < 1 / 2 then ⌊x⌋
  else if 1 / 2 < Int.fract x then ⌊x⌋ + 1
  else if ⌊x⌋ % 2 = 0 then ⌊x⌋
  else ⌊x⌋ + 1

theorem abs_sub_roundHalfEven_le (x : K) : |x - roundHalfEven x| ≤ 1 / 2 := by
  have hx := Int.self_sub_floor x
  have hnonneg := Int.fract_nonneg x
  have hlt := Int.fract_lt_one x
  have hdown : Int.fract x ≤ 1 / 2 → |x - (⌊x⌋ : ℤ)| ≤ 1 / 2 := by
    intro h
    rw [hx, abs_of_nonneg hnonneg]
    exact h
  have hup : 1 / 2 ≤ Int.fract x → |x - ((⌊x⌋ + 1 : ℤ) : K)| ≤ 1 / 2 := by
    intro h
    rw [abs_le]
    push_cast
    constructor
    · linarith
    · linarith
  unfold roundHalfEven
  split
  · rename_i h
    exact hdown h.le
  · rename_i hge
    have hge := not_lt.mp hge
    split
    · exact hup hge
    · rename_i hle
      split
      · exact hdown (not_lt.mp hle)
      · exact hup hge

/-- Nothing else is as near as less than a half. -/
theorem roundHalfEven_eq {x : K} {n : ℤ} (h : |x - n| < 1 / 2) : roundHalfEven x = n := by
  have hround := abs_sub_roundHalfEven_le x
  rw [abs_le] at hround
  rw [abs_lt] at h
  have hlt : ((roundHalfEven x - n : ℤ) : K) < 1 := by
    push_cast
    linarith
  have hgt : (-1 : K) < ((roundHalfEven x - n : ℤ) : K) := by
    push_cast
    linarith
  have hlt : roundHalfEven x - n < 1 := by exact_mod_cast hlt
  have hgt : -1 < roundHalfEven x - n := by exact_mod_cast hgt
  omega

@[simp] theorem roundHalfEven_intCast (n : ℤ) : roundHalfEven (n : K) = n :=
  roundHalfEven_eq (by simp)

omit [IsStrictOrderedRing K] in
theorem roundHalfEven_nonneg {x : K} (h : 0 ≤ x) : 0 ≤ roundHalfEven x := by
  have hfloor := Int.floor_nonneg.mpr h
  unfold roundHalfEven
  split
  · exact hfloor
  · split
    · omega
    · split <;> omega

/-- The nearest multiple of a unit. -/
def roundTo (unit x : K) : K := roundHalfEven (x / unit) * unit

theorem abs_sub_roundTo_le {unit : K} (hunit : 0 < unit) (x : K) :
    |x - roundTo unit x| ≤ unit / 2 := by
  have hx : x - roundTo unit x = (x / unit - roundHalfEven (x / unit)) * unit := by
    unfold roundTo
    rw [sub_mul, div_mul_cancel₀ x hunit.ne']
  rw [hx, abs_mul, abs_of_pos hunit]
  calc |x / unit - roundHalfEven (x / unit)| * unit ≤ 1 / 2 * unit :=
        mul_le_mul_of_nonneg_right (abs_sub_roundHalfEven_le _) hunit.le
    _ = unit / 2 := by ring

/-! ## Binary floating point -/

/-- The distance of the binary64 numbers around a value. -/
def ulp (x : K) : K := 2 ^ max (Int.log 2 |x| - 52) (-1074)

/-- The nearest binary64 number, below the overflow. -/
def binary64 (x : K) : K := roundTo (ulp x) x

theorem ulp_pos (x : K) : 0 < ulp x := zpow_pos two_pos _

theorem binary64_nonneg {x : K} (h : 0 ≤ x) : 0 ≤ binary64 x := by
  have hround := roundHalfEven_nonneg (div_nonneg h (ulp_pos x).le)
  exact mul_nonneg (by exact_mod_cast hround) (ulp_pos x).le

theorem abs_sub_binary64_le (x : K) : |x - binary64 x| ≤ ulp x / 2 :=
  abs_sub_roundTo_le (ulp_pos x) x

/-- Below a power of two, the distance is 53 powers of two less. -/
theorem ulp_le {x : K} {k : ℕ} (hx : |x| < 2 ^ (k + 1)) : ulp x ≤ 2 ^ ((k : ℤ) - 52) := by
  have hlog : Int.log 2 |x| ≤ k := by
    rcases (abs_nonneg x).eq_or_lt with hzero | hpos
    · rw [← hzero, Int.log_zero_right]
      exact Int.natCast_nonneg k
    · refine Int.lt_add_one_iff.mp ((Int.lt_zpow_iff_log_lt one_lt_two hpos).mp ?_)
      exact_mod_cast hx
  unfold ulp
  exact zpow_le_zpow_right₀ one_le_two (max_le (by omega) (by omega))

end OmniCare.Rounding
