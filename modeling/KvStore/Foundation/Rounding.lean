import Mathlib.Data.Int.Log
import Mathlib.Data.Rat.Floor
import Mathlib.Tactic.FieldSimp
import Mathlib.Tactic.Linarith
import Mathlib.Tactic.Positivity
import Mathlib.Tactic.Ring

/-! # Rounding

Rounding to the nearest, a tie going to the even neighbour, over the rational numbers: to an integer
(**`roundEven`**) and to a number of `p` binary digits (**`roundBits`**), the exponent being free. Each comes with
the bound on its error. -/

namespace KvStore

/-- The nearest integer, and the even one of two that are as near. -/
def roundEven (q : ℚ) : ℤ :=
  if q - ⌊q⌋ < 1 / 2 then ⌊q⌋ else if 1 / 2 < q - ⌊q⌋ then ⌊q⌋ + 1 else ⌊q⌋ + ⌊q⌋ % 2

/-- The nearest number of `p` binary digits. -/
def roundBits (p : Nat) (q : ℚ) : ℚ :=
  roundEven (q / 2 ^ (Int.log 2 |q| + 1 - p)) * 2 ^ (Int.log 2 |q| + 1 - p)

/-- The nearest integer is at most a half away. -/
theorem roundEven_error (q : ℚ) : |(roundEven q : ℚ) - q| ≤ 1 / 2 := by
  have hlo := Int.floor_le q
  have hhi := Int.lt_floor_add_one q
  unfold roundEven
  split
  case isTrue hdown =>
    rw [abs_le]
    constructor <;> linarith
  case isFalse hdown =>
    split
    case isTrue hup =>
      push_cast
      rw [abs_le]
      constructor <;> linarith
    case isFalse hup =>
      -- halfway: both neighbours are as near
      have hparity : ⌊q⌋ % 2 = 0 ∨ ⌊q⌋ % 2 = 1 := Int.emod_two_eq_zero_or_one _
      rcases hparity with h | h <;>
      · rw [h]
        push_cast
        rw [abs_le]
        constructor <;> linarith

/-- An integer less than a half away is the nearest. -/
theorem roundEven_eq {q : ℚ} {n : ℤ} (h : |q - n| < 1 / 2) : roundEven q = n := by
  have herror := roundEven_error q
  have hnear : |(roundEven q : ℚ) - n| < 1 := by
    have htriangle := abs_add_le ((roundEven q : ℚ) - q) (q - n)
    rw [sub_add_sub_cancel] at htriangle
    linarith
  have hint : |roundEven q - n| < 1 := by exact_mod_cast hnear
  have hzero := Int.abs_lt_one_iff.mp hint
  omega

/-- **The relative error** of rounding to `p` binary digits. -/
theorem roundBits_error (p : Nat) (q : ℚ) : |roundBits p q - q| ≤ |q| / 2 ^ p := by
  rcases eq_or_ne q 0 with rfl | hq
  · simp [roundBits, roundEven]
  · -- the distance between the neighbours, which is at most twice the error allowed
    set unit : ℚ := 2 ^ (Int.log 2 |q| + 1 - p) with hunit
    have hpos : 0 < unit := zpow_pos (by norm_num) _
    have hscaled : roundBits p q - q = (roundEven (q / unit) - q / unit) * unit := by
      rw [roundBits, ← hunit]
      field_simp
    have hlog : (2 : ℚ) ^ Int.log 2 |q| ≤ |q| := Int.zpow_log_le_self (by norm_num) (abs_pos.mpr hq)
    have hhalf : unit / 2 = 2 ^ Int.log 2 |q| / 2 ^ p := by
      rw [hunit, zpow_sub₀ (by norm_num), zpow_add₀ (by norm_num), zpow_one, zpow_natCast]
      ring
    rw [hscaled, abs_mul, abs_of_pos hpos]
    calc |(roundEven (q / unit) : ℚ) - q / unit| * unit
        ≤ 1 / 2 * unit := mul_le_mul_of_nonneg_right (roundEven_error _) hpos.le
      _ = 2 ^ Int.log 2 |q| / 2 ^ p := by rw [← hhalf]; ring
      _ ≤ |q| / 2 ^ p := by gcongr

end KvStore
