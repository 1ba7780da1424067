import Mathlib.Data.Int.Log
import Mathlib.Data.Rat.Floor
import Mathlib.Tactic.Linarith
import Mathlib.Tactic.Positivity

/-!
# Rounding to binary64

The value of an operation on positive floats is the exact value, rounded to 53 significant bits, to
the nearest and to even between two. Numbers outside the normal range are left out.
-/

namespace Apanel

namespace Binary64

/-- The nearest integer, the even one between two. -/
def roundHalfEven (q : ℚ) : ℤ :=
  if 2 * (q - ⌊q⌋) < 1 then ⌊q⌋
  else if 1 < 2 * (q - ⌊q⌋) then ⌊q⌋ + 1
  else if ⌊q⌋ % 2 = 0 then ⌊q⌋
  else ⌊q⌋ + 1

/-- The exponent of the last of the 53 bits. -/
def lastPlace (q : ℚ) : ℤ := Int.log 2 q - 52

/-- The float nearest to a positive number. -/
def round (q : ℚ) : ℚ := roundHalfEven (q / 2 ^ lastPlace q) * 2 ^ lastPlace q

theorem abs_roundHalfEven_sub_le (q : ℚ) : |(roundHalfEven q : ℚ) - q| ≤ 1 / 2 := by
  have hle := Int.floor_le q
  have hlt := Int.lt_floor_add_one q
  rw [abs_le, roundHalfEven]
  split
  · constructor <;> linarith
  · split
    · push_cast
      constructor <;> linarith
    · split <;> push_cast <;> constructor <;> linarith

/-- The relative error of a rounding. -/
theorem abs_round_sub_le {q : ℚ} (hq : 0 < q) : |round q - q| ≤ q / 2 ^ 53 := by
  have hplace : (0 : ℚ) < 2 ^ lastPlace q := zpow_pos (by norm_num) _
  have hsub : round q - q =
      (roundHalfEven (q / 2 ^ lastPlace q) - q / 2 ^ lastPlace q) * 2 ^ lastPlace q := by
    rw [round, sub_mul, div_mul_cancel₀ _ hplace.ne']
  have hlog : (2 : ℚ) ^ Int.log 2 q ≤ q := by exact_mod_cast Int.zpow_log_le_self (by norm_num) hq
  calc |round q - q|
      = |(roundHalfEven (q / 2 ^ lastPlace q) : ℚ) - q / 2 ^ lastPlace q| * 2 ^ lastPlace q := by
        rw [hsub, abs_mul, abs_of_pos hplace]
    _ ≤ 1 / 2 * 2 ^ lastPlace q :=
        mul_le_mul_of_nonneg_right (abs_roundHalfEven_sub_le _) hplace.le
    _ = 2 ^ Int.log 2 q / 2 ^ 53 := by
        rw [lastPlace, zpow_sub₀ (by norm_num)]
        norm_num
        ring
    _ ≤ q / 2 ^ 53 := div_le_div_of_nonneg_right hlog (by positivity)

theorem round_le {q : ℚ} (hq : 0 < q) : round q ≤ q + q / 2 ^ 53 := by
  have := (abs_le.mp (abs_round_sub_le hq)).2
  linarith

theorem le_round {q : ℚ} (hq : 0 < q) : q - q / 2 ^ 53 ≤ round q := by
  have := (abs_le.mp (abs_round_sub_le hq)).1
  linarith

end Binary64

end Apanel
