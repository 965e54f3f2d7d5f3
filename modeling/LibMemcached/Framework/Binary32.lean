import Mathlib.Data.Int.Log
import Mathlib.Data.Rat.Floor
import Mathlib.Tactic.Positivity

/-!
# Single-precision arithmetic

Non-negative binary32 values are the rationals they denote, and an operation is
the exact one followed by rounding to 24 significant bits, to nearest with ties
to even. The exponent is not bounded: this is the arithmetic of a computation
whose values stay between the least normal and the greatest finite number.

All that is used of the rounding is that it is relative: `round_ge` and
`round_le`.
-/

namespace LM.Binary32

variable {x a y : ℚ} {n : ℕ} {b : ℚ}

/-- The number of significand bits after the leading one. -/
def fractionBits : ℤ := 23

/-- Round to an integer, to nearest with ties to even. -/
def roundInt (y : ℚ) : ℤ :=
  if y - ⌊y⌋ < 1 / 2 then ⌊y⌋
  else if 1 / 2 < y - ⌊y⌋ then ⌊y⌋ + 1
  else if ⌊y⌋ % 2 = 0 then ⌊y⌋ else ⌊y⌋ + 1

/-- The distance between neighbouring binary32 values around `x`. -/
def ulp (x : ℚ) : ℚ := (2 : ℚ) ^ (Int.log 2 x - fractionBits)

/-- Round to binary32. -/
def round (x : ℚ) : ℚ := if x ≤ 0 then 0 else roundInt (x / ulp x) * ulp x

theorem abs_roundInt_sub_le (y : ℚ) : |(roundInt y : ℚ) - y| ≤ 1 / 2 := by
  have hlo := Int.floor_le y
  have hhi := Int.lt_floor_add_one y
  rw [abs_le]
  unfold roundInt
  split_ifs <;> push_cast <;> constructor <;> linarith

theorem ulp_pos (x : ℚ) : 0 < ulp x := zpow_pos (by norm_num) _

/-- A positive value is at least `2 ^ 23` times its ulp. -/
theorem ulp_mul_le (hx : 0 < x) : ulp x * 2 ^ 23 ≤ x := by
  have h := Int.zpow_log_le_self (R := ℚ) (b := 2) (by norm_num) hx
  calc ulp x * 2 ^ 23 = (2 : ℚ) ^ Int.log 2 x := by
        rw [ulp, ← zpow_natCast, ← zpow_add₀ (by norm_num)]
        simp [fractionBits]
    _ ≤ x := by exact_mod_cast h

/-- Rounding moves a positive value by at most half an ulp. -/
theorem abs_round_sub_le (hx : 0 < x) : |round x - x| ≤ ulp x / 2 := by
  have hu := ulp_pos x
  have h := abs_roundInt_sub_le (x / ulp x)
  have e : round x - x = (roundInt (x / ulp x) - x / ulp x) * ulp x := by
    rw [round, if_neg (not_le.mpr hx), sub_mul, div_mul_cancel₀ _ hu.ne']
  rw [e, abs_mul, abs_of_pos hu]
  linarith [mul_le_mul_of_nonneg_right h hu.le]

theorem round_ge (hx : 0 < x) : x * (1 - 1 / 2 ^ 24) ≤ round x := by
  have h := (abs_le.mp (abs_round_sub_le hx)).1
  have hu := ulp_mul_le hx
  linarith

theorem round_le (hx : 0 < x) : round x ≤ x * (1 + 1 / 2 ^ 24) := by
  have h := (abs_le.mp (abs_round_sub_le hx)).2
  have hu := ulp_mul_le hx
  linarith

/-! ## Operations -/

/-- Conversion of an integer. -/
def ofNat (n : ℕ) : ℚ := round n

def add (x y : ℚ) : ℚ := round (x + y)
def mul (x y : ℚ) : ℚ := round (x * y)
def div (x y : ℚ) : ℚ := round (x / y)

theorem round_pos (hx : 0 < x) : 0 < round x := by
  have := round_ge hx
  linarith

/-! Coarse bounds: an operation keeps a factor of `15/16` of a lower bound and
adds at most `1/16` to an upper one. -/

theorem le_round (ha : 0 < a) (h : a ≤ x) : a * (15 / 16) ≤ round x := by
  have := round_ge (ha.trans_le h)
  linarith

theorem le_ofNat (hn : 0 < n) : (n : ℚ) * (15 / 16) ≤ ofNat n :=
  le_round (by exact_mod_cast hn) le_rfl

theorem ofNat_le (hn : 0 < n) : ofNat n ≤ (n : ℚ) * (17 / 16) := by
  have hn : (0 : ℚ) < n := by exact_mod_cast hn
  have := round_le hn
  unfold ofNat
  linarith

theorem ofNat_pos (hn : 0 < n) : 0 < ofNat n := round_pos (by exact_mod_cast hn)

theorem le_add (ha : 0 < a) (h : a ≤ x) (hy : 0 ≤ y) : a * (15 / 16) ≤ add x y :=
  le_round ha (by linarith)

theorem le_mul (ha : 0 < a) (hb : 0 < b) (hx : a ≤ x) (hy : b ≤ y) : a * b * (15 / 16) ≤ mul x y :=
  le_round (by positivity) (mul_le_mul hx hy hb.le (ha.le.trans hx))

theorem le_div (ha : 0 < a) (hy : 0 < y) (hx : a ≤ x) (hb : y ≤ b) : a / b * (15 / 16) ≤ div x y := by
  have hb' : 0 < b := hy.trans_le hb
  exact le_round (by positivity) (div_le_div₀ (ha.le.trans hx) hx hy hb)

end LM.Binary32
