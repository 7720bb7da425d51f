import TwinServices.Lib.Binary64

/-!
# How far rounding moves a number

* `abs_round_sub_le`: rounding moves a number by at most half of its last place.
* `abs_round_sub_le_relative`: so by a small part of the number, unless it underflows.
* `lastPlace_le`: a bound on a number by a power of two bounds its last place.
* `Finite64.fract`: the fractional part of a double that is not negative is a double.
* `Finite64.fract_le`: it stays below one by at least half of the last place at one.
-/

set_option autoImplicit false

namespace Lib.Binary64

/-- Rounding to an integer is off by at most one half. -/
theorem abs_roundEven_sub_le (q : ℚ) : |(roundEven q : ℚ) - q| ≤ 1 / 2 := by
  have hlo := Int.floor_le q
  have hhi := Int.lt_floor_add_one q
  rw [abs_le]
  unfold roundEven
  split_ifs <;> push_cast <;> constructor <;> linarith

/-- **Rounding moves a number by at most half of its last place.** -/
theorem abs_round_sub_le (q : ℚ) : |round q - q| ≤ 2 ^ lastPlace q / 2 := by
  have hpos : (0 : ℚ) < 2 ^ lastPlace q := by positivity
  have hsplit : round q - q =
      (roundEven (q / 2 ^ lastPlace q) - q / 2 ^ lastPlace q) * 2 ^ lastPlace q := by
    rw [sub_mul, div_mul_cancel₀ _ hpos.ne']
    rfl
  rw [hsplit, abs_mul, abs_of_pos hpos]
  have hhalf := mul_le_mul_of_nonneg_right (abs_roundEven_sub_le (q / 2 ^ lastPlace q)) hpos.le
  linarith

/-- The last place of a number that does not underflow is small beside it. -/
theorem half_lastPlace_le {q : ℚ} (hne : q ≠ 0) (h : -1074 ≤ Int.log 2 |q| - 52) :
    2 ^ lastPlace q / 2 ≤ 2⁻¹ ^ 53 * |q| := by
  have hlog : (2 : ℚ) ^ Int.log 2 |q| ≤ |q| := by
    exact_mod_cast Int.zpow_log_le_self (b := 2) (by norm_num) (abs_pos.mpr hne)
  rw [lastPlace, max_eq_left h, zpow_sub₀ two_ne_zero]
  norm_num
  linarith

/-- Rounding moves a number by a small part of it; the rest is for numbers that underflow. -/
theorem abs_round_sub_le_relative (q : ℚ) :
    |round q - q| ≤ 2⁻¹ ^ 53 * |q| + 2 ^ (-1075 : ℤ) := by
  rcases eq_or_ne q 0 with rfl | hne
  · rw [round_zero, sub_zero, abs_zero]
    positivity
  · refine (abs_round_sub_le q).trans ?_
    rcases le_or_gt (-1074) (Int.log 2 |q| - 52) with h | h
    · exact (half_lastPlace_le hne h).trans (le_add_of_nonneg_right (by positivity))
    · have hhalf : (2 : ℚ) ^ (-1074 : ℤ) / 2 = 2 ^ (-1075 : ℤ) := by
        rw [show (-1075 : ℤ) = -1074 - 1 by norm_num, zpow_sub_one₀ two_ne_zero, div_eq_mul_inv]
      rw [lastPlace, max_eq_right h.le, hhalf]
      exact le_add_of_nonneg_left (by positivity)

/-- A whole number of the smallest double does not underflow. -/
theorem abs_round_sub_le_of_units {q : ℚ} {k : ℤ} (hq : q = k * unit) :
    |round q - q| ≤ 2⁻¹ ^ 53 * |q| := by
  rcases le_or_gt |k| (2 ^ 53) with hk | hk
  · rw [hq, unit, round_int_mul_zpow hk le_rfl, sub_self, abs_zero]
    positivity
  · have hlow : (2 : ℚ) ^ (-1021 : ℤ) ≤ |q| := by
      have hk' : (2 : ℚ) ^ (53 : ℤ) ≤ |(k : ℚ)| := by exact_mod_cast hk.le
      rw [hq, abs_mul, abs_of_pos unit_pos, unit, show (-1021 : ℤ) = 53 + -1074 by norm_num,
        zpow_add₀ two_ne_zero]
      gcongr
    have hne : q ≠ 0 := by
      rintro rfl
      rw [abs_zero] at hlow
      exact absurd hlow (not_le.mpr (by positivity))
    have hlog : -1021 ≤ Int.log 2 |q| :=
      (Int.zpow_le_iff_le_log (by norm_num) (abs_pos.mpr hne)).mp (by exact_mod_cast hlow)
    exact (abs_round_sub_le q).trans (half_lastPlace_le hne (by omega))

/-- A number below a power of two has its last place 53 places below that power. -/
theorem lastPlace_le {q : ℚ} {k : ℤ} (hk : -1021 ≤ k) (hq : q ≠ 0) (h : |q| < 2 ^ k) :
    lastPlace q ≤ k - 53 := by
  have hlog : Int.log 2 |q| < k := by
    have hle := Int.zpow_log_le_self (b := 2) (by norm_num) (abs_pos.mpr hq)
    exact (zpow_lt_zpow_iff_right₀ (by norm_num : (1 : ℚ) < 2)).mp
      (lt_of_le_of_lt (by exact_mod_cast hle) h)
  unfold lastPlace
  omega

/-- A bound on the number bounds what rounding moves it by. -/
theorem abs_round_sub_le_of_lt {q : ℚ} {k : ℤ} (hk : -1021 ≤ k) (h : |q| < 2 ^ k) :
    |round q - q| ≤ 2 ^ (k - 53) / 2 := by
  rcases eq_or_ne q 0 with rfl | hq
  · rw [round_zero, sub_zero, abs_zero]
    positivity
  · have hpow : (2 : ℚ) ^ lastPlace q ≤ 2 ^ (k - 53) :=
      zpow_le_zpow_right₀ (by norm_num) (lastPlace_le hk hq h)
    have := abs_round_sub_le q
    linarith

/-! ## Fractional parts -/

/-- A finite double is a whole number of its last places. -/
theorem Finite64.exists_eq (x : Finite64) : ∃ m e : ℤ, x.val = m * 2 ^ e ∧ |m| ≤ 2 ^ 53 ∧
    -1074 ≤ e := by
  refine ⟨roundEven (x.val / 2 ^ lastPlace x.val), lastPlace x.val, x.rounded.symm, ?_,
    neg_1074_le_lastPlace _⟩
  have hbound := abs_round_le x.val
  unfold round at hbound
  rw [abs_mul, abs_of_pos (by positivity : (0 : ℚ) < 2 ^ lastPlace x.val)] at hbound
  have hle := le_of_mul_le_mul_right hbound (by positivity)
  exact_mod_cast hle

/-- A whole number of places below one, less its whole part. -/
theorem fract_mul_zpow (m : ℤ) (k : ℕ) :
    Int.fract ((m : ℚ) * 2 ^ (-(k : ℤ))) = ((m % 2 ^ k : ℤ) : ℚ) * 2 ^ (-(k : ℤ)) := by
  have hpow : (0 : ℚ) < 2 ^ k := by positivity
  rw [Int.fract_eq_iff]
  have hnonneg := Int.emod_nonneg m (pow_ne_zero k (two_ne_zero (α := ℤ)))
  have hlt := Int.emod_lt_of_pos m (pow_pos (two_pos (α := ℤ)) k)
  rw [zpow_neg, zpow_natCast]
  refine ⟨by positivity, ?_, m / 2 ^ k, ?_⟩
  · rw [mul_inv_lt_iff₀ hpow, one_mul]
    exact_mod_cast hlt
  · rw [← sub_mul, mul_inv_eq_iff_eq_mul₀ hpow.ne']
    have hdiv := Int.emod_add_mul_ediv m (2 ^ k)
    rw [← Int.cast_sub, show m - m % 2 ^ k = m / 2 ^ k * 2 ^ k by linarith]
    push_cast
    rfl

/-- The fractional part of a double that is not negative, in places no finer than the double's. -/
theorem Finite64.fract_eq {x : Finite64} (h : 0 ≤ x.val) :
    ∃ (m : ℤ) (k : ℕ), Int.fract x.val = m * 2 ^ (-(k : ℤ)) ∧ 0 ≤ m ∧ m < 2 ^ k ∧ m ≤ 2 ^ 53 ∧
      k ≤ 1074 := by
  obtain ⟨m, e, hval, hm, he⟩ := x.exists_eq
  rcases le_or_gt 0 e with hle | hlt
  · -- a whole number
    obtain ⟨n, rfl⟩ := Int.eq_ofNat_of_zero_le hle
    have hwhole : x.val = ((m * 2 ^ n : ℤ) : ℚ) := by
      rw [hval]
      push_cast
      rw [zpow_natCast]
    refine ⟨0, 0, ?_, le_rfl, by norm_num, by norm_num, by norm_num⟩
    rw [hwhole, Int.fract_intCast, Int.cast_zero, zero_mul]
  · obtain ⟨k, hk⟩ := Int.eq_ofNat_of_zero_le (by omega : 0 ≤ -e)
    obtain rfl : e = -(k : ℤ) := by omega
    have hm0 : 0 ≤ m := by
      rw [hval] at h
      have := nonneg_of_mul_nonneg_left h (by positivity : (0 : ℚ) < 2 ^ (-(k : ℤ)))
      exact_mod_cast this
    refine ⟨m % 2 ^ k, k, by rw [hval, fract_mul_zpow], Int.emod_nonneg m (by positivity),
      Int.emod_lt_of_pos m (by positivity), ?_, by omega⟩
    have hpow : (0 : ℤ) ≤ 2 ^ k := by positivity
    have hwhole := mul_nonneg hpow (Int.ediv_nonneg hm0 hpow)
    have hdiv := Int.emod_add_mul_ediv m (2 ^ k)
    rw [abs_of_nonneg hm0] at hm
    linarith

/-- **The fractional part of a double that is not negative is a double.** -/
theorem Finite64.round_fract {x : Finite64} (h : 0 ≤ x.val) :
    round (Int.fract x.val) = Int.fract x.val := by
  obtain ⟨m, k, hfract, hm0, -, hm, hk⟩ := x.fract_eq h
  rw [hfract]
  exact round_int_mul_zpow (by rwa [abs_of_nonneg hm0]) (by omega)

/-- The fractional part of a double that is not negative, as a double. -/
def Finite64.fract (x : Finite64) (h : 0 ≤ x.val) : Finite64 :=
  ⟨Int.fract x.val, Finite64.round_fract h, by
    rw [abs_of_nonneg (Int.fract_nonneg _)]
    exact (Int.fract_lt_one _).trans ((by norm_num : (1 : ℚ) < 2 ^ 53).trans
      two_pow_53_lt_overflow)⟩

/-- It stays below one by at least half of the last place at one. -/
theorem Finite64.fract_le {x : Finite64} (h : 0 ≤ x.val) :
    Int.fract x.val ≤ 1 - 2 ^ (-53 : ℤ) := by
  obtain ⟨m, k, hfract, hm0, hlt, hm, hk⟩ := x.fract_eq h
  have hpow : (0 : ℚ) < 2 ^ k := by positivity
  rw [hfract, zpow_neg, zpow_natCast, ← div_eq_mul_inv, div_le_iff₀ hpow]
  rcases le_or_gt k 53 with hle | hgt
  · have hone : (m : ℚ) + 1 ≤ 2 ^ k := by exact_mod_cast hlt
    have hplace : (2 : ℚ) ^ (-53 : ℤ) * 2 ^ k ≤ 1 := by
      rw [← zpow_natCast, ← zpow_add₀ two_ne_zero]
      exact zpow_le_one_of_nonpos₀ (by norm_num) (by omega)
    linarith
  · have hbig : (2 : ℚ) * 2 ^ 53 ≤ 2 ^ k := by
      rw [← pow_succ']
      exact pow_le_pow_right₀ (by norm_num) hgt
    have hm' : (m : ℚ) ≤ 2 ^ 53 := by exact_mod_cast hm
    have hhalf : (1 / 2 : ℚ) ≤ 1 - 2 ^ (-53 : ℤ) := by norm_num
    calc (m : ℚ) ≤ 2 ^ 53 := hm'
      _ ≤ 1 / 2 * 2 ^ k := by linarith
      _ ≤ (1 - 2 ^ (-53 : ℤ)) * 2 ^ k := mul_le_mul_of_nonneg_right hhalf hpow.le

end Lib.Binary64
