import TwinServices.Lib.RoundingError
import Mathlib.Analysis.Real.Sqrt
import Mathlib.Tactic.LinearCombination

/-!
# Errors of computed doubles

A computed double stands for a number of exact arithmetic. It is near that number when it is finite
and its error is bounded; each operation keeps its operands' errors, scaled by their magnitudes, and
adds its own rounding.

* `Near`: a double within an error of a number.
* `near_ofRat`: one rounding, of a number whose magnitude is below a power of two.
* `Near.add`, `Near.sub`, `Near.mul`, `Near.div`, `Near.sqrt`: the operations.
* `Near.lt`, `Near.not_lt`: what comparisons of doubles say about the numbers.
-/

set_option autoImplicit false

namespace Lib.Binary64

open Double

/-- The last place of the doubles below one, at which one rounds to nearest. -/
noncomputable def roundoff : ℝ := ((2⁻¹ ^ 53 : ℚ) : ℝ)

/-- The unit roundoff as a power of one half. -/
theorem roundoff_eq : roundoff = 2⁻¹ ^ 53 := by
  unfold roundoff
  push_cast
  rfl

/-- The unit roundoff is positive. -/
theorem roundoff_pos : 0 < roundoff := by
  rw [roundoff_eq]
  positivity

/-- The unit roundoff is below any bound of fifteen decimals. -/
theorem roundoff_le : roundoff ≤ 1 / 10 ^ 15 := by
  rw [roundoff_eq]
  norm_num

/-- The double is finite, and within `ε` of the number. -/
def Near (x : Double) (r ε : ℝ) : Prop :=
  ∃ f : Finite64, x = .finite f ∧ |(f.val : ℝ) - r| ≤ ε

section operations

variable {x y : Double} {r s ε δ : ℝ} {k : ℕ}

/-- A larger error bound holds too. -/
theorem Near.mono (h : Near x r ε) (hle : ε ≤ δ) : Near x r δ := by
  obtain ⟨f, rfl, hf⟩ := h
  exact ⟨f, rfl, hf.trans hle⟩

/-- A finite double is its own number. -/
theorem near_finite (f : Finite64) : Near (.finite f) f.val 0 := ⟨f, rfl, by simp⟩

/-- What is near a real number is finite. -/
theorem Near.isFinite (h : Near x r ε) : x.isFinite = true := by
  obtain ⟨f, rfl, -⟩ := h
  rfl

/-- An error bound is not negative. -/
theorem Near.nonneg (h : Near x r ε) : 0 ≤ ε := by
  obtain ⟨f, -, hf⟩ := h
  exact (abs_nonneg _).trans hf

/-- The numbers may be moved. -/
theorem Near.trans (h : Near x r ε) (hs : |r - s| ≤ δ) : Near x s (ε + δ) := by
  obtain ⟨f, rfl, hf⟩ := h
  exact ⟨f, rfl, (abs_sub_le _ r _).trans (add_le_add hf hs)⟩

/-- A finite result is the rounding of the exact one. -/
theorem val_of_ofRat {q : ℚ} {f : Finite64} (h : ofRat q = .finite f) : f.val = round q := by
  unfold ofRat at h
  split_ifs at h
  exact (congrArg Finite64.val (Double.finite.inj h)).symm

/-- **One rounding**, of a number below a power of two: half of the last place below it. -/
theorem near_ofRat {q : ℚ} (hk : k < 1024) (hq : |(q : ℝ) - r| ≤ ε) (hr : |r| + ε < 2 ^ k) :
    Near (ofRat q) r (ε + 2 ^ k * (roundoff / 2)) := by
  have hreal : |(q : ℝ)| < 2 ^ k := by
    have := abs_sub_abs_le_abs_sub (q : ℝ) r
    linarith
  have hlt : |q| < 2 ^ k := by exact_mod_cast hreal
  obtain ⟨f, hf, -⟩ := ofRat_of_abs_le hk hlt.le
  have hround : |round q - q| ≤ 2 ^ ((k : ℤ) - 53) / 2 :=
    abs_round_sub_le_of_lt (by omega) (by exact_mod_cast hlt)
  have hcast : |(f.val : ℝ) - q| ≤ 2 ^ k * (roundoff / 2) := by
    have hplace : ((2 ^ ((k : ℤ) - 53) / 2 : ℚ) : ℝ) = 2 ^ k * (roundoff / 2) := by
      rw [zpow_sub₀ two_ne_zero, zpow_natCast]
      rw [roundoff_eq]
      push_cast
      norm_num
      ring
    rw [val_of_ofRat hf, ← hplace]
    exact_mod_cast hround
  refine ⟨f, hf, (abs_sub_le _ (q : ℝ) _).trans ?_⟩
  linarith

/-- One rounding, relative to the number; the rest is for numbers that underflow. -/
theorem near_ofRat_relative {q : ℚ} (hk : k < 1024) (hq : |(q : ℝ)| ≤ 2 ^ k) :
    Near (ofRat q) q (roundoff * |(q : ℝ)| + 2⁻¹ ^ 200) := by
  obtain ⟨f, hf, -⟩ := ofRat_of_abs_le hk (by exact_mod_cast hq)
  have hround : |round q - q| ≤ 2⁻¹ ^ 53 * |q| + 2⁻¹ ^ 200 := by
    have hleast : (2 : ℚ) ^ (-1075 : ℤ) ≤ 2 ^ (-200 : ℤ) :=
      zpow_le_zpow_right₀ (by norm_num) (by norm_num)
    rw [zpow_neg 2 200] at hleast
    refine (abs_round_sub_le_relative q).trans (add_le_add_right ?_ _)
    rw [inv_pow 2 200]
    exact_mod_cast hleast
  rw [← val_of_ofRat hf] at hround
  have hreal := (Rat.cast_le (K := ℝ)).mpr hround
  push_cast at hreal
  exact ⟨f, hf, by rwa [roundoff_eq]⟩

/-- Negation is exact. -/
theorem Near.neg (h : Near x r ε) : Near (neg x) (-r) ε := by
  obtain ⟨f, rfl, hf⟩ := h
  refine ⟨_, rfl, ?_⟩
  rw [abs_sub_comm] at hf
  simpa [neg_add_eq_sub] using hf

/-- The errors of a sum add up, with one rounding of a result below `2 ^ k`. -/
theorem Near.add (hx : Near x r ε) (hy : Near y s δ) (hk : k < 1024)
    (hbound : |r + s| + (ε + δ) < 2 ^ k) :
    Near (add x y) (r + s) (ε + δ + 2 ^ k * (roundoff / 2)) := by
  obtain ⟨f, rfl, hf⟩ := hx
  obtain ⟨g, rfl, hg⟩ := hy
  refine near_ofRat hk ?_ hbound
  push_cast
  rw [add_sub_add_comm]
  exact (abs_add_le _ _).trans (add_le_add hf hg)

/-- The errors of a difference add up, with one rounding of a result below `2 ^ k`. -/
theorem Near.sub (hx : Near x r ε) (hy : Near y s δ) (hk : k < 1024)
    (hbound : |r - s| + (ε + δ) < 2 ^ k) :
    Near (sub x y) (r - s) (ε + δ + 2 ^ k * (roundoff / 2)) := by
  rw [sub_eq_add_neg] at hbound ⊢
  exact hx.add hy.neg hk hbound

/-- The error of a product: each factor's error at the other one's magnitude. -/
theorem abs_mul_sub_mul_le {a b R S : ℝ} (ha : |a - r| ≤ ε) (hb : |b - s| ≤ δ) (hr : |r| ≤ R)
    (hs : |s| ≤ S) : |a * b - r * s| ≤ R * δ + S * ε + ε * δ := by
  have hsplit : a * b - r * s = r * (b - s) + s * (a - r) + (a - r) * (b - s) := by ring
  have hR := (abs_nonneg r).trans hr
  have hS := (abs_nonneg s).trans hs
  have hε := (abs_nonneg _).trans ha
  calc |a * b - r * s|
      ≤ |r * (b - s)| + |s * (a - r)| + |(a - r) * (b - s)| := by
        rw [hsplit]
        exact abs_add_three _ _ _
    _ ≤ R * δ + S * ε + ε * δ := by
        rw [abs_mul, abs_mul, abs_mul]
        gcongr

/-- Each factor's error counts times the other factor, with one rounding of a result below
`2 ^ k`. -/
theorem Near.mul {R S : ℝ} (hx : Near x r ε) (hy : Near y s δ) (hr : |r| ≤ R) (hs : |s| ≤ S)
    (hk : k < 1024) (hbound : R * S + (R * δ + S * ε + ε * δ) < 2 ^ k) :
    Near (mul x y) (r * s) (R * δ + S * ε + ε * δ + 2 ^ k * (roundoff / 2)) := by
  obtain ⟨f, rfl, hf⟩ := hx
  obtain ⟨g, rfl, hg⟩ := hy
  have hrs : |r * s| ≤ R * S := by
    rw [abs_mul]
    exact mul_le_mul hr hs (abs_nonneg s) ((abs_nonneg r).trans hr)
  refine near_ofRat hk ?_ (by linarith)
  push_cast
  exact abs_mul_sub_mul_le hf hg hr hs

/-- A quotient by a number that stays above `c`. -/
theorem Near.div {c Q : ℝ} (hx : Near x r ε) (hy : Near y s δ) (hc : 0 < c) (hs : c + δ ≤ s)
    (hr : |r| ≤ Q * s) (hk : k < 1024) (hbound : Q + (ε + Q * δ) / c < 2 ^ k) :
    ∃ z, div x y = some z ∧ Near z (r / s) ((ε + Q * δ) / c + 2 ^ k * (roundoff / 2)) := by
  have hε := hx.nonneg
  have hδ := hy.nonneg
  obtain ⟨f, rfl, hf⟩ := hx
  obtain ⟨g, rfl, hg⟩ := hy
  have hspos : 0 < s := by linarith
  have hg' : c ≤ (g.val : ℝ) := by
    have := (abs_le.mp hg).1
    linarith
  have hgpos : 0 < (g.val : ℝ) := hc.trans_le hg'
  have hne : g.val ≠ 0 := by
    intro hzero
    rw [hzero, Rat.cast_zero] at hgpos
    exact lt_irrefl 0 hgpos
  have hQ : |r / s| ≤ Q := by
    rwa [abs_div, abs_of_pos hspos, div_le_iff₀ hspos]
  have hQpos : 0 ≤ Q := (abs_nonneg _).trans hQ
  have hsplit : (f.val : ℝ) / g.val - r / s = ((f.val - r) - r / s * (g.val - s)) / g.val := by
    field_simp
    ring
  refine ⟨_, if_neg hne, near_ofRat hk ?_ (by linarith)⟩
  push_cast
  rw [hsplit, abs_div, abs_of_pos hgpos]
  calc |(f.val : ℝ) - r - r / s * (g.val - s)| / g.val
      ≤ (|(f.val : ℝ) - r| + |r / s * (g.val - s)|) / g.val := by
        gcongr
        exact abs_sub _ _
    _ ≤ (ε + Q * δ) / c := by
        rw [abs_mul]
        gcongr

/-! ## The root -/

/-- The integer part of a scaled root, with a half added when something was cut off, is the root to
the precision of the scale. -/
theorem abs_natSqrt_sub_le {q : ℚ} (hq : 0 ≤ q) {scale : ℕ} (hscale : 0 < scale) {n : ℕ}
    (hn : ⌊q * (scale * scale)⌋.toNat = n) :
    |((Nat.sqrt n + (if Nat.sqrt n * Nat.sqrt n = n then 0 else 1 / 2)) / scale : ℝ) -
      Real.sqrt q| ≤ 1 / scale := by
  have hpos : (0 : ℝ) < scale := by exact_mod_cast hscale
  have hroot : Real.sqrt (q * (scale * scale)) = Real.sqrt q * scale := by
    rw [Real.sqrt_mul (by exact_mod_cast hq), Real.sqrt_mul_self hpos.le]
  have hcast : (n : ℚ) = (⌊q * (scale * scale)⌋ : ℤ) := by
    rw [← hn]
    exact_mod_cast Int.toNat_of_nonneg (Int.floor_nonneg.mpr (by positivity))
  have hle : (n : ℝ) ≤ q * (scale * scale) := by
    have hfloor := Int.floor_le (q * (scale * scale))
    rw [← hcast] at hfloor
    exact_mod_cast hfloor
  have hlt : (q : ℝ) * (scale * scale) < n + 1 := by
    have hfloor := Int.lt_floor_add_one (q * (scale * scale))
    rw [← hcast] at hfloor
    exact_mod_cast hfloor
  have hlow : (Nat.sqrt n : ℝ) ≤ Real.sqrt q * scale := by
    rw [← hroot]
    refine Real.le_sqrt_of_sq_le (le_trans ?_ hle)
    exact_mod_cast Nat.sqrt_le' n
  have hhigh : Real.sqrt q * scale ≤ Nat.sqrt n + 1 := by
    rw [← hroot]
    refine Real.sqrt_le_iff.mpr ⟨by positivity, hlt.le.trans ?_⟩
    exact_mod_cast Nat.succ_le_succ_sqrt' n
  have hvalue : ((Nat.sqrt n + (if Nat.sqrt n * Nat.sqrt n = n then 0 else 1 / 2)) / scale : ℝ) -
      Real.sqrt q = (Nat.sqrt n + (if Nat.sqrt n * Nat.sqrt n = n then 0 else 1 / 2) -
        Real.sqrt q * scale) / scale := by
    field_simp
  rw [hvalue, abs_div, abs_of_pos hpos]
  gcongr
  rw [abs_le]
  split_ifs <;> constructor <;> linarith

/-- One step of the fixed-point square root is below the unit roundoff. -/
theorem one_div_rootScale_le : 1 / (rootScale : ℝ) ≤ roundoff := by
  have hle : 2 ^ 53 ≤ rootScale := by
    unfold rootScale
    gcongr
    · norm_num
    · norm_num
  have hreal : (2 : ℝ) ^ 53 ≤ rootScale := by exact_mod_cast hle
  rw [roundoff_eq, inv_pow, one_div]
  exact inv_anti₀ (by positivity) hreal

/-- The root of a rational, before it is rounded. -/
theorem abs_sqrtApprox_sub_le_scale {q : ℚ} (hq : 0 ≤ q) :
    |(sqrtApprox q : ℝ) - Real.sqrt q| ≤ 1 / rootScale := by
  have happrox := abs_natSqrt_sub_le hq rootScale_pos rfl
  unfold sqrtApprox
  rw [Rat.cast_div, Rat.cast_add, apply_ite (Rat.cast : ℚ → ℝ)]
  push_cast
  exact happrox

/-- The fixed-point square root is exact up to the unit roundoff. -/
theorem abs_sqrtApprox_sub_le {q : ℚ} (hq : 0 ≤ q) :
    |(sqrtApprox q : ℝ) - Real.sqrt q| ≤ roundoff :=
  (abs_sqrtApprox_sub_le_scale hq).trans one_div_rootScale_le

/-- The root of a number that stays above a square. -/
theorem Near.sqrt {c : ℝ} (hx : Near x r ε) (hc : 0 < c) (hr : c ^ 2 ≤ r) (hε : ε ≤ r)
    (hk : k < 1024) (hbound : Real.sqrt r + (ε / c + roundoff) < 2 ^ k) :
    ∃ y, sqrt x = some y ∧ Near y (Real.sqrt r) (ε / c + roundoff + 2 ^ k * (roundoff / 2)) := by
  obtain ⟨f, rfl, hf⟩ := hx
  have hrpos : 0 < r := (pow_pos hc 2).trans_le hr
  have hfreal : 0 ≤ (f.val : ℝ) := by
    have := (abs_le.mp hf).1
    linarith
  have hfpos : 0 ≤ f.val := by exact_mod_cast hfreal
  have hroots : |Real.sqrt f.val - Real.sqrt r| ≤ ε / c := by
    -- the difference of the squares, with a sum of the roots that is at least `c`
    have hsum : c ≤ Real.sqrt f.val + Real.sqrt r :=
      (Real.le_sqrt_of_sq_le hr).trans (le_add_of_nonneg_left (Real.sqrt_nonneg _))
    have hsquares : (Real.sqrt f.val - Real.sqrt r) * (Real.sqrt f.val + Real.sqrt r) =
        f.val - r := by
      have hsqf := Real.mul_self_sqrt hfreal
      have hsqr := Real.mul_self_sqrt hrpos.le
      linear_combination hsqf - hsqr
    rw [le_div_iff₀ hc]
    calc |Real.sqrt f.val - Real.sqrt r| * c
        ≤ |Real.sqrt f.val - Real.sqrt r| * (Real.sqrt f.val + Real.sqrt r) :=
          mul_le_mul_of_nonneg_left hsum (abs_nonneg _)
      _ = |(f.val : ℝ) - r| := by
          rw [← hsquares, abs_mul, abs_of_pos (hc.trans_le hsum)]
      _ ≤ ε := hf
  refine ⟨_, if_neg (not_lt.mpr hfpos), near_ofRat hk ?_ ?_⟩
  · have happrox := abs_sqrtApprox_sub_le hfpos
    have htri := abs_sub_le (sqrtApprox f.val : ℝ) (Real.sqrt f.val) (Real.sqrt r)
    linarith
  · rwa [abs_of_nonneg (Real.sqrt_nonneg r)]

/-! ## Comparisons -/

/-- Doubles in order stand for numbers that are nearly so. -/
theorem Near.lt (hx : Near x r ε) (hy : Near y s δ) (h : x < y) : r < s + (ε + δ) := by
  obtain ⟨f, rfl, hf⟩ := hx
  obtain ⟨g, rfl, hg⟩ := hy
  have hlt : f.val < g.val := h
  have hreal : (f.val : ℝ) < g.val := by exact_mod_cast hlt
  rw [abs_le] at hf hg
  linarith

/-- A failed comparison bounds the exact values the other way, up to both errors. -/
theorem Near.not_lt (hx : Near x r ε) (hy : Near y s δ) (h : ¬ x < y) : s ≤ r + (ε + δ) := by
  obtain ⟨f, rfl, hf⟩ := hx
  obtain ⟨g, rfl, hg⟩ := hy
  have hle : g.val ≤ f.val := le_of_not_gt h
  have hreal : (g.val : ℝ) ≤ f.val := by exact_mod_cast hle
  rw [abs_le] at hf hg
  linarith

end operations

end Lib.Binary64
