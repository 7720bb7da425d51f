import TwinServices.Lib.RelativeError
import TwinServices.Python.Basic
import Mathlib.Analysis.SpecialFunctions.Trigonometric.Bounds

/-!
# The accuracy of the platform

What the C library and numpy promise about the functions that the language leaves to them: cosine
and sine are within a last place of the exact value, and the products of a matrix product, added up
in any order with or without fused operations, are within the usual bound for four terms. The sum of
the interpreter, compensated or not, is within the bound of a sum from left to right.

* `CPython.Accurate`: the promises.
* `CPython.AccurateSum`: the one about sums.
* `CPython.Accurate.cos`, `CPython.Accurate.sin`: the functions of doubles that have an error.
* `CPython.floored`: a platform that keeps them.
-/

set_option autoImplicit false

namespace TwinServices.Python

open Lib.Binary64

/-- The platform is accurate. -/
structure CPython.Accurate [CPython] : Prop where
  /-- Below one a last place is at most `roundoff`. -/
  abs_cos_sub_le : ∀ x : Finite64, |((CPython.cos x).val : ℝ) - Real.cos x.val| ≤ roundoff
  abs_sin_sub_le : ∀ x : Finite64, |((CPython.sin x).val : ℝ) - Real.sin x.val| ≤ roundoff
  /-- The bound for sums of four products, and room for products that underflow. -/
  matmul : ∀ a b : Matrix4 Finite64, (∀ i j, |((a i j).val : ℝ)| ≤ 2) →
    (∀ i j, |((b i j).val : ℝ)| ≤ 2) → ∀ i j,
      Near (CPython.matmul (fun i j => .finite (a i j)) (fun i j => .finite (b i j)) i j)
        (∑ k, (a i k).val * (b k j).val)
        (8 * roundoff * ∑ k, |((a i k).val : ℝ)| * |((b k j).val : ℝ)| + 2⁻¹ ^ 200)

/-- A finite sum has finite terms, and is no farther from their exact sum than one from left to
right, which rounds once for every term, can be. -/
def CPython.AccurateSum [CPython] : Prop :=
  ∀ (xs : List Double) (f : Finite64), CPython.sum xs = .finite f →
    ∃ fs : List Finite64, xs = fs.map .finite ∧
      |(f.val : ℝ) - (fs.map fun g => (g.val : ℝ)).sum| ≤
        ((1 + roundoff) ^ fs.length - 1) * (fs.map fun g => |(g.val : ℝ)|).sum

section trigonometry

variable [CPython] {x : Double} {r ε : ℝ}

/-- The cosine of a double near a number. -/
theorem CPython.Accurate.cos (h : CPython.Accurate) (hx : Near x r ε) :
    ∃ c, PyFloat.cos x = .ok c ∧ Near c (Real.cos r) (roundoff + ε) := by
  obtain ⟨f, rfl, hf⟩ := hx
  have hcos : Near (.finite (CPython.cos f)) (Real.cos f.val) roundoff :=
    ⟨_, rfl, h.abs_cos_sub_le f⟩
  exact ⟨_, rfl, hcos.trans ((Real.abs_cos_sub_cos_le _ _).trans hf)⟩

/-- The sine of a double near a number. -/
theorem CPython.Accurate.sin (h : CPython.Accurate) (hx : Near x r ε) :
    ∃ s, PyFloat.sin x = .ok s ∧ Near s (Real.sin r) (roundoff + ε) := by
  obtain ⟨f, rfl, hf⟩ := hx
  have hsin : Near (.finite (CPython.sin f)) (Real.sin f.val) roundoff :=
    ⟨_, rfl, h.abs_sin_sub_le f⟩
  exact ⟨_, rfl, hsin.trans ((Real.abs_sin_sub_sin_le _ _).trans hf)⟩

end trigonometry

/-! ## A platform that keeps the promises -/

section floored

/-- A number up to one has at most `2 ^ 53` units of roundoff. -/
theorem abs_floor_le {r : ℝ} (h : |r| ≤ 1) : |⌊r / roundoff⌋| ≤ 2 ^ 53 := by
  obtain ⟨hlow, hhigh⟩ := abs_le.mp h
  have hone : 1 / roundoff = 2 ^ 53 := by
    rw [roundoff_eq]
    norm_num
  have hlow' : (-1 : ℝ) / roundoff ≤ r / roundoff := by
    gcongr
    exact roundoff_pos.le
  have hhigh' : r / roundoff ≤ 1 / roundoff := by
    gcongr
    exact roundoff_pos.le
  rw [abs_le]
  constructor
  · refine Int.le_floor.mpr ?_
    push_cast
    linarith [neg_div roundoff (1 : ℝ)]
  · refine Int.floor_le_iff.mpr ?_
    push_cast
    linarith

/-- The exponent of the unit roundoff is one of a double. -/
theorem exponent_mem : -1074 ≤ (-53 : ℤ) ∧ (-53 : ℤ) ≤ 0 := by norm_num

/-- A number between minus one and one, rounded down to a multiple of `roundoff`. -/
noncomputable def floored (r : ℝ) (h : |r| ≤ 1) : Finite64 :=
  Double.scaled ⌊r / roundoff⌋ (-53) (abs_floor_le h) exponent_mem

/-- Rounding down to a multiple of the unit roundoff is off by at most one of them. -/
theorem abs_floored_sub_le (r : ℝ) (h : |r| ≤ 1) : |((floored r h).val : ℝ) - r| ≤ roundoff := by
  have hval : ((floored r h).val : ℝ) = ⌊r / roundoff⌋ * roundoff := by
    have hplace : ((2 : ℝ) ^ (-53 : ℤ)) = roundoff := by
      rw [roundoff_eq]
      norm_num
    unfold floored Double.scaled
    push_cast
    rw [hplace]
  have hsplit : r = r / roundoff * roundoff := (div_mul_cancel₀ r roundoff_pos.ne').symm
  have hlow := mul_le_mul_of_nonneg_right (Int.sub_one_lt_floor (r / roundoff)).le roundoff_pos.le
  have hhigh := mul_le_mul_of_nonneg_right (Int.floor_le (r / roundoff)) roundoff_pos.le
  rw [hval, abs_le]
  constructor <;> linarith [roundoff_pos]

/-- The number of a double, zero where it has none. -/
def numberOf : Double → ℚ
  | .finite x => x.val
  | _ => 0

/-- The products of rows and columns, added up exactly and rounded once; NaN unless all of their
entries are finite. -/
def roundedProduct (a b : Matrix4 Double) : Matrix4 Double := fun i j =>
  if ∀ k, (a i k).isFinite ∧ (b k j).isFinite then
    Double.ofRat (∑ k, numberOf (a i k) * numberOf (b k j))
  else .nan

/-- A platform with cosine and sine rounded down, and matrix products rounded once. -/
@[reducible] noncomputable def CPython.floored : CPython :=
  { CPython.series with
    cos := fun x => Python.floored (Real.cos x.val) (Real.abs_cos_le_one _)
    sin := fun x => Python.floored (Real.sin x.val) (Real.abs_sin_le_one _)
    matmul := roundedProduct }

/-- The platform that rounds cosine and sine down is accurate. -/
theorem accurate_floored : @CPython.Accurate CPython.floored := by
  let _ := CPython.floored
  refine ⟨fun x => abs_floored_sub_le _ _, fun x => abs_floored_sub_le _ _, ?_⟩
  intro a b ha hb i j
  have hproduct : CPython.matmul (fun i j => .finite (a i j)) (fun i j => .finite (b i j)) i j =
      Double.ofRat (∑ k, (a i k).val * (b k j).val) := by
    have hfinite : ∀ k, (Double.finite (a i k)).isFinite ∧ (Double.finite (b k j)).isFinite :=
      fun _ => ⟨rfl, rfl⟩
    exact if_pos (e := .nan) hfinite
  have hsum : |((∑ k, (a i k).val * (b k j).val : ℚ) : ℝ)| ≤
      ∑ k, |((a i k).val : ℝ)| * |((b k j).val : ℝ)| := by
    push_cast
    refine (Finset.abs_sum_le_sum_abs ..).trans_eq ?_
    simp only [abs_mul]
  have hbound : |((∑ k, (a i k).val * (b k j).val : ℚ) : ℝ)| ≤ 2 ^ 4 := by
    refine hsum.trans ?_
    calc ∑ k, |((a i k).val : ℝ)| * |((b k j).val : ℝ)|
        ≤ ∑ _k : Fin 4, (2 : ℝ) * 2 := by
          gcongr with k
          · exact ha i k
          · exact hb k j
      _ ≤ 2 ^ 4 := by norm_num
  have hnear := near_ofRat_relative (by norm_num : 4 < 1024) hbound
  rw [hproduct]
  push_cast at hnear
  refine hnear.mono ?_
  have hnonneg : 0 ≤ ∑ k, |((a i k).val : ℝ)| * |((b k j).val : ℝ)| := by positivity
  push_cast at hsum
  nlinarith [roundoff_pos]

/-- Its float sum is the one from left to right. -/
theorem accurateSum_floored : @CPython.AccurateSum CPython.floored := fun _ _ h => foldl_add h

end floored

end TwinServices.Python
