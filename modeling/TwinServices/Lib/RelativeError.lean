import TwinServices.Lib.ErrorBound
import Mathlib.Analysis.Complex.ExponentialBounds

/-!
# Relative errors

The error of a finite result, relative to its size. Nothing is asked of the magnitudes: a result
that is finite has no overflow behind it. Sums of doubles do not underflow; for products, quotients
and roots there is a smallest error, `least`.

* `abs_val_sub_le`: one rounding.
* `foldl_add`: a sum from left to right is within `(1 + roundoff) ^ n - 1` of the sum of the
  magnitudes.
* `sum_mul_self`: a sum of rounded squares.
* `abs_sqrt_sub_sqrt_le`: what a root makes of an error.
* `abs_rootMean_sub_le`: the root of the mean of the squares, from the errors of its four stages.
-/

set_option autoImplicit false

namespace Lib.Binary64

open Double

/-! ## One rounding -/

/-- Half of the smallest double. -/
noncomputable def least : ℝ := ((2 ^ (-1075 : ℤ) : ℚ) : ℝ)

/-- Half of the least positive double is positive. -/
theorem least_pos : 0 < least := by
  unfold least
  exact_mod_cast zpow_pos (by norm_num : (0 : ℚ) < 2) _

/-- The rational and the real unit roundoff agree. -/
theorem roundoff_cast : ((2⁻¹ ^ 53 : ℚ) : ℝ) = roundoff := rfl

/-- The rational and the real half unit agree. -/
theorem least_cast : ((2 ^ (-1075 : ℤ) : ℚ) : ℝ) = least := rfl

/-- **One rounding** that does not overflow. -/
theorem abs_val_sub_le {q : ℚ} {f : Finite64} (h : ofRat q = .finite f) :
    |(f.val : ℝ) - q| ≤ roundoff * |(q : ℝ)| + least := by
  have hround := (Rat.cast_le (K := ℝ)).mpr (abs_round_sub_le_relative q)
  rw [← val_of_ofRat h, Rat.cast_add, Rat.cast_mul, roundoff_cast, least_cast] at hround
  exact_mod_cast hround

/-- A sum of two doubles does not underflow. -/
theorem abs_add_sub_le {x y f : Finite64} (h : add (.finite x) (.finite y) = .finite f) :
    |(f.val : ℝ) - (x.val + y.val)| ≤ roundoff * |(x.val : ℝ) + y.val| := by
  have hunits : x.val + y.val = ((x.units + y.units : ℤ) : ℚ) * unit := by
    rw [Int.cast_add, add_mul, x.units_mul_unit, y.units_mul_unit]
  have hround := (Rat.cast_le (K := ℝ)).mpr (abs_round_sub_le_of_units hunits)
  rw [← val_of_ofRat h, Rat.cast_mul, roundoff_cast] at hround
  exact_mod_cast hround

/-! ## Sums -/

/-- A finite sum has finite terms. -/
theorem finite_of_add {x y : Double} {f : Finite64} (h : add x y = .finite f) :
    ∃ a b, x = .finite a ∧ y = .finite b := by
  cases x with
  | finite a =>
      cases y with
      | finite b => exact ⟨a, b, rfl, rfl⟩
      | inf t => cases h
      | nan => cases h
  | inf s =>
      cases y with
      | finite b => cases h
      | inf t =>
          rw [add_inf_inf] at h
          split_ifs at h
      | nan => cases h
  | nan => simp at h

/-- One more term of a sum from left to right, with `A` for the error so far. -/
theorem sum_step {s S f g x A u : ℝ} (hA : 1 ≤ A) (hu : 0 ≤ u) (hS : |s| ≤ S)
    (hf : |f - s| ≤ (A - 1) * S) (hg : |g - (f + x)| ≤ u * |f + x|) :
    |g - (s + x)| ≤ (A * (1 + u) - 1) * (S + |x|) := by
  have hSpos : 0 ≤ S := (abs_nonneg s).trans hS
  have hfx : |f + x| ≤ A * S + |x| := by
    calc |f + x| = |(f - s) + (s + x)| := by ring_nf
      _ ≤ |f - s| + (|s| + |x|) := (abs_add_le _ _).trans (by gcongr; exact abs_add_le _ _)
      _ ≤ A * S + |x| := by linarith
  calc |g - (s + x)| = |(g - (f + x)) + (f - s)| := by ring_nf
    _ ≤ u * (A * S + |x|) + (A - 1) * S :=
        (abs_add_le _ _).trans (add_le_add (hg.trans (by gcongr)) hf)
    _ ≤ (A * (1 + u) - 1) * (S + |x|) := by
        have hx : 0 ≤ (A - 1) * (1 + u) * |x| :=
          mul_nonneg (mul_nonneg (by linarith) (by linarith)) (abs_nonneg x)
        linarith

/-- **A sum from left to right** that is finite has finite terms, and it is within
`(1 + roundoff) ^ n - 1` of the sum of their magnitudes. By induction on the terms, the last one
last: a rounding adds its share of what was added up so far. -/
theorem foldl_add {xs : List Double} {f : Finite64}
    (h : xs.foldl add (.finite zero) = .finite f) :
    ∃ fs : List Finite64, xs = fs.map .finite ∧
      |(f.val : ℝ) - (fs.map fun g => (g.val : ℝ)).sum| ≤
        ((1 + roundoff) ^ fs.length - 1) * (fs.map fun g => |(g.val : ℝ)|).sum := by
  induction xs using List.reverseRecOn generalizing f with
  | nil =>
      obtain rfl := Double.finite.inj h
      exact ⟨[], rfl, by simp⟩
  | append_singleton xs x ih =>
      rw [List.foldl_append, List.foldl_cons, List.foldl_nil] at h
      obtain ⟨g, y, hg, rfl⟩ := finite_of_add h
      obtain ⟨fs, rfl, hsum⟩ := ih hg
      rw [hg] at h
      have habs : |(fs.map fun g => (g.val : ℝ)).sum| ≤ (fs.map fun g => |(g.val : ℝ)|).sum := by
        simpa [Function.comp_def] using
          List.le_sum_of_subadditive (abs : ℝ → ℝ) abs_zero.le abs_add_le
            (fs.map fun g => (g.val : ℝ))
      refine ⟨fs ++ [y], by simp, ?_⟩
      have hstep := sum_step (one_le_pow₀ (by linarith [roundoff_pos])) roundoff_pos.le habs hsum
        (abs_add_sub_le h)
      simpa [pow_succ] using hstep

/-! ## Squares -/

/-- A finite square is of a finite double. -/
theorem finite_of_mul_self {x : Double} {f : Finite64} (h : mul x x = .finite f) :
    ∃ g, x = .finite g := by
  cases x with
  | finite g => exact ⟨g, rfl⟩
  | inf s => cases h
  | nan => cases h

/-- **Rounded squares** that are finite are of finite doubles, and so is the error of their sum. -/
theorem sum_mul_self {xs : List Double} {fs : List Finite64}
    (h : (xs.map fun x => mul x x) = fs.map .finite) :
    ∃ gs : List Finite64, xs = gs.map .finite ∧
      |(fs.map fun f => (f.val : ℝ)).sum - (gs.map fun g => (g.val : ℝ) * g.val).sum| ≤
        roundoff * (gs.map fun g => (g.val : ℝ) * g.val).sum + gs.length * least := by
  induction xs generalizing fs with
  | nil =>
      obtain rfl : fs = [] := List.map_eq_nil_iff.mp h.symm
      exact ⟨[], rfl, by simp⟩
  | cons x xs ih =>
      obtain ⟨f, fs, rfl, hf, hrest⟩ := List.map_eq_cons_iff.mp h.symm
      obtain ⟨g, rfl⟩ := finite_of_mul_self hf.symm
      obtain ⟨gs, rfl, hsum⟩ := ih hrest.symm
      have hone := abs_val_sub_le hf.symm
      refine ⟨g :: gs, rfl, ?_⟩
      rw [Rat.cast_mul, abs_of_nonneg (mul_self_nonneg (g.val : ℝ))] at hone
      simp only [List.map_cons, List.sum_cons, List.length_cons, Nat.cast_add, Nat.cast_one]
      rw [add_sub_add_comm]
      refine (abs_add_le _ _).trans ((add_le_add hone hsum).trans_eq ?_)
      ring

/-! ## Quotients and roots -/

/-- A finite quotient by a small natural number. -/
theorem abs_div_sub_le {x : Double} {n : ℕ} {hn : n ≤ 2 ^ 53} {f : Finite64}
    (h : div x (.finite (nat n hn)) = some (.finite f)) :
    ∃ g, x = .finite g ∧
      |(f.val : ℝ) - g.val / n| ≤ roundoff * |(g.val : ℝ) / n| + least := by
  have hval : (nat n hn).val = n := rfl
  cases x with
  | finite g =>
      simp only [div] at h
      split_ifs at h
      have hround := abs_val_sub_le (Option.some.inj h)
      rw [hval] at hround
      push_cast at hround
      exact ⟨g, rfl, hround⟩
  | inf s =>
      simp only [div] at h
      split_ifs at h
      cases Option.some.inj h
  | nan =>
      simp only [div] at h
      split_ifs at h
      cases Option.some.inj h

/-- Half of the least positive double as a power of one half. -/
theorem least_eq : least = 2⁻¹ ^ 1075 := by
  rw [least, zpow_neg, Rat.cast_inv, Rat.cast_zpow, Rat.cast_ofNat, zpow_ofNat, inv_pow]

/-- One step of the fixed-point square root is below half of the least positive double. -/
theorem one_div_rootScale_le_least : 1 / (rootScale : ℝ) ≤ least := by
  have hpow : (2 : ℝ) ^ 1075 ≤ 2 ^ 1200 := pow_le_pow_right₀ (by norm_num) (by norm_num)
  have hscale : (rootScale : ℝ) = 2 ^ 1200 := by
    rw [rootScale, Nat.cast_pow, Nat.cast_ofNat]
  rw [least_eq, inv_pow, hscale, one_div]
  exact inv_anti₀ (by positivity) hpow

/-- A finite root. -/
theorem abs_root_sub_le {x : Double} {f : Finite64} (h : sqrt x = some (.finite f)) :
    ∃ g, x = .finite g ∧ 0 ≤ (g.val : ℝ) ∧
      |(f.val : ℝ) - Real.sqrt g.val| ≤ roundoff * Real.sqrt g.val + 3 * least := by
  cases x with
  | finite g =>
      simp only [sqrt] at h
      split_ifs at h with hneg
      have hg : 0 ≤ g.val := not_lt.mp hneg
      have hround := abs_val_sub_le (Option.some.inj h)
      have happrox := (abs_sqrtApprox_sub_le_scale hg).trans one_div_rootScale_le_least
      have hsize : |(sqrtApprox g.val : ℝ)| ≤ Real.sqrt g.val + least := by
        have := abs_sub_abs_le_abs_sub (sqrtApprox g.val : ℝ) (Real.sqrt g.val)
        rw [abs_of_nonneg (Real.sqrt_nonneg (g.val : ℝ))] at this
        linarith
      refine ⟨g, rfl, by exact_mod_cast hg, ?_⟩
      calc |(f.val : ℝ) - Real.sqrt g.val|
          ≤ |(f.val : ℝ) - sqrtApprox g.val| + |(sqrtApprox g.val : ℝ) - Real.sqrt g.val| :=
            abs_sub_le _ _ _
        _ ≤ roundoff * (Real.sqrt g.val + least) + least + least := by
            refine add_le_add (hround.trans ?_) happrox
            gcongr
            exact roundoff_pos.le
        _ ≤ roundoff * Real.sqrt g.val + 3 * least := by
            have hone : roundoff * least ≤ 1 * least :=
              mul_le_mul_of_nonneg_right (roundoff_le.trans (by norm_num)) least_pos.le
            linarith
  | inf s =>
      cases s with
      | true => cases h
      | false => cases Option.some.inj h
  | nan => cases Option.some.inj h

/-- **What a root makes of an error**, relative to what it is a root of and absolute. -/
theorem abs_sqrt_sub_sqrt_le {x y a b : ℝ} (hx : 0 ≤ x) (hy : 0 ≤ y) (ha : 0 ≤ a) (hb : 0 ≤ b)
    (h : |x - y| ≤ a * y + b) : |Real.sqrt x - Real.sqrt y| ≤ a * Real.sqrt y + Real.sqrt b := by
  obtain ⟨hlow, hhigh⟩ := abs_le.mp h
  have hsx := Real.sqrt_nonneg x
  have hsy := Real.sqrt_nonneg y
  have hsb := Real.sqrt_nonneg b
  have hmx := Real.mul_self_sqrt hx
  have hmy := Real.mul_self_sqrt hy
  have hmb := Real.mul_self_sqrt hb
  rw [abs_le]
  constructor
  · -- the root of `y` is at most that of `x`, up to the error
    have hle : Real.sqrt y * (1 - a) ≤ Real.sqrt x + Real.sqrt b := by
      rcases le_or_gt 1 a with hone | hone
      · exact (mul_nonpos_of_nonneg_of_nonpos hsy (by linarith)).trans (by positivity)
      · refine (sq_le_sq₀ (mul_nonneg hsy (by linarith)) (by positivity)).mp ?_
        calc (Real.sqrt y * (1 - a)) ^ 2
            = Real.sqrt y * Real.sqrt y * (1 - a) * (1 - a) := by ring
          _ = y * (1 - a) * (1 - a) := by rw [hmy]
          _ ≤ y * (1 - a) * 1 :=
              mul_le_mul_of_nonneg_left (by linarith) (mul_nonneg hy (by linarith))
          _ ≤ x + b := by linarith
          _ ≤ (Real.sqrt x + Real.sqrt b) ^ 2 := by nlinarith [mul_nonneg hsx hsb]
    linarith
  · have hle : Real.sqrt x ≤ (1 + a) * Real.sqrt y + Real.sqrt b := by
      refine Real.sqrt_le_iff.mpr ⟨by positivity, ?_⟩
      nlinarith [mul_nonneg ha hsy, mul_nonneg (mul_nonneg ha hsy) hsb, mul_nonneg hsy hsb,
        mul_nonneg ha (mul_self_nonneg (Real.sqrt y))]
    linarith

/-! ## The root of a mean of squares -/

/-- The errors of the stages of a root of a mean, one after the other: the terms, with `V` for their
exact sum and `Q` for the sum of what was computed; the sum `S` of these; the mean `M`; the root. -/
theorem abs_rootMean_sub_le {V Q S M r A u η : ℝ} {n : ℕ} (hn : 0 < n) (hu : 0 ≤ u) (hη : 0 ≤ η)
    (hA : 1 ≤ A) (hV : 0 ≤ V) (hM : 0 ≤ M) (hterms : |Q - V| ≤ u * V + n * η)
    (hsum : |S - Q| ≤ (A - 1) * Q) (hmean : |M - S / n| ≤ u * |S / n| + η)
    (hroot : |r - Real.sqrt M| ≤ u * Real.sqrt M + 3 * η) :
    |r - Real.sqrt (V / n)| ≤ (A * (1 + u) ^ 3 - 1) * Real.sqrt (V / n) +
      ((1 + u) * Real.sqrt ((A * (1 + u) + 1) * η) + 3 * η) := by
  have hnpos : (0 : ℝ) < n := by exact_mod_cast hn
  have hm : 0 ≤ V / n := div_nonneg hV hnpos.le
  have hgrow : 1 ≤ A * (1 + u) := one_le_mul_of_one_le_of_one_le hA (by linarith)
  have hS : |S - V| ≤ (A * (1 + u) - 1) * V + A * (n * η) := by
    have hQ : Q ≤ (1 + u) * V + n * η := by linarith [(abs_le.mp hterms).2]
    calc |S - V| ≤ |S - Q| + |Q - V| := abs_sub_le _ _ _
      _ ≤ (A - 1) * ((1 + u) * V + n * η) + (u * V + n * η) := by
          refine add_le_add (hsum.trans ?_) hterms
          exact mul_le_mul_of_nonneg_left hQ (by linarith)
      _ = (A * (1 + u) - 1) * V + A * (n * η) := by ring
  have hS' : |S / n - V / n| ≤ (A * (1 + u) - 1) * (V / n) + A * η := by
    rw [← sub_div, abs_div, abs_of_pos hnpos, div_le_iff₀ hnpos]
    refine hS.trans_eq ?_
    field_simp
  have hM' : |M - V / n| ≤ (A * (1 + u) ^ 2 - 1) * (V / n) + (A * (1 + u) + 1) * η := by
    have hsize : |S / n| ≤ A * (1 + u) * (V / n) + A * η := by
      have := abs_sub_abs_le_abs_sub (S / n) (V / n)
      rw [abs_of_nonneg hm] at this
      linarith
    calc |M - V / n| ≤ |M - S / n| + |S / n - V / n| := abs_sub_le _ _ _
      _ ≤ (u * (A * (1 + u) * (V / n) + A * η) + η) +
            ((A * (1 + u) - 1) * (V / n) + A * η) := by
          refine add_le_add (hmean.trans ?_) hS'
          gcongr
      _ = (A * (1 + u) ^ 2 - 1) * (V / n) + (A * (1 + u) + 1) * η := by ring
  have hsquare : 1 ≤ A * (1 + u) ^ 2 := by
    rw [pow_two, ← mul_assoc]
    exact one_le_mul_of_one_le_of_one_le hgrow (by linarith)
  have hroots := abs_sqrt_sub_sqrt_le hM hm (by linarith)
    (mul_nonneg (by linarith) hη : 0 ≤ (A * (1 + u) + 1) * η) hM'
  have hsize : Real.sqrt M ≤ A * (1 + u) ^ 2 * Real.sqrt (V / n) +
      Real.sqrt ((A * (1 + u) + 1) * η) := by
    linarith [(abs_le.mp hroots).2]
  calc |r - Real.sqrt (V / n)|
      ≤ |r - Real.sqrt M| + |Real.sqrt M - Real.sqrt (V / n)| := abs_sub_le _ _ _
    _ ≤ (u * (A * (1 + u) ^ 2 * Real.sqrt (V / n) + Real.sqrt ((A * (1 + u) + 1) * η)) + 3 * η) +
          ((A * (1 + u) ^ 2 - 1) * Real.sqrt (V / n) + Real.sqrt ((A * (1 + u) + 1) * η)) := by
        refine add_le_add (hroot.trans ?_) hroots
        gcongr
    _ = (A * (1 + u) ^ 3 - 1) * Real.sqrt (V / n) +
          ((1 + u) * Real.sqrt ((A * (1 + u) + 1) * η) + 3 * η) := by ring

/-- Up to `2 ^ 53` roundings grow a number by less than three. -/
theorem one_add_roundoff_pow_le {n : ℕ} (hn : n ≤ 2 ^ 53) : (1 + roundoff) ^ n ≤ 3 := by
  have hone : n * roundoff ≤ 1 := by
    have hcast : (n : ℝ) ≤ 2 ^ 53 := by exact_mod_cast hn
    calc n * roundoff ≤ 2 ^ 53 * roundoff := mul_le_mul_of_nonneg_right hcast roundoff_pos.le
      _ = 1 := by
          rw [roundoff_eq]
          norm_num
  calc (1 + roundoff) ^ n ≤ Real.exp roundoff ^ n := by
        refine pow_le_pow_left₀ (by linarith [roundoff_pos]) ?_ n
        linarith [Real.add_one_le_exp roundoff]
    _ = Real.exp (n * roundoff) := (Real.exp_nat_mul roundoff n).symm
    _ ≤ Real.exp 1 := Real.exp_le_exp.mpr hone
    _ ≤ 3 := Real.exp_one_lt_three.le

/-- The most that is lost to underflow on the way to a root of a mean: next to nothing. -/
noncomputable def underflow : ℝ := ((2⁻¹ ^ 535 : ℚ) : ℝ)

/-- The absolute error under a square root as a power of one half. -/
theorem underflow_eq : underflow = 2⁻¹ ^ 535 := by
  unfold underflow
  push_cast
  rfl

/-- The absolute error under a square root is not negative. -/
theorem underflow_nonneg : 0 ≤ underflow := by
  rw [underflow_eq]
  positivity

/-- All absolute errors of a root mean square together stay below `underflow`. -/
theorem le_underflow {A : ℝ} (hA : A ≤ 3) :
    (1 + roundoff) * Real.sqrt ((A * (1 + roundoff) + 1) * least) + 3 * least ≤ underflow := by
  rw [underflow_eq]
  obtain ⟨t, ht⟩ : ∃ t : ℝ, t = 2⁻¹ ^ 536 := ⟨_, rfl⟩
  have hpos : 0 < t := ht ▸ by positivity
  have hsquare : 8 * least = t ^ 2 := by
    rw [least_eq, ht, ← pow_mul, show 1075 = 3 + 536 * 2 by norm_num, pow_add, ← mul_assoc,
      show (8 : ℝ) * 2⁻¹ ^ 3 = 1 by norm_num, one_mul]
  have htwice : 2⁻¹ ^ 535 = 2 * t := by
    rw [ht, pow_succ' _ 535, ← mul_assoc, mul_inv_cancel₀ two_ne_zero, one_mul]
  have ht_le : t ≤ 1 / 2 := by
    calc t ≤ (2⁻¹ : ℝ) ^ 1 :=
          ht ▸ pow_le_pow_of_le_one (by norm_num) (by norm_num) (by norm_num)
      _ = 1 / 2 := by norm_num
  have hfactor : A * (1 + roundoff) + 1 ≤ 8 := by nlinarith [roundoff_pos, roundoff_le]
  have hroot : Real.sqrt ((A * (1 + roundoff) + 1) * least) ≤ t := by
    refine Real.sqrt_le_iff.mpr ⟨hpos.le, ?_⟩
    rw [← hsquare]
    exact mul_le_mul_of_nonneg_right hfactor least_pos.le
  have hsmall : 3 * least ≤ 1 / 4 * t := by nlinarith
  have hscaled : (1 + roundoff) * Real.sqrt ((A * (1 + roundoff) + 1) * least) ≤ 3 / 2 * t :=
    mul_le_mul (by linarith [roundoff_le]) hroot (Real.sqrt_nonneg _) (by norm_num)
  rw [htwice]
  linarith

end Lib.Binary64
