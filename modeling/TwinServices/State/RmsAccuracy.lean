import TwinServices.Python.Accuracy
import TwinServices.State.WindowRms

/-!
# The accuracy of the velocity RMS

The RMS that is computed in doubles, against the exact one of the same velocities: a rounding for
every square and every partial sum, one for the mean and one for the root. Velocities of any finite
magnitude are allowed; where something overflows on the way the RMS is not finite.

* `exactRms`, `RmsNear`: the exact RMS, and a double that is near it.
* `sum_mul_self_accurate`: the sum of the squares.
* `velocityRms_accurate`: the RMS of a history.
-/

set_option autoImplicit false

namespace TwinServices.State

open TwinServices.Python Lib.Binary64 Lib.TimeWindow

/-- The root of the mean of the squares; zero for no velocity.
Source: `window.py`, `RollingWindow._velocity_rms` -/
noncomputable def exactRms (vs : List Finite64) : ℝ :=
  Real.sqrt (meanSquare (vs.map fun v => (v.val : ℝ)))

/-- Near the exact RMS: one rounding for every velocity and three more, relative to it, and next to
nothing for what underflows. -/
def RmsNear (x : Double) (vs : List Finite64) : Prop :=
  Near x (exactRms vs)
    (((1 + roundoff) ^ (vs.length + 3) - 1) * exactRms vs + underflow)

/-- Zero is the RMS of no velocity. -/
theorem rmsNear_zero : RmsNear (.finite Double.zero) [] := by
  have hzero : exactRms [] = 0 := by simp [exactRms]
  refine ⟨Double.zero, rfl, ?_⟩
  rw [hzero, Double.zero_val, Rat.cast_zero, sub_zero, abs_zero, mul_zero, zero_add]
  exact underflow_nonneg

section accuracy

variable [CPython]

/-- The sum of the squares, of finite velocities if it is finite. -/
theorem sum_mul_self_accurate (h : CPython.AccurateSum) {xs : List Double} {f : Finite64}
    (hsum : PyFloat.sum (xs.map fun x => x * x) = .finite f) :
    ∃ vs : List Finite64, xs = vs.map .finite ∧ ∃ squares : ℝ,
      |squares - (vs.map fun v => (v.val : ℝ) * v.val).sum| ≤
        roundoff * (vs.map fun v => (v.val : ℝ) * v.val).sum + vs.length * least ∧
      |(f.val : ℝ) - squares| ≤ ((1 + roundoff) ^ vs.length - 1) * squares := by
  obtain ⟨fs, hfs, hnear⟩ := h _ f hsum
  obtain ⟨vs, rfl, hsquares⟩ := sum_mul_self hfs
  have hlen : fs.length = vs.length := by
    have hlengths := congrArg List.length hfs
    simpa using hlengths.symm
  -- no rounded square is negative
  have habs : (fs.map fun g => |(g.val : ℝ)|) = fs.map fun g => (g.val : ℝ) := by
    refine List.map_congr_left fun g hg => abs_of_nonneg ?_
    obtain ⟨x, -, hx⟩ := List.mem_map.mp (hfs ▸ List.mem_map_of_mem hg)
    have hnot := Double.not_mul_self_lt_zero x
    rw [show Double.mul x x = .finite g from hx] at hnot
    simpa using hnot
  rw [habs, hlen] at hnear
  exact ⟨vs, rfl, _, hsquares, hnear⟩

/-- **The RMS of a history is accurate**: a finite one is of finite velocities and near their exact
RMS. Source: `window.py`, `_velocity_rms` -/
theorem velocityRms_accurate (h : CPython.AccurateSum) {w : RollingWindow Double} {joint : String}
    {rms : Finite64} (hmany : (w.velocities joint).length ≤ 2 ^ 53)
    (hrms : w.velocityRms joint = .ok (.finite rms)) :
    ∃ vs : List Finite64, (w.velocities joint).map Prod.snd = vs.map .finite ∧
      RmsNear (.finite rms) vs := by
  unfold RollingWindow.velocityRms at hrms
  simp only at hrms
  split_ifs at hrms with hempty
  · rw [List.isEmpty_iff] at hempty
    rw [lit_double, Double.ofRat_zero] at hrms
    obtain rfl := Double.finite.inj (Except.ok.inj hrms)
    exact ⟨[], by rw [hempty]; rfl, rmsNear_zero⟩
  · -- the stages, from the root back to the squares
    obtain ⟨mean, hmean, hroot⟩ := bind_eq_ok_iff.mp hrms
    obtain ⟨m, rfl, hm, hrootNear⟩ := abs_root_sub_le (root_of_sqrt hroot)
    rw [lit_double, Double.ofRat_natCast hmany] at hmean
    obtain ⟨s, hsum, hmeanNear⟩ := abs_div_sub_le (div_of_truediv hmean)
    have hmap : ((w.velocities joint).map fun p => p.2 * p.2) =
        ((w.velocities joint).map Prod.snd).map fun x => x * x := by
      rw [List.map_map]
      rfl
    rw [hmap] at hsum
    obtain ⟨vs, hvs, squares, hterms, hsumNear⟩ := sum_mul_self_accurate h hsum
    have hlen : (w.velocities joint).length = vs.length := by
      have hlengths := congrArg List.length hvs
      simpa using hlengths
    have hpos : 0 < vs.length := by
      rw [← hlen]
      exact List.length_pos_of_ne_nil fun hnil => hempty (List.isEmpty_iff.mpr hnil)
    have hexact : exactRms vs =
        Real.sqrt ((vs.map fun v => (v.val : ℝ) * v.val).sum / vs.length) := by
      simp [exactRms, meanSquare, Function.comp_def]
    rw [hlen] at hmany hmeanNear
    have hgrow : 1 ≤ (1 + roundoff) ^ vs.length := one_le_pow₀ (by linarith [roundoff_pos])
    have hnonneg : 0 ≤ (vs.map fun v => (v.val : ℝ) * v.val).sum := by
      refine List.sum_nonneg fun x hx => ?_
      obtain ⟨v, -, rfl⟩ := List.mem_map.mp hx
      exact mul_self_nonneg _
    have hnear := abs_rootMean_sub_le hpos roundoff_pos.le least_pos.le hgrow hnonneg hm hterms
      hsumNear hmeanNear hrootNear
    refine ⟨vs, hvs, rms, rfl, ?_⟩
    rw [hexact, pow_add]
    exact hnear.trans (by gcongr; exact le_underflow (one_add_roundoff_pow_le hmany))

end accuracy

end TwinServices.State
