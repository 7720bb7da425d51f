import TwinServices.Lib.Rotation
import TwinServices.State.Kinematics

/-!
# The orientation of the end effector

In exact arithmetic. The rotation block of every product of Denavit–Hartenberg transforms is a
rotation, and the conversion turns every rotation into a unit quaternion of it: the branch that is
taken reads the quaternion off a row of the products `outer`, one whose pivot is positive.

* `rotationBlock_rowsProduct_mem`: the loop of `forward` keeps a rotation.
* `quaternionFromRotation_row`: the conversion, branch by branch.
* `exists_quaternion`: on a rotation the conversion is total and right.
* `orientation_correct`: the orientation of `forward` for all six joint angles.
-/

set_option autoImplicit false

namespace TwinServices.State

open TwinServices.Python Lib.Rotation Matrix

/-! ## The rotation block -/

/-- `transform[:3, :3]`.
Source: `kinematics.py`, `forward` -/
def rotationBlock {F : Type} (transform : Matrix4 F) : Matrix (Fin 3) (Fin 3) F :=
  transform.submatrix Fin.castSucc Fin.castSucc

/-- The block of a product is the product of the blocks, if the right factor translates only by its
last column. -/
theorem rotationBlock_mul {a b : Matrix4 ℝ} (hb : b 3 = ![0, 0, 0, 1]) :
    rotationBlock (a * b) = rotationBlock a * rotationBlock b := by
  ext i j
  have hbottom : b (Fin.last 3) j.castSucc = 0 := by
    rw [show Fin.last 3 = 3 from rfl, hb]
    fin_cases j <;> rfl
  simp only [rotationBlock, submatrix_apply, mul_apply]
  rw [Fin.sum_univ_castSucc, hbottom, mul_zero, add_zero]

/-- A row rotates about the axis of its joint and tilts by its twist. -/
theorem rotationBlock_dhMatrix_mem (theta d a alpha : ℝ) :
    rotationBlock (dhMatrix theta d a alpha) ∈ specialOrthogonalGroup (Fin 3) ℝ := by
  have htheta := Real.cos_sq_add_sin_sq theta
  have halpha := Real.cos_sq_add_sin_sq alpha
  rw [mem_specialOrthogonalGroup_iff, mem_orthogonalGroup_iff]
  constructor
  · ext i j
    fin_cases i <;> fin_cases j <;>
      simp [rotationBlock, dhMatrix, mul_apply, Fin.sum_univ_three] <;> grind
  · simp [rotationBlock, dhMatrix, det_fin_three]
    grind

/-- **The loop of `forward` keeps a rotation.** By induction over the rows: each multiplies by one
more rotation. -/
theorem rotationBlock_rowsProduct_mem (rows : List (ℝ × ℝ × ℝ × ℝ)) :
    rotationBlock (rowsProduct rows) ∈ specialOrthogonalGroup (Fin 3) ℝ := by
  induction rows with
  | nil =>
      have hone : rotationBlock (1 : Matrix4 ℝ) = 1 := by
        ext i j
        simp [rotationBlock, one_apply]
      rw [rowsProduct_nil, hone]
      exact one_mem _
  | cons row rows ih =>
      rw [rowsProduct_cons, rotationBlock_mul (rowsProduct_bottom rows)]
      exact mul_mem (rotationBlock_dhMatrix_mem ..) ih

/-! ## The quaternion -/

/-- The component of the pivot, as the code has it. -/
theorem quarter_mul {s x : ℝ} (hne : s ≠ 0) (hs : s ^ 2 = 4 * x) :
    PyFloat.lit 0.25 * s = x / s := by
  rw [lit_real, eq_div_iff hne]
  norm_num
  linear_combination (1 / 4) * hs

/-- A branch of the conversion whose radicand is a positive pivot: it divides the row of the pivot
by a number that is not zero, whose square is four times the pivot. -/
theorem branch_row {R : Matrix (Fin 3) (Fin 3) ℝ} (p : Fin 4) {x : ℝ} (hpos : 0 < x)
    (hx : x = outer R p p) (y y' y'' : ℝ) (quaternion : ℝ → ℝ → ℝ → ℝ → ℝ × ℝ × ℝ × ℝ)
    (hrow : ∀ s, quaternion (outer R p p / s) (y / s) (y' / s) (y'' / s) =
      (rowQuaternion R p s 0, rowQuaternion R p s 1, rowQuaternion R p s 2,
        rowQuaternion R p s 3)) :
    ∃ p s, s ≠ 0 ∧ s ^ 2 = 4 * outer R p p ∧ (do
      let root ← PyFloat.sqrt x
      let s := root * PyFloat.lit 2
      let q ← PyFloat.truediv y s
      let q' ← PyFloat.truediv y' s
      let q'' ← PyFloat.truediv y'' s
      return quaternion (PyFloat.lit 0.25 * s) q q' q'') =
        Except.ok (rowQuaternion R p s 0, rowQuaternion R p s 1, rowQuaternion R p s 2,
          rowQuaternion R p s 3) := by
  have htwo : (PyFloat.lit 2 : ℝ) = 2 := by simp
  have hroot := Real.sqrt_pos.mpr hpos
  have hne : Real.sqrt x * 2 ≠ 0 := by positivity
  have hs : (Real.sqrt x * 2) ^ 2 = 4 * outer R p p := by
    rw [mul_pow, Real.sq_sqrt hpos.le, hx]
    ring
  refine ⟨p, Real.sqrt x * 2, hne, hs, ?_⟩
  rw [← hrow, ← quarter_mul hne hs]
  simp only [sqrt_real hpos.le, ok_bind, htwo, truediv_real hne, pure_eq_ok]

/-- The largest entry of a diagonal whose trace is not positive makes a positive pivot. -/
theorem pivot_pos {a b c : ℝ} (htrace : ¬ 0 < a + b + c) (hb : b ≤ a) (hc : c ≤ a) :
    0 < PyFloat.lit 1 + (a - b - c) := by
  rw [lit_real, Rat.cast_one]
  by_cases ha : 0 ≤ a <;> linarith

/-- **The conversion reads the quaternion off a row of the products**, divided by twice the root of
the row's pivot. By the four branches, in each of which the pivot is positive whatever the
matrix: where the tests of the earlier ones failed, its entry of the diagonal is the largest. -/
theorem quaternionFromRotation_row (r : Matrix4 ℝ) :
    ∃ p s, s ≠ 0 ∧ s ^ 2 = 4 * outer (rotationBlock r) p p ∧
      quaternionFromRotation r = .ok (rowQuaternion (rotationBlock r) p s 0,
        rowQuaternion (rotationBlock r) p s 1, rowQuaternion (rotationBlock r) p s 2,
        rowQuaternion (rotationBlock r) p s 3) := by
  have hzero : (PyFloat.lit 0 : ℝ) = 0 := by simp
  have hone : (PyFloat.lit 1 : ℝ) = 1 := by simp
  unfold quaternionFromRotation
  by_cases htrace : PyFloat.lit 0 < r 0 0 + r 1 1 + r 2 2
  · have hpivot : 0 < r 0 0 + r 1 1 + r 2 2 + PyFloat.lit 1 := by
      rw [hzero] at htrace
      linarith
    have hx : r 0 0 + r 1 1 + r 2 2 + PyFloat.lit 1 = outer (rotationBlock r) 3 3 := by
      rw [hone]
      simp [outer, rotationBlock]
      ring
    rw [if_pos htrace]
    exact branch_row 3 hpivot hx _ _ _ (fun q qx qy qz => (qx, qy, qz, q)) fun s => rfl
  have htrace' : ¬ 0 < r 0 0 + r 1 1 + r 2 2 := hzero ▸ htrace
  by_cases h0 : r 1 1 < r 0 0 ∧ r 2 2 < r 0 0
  · have hpivot := pivot_pos htrace' h0.1.le h0.2.le
    have hx : PyFloat.lit 1 + (r 0 0 - r 1 1 - r 2 2) = outer (rotationBlock r) 0 0 := by
      rw [hone]
      simp [outer, rotationBlock]
      ring
    rw [if_neg htrace, if_pos h0]
    exact branch_row 0 hpivot hx _ _ _ (fun q qy qz qw => (q, qy, qz, qw)) fun s => rfl
  by_cases h1 : r 2 2 < r 1 1
  · have h01 : r 0 0 ≤ r 1 1 := by
      by_contra h
      exact h0 ⟨not_le.mp h, h1.trans (not_le.mp h)⟩
    have hpivot : 0 < PyFloat.lit 1 + (r 1 1 - r 0 0 - r 2 2) :=
      pivot_pos (by linarith) h01 h1.le
    have hx : PyFloat.lit 1 + (r 1 1 - r 0 0 - r 2 2) = outer (rotationBlock r) 1 1 := by
      rw [hone]
      simp [outer, rotationBlock]
      ring
    rw [if_neg htrace, if_neg h0, if_pos h1]
    exact branch_row 1 hpivot hx _ _ _ (fun q qx qz qw => (qx, q, qz, qw)) fun s => rfl
  · have h02 : r 0 0 ≤ r 2 2 := by
      by_contra h
      exact h0 ⟨(not_lt.mp h1).trans_lt (not_le.mp h), not_le.mp h⟩
    have hpivot : 0 < PyFloat.lit 1 + (r 2 2 - r 0 0 - r 1 1) :=
      pivot_pos (by linarith) h02 (not_lt.mp h1)
    have hx : PyFloat.lit 1 + (r 2 2 - r 0 0 - r 1 1) = outer (rotationBlock r) 2 2 := by
      rw [hone]
      simp [outer, rotationBlock]
      ring
    rw [if_neg htrace, if_neg h0, if_neg h1]
    exact branch_row 2 hpivot hx _ _ _ (fun q qx qy qw => (qx, qy, q, qw)) fun s => rfl

/-- **The conversion is total on rotations and right there**: it returns a unit quaternion of the
rotation. -/
theorem exists_quaternion {r : Matrix4 ℝ}
    (h : rotationBlock r ∈ specialOrthogonalGroup (Fin 3) ℝ) :
    ∃ qx qy qz qw, quaternionFromRotation r = .ok (qx, qy, qz, qw) ∧
      normSq qx qy qz qw = 1 ∧ ofQuaternion qx qy qz qw = rotationBlock r := by
  obtain ⟨p, s, hne, hs, heq⟩ := quaternionFromRotation_row r
  obtain ⟨hnorm, hrotation⟩ := ofQuaternion_pivot h hs hne
  exact ⟨_, _, _, _, heq, hnorm, hrotation⟩

/-- `forward` returns for six angles, with a unit quaternion of the rotation. -/
theorem forward_real {jointAngles : List ℝ} (h : jointAngles.length = 6) :
    ∃ transform pose, forwardTransform jointAngles = .ok transform ∧
      transform = rowsProduct (rows jointAngles alphas) ∧ forward jointAngles = .ok pose ∧
      quaternionFromRotation transform = .ok (pose.qx, pose.qy, pose.qz, pose.qw) ∧
      normSq pose.qx pose.qy pose.qz pose.qw = 1 ∧
      ofQuaternion pose.qx pose.qy pose.qz pose.qw = rotationBlock transform := by
  have htransform := forwardTransform_real h
  obtain ⟨qx, qy, qz, qw, heq, hnorm, hrotation⟩ :=
    exists_quaternion (rotationBlock_rowsProduct_mem (rows jointAngles alphas))
  have hforward : forward jointAngles = .ok ⟨_, _, _, qx, qy, qz, qw⟩ :=
    bind_eq_ok_iff.mpr ⟨_, htransform, bind_eq_ok_iff.mpr ⟨_, heq, rfl⟩⟩
  exact ⟨_, _, htransform, rfl, hforward, heq, hnorm, hrotation⟩

/-- **The orientation of every configuration.** The block of the product is a rotation, the
conversion returns for it, and what it returns is a unit quaternion of the rotation. -/
theorem orientation_correct (t1 t2 t3 t4 t5 t6 : ℝ) :
    ∃ transform pose, forwardTransform [t1, t2, t3, t4, t5, t6] = .ok transform ∧
      forward [t1, t2, t3, t4, t5, t6] = .ok pose ∧
      rotationBlock transform * (rotationBlock transform)ᵀ = 1 ∧
      (rotationBlock transform).det = 1 ∧
      quaternionFromRotation transform = .ok (pose.qx, pose.qy, pose.qz, pose.qw) ∧
      normSq pose.qx pose.qy pose.qz pose.qw = 1 ∧
      ofQuaternion pose.qx pose.qy pose.qz pose.qw = rotationBlock transform := by
  have hlen : [t1, t2, t3, t4, t5, t6].length = 6 := rfl
  obtain ⟨transform, pose, htransform, hproduct, hforward, hquaternion⟩ := forward_real hlen
  have hmem := rotationBlock_rowsProduct_mem (rows [t1, t2, t3, t4, t5, t6] alphas)
  rw [← hproduct, mem_specialOrthogonalGroup_iff, mem_orthogonalGroup_iff] at hmem
  exact ⟨transform, pose, htransform, hforward, hmem.1, hmem.2, hquaternion⟩

end TwinServices.State
