import TwinServices.State.Orientation

/-!
# The position of the end effector

In exact arithmetic. The tip of the chain is placed from the last row inwards: `place` moves it by
one row. The wrist offsets it by a vector, the two links of the arm turn that in their plane, and
the base turns the plane.

* `tip_cons`: the tip of a chain from the tip of its rest.
* `tip_wrist`, `tip_arm`, `tip_chain`: the three parts.
* `forward_closed_form`: the closed form for all six joint angles.
-/

set_option autoImplicit false

namespace TwinServices.State

open TwinServices.Python

/-! ## The tip of a chain -/

/-- A position moved by the transform of a row. -/
noncomputable def place (theta d a alpha : ℝ) (p : ℝ × ℝ × ℝ) : ℝ × ℝ × ℝ :=
  (Real.cos theta * p.1 - Real.sin theta * Real.cos alpha * p.2.1 +
      Real.sin theta * Real.sin alpha * p.2.2 + a * Real.cos theta,
    Real.sin theta * p.1 + Real.cos theta * Real.cos alpha * p.2.1 -
      Real.cos theta * Real.sin alpha * p.2.2 + a * Real.sin theta,
    Real.sin alpha * p.2.1 + Real.cos alpha * p.2.2 + d)

/-- The tip of no links is the origin. -/
theorem tip_nil : tip [] = (0, 0, 0) := by
  simp [tip, rowsProduct_nil]

/-- The tip of the remaining links, placed by the first one. -/
theorem tip_cons (theta d a alpha : ℝ) (rows : List (ℝ × ℝ × ℝ × ℝ)) :
    tip ((theta, d, a, alpha) :: rows) = place theta d a alpha (tip rows) := by
  have hbottom := congrFun (rowsProduct_bottom rows) 3
  simp only [tip, place, rowsProduct_cons, Matrix.mul_apply, Fin.sum_univ_four, hbottom]
  simp only [dhMatrix, Prod.mk.injEq]
  refine ⟨?_, ?_, ?_⟩ <;> simp <;> ring

/-- A row without a twist turns a position in its plane. -/
theorem place_zero (theta d a x y z : ℝ) :
    place theta d a 0 (x, y, z) =
      (Real.cos theta * (a + x) - Real.sin theta * y,
        Real.sin theta * (a + x) + Real.cos theta * y, z + d) := by
  simp only [place, Real.cos_zero, Real.sin_zero, Prod.mk.injEq]
  exact ⟨by ring, by ring, by ring⟩

/-- A row with a quarter turn as its twist. -/
theorem place_pi_div_two (theta d x y z : ℝ) :
    place theta d 0 (Real.pi / 2) (x, y, z) =
      (Real.cos theta * x + Real.sin theta * z, Real.sin theta * x - Real.cos theta * z,
        y + d) := by
  simp only [place, Real.cos_pi_div_two, Real.sin_pi_div_two, Prod.mk.injEq]
  exact ⟨by ring, by ring, by ring⟩

/-- A row with a quarter turn back as its twist. -/
theorem place_neg_pi_div_two (theta d x y z : ℝ) :
    place theta d 0 (-Real.pi / 2) (x, y, z) =
      (Real.cos theta * x - Real.sin theta * z, Real.sin theta * x + Real.cos theta * z,
        d - y) := by
  simp only [place, neg_div, Real.cos_neg, Real.sin_neg, Real.cos_pi_div_two, Real.sin_pi_div_two,
    Prod.mk.injEq]
  exact ⟨by ring, by ring, by ring⟩

/-! ## The closed form -/

section chain

variable (t1 t2 t3 t4 t5 t6 a2 a3 d1 d4 d5 d6 : ℝ)

/-- The offset of the wrist: the last three rows. -/
theorem tip_wrist :
    tip [(t4, d4, 0, Real.pi / 2), (t5, d5, 0, -Real.pi / 2), (t6, d6, 0, 0)] =
      (d5 * Real.sin t4 - d6 * Real.sin t5 * Real.cos t4,
        -(d5 * Real.cos t4) - d6 * Real.sin t5 * Real.sin t4, d4 + d6 * Real.cos t5) := by
  rw [tip_cons, tip_cons, tip_cons, tip_nil, place_zero, place_neg_pi_div_two, place_pi_div_two]
  simp only [Prod.mk.injEq]
  exact ⟨by ring, by ring, by ring⟩

/-- The two links of the arm turn in one plane: a position behind both is turned by the sum of
their angles. -/
theorem place_place (x y z : ℝ) :
    place t2 0 a2 0 (place t3 0 a3 0 (x, y, z)) =
      (a2 * Real.cos t2 + a3 * Real.cos (t2 + t3) + Real.cos (t2 + t3) * x -
          Real.sin (t2 + t3) * y,
        a2 * Real.sin t2 + a3 * Real.sin (t2 + t3) + Real.sin (t2 + t3) * x +
          Real.cos (t2 + t3) * y, z) := by
  rw [place_zero, place_zero, Real.cos_add, Real.sin_add]
  simp only [Prod.mk.injEq]
  exact ⟨by ring, by ring, by ring⟩

/-- The tip of the arm in its plane: the two links and the wrist, whose first angle adds to
theirs. -/
theorem tip_arm :
    tip [(t2, 0, a2, 0), (t3, 0, a3, 0), (t4, d4, 0, Real.pi / 2), (t5, d5, 0, -Real.pi / 2),
        (t6, d6, 0, 0)] =
      (a2 * Real.cos t2 + a3 * Real.cos (t2 + t3) + d5 * Real.sin (t2 + t3 + t4) -
          d6 * Real.sin t5 * Real.cos (t2 + t3 + t4),
        a2 * Real.sin t2 + a3 * Real.sin (t2 + t3) - d5 * Real.cos (t2 + t3 + t4) -
          d6 * Real.sin t5 * Real.sin (t2 + t3 + t4), d4 + d6 * Real.cos t5) := by
  rw [tip_cons, tip_cons, tip_wrist, place_place, Real.cos_add (t2 + t3) t4,
    Real.sin_add (t2 + t3) t4]
  simp only [Prod.mk.injEq, and_true]
  exact ⟨by ring, by ring⟩

/-- The distance of the tip from the axis of the base, in the plane of the arm. -/
noncomputable def reach : ℝ :=
  a2 * Real.cos t2 + a3 * Real.cos (t2 + t3) + d5 * Real.sin (t2 + t3 + t4) -
    d6 * Real.sin t5 * Real.cos (t2 + t3 + t4)

/-- The whole chain: the base turns the plane of the arm. -/
theorem tip_chain :
    tip [(t1, d1, 0, Real.pi / 2), (t2, 0, a2, 0), (t3, 0, a3, 0), (t4, d4, 0, Real.pi / 2),
        (t5, d5, 0, -Real.pi / 2), (t6, d6, 0, 0)] =
      (Real.cos t1 * reach t2 t3 t4 t5 a2 a3 d5 d6 + Real.sin t1 * (d4 + d6 * Real.cos t5),
        Real.sin t1 * reach t2 t3 t4 t5 a2 a3 d5 d6 - Real.cos t1 * (d4 + d6 * Real.cos t5),
        d1 + a2 * Real.sin t2 + a3 * Real.sin (t2 + t3) - d5 * Real.cos (t2 + t3 + t4) -
          d6 * Real.sin t5 * Real.sin (t2 + t3 + t4)) := by
  rw [tip_cons, tip_arm, place_pi_div_two, reach]
  simp only [Prod.mk.injEq, true_and]
  ring

end chain

/-! ## The constants of the module -/

noncomputable section

/-- The length of the upper arm.
Source: `kinematics.py`, `_A` -/
def a2 : ℝ := -PyFloat.lit 0.425

/-- The length of the forearm.
Source: `kinematics.py`, `_A` -/
def a3 : ℝ := -PyFloat.lit 0.39225

/-- The height of the shoulder.
Source: `kinematics.py`, `_D` -/
def d1 : ℝ := PyFloat.lit 0.089159

/-- The offset of the first wrist.
Source: `kinematics.py`, `_D` -/
def d4 : ℝ := PyFloat.lit 0.10915

/-- The offset of the second wrist.
Source: `kinematics.py`, `_D` -/
def d5 : ℝ := PyFloat.lit 0.09465

/-- The offset of the third wrist.
Source: `kinematics.py`, `_D` -/
def d6 : ℝ := PyFloat.lit 0.0823

end

/-- The rows of the six joints, with the constants that are not zero named. -/
theorem rows_real (t1 t2 t3 t4 t5 t6 : ℝ) :
    rows [t1, t2, t3, t4, t5, t6] alphas =
      [(t1, d1, 0, Real.pi / 2), (t2, 0, a2, 0), (t3, 0, a3, 0), (t4, d4, 0, Real.pi / 2),
        (t5, d5, 0, -Real.pi / 2), (t6, d6, 0, 0)] := by
  simp [rows, tableA, tableD, alphas, a2, a3, d1, d4, d5, d6]

/-- `forward` returns the tip of its chain. -/
theorem forward_tip (t1 t2 t3 t4 t5 t6 : ℝ) :
    ∃ pose, forward [t1, t2, t3, t4, t5, t6] = .ok pose ∧
      (pose.x, pose.y, pose.z) = tip (rows [t1, t2, t3, t4, t5, t6] alphas) := by
  have hlen : [t1, t2, t3, t4, t5, t6].length = 6 := rfl
  obtain ⟨_, pose, -, -, hforward, -⟩ := forward_real hlen
  obtain ⟨transform, htransform, hx, hy, hz⟩ := forward_some hforward
  obtain rfl := Except.ok.inj ((forwardTransform_real hlen).symm.trans htransform)
  exact ⟨pose, hforward, by rw [tip, hx, hy, hz]⟩

/-- **The closed form of every configuration**, and the home position as its case at zero. -/
theorem forward_closed_form :
    (tableA : List ℝ) = [0, a2, a3, 0, 0, 0] ∧ (tableD : List ℝ) = [d1, 0, 0, d4, d5, d6] ∧
      (∀ t1 t2 t3 t4 t5 t6 : ℝ, ∃ pose, forward [t1, t2, t3, t4, t5, t6] = .ok pose ∧
        pose.x = Real.cos t1 * reach t2 t3 t4 t5 a2 a3 d5 d6 +
          Real.sin t1 * (d4 + d6 * Real.cos t5) ∧
        pose.y = Real.sin t1 * reach t2 t3 t4 t5 a2 a3 d5 d6 -
          Real.cos t1 * (d4 + d6 * Real.cos t5) ∧
        pose.z = d1 + a2 * Real.sin t2 + a3 * Real.sin (t2 + t3) -
          d5 * Real.cos (t2 + t3 + t4) - d6 * Real.sin t5 * Real.sin (t2 + t3 + t4)) ∧
      ∃ pose : Pose ℝ, forward [0, 0, 0, 0, 0, 0] = .ok pose ∧ pose.x = a2 + a3 ∧
        pose.y = -(d4 + d6) ∧ pose.z = d1 - d5 := by
  have hpose := forward_tip
  simp only [rows_real, tip_chain, Prod.mk.injEq] at hpose
  refine ⟨by simp [tableA, a2, a3], by simp [tableD, d1, d4, d5, d6], hpose, ?_⟩
  obtain ⟨pose, hforward, hx, hy, hz⟩ := hpose 0 0 0 0 0 0
  refine ⟨pose, hforward, ?_, ?_, ?_⟩
  · simp [hx, reach]
  · simp [hy]
  · simp [hz]

end TwinServices.State
