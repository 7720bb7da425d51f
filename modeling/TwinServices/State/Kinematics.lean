import TwinServices.Python.Basic
import Mathlib.LinearAlgebra.Matrix.Notation

/-!
# UR5 forward kinematics

The Denavit–Hartenberg chain and the conversion of its rotation to a quaternion, generic in the
type of floats.

* `dhTransform`, `chain`, `forward`, `quaternionFromRotation`: the functions of the module.
* `quaternionFromRotation_double`: over doubles the conversion returns for every matrix, whatever
  rounding, overflow or NaN made of it: the pivot of the branch is large enough for the square
  root, and the divisor is at least one.
* `forward_double_iff`: `forward` returns for six doubles exactly when none of them is infinite.
-/

set_option autoImplicit false

namespace TwinServices.State

open TwinServices.Python Lib.Binary64

/-! ## The functions -/

section functions

/-- Position in metres, orientation as a quaternion. Source: `kinematics.py`, `Pose` -/
structure Pose (F : Type) where
  x : F
  y : F
  z : F
  qx : F
  qy : F
  qz : F
  qw : F
deriving DecidableEq

variable {F : Type} [PyFloat F]

/-- Source: `kinematics.py`, `_A` -/
def tableA : List F :=
  [PyFloat.lit 0, -PyFloat.lit 0.425, -PyFloat.lit 0.39225, PyFloat.lit 0, PyFloat.lit 0,
    PyFloat.lit 0]

/-- Source: `kinematics.py`, `_D` -/
def tableD : List F :=
  [PyFloat.lit 0.089159, PyFloat.lit 0, PyFloat.lit 0, PyFloat.lit 0.10915, PyFloat.lit 0.09465,
    PyFloat.lit 0.0823]

/-- Source: `kinematics.py`, `_ALPHA` -/
def tableAlpha : Except PyError (List F) := do
  let halfPi ← PyFloat.truediv (PyFloat.pi : F) (PyFloat.lit 2)
  let minusHalfPi ← PyFloat.truediv (-PyFloat.pi : F) (PyFloat.lit 2)
  return [halfPi, PyFloat.lit 0, PyFloat.lit 0, halfPi, minusHalfPi, PyFloat.lit 0]

/-- The transform of one row. Source: `kinematics.py`, `_dh_transform` -/
def dhTransform (theta d a alpha : F) : Except PyError (Matrix4 F) := do
  let ct ← PyFloat.cos theta
  let st ← PyFloat.sin theta
  let ca ← PyFloat.cos alpha
  let sa ← PyFloat.sin alpha
  return !![ct, -st * ca, st * sa, a * ct;
            st, ct * ca, -ct * sa, a * st;
            PyFloat.lit 0, sa, ca, d;
            PyFloat.lit 0, PyFloat.lit 0, PyFloat.lit 0, PyFloat.lit 1]

/-- `np.eye(4)`.
Source: `kinematics.py`, `forward` -/
def eye : Matrix4 F := fun i j => if i = j then PyFloat.lit 1 else PyFloat.lit 0

/-- The loop of `forward` over the rows `(theta, d, a, alpha)` that are left.
Source: `kinematics.py`, `forward` -/
def chain : Matrix4 F → List (F × F × F × F) → Except PyError (Matrix4 F)
  | transform, [] => .ok transform
  | transform, (theta, d, a, alpha) :: rows => do
      let next ← dhTransform theta d a alpha
      chain (PyFloat.matmul transform next) rows

/-- The rotation block of a transform as a quaternion `(x, y, z, w)`.
Source: `kinematics.py`, `_quaternion_from_rotation` -/
def quaternionFromRotation (r : Matrix4 F) : Except PyError (F × F × F × F) :=
  let trace := r 0 0 + r 1 1 + r 2 2
  if PyFloat.lit 0 < trace then do
    let root ← PyFloat.sqrt (trace + PyFloat.lit 1)
    let s := root * PyFloat.lit 2
    let qx ← PyFloat.truediv (r 2 1 - r 1 2) s
    let qy ← PyFloat.truediv (r 0 2 - r 2 0) s
    let qz ← PyFloat.truediv (r 1 0 - r 0 1) s
    return (qx, qy, qz, PyFloat.lit 0.25 * s)
  else if r 1 1 < r 0 0 ∧ r 2 2 < r 0 0 then do
    let root ← PyFloat.sqrt (PyFloat.lit 1 + (r 0 0 - r 1 1 - r 2 2))
    let s := root * PyFloat.lit 2
    let qy ← PyFloat.truediv (r 0 1 + r 1 0) s
    let qz ← PyFloat.truediv (r 0 2 + r 2 0) s
    let qw ← PyFloat.truediv (r 2 1 - r 1 2) s
    return (PyFloat.lit 0.25 * s, qy, qz, qw)
  else if r 2 2 < r 1 1 then do
    let root ← PyFloat.sqrt (PyFloat.lit 1 + (r 1 1 - r 0 0 - r 2 2))
    let s := root * PyFloat.lit 2
    let qx ← PyFloat.truediv (r 0 1 + r 1 0) s
    let qz ← PyFloat.truediv (r 1 2 + r 2 1) s
    let qw ← PyFloat.truediv (r 0 2 - r 2 0) s
    return (qx, PyFloat.lit 0.25 * s, qz, qw)
  else do
    let root ← PyFloat.sqrt (PyFloat.lit 1 + (r 2 2 - r 0 0 - r 1 1))
    let s := root * PyFloat.lit 2
    let qx ← PyFloat.truediv (r 0 2 + r 2 0) s
    let qy ← PyFloat.truediv (r 1 2 + r 2 1) s
    let qw ← PyFloat.truediv (r 1 0 - r 0 1) s
    return (qx, qy, PyFloat.lit 0.25 * s, qw)

/-- The rows of the chain for six joint angles.
Source: `kinematics.py`, `forward` -/
def rows (jointAngles alphas : List F) : List (F × F × F × F) :=
  jointAngles.zip (tableD.zip (tableA.zip alphas))

/-- The transform of the whole chain.
Source: `kinematics.py`, `forward` -/
def forwardTransform (jointAngles : List F) : Except PyError (Matrix4 F) :=
  if jointAngles.length ≠ 6 then
    .error (.valueError ("expected 6 joint angles, got " ++ toString jointAngles.length))
  else do
    let alphas ← tableAlpha
    chain eye (rows jointAngles alphas)

/-- The end-effector pose in the base frame. Source: `kinematics.py`, `forward` -/
def forward (jointAngles : List F) : Except PyError (Pose F) := do
  let transform ← forwardTransform jointAngles
  let (qx, qy, qz, qw) ← quaternionFromRotation transform
  return ⟨transform 0 3, transform 1 3, transform 2 3, qx, qy, qz, qw⟩

/-- The twists of the table, given what the two divisions return. -/
theorem tableAlpha_eq {halfPi minusHalfPi : F}
    (h : PyFloat.truediv (PyFloat.pi : F) (PyFloat.lit 2) = .ok halfPi)
    (h' : PyFloat.truediv (-PyFloat.pi : F) (PyFloat.lit 2) = .ok minusHalfPi) :
    tableAlpha =
      .ok [halfPi, PyFloat.lit 0, PyFloat.lit 0, halfPi, minusHalfPi, PyFloat.lit 0] := by
  unfold tableAlpha
  rw [h, h']
  rfl

/-- The position of a pose is the last column of the transform. -/
theorem forward_some {jointAngles : List F} {pose : Pose F} (h : forward jointAngles = .ok pose) :
    ∃ transform, forwardTransform jointAngles = .ok transform ∧ pose.x = transform 0 3 ∧
      pose.y = transform 1 3 ∧ pose.z = transform 2 3 := by
  unfold forward at h
  obtain ⟨transform, htransform, h⟩ := bind_eq_ok_iff.mp h
  obtain ⟨q, -, h⟩ := bind_eq_ok_iff.mp h
  obtain rfl := Except.ok.inj h
  exact ⟨transform, htransform, rfl, rfl, rfl⟩

end functions

/-! ## Over doubles -/

section Double

variable [CPython]

/-- A root above one, doubled, divides. -/
theorem exists_root {x : Double} (h : ¬ x < .finite Double.one) :
    ∃ root, PyFloat.sqrt x = .ok root ∧
      ∀ y, ∃ q, PyFloat.truediv y (root * PyFloat.lit 2) = .ok q := by
  obtain ⟨root, hroot, hone⟩ := Double.exists_sqrt_not_lt_one h
  refine ⟨root, sqrt_double hroot, fun y => ?_⟩
  have hzero : (root * PyFloat.lit 2 : Double).isZero = false := by
    rw [mul_double, lit_double, Double.ofRat_two]
    exact Double.not_isZero_of_not_lt_one (Double.not_mul_two_lt_one hone)
  obtain ⟨q, hq⟩ := Double.exists_div y hzero
  exact ⟨q, truediv_double hq⟩

/-- A branch of the conversion returns if what it takes the root of is at least one. -/
theorem branch_returns {x : Double} (h : ¬ x < .finite Double.one) (y y' y'' : Double)
    (quaternion : Double → Double → Double → Double → Double × Double × Double × Double) :
    ∃ q, (do
      let root ← PyFloat.sqrt x
      let s := root * PyFloat.lit 2
      let p ← PyFloat.truediv y s
      let p' ← PyFloat.truediv y' s
      let p'' ← PyFloat.truediv y'' s
      return quaternion s p p' p'') = Except.ok q := by
  obtain ⟨root, hroot, hdiv⟩ := exists_root h
  obtain ⟨p, hp⟩ := hdiv y
  obtain ⟨p', hp'⟩ := hdiv y'
  obtain ⟨p'', hp''⟩ := hdiv y''
  refine ⟨quaternion (root * PyFloat.lit 2) p p' p'', ?_⟩
  simp only [hroot, hp, hp', hp'', ok_bind, pure_eq_ok]

/-- One more than what is not negative is at least one. -/
theorem not_one_add_lt_one {x : Double} (h : ¬ x < .finite Double.zero) :
    ¬ PyFloat.lit 1 + x < .finite Double.one := by
  rw [lit_double, Double.ofRat_one, add_double]
  exact Double.not_add_lt h

/-- **The conversion returns for every matrix of doubles**: by the four branches, each with its
pivot. -/
theorem quaternionFromRotation_double (r : Matrix4 Double) :
    ∃ q, quaternionFromRotation r = .ok q := by
  have hpivot : ¬ .finite Double.zero < r 0 0 + r 1 1 + r 2 2 →
      ¬ (.finite Double.zero < r 0 0 ∧ .finite Double.zero < r 1 1 ∧
        .finite Double.zero < r 2 2) :=
    fun htrace h => htrace (Double.zero_lt_add (Double.zero_lt_add h.1 h.2.1) h.2.2)
  unfold quaternionFromRotation
  rw [lit_double 0, Double.ofRat_zero]
  by_cases htrace : .finite Double.zero < r 0 0 + r 1 1 + r 2 2
  · have hone : ¬ r 0 0 + r 1 1 + r 2 2 + PyFloat.lit 1 < .finite Double.one := by
      rw [add_double _ (PyFloat.lit 1), Double.add_comm]
      refine not_one_add_lt_one fun hneg => ?_
      exact absurd (Double.lt_trans htrace hneg) (by simp)
    rw [if_pos htrace]
    exact branch_returns hone _ _ _ fun s qx qy qz => (qx, qy, qz, PyFloat.lit 0.25 * s)
  have hnot := hpivot htrace
  by_cases h0 : r 1 1 < r 0 0 ∧ r 2 2 < r 0 0
  · have hone : ¬ PyFloat.lit 1 + (r 0 0 - r 1 1 - r 2 2) < .finite Double.one :=
      not_one_add_lt_one (Double.not_pivot_lt_zero (Double.lt_asymm h0.1) (Double.lt_asymm h0.2)
        hnot)
    rw [if_neg htrace, if_pos h0]
    exact branch_returns hone _ _ _ fun s qy qz qw => (PyFloat.lit 0.25 * s, qy, qz, qw)
  by_cases h1 : r 2 2 < r 1 1
  · have h10 : ¬ r 1 1 < r 0 0 := fun h => h0 ⟨h, Double.lt_trans h1 h⟩
    have hone : ¬ PyFloat.lit 1 + (r 1 1 - r 0 0 - r 2 2) < .finite Double.one :=
      not_one_add_lt_one (Double.not_pivot_lt_zero h10 (Double.lt_asymm h1)
        fun h => hnot ⟨h.2.1, h.1, h.2.2⟩)
    rw [if_neg htrace, if_neg h0, if_pos h1]
    exact branch_returns hone _ _ _ fun s qx qz qw => (qx, PyFloat.lit 0.25 * s, qz, qw)
  · -- if the middle entry is NaN it makes the pivot NaN; else the order is total on the three
    have hpiv : ¬ r 2 2 - r 0 0 - r 1 1 < .finite Double.zero := by
      by_cases hnan : r 1 1 = .nan
      · rw [hnan, sub_double _ .nan, Double.sub_nan]
        exact Double.not_nan_lt _
      · have h20 : ¬ r 2 2 < r 0 0 := by
          intro h
          exact h0 ⟨Double.lt_of_not_lt_of_lt hnan h1 h, h⟩
        exact Double.not_pivot_lt_zero h20 h1 fun h => hnot ⟨h.2.1, h.2.2, h.1⟩
    rw [if_neg htrace, if_neg h0, if_neg h1]
    exact branch_returns (not_one_add_lt_one hpiv) _ _ _ fun s qx qy qw =>
      (qx, qy, PyFloat.lit 0.25 * s, qw)

/-- The tabled angles are finite. -/
theorem tableAlpha_double :
    ∃ alphas : List Double, tableAlpha = .ok alphas ∧ alphas.length = 6 ∧
      ∀ alpha ∈ alphas, alpha.isInf = false := by
  have htwo : (PyFloat.lit 2 : Double) = .finite Double.two := Double.ofRat_two
  have hhalf : PyFloat.truediv (PyFloat.pi : Double) (PyFloat.lit 2) =
      .ok (.finite (Double.scaled 884279719003555 (-48 - 1) (by norm_num) (by norm_num))) := by
    rw [htwo]
    exact truediv_double (Double.div_two_scaled ..)
  have hminus : PyFloat.truediv (-PyFloat.pi : Double) (PyFloat.lit 2) =
      .ok (.finite (Double.scaled (-884279719003555) (-48 - 1) (by norm_num) (by norm_num))) := by
    rw [htwo, show (-PyFloat.pi : Double) = .finite (Double.scaled (-884279719003555) (-48)
      (by norm_num) (by norm_num)) from Double.neg_scaled ..]
    exact truediv_double (Double.div_two_scaled ..)
  refine ⟨_, tableAlpha_eq hhalf hminus, rfl, ?_⟩
  simp [lit_double, Double.ofRat_zero, Double.isInf]

/-- A row raises exactly at an infinite angle. -/
theorem dhTransform_double_iff {theta alpha : Double} (d a : Double)
    (halpha : alpha.isInf = false) :
    (∃ m, dhTransform theta d a alpha = .ok m) ↔ theta.isInf = false := by
  obtain ⟨ca, hca⟩ := (mathFunction_ok_iff CPython.cos alpha).mpr halpha
  obtain ⟨sa, hsa⟩ := (mathFunction_ok_iff CPython.sin alpha).mpr halpha
  unfold dhTransform
  simp only [cos_double, sin_double, hca, hsa]
  cases theta with
  | finite x => simp [mathFunction, Double.isInf]
  | inf s => simp [mathFunction, Double.isInf]
  | nan => simp [mathFunction, Double.isInf]

/-- The chain raises exactly where one of its rows does. -/
theorem chain_double_iff {rows : List (Double × Double × Double × Double)}
    (halpha : ∀ row ∈ rows, row.2.2.2.isInf = false) (transform : Matrix4 Double) :
    (∃ m, chain transform rows = .ok m) ↔ ∀ row ∈ rows, row.1.isInf = false := by
  induction rows generalizing transform with
  | nil => simp [chain]
  | cons row rows ih =>
      obtain ⟨theta, d, a, alpha⟩ := row
      have hrow : (∃ m, dhTransform theta d a alpha = .ok m) ↔ theta.isInf = false :=
        dhTransform_double_iff d a (halpha _ (List.mem_cons_self ..))
      rw [List.forall_mem_cons, ← hrow, chain]
      rcases dhTransform theta d a alpha with e | next
      · simp
      · have hrest := fun row h => halpha row (List.mem_cons_of_mem _ h)
        rw [← ih hrest (PyFloat.matmul transform next)]
        simp

/-- The rows pair the angles with the tables. -/
theorem rows_fields {jointAngles alphas : List Double} (hangles : jointAngles.length = 6)
    (halphas : alphas.length = 6) :
    (rows jointAngles alphas).map Prod.fst = jointAngles ∧
      (rows jointAngles alphas).map (fun row => row.2.2.2) = alphas := by
  have hd : (tableD : List Double).length = 6 := rfl
  have ha : (tableA : List Double).length = 6 := rfl
  unfold rows
  constructor
  · exact List.map_fst_zip (by simp [hangles, hd, ha, halphas])
  · rw [show (fun row : Double × Double × Double × Double => row.2.2.2) =
      Prod.snd ∘ Prod.snd ∘ Prod.snd from rfl, ← List.map_map, ← List.map_map,
      List.map_snd_zip (by simp [hangles, hd, ha, halphas]),
      List.map_snd_zip (by simp [hd, ha, halphas]), List.map_snd_zip (by simp [ha, halphas])]

/-- **`forward` returns exactly for angles none of which is infinite.** -/
theorem forward_double_iff {jointAngles : List Double} (h : jointAngles.length = 6) :
    (∃ pose, forward jointAngles = .ok pose) ↔ ∀ theta ∈ jointAngles, theta.isInf = false := by
  obtain ⟨alphas, halphas, hlen, hfinite⟩ := tableAlpha_double
  obtain ⟨hangles, hrows⟩ := rows_fields h hlen
  have hchain : (∃ m, chain eye (rows jointAngles alphas) = .ok m) ↔
      ∀ row ∈ rows jointAngles alphas, row.1.isInf = false := by
    apply chain_double_iff
    intro row hrow
    apply hfinite
    rw [← hrows]
    exact List.mem_map_of_mem hrow
  have hiff : (∀ theta ∈ jointAngles, theta.isInf = false) ↔
      ∀ row ∈ rows jointAngles alphas, row.1.isInf = false := by
    conv_lhs => rw [← hangles]
    exact List.forall_mem_map
  rw [hiff, ← hchain]
  unfold forward forwardTransform
  rw [if_neg (not_not.mpr h), halphas]
  simp only [ok_bind]
  rcases chain eye (rows jointAngles alphas) with e | transform
  · simp
  · obtain ⟨q, hq⟩ := quaternionFromRotation_double transform
    simp [hq]

end Double

/-! ## In exact arithmetic -/

section Real

/-- The Denavit–Hartenberg transform of a row. -/
noncomputable def dhMatrix (theta d a alpha : ℝ) : Matrix4 ℝ :=
  !![Real.cos theta, -Real.sin theta * Real.cos alpha, Real.sin theta * Real.sin alpha,
      a * Real.cos theta;
     Real.sin theta, Real.cos theta * Real.cos alpha, -Real.cos theta * Real.sin alpha,
      a * Real.sin theta;
     0, Real.sin alpha, Real.cos alpha, d;
     0, 0, 0, 1]

/-- Over the reals `_dh_transform` returns the DH matrix. -/
theorem dhTransform_real (theta d a alpha : ℝ) :
    dhTransform theta d a alpha = .ok (dhMatrix theta d a alpha) := by
  unfold dhTransform dhMatrix
  simp

/-- Over the reals `np.eye(4)` is the identity. -/
theorem eye_real : (eye : Matrix4 ℝ) = 1 := by
  ext i j
  simp [eye, Matrix.one_apply]

/-- The product of the transforms of rows, from left to right. -/
noncomputable def rowsProduct (rows : List (ℝ × ℝ × ℝ × ℝ)) : Matrix4 ℝ :=
  (rows.map fun row => dhMatrix row.1 row.2.1 row.2.2.1 row.2.2.2).prod

/-- No rows make the identity. -/
theorem rowsProduct_nil : rowsProduct [] = 1 := rfl

/-- The first row's matrix comes first. -/
theorem rowsProduct_cons (row : ℝ × ℝ × ℝ × ℝ) (rows : List (ℝ × ℝ × ℝ × ℝ)) :
    rowsProduct (row :: rows) =
      dhMatrix row.1 row.2.1 row.2.2.1 row.2.2.2 * rowsProduct rows := by
  simp [rowsProduct]

/-- The position in the product of the transforms of rows. -/
noncomputable def tip (rows : List (ℝ × ℝ × ℝ × ℝ)) : ℝ × ℝ × ℝ :=
  (rowsProduct rows 0 3, rowsProduct rows 1 3, rowsProduct rows 2 3)

/-- Over the reals the loop multiplies the rows' matrices from left to right. -/
theorem chain_real (transform : Matrix4 ℝ) (rows : List (ℝ × ℝ × ℝ × ℝ)) :
    chain transform rows = .ok (transform * rowsProduct rows) := by
  induction rows generalizing transform with
  | nil => rw [chain, rowsProduct_nil, mul_one]
  | cons row rows ih =>
      obtain ⟨theta, d, a, alpha⟩ := row
      rw [chain, dhTransform_real]
      simp only [ok_bind, matmul_real]
      rw [ih, rowsProduct_cons, mul_assoc]

/-- The table `_ALPHA`.
Source: `kinematics.py`, `_ALPHA` -/
noncomputable def alphas : List ℝ :=
  [Real.pi / PyFloat.lit 2, 0, 0, Real.pi / PyFloat.lit 2, -Real.pi / PyFloat.lit 2, 0]

/-- Over the reals the twists are multiples of a quarter turn. -/
theorem tableAlpha_real : (tableAlpha : Except PyError (List ℝ)) = .ok alphas := by
  rw [tableAlpha_eq (truediv_real (by simp)) (truediv_real (by simp))]
  simp [alphas]

/-- `forward` multiplies the transforms of the six rows. -/
theorem forwardTransform_real {jointAngles : List ℝ} (h : jointAngles.length = 6) :
    forwardTransform jointAngles = .ok (rowsProduct (rows jointAngles alphas)) := by
  unfold forwardTransform
  rw [if_neg (not_not.mpr h), tableAlpha_real, ok_bind, chain_real, eye_real, one_mul]

/-- Every product of such transforms has the bottom row `0 0 0 1`. -/
theorem rowsProduct_bottom (rows : List (ℝ × ℝ × ℝ × ℝ)) :
    rowsProduct rows 3 = ![0, 0, 0, 1] := by
  induction rows with
  | nil =>
      ext j
      fin_cases j <;> simp [rowsProduct_nil]
  | cons row rows ih =>
      ext j
      have hrow : dhMatrix row.1 row.2.1 row.2.2.1 row.2.2.2 3 = ![0, 0, 0, 1] := rfl
      rw [rowsProduct_cons, Matrix.mul_apply, hrow]
      simp only [Fin.sum_univ_four]
      simpa using congrFun ih j

/-- Where the trace is positive the conversion returns. -/
theorem quaternionFromRotation_real {r : Matrix4 ℝ} (h : 0 < r 0 0 + r 1 1 + r 2 2) :
    ∃ q, quaternionFromRotation r = .ok q := by
  have hpos : 0 < r 0 0 + r 1 1 + r 2 2 + PyFloat.lit 1 := by
    simp only [lit_real, Rat.cast_one]
    linarith
  have hs : Real.sqrt (r 0 0 + r 1 1 + r 2 2 + PyFloat.lit 1) * PyFloat.lit 2 ≠ 0 := by
    have hroot := Real.sqrt_pos.mpr hpos
    simp only [lit_real, Rat.cast_ofNat]
    positivity
  unfold quaternionFromRotation
  rw [lit_real 0, Rat.cast_zero, if_pos h, sqrt_real hpos.le]
  simp only [ok_bind, truediv_real hs]
  exact ⟨_, rfl⟩

/-- `forward` returns a pose for the home position. -/
theorem forward_home : ∃ pose, forward (List.replicate 6 (0 : ℝ)) = .ok pose := by
  have htrace : rowsProduct (rows (List.replicate 6 0) alphas) 0 0 +
      rowsProduct (rows (List.replicate 6 0) alphas) 1 1 +
      rowsProduct (rows (List.replicate 6 0) alphas) 2 2 = 1 := by
    simp [rowsProduct, rows, tableD, tableA, alphas, dhMatrix, List.replicate, Matrix.mul_apply,
      Fin.sum_univ_four, neg_div]
  obtain ⟨q, hq⟩ := quaternionFromRotation_real (htrace ▸ one_pos)
  exact ⟨_, bind_eq_ok_iff.mpr ⟨_, forwardTransform_real rfl, bind_eq_ok_iff.mpr ⟨q, hq, rfl⟩⟩⟩

end Real

end TwinServices.State
