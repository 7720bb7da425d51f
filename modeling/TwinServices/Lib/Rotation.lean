import Mathlib.LinearAlgebra.UnitaryGroup
import Mathlib.Tactic.FieldSimp
import Mathlib.Tactic.LinearCombination

/-!
# Rotations and their quaternions

A rotation of space is a matrix in `Matrix.specialOrthogonalGroup (Fin 3)`. The products of two
components of its quaternion are linear in its entries; four times these products are the matrix
`outer`. A quaternion is read off a row of it: any row will do whose diagonal entry, the pivot, is
not zero.

* `ofQuaternion`: the matrix of a quaternion `(x, y, z, w)`.
* `outer_mul_outer`: for a rotation `outer` has rank one.
* `ofQuaternion_pivot`: a row divided by twice the root of its pivot is a unit quaternion of the
  rotation.
-/

set_option autoImplicit false

namespace Lib.Rotation

open Matrix

variable {K : Type*}

section products

variable [CommRing K]

/-- The matrix of the quaternion `(x, y, z, w)`. -/
def ofQuaternion (x y z w : K) : Matrix (Fin 3) (Fin 3) K :=
  !![1 - 2 • (y ^ 2 + z ^ 2), 2 • (x * y - z * w), 2 • (x * z + y * w);
     2 • (x * y + z * w), 1 - 2 • (x ^ 2 + z ^ 2), 2 • (y * z - x * w);
     2 • (x * z - y * w), 2 • (y * z + x * w), 1 - 2 • (x ^ 2 + y ^ 2)]

/-- The square of the norm of a quaternion. -/
def normSq (x y z w : K) : K := x ^ 2 + y ^ 2 + z ^ 2 + w ^ 2

/-- Four times the products of the components of the quaternion of a rotation. -/
def outer (R : Matrix (Fin 3) (Fin 3) K) : Matrix (Fin 4) (Fin 4) K :=
  !![1 + R 0 0 - R 1 1 - R 2 2, R 0 1 + R 1 0, R 0 2 + R 2 0, R 2 1 - R 1 2;
     R 0 1 + R 1 0, 1 + R 1 1 - R 0 0 - R 2 2, R 1 2 + R 2 1, R 0 2 - R 2 0;
     R 0 2 + R 2 0, R 1 2 + R 2 1, 1 + R 2 2 - R 0 0 - R 1 1, R 1 0 - R 0 1;
     R 2 1 - R 1 2, R 0 2 - R 2 0, R 1 0 - R 0 1, 1 + R 0 0 + R 1 1 + R 2 2]

/-- Each entry of a rotation is its own cofactor. -/
theorem adjugate_of_rotation {R : Matrix (Fin 3) (Fin 3) K}
    (h : R ∈ specialOrthogonalGroup (Fin 3) K) : R.adjugate = Rᵀ := by
  obtain ⟨horthogonal, hdet⟩ := mem_specialOrthogonalGroup_iff.mp h
  rw [mem_orthogonalGroup_iff] at horthogonal
  calc R.adjugate
      = R.adjugate * (R * Rᵀ) := by rw [horthogonal, mul_one]
    _ = Rᵀ := by rw [← mul_assoc, adjugate_mul, hdet, one_smul, one_mul]

/-- The rows of a rotation are orthonormal. -/
theorem rows_of_rotation {R : Matrix (Fin 3) (Fin 3) K}
    (h : R ∈ specialOrthogonalGroup (Fin 3) K) (i j : Fin 3) :
    R i 0 * R j 0 + R i 1 * R j 1 + R i 2 * R j 2 = (1 : Matrix (Fin 3) (Fin 3) K) i j := by
  obtain ⟨horthogonal, -⟩ := mem_specialOrthogonalGroup_iff.mp h
  rw [mem_orthogonalGroup_iff] at horthogonal
  rw [← horthogonal, mul_apply, Fin.sum_univ_three]
  rfl

/-- The matrix of the products of a quaternion's components is symmetric. -/
theorem outer_comm (R : Matrix (Fin 3) (Fin 3) K) (i j : Fin 4) : outer R i j = outer R j i := by
  fin_cases i <;> fin_cases j <;> rfl

/-- **The products of a rotation have rank one.** By cases on the pivot and on the row and column,
which may be taken in order: where one of them is the pivot nothing is to be shown, and the others
follow from the equations between the entries of the rotation. -/
theorem outer_mul_outer {R : Matrix (Fin 3) (Fin 3) K}
    (h : R ∈ specialOrthogonalGroup (Fin 3) K) (p i j : Fin 4) :
    outer R p i * outer R p j = outer R p p * outer R i j := by
  wlog hle : i ≤ j generalizing i j with hswap
  · rw [mul_comm, hswap j i (not_le.mp hle).le, outer_comm R j i]
  rcases eq_or_ne i p with rfl | hi
  · rfl
  rcases eq_or_ne j p with rfl | hj
  · rw [outer_comm R i j, mul_comm]
  have hrows := rows_of_rotation h
  have hcofactors := fun i j => congrFun₂ (adjugate_of_rotation h) i j
  simp only [adjugate_fin_three, transpose_apply, Fin.forall_fin_succ] at hrows hcofactors
  simp only [one_apply, of_apply, cons_val', cons_val_zero, cons_val_one, cons_val, cons_val_succ,
    cons_val_fin_one, Fin.succ_zero_eq_one, Fin.succ_one_eq_two, Fin.reduceEq, IsEmpty.forall_iff,
    and_true, if_true, if_false] at hrows hcofactors
  fin_cases p <;> fin_cases i <;> fin_cases j <;>
    first
      | exact absurd rfl hi
      | exact absurd rfl hj
      | exact absurd hle (by decide)
      | (simp [outer]; grind)

/-- The diagonal of the products of a rotation. -/
theorem trace_outer (R : Matrix (Fin 3) (Fin 3) K) :
    outer R 0 0 + outer R 1 1 + outer R 2 2 + outer R 3 3 = 4 := by
  simp only [outer, of_apply, cons_val', cons_val_zero, cons_val_one, cons_val, cons_val_fin_one]
  ring

end products

section pivots

variable [Field K] [CharZero K]

/-- A quaternion whose products are those of a rotation is a unit quaternion of it. -/
theorem ofQuaternion_eq {R : Matrix (Fin 3) (Fin 3) K} {q : Fin 4 → K}
    (h : ∀ i j, 4 * (q i * q j) = outer R i j) :
    normSq (q 0) (q 1) (q 2) (q 3) = 1 ∧ ofQuaternion (q 0) (q 1) (q 2) (q 3) = R := by
  have hfour : (4 : K) ≠ 0 := by norm_num
  constructor
  · apply mul_left_cancel₀ hfour
    unfold normSq
    linear_combination trace_outer R + h 0 0 + h 1 1 + h 2 2 + h 3 3
  · ext i j
    apply mul_left_cancel₀ hfour
    simp only [outer, Fin.forall_fin_succ, of_apply, cons_val', cons_val_zero, cons_val_succ,
      cons_val_fin_one, Fin.succ_zero_eq_one, Fin.succ_one_eq_two, Fin.reduceSucc,
      IsEmpty.forall_iff, and_true] at h
    fin_cases i <;> fin_cases j <;> simp [ofQuaternion] <;> grind

/-- A row of the products of a rotation, divided by a number. -/
def rowQuaternion (R : Matrix (Fin 3) (Fin 3) K) (p : Fin 4) (s : K) : Fin 4 → K :=
  fun i => outer R p i / s

/-- **A row of the products is the quaternion.** Divided by twice the root of its pivot, where that
is not zero, it is a unit quaternion of the rotation. -/
theorem ofQuaternion_pivot {R : Matrix (Fin 3) (Fin 3) K}
    (h : R ∈ specialOrthogonalGroup (Fin 3) K) {p : Fin 4} {s : K} (hs : s ^ 2 = 4 * outer R p p)
    (hne : s ≠ 0) :
    normSq (rowQuaternion R p s 0) (rowQuaternion R p s 1) (rowQuaternion R p s 2)
        (rowQuaternion R p s 3) = 1 ∧
      ofQuaternion (rowQuaternion R p s 0) (rowQuaternion R p s 1) (rowQuaternion R p s 2)
        (rowQuaternion R p s 3) = R := by
  have hpivot : outer R p p ≠ 0 := by
    intro hzero
    rw [hzero, mul_zero] at hs
    exact hne (pow_eq_zero_iff two_ne_zero |>.mp hs)
  apply ofQuaternion_eq
  intro i j
  calc 4 * (outer R p i / s * (outer R p j / s))
      = 4 * (outer R p i * outer R p j) / s ^ 2 := by ring
    _ = 4 * (outer R p p * outer R i j) / (4 * outer R p p) := by rw [outer_mul_outer h, hs]
    _ = outer R i j := by field_simp

end pivots

end Lib.Rotation
