import TwinServices.State.ClosedForm

/-!
# The reach of the arm

In exact arithmetic. A row of the chain turns a position about the base of the row and moves it by
the row's offsets, so the tip of a chain is no farther from its base than the offsets are long in
total.

* `radius_place_le`: one row.
* `radius_tip_le`: a chain.
* `radius_arm_le`: the arm, at most 1.192509 m.
-/

set_option autoImplicit false

namespace TwinServices.State

open TwinServices.Python Lib.Rotation Matrix

/-- The distance of a position from the origin. -/
noncomputable def radius (p : ℝ × ℝ × ℝ) : ℝ := Real.sqrt (p.1 ^ 2 + p.2.1 ^ 2 + p.2.2 ^ 2)

/-- Each coordinate is at most the distance. -/
theorem abs_le_radius (p : ℝ × ℝ × ℝ) :
    |p.1| ≤ radius p ∧ |p.2.1| ≤ radius p ∧ |p.2.2| ≤ radius p := by
  have h1 := sq_nonneg p.1
  have h2 := sq_nonneg p.2.1
  have h3 := sq_nonneg p.2.2
  exact ⟨Real.abs_le_sqrt (by linarith), Real.abs_le_sqrt (by linarith),
    Real.abs_le_sqrt (by linarith)⟩

/-- The length of the offsets of a row. -/
noncomputable def offset (row : ℝ × ℝ × ℝ × ℝ) : ℝ := Real.sqrt (row.2.2.1 ^ 2 + row.2.1 ^ 2)

/-- The lengths of links add up to no negative number. -/
theorem offsets_nonneg (rows : List (ℝ × ℝ × ℝ × ℝ)) : 0 ≤ (rows.map offset).sum := by
  apply List.sum_nonneg
  intro length hlength
  obtain ⟨row, -, rfl⟩ := List.mem_map.mp hlength
  exact Real.sqrt_nonneg _

/-- A move in one plane adds at most its length to the distance. -/
theorem sqrt_add_le (x y z a d : ℝ) :
    Real.sqrt ((x + a) ^ 2 + y ^ 2 + (z + d) ^ 2) ≤
      Real.sqrt (x ^ 2 + y ^ 2 + z ^ 2) + Real.sqrt (a ^ 2 + d ^ 2) := by
  have hp : 0 ≤ x ^ 2 + y ^ 2 + z ^ 2 := by positivity
  have hq : 0 ≤ a ^ 2 + d ^ 2 := by positivity
  have hcross : x * a + z * d ≤ Real.sqrt (x ^ 2 + y ^ 2 + z ^ 2) * Real.sqrt (a ^ 2 + d ^ 2) := by
    rw [← Real.sqrt_mul hp]
    refine (le_abs_self _).trans (Real.abs_le_sqrt ?_)
    nlinarith [sq_nonneg (x * d - z * a), mul_nonneg (sq_nonneg y) hq]
  refine Real.sqrt_le_iff.mpr ⟨by positivity, ?_⟩
  have hpp := Real.sq_sqrt hp
  have hqq := Real.sq_sqrt hq
  linarith

/-- **One row moves the tip away from the base by at most its offsets.** -/
theorem radius_place_le (theta d a alpha : ℝ) (p : ℝ × ℝ × ℝ) :
    radius (place theta d a alpha p) ≤ radius p + offset (theta, d, a, alpha) := by
  obtain ⟨x, y, z⟩ := p
  have htheta := Real.sin_sq_add_cos_sq theta
  have halpha := Real.sin_sq_add_cos_sq alpha
  have hturn : (place theta d a alpha (x, y, z)).1 ^ 2 + (place theta d a alpha (x, y, z)).2.1 ^ 2 +
      (place theta d a alpha (x, y, z)).2.2 ^ 2 =
      (x + a) ^ 2 + (Real.cos alpha * y - Real.sin alpha * z) ^ 2 +
        (Real.sin alpha * y + Real.cos alpha * z + d) ^ 2 := by
    simp only [place]
    linear_combination
      ((x + a) ^ 2 + (Real.cos alpha * y - Real.sin alpha * z) ^ 2) * htheta
  have htilt : x ^ 2 + (Real.cos alpha * y - Real.sin alpha * z) ^ 2 +
      (Real.sin alpha * y + Real.cos alpha * z) ^ 2 = x ^ 2 + y ^ 2 + z ^ 2 := by
    linear_combination (y ^ 2 + z ^ 2) * halpha
  unfold radius offset
  rw [hturn, ← htilt]
  exact sqrt_add_le ..

/-- **A chain reaches no farther than its offsets.** By induction over the rows. -/
theorem radius_tip_le (rows : List (ℝ × ℝ × ℝ × ℝ)) :
    radius (tip rows) ≤ (rows.map offset).sum := by
  induction rows with
  | nil => simp [tip_nil, radius]
  | cons row rows ih =>
      obtain ⟨theta, d, a, alpha⟩ := row
      rw [tip_cons, List.map_cons, List.sum_cons]
      have hplace := radius_place_le theta d a alpha (tip rows)
      linarith

/-- The entries of a rotation are at most one. -/
theorem abs_rotation_le {R : Matrix (Fin 3) (Fin 3) ℝ} (h : R ∈ specialOrthogonalGroup (Fin 3) ℝ)
    (i j : Fin 3) : |R i j| ≤ 1 := by
  have hrow := rows_of_rotation h i i
  rw [one_apply_eq] at hrow
  rw [abs_le_one_iff_mul_self_le_one]
  have h0 := mul_self_nonneg (R i 0)
  have h1 := mul_self_nonneg (R i 1)
  have h2 := mul_self_nonneg (R i 2)
  fin_cases j <;> simp only [Fin.zero_eta, Fin.mk_one, Fin.reduceFinMk] <;> linarith

/-- The entries of the transform of a chain: those of a rotation, and the position. -/
theorem abs_rowsProduct_le {rows : List (ℝ × ℝ × ℝ × ℝ)} {c : ℝ} (hone : 1 ≤ c)
    (h : (rows.map offset).sum ≤ c) (i j : Fin 4) : |rowsProduct rows i j| ≤ c := by
  have hblock : ∀ i j : Fin 3, |rowsProduct rows i.castSucc j.castSucc| ≤ 1 :=
    abs_rotation_le (rotationBlock_rowsProduct_mem rows)
  obtain ⟨hx, hy, hz⟩ := abs_le_radius (tip rows)
  have htip := (radius_tip_le rows).trans h
  have hbottom := congrFun (rowsProduct_bottom rows)
  induction j using Fin.lastCases with
  | cast j =>
      induction i using Fin.lastCases with
      | cast i => exact (hblock i j).trans hone
      | last =>
          rw [show Fin.last 3 = 3 from rfl, hbottom]
          fin_cases j <;> simp <;> linarith
  | last =>
      rw [show Fin.last 3 = 3 from rfl]
      fin_cases i
      · exact hx.trans htip
      · exact hy.trans htip
      · exact hz.trans htip
      · exact (congrArg abs (hbottom 3)).trans_le (by simpa using hone)

/-- The offsets of the arm. -/
theorem offsets_arm (t1 t2 t3 t4 t5 t6 : ℝ) :
    ((rows [t1, t2, t3, t4, t5, t6] alphas).map offset).sum = 1.192509 := by
  rw [rows_real]
  simp [offset, Real.sqrt_sq_eq_abs, a2, a3, d1, d4, d5, d6]
  norm_num [abs_of_pos]

/-- **The arm reaches at most 1.192509 m.** -/
theorem radius_arm_le (t1 t2 t3 t4 t5 t6 : ℝ) :
    radius (tip (rows [t1, t2, t3, t4, t5, t6] alphas)) ≤ 1.192509 :=
  (radius_tip_le _).trans_eq (offsets_arm ..)

end TwinServices.State
