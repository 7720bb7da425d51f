import TwinServices.Python.Accuracy
import TwinServices.State.Reach
import Mathlib.Analysis.Real.Pi.Bounds

/-!
# The accuracy of forward kinematics

The pose that is computed in doubles, on an accurate platform, against the exact one. The error of
the product grows by at most four with every row, from the errors of the rows; the conversion to a
quaternion divides by a number that is well away from zero in whichever branch rounding takes, and
every branch gives a unit quaternion of the exact rotation.

* `dhTransform_near`: one row.
* `matmul_near`, `chain_near`: one step of the loop, and the loop.
* `quaternion_near`: the conversion, by its four branches.
* `forward_accurate`: the pose.
-/

set_option autoImplicit false

namespace TwinServices.State

open TwinServices.Python Lib.Binary64 Lib.Rotation Matrix

section accuracy

variable [CPython]

/-! ## A row -/

/-- A row of the chain in doubles and the exact one: the angle is exact, the tables are rounded. -/
structure RowNear (row : Double × Double × Double × Double) (exact : ℝ × ℝ × ℝ × ℝ) : Prop where
  theta : Near row.1 exact.1 0
  d : Near row.2.1 exact.2.1 roundoff
  a : Near row.2.2.1 exact.2.2.1 roundoff
  alpha : Near row.2.2.2 exact.2.2.2 roundoff
  d_le : |exact.2.1| ≤ 1
  a_le : |exact.2.2.1| ≤ 1

/-- Zero and one are exact. -/
theorem near_lit_zero : Near (PyFloat.lit 0) 0 0 := by
  rw [lit_double, Double.ofRat_zero]
  simpa using near_finite Double.zero

/-- One is exact. -/
theorem near_lit_one : Near (PyFloat.lit 1) 1 0 := by
  rw [lit_double, Double.ofRat_one]
  simpa using near_finite Double.one

/-- A product of numbers that are at most one. -/
theorem mul_near {x y : Double} {r s ε δ : ℝ} (hx : Near x r ε) (hy : Near y s δ) (hr : |r| ≤ 1)
    (hs : |s| ≤ 1) (hε : ε ≤ 2 * roundoff) (hδ : δ ≤ 2 * roundoff)
    (hsum : ε + δ ≤ 3 * roundoff) : Near (x * y) (r * s) (5 * roundoff) := by
  have hsmall := roundoff_le
  have hpos := roundoff_pos
  have hsq : ε * δ ≤ roundoff := by
    have := mul_le_mul hε hδ hy.nonneg (by positivity)
    nlinarith
  have hmul := hx.mul (k := 1) hy hr hs (by norm_num) (by linarith)
  exact hmul.mono (by linarith)

/-- **A row is computed to within five roundings.** -/
theorem dhTransform_near (h : CPython.Accurate) {theta d a alpha : Double}
    {theta' d' a' alpha' : ℝ} (hrow : RowNear (theta, d, a, alpha) (theta', d', a', alpha')) :
    ∃ m, dhTransform theta d a alpha = .ok m ∧
      ∀ i j, Near (m i j) (dhMatrix theta' d' a' alpha' i j) (5 * roundoff) := by
  have hpos := roundoff_pos
  obtain ⟨ct, hct, nct⟩ := h.cos hrow.theta
  obtain ⟨st, hst, nst⟩ := h.sin hrow.theta
  obtain ⟨ca, hca, nca⟩ := h.cos hrow.alpha
  obtain ⟨sa, hsa, nsa⟩ := h.sin hrow.alpha
  have hcosθ := Real.abs_cos_le_one theta'
  have hsinθ := Real.abs_sin_le_one theta'
  have hcosα := Real.abs_cos_le_one alpha'
  have hsinα := Real.abs_sin_le_one alpha'
  have nst' : Near (-st) (-Real.sin theta') (roundoff + 0) := nst.neg
  have nct' : Near (-ct) (-Real.cos theta') (roundoff + 0) := nct.neg
  have hsinθ' : |-Real.sin theta'| ≤ 1 := (abs_neg _).trans_le hsinθ
  have hcosθ' : |-Real.cos theta'| ≤ 1 := (abs_neg _).trans_le hcosθ
  have n01 : Near (-st * ca) (-Real.sin theta' * Real.cos alpha') (5 * roundoff) :=
    mul_near nst' nca hsinθ' hcosα (by linarith) (by linarith) (by linarith)
  have n02 : Near (st * sa) (Real.sin theta' * Real.sin alpha') (5 * roundoff) :=
    mul_near nst nsa hsinθ hsinα (by linarith) (by linarith) (by linarith)
  have n03 : Near (a * ct) (a' * Real.cos theta') (5 * roundoff) :=
    mul_near hrow.a nct hrow.a_le hcosθ (by linarith) (by linarith) (by linarith)
  have n11 : Near (ct * ca) (Real.cos theta' * Real.cos alpha') (5 * roundoff) :=
    mul_near nct nca hcosθ hcosα (by linarith) (by linarith) (by linarith)
  have n12 : Near (-ct * sa) (-Real.cos theta' * Real.sin alpha') (5 * roundoff) :=
    mul_near nct' nsa hcosθ' hsinα (by linarith) (by linarith) (by linarith)
  have n13 : Near (a * st) (a' * Real.sin theta') (5 * roundoff) :=
    mul_near hrow.a nst hrow.a_le hsinθ (by linarith) (by linarith) (by linarith)
  have nzero : Near (PyFloat.lit 0) 0 (5 * roundoff) := near_lit_zero.mono (by linarith)
  have none' : Near (PyFloat.lit 1) 1 (5 * roundoff) := near_lit_one.mono (by linarith)
  refine ⟨_, by unfold dhTransform; rw [hct, hst, hca, hsa]; rfl, ?_⟩
  intro i j
  fin_cases i <;> fin_cases j
  exacts [nct.mono (by linarith), n01, n02, n03, nst.mono (by linarith), n11, n12, n13, nzero,
    nsa.mono (by linarith), nca.mono (by linarith), hrow.d.mono (by linarith), nzero, nzero, nzero,
    none']

/-! ## The product -/

/-- **One step of the loop**: four times the error before, and the errors of the row and of the
product. -/
theorem matmul_near (h : CPython.Accurate) {a b : Matrix4 Double} {A B : Matrix4 ℝ} {ε : ℝ}
    (ha : ∀ i j, Near (a i j) (A i j) ε) (hb : ∀ i j, Near (b i j) (B i j) (5 * roundoff))
    (hA : ∀ i j, |A i j| ≤ 6 / 5) (hB : ∀ i j, |B i j| ≤ 1) (hε : ε ≤ 1 / 100) (i j : Fin 4) :
    Near (PyFloat.matmul a b i j) ((A * B) i j) (4 * ε + 66 * roundoff) := by
  have hpos := roundoff_pos
  have hsmall := roundoff_le
  choose f hf using ha
  choose g hg using hb
  obtain rfl : a = fun i j => .finite (f i j) := funext₂ fun i j => (hf i j).1
  obtain rfl : b = fun i j => .finite (g i j) := funext₂ fun i j => (hg i j).1
  have hε0 : 0 ≤ ε := (abs_nonneg _).trans (hf i j).2
  have hfle : ∀ i j, |((f i j).val : ℝ)| ≤ 6 / 5 + ε := by
    intro i j
    have hsub := abs_sub_abs_le_abs_sub ((f i j).val : ℝ) (A i j)
    linarith [(hf i j).2, hA i j]
  have hgle : ∀ i j, |((g i j).val : ℝ)| ≤ 1 + 5 * roundoff := by
    intro i j
    have hsub := abs_sub_abs_le_abs_sub ((g i j).val : ℝ) (B i j)
    linarith [(hg i j).2, hB i j]
  have hproduct := h.matmul f g (fun i j => by linarith [hfle i j])
    (fun i j => by linarith [hgle i j]) i j
  have hmagnitude : ∑ k, |((f i k).val : ℝ)| * |((g k j).val : ℝ)| ≤ 5 := by
    have hterm : ∀ k, |((f i k).val : ℝ)| * |((g k j).val : ℝ)| ≤ 5 / 4 := by
      intro k
      have hmul := mul_le_mul (hfle i k) (hgle k j) (abs_nonneg _) (by linarith)
      nlinarith
    calc ∑ k, |((f i k).val : ℝ)| * |((g k j).val : ℝ)|
        ≤ ∑ _k : Fin 4, (5 / 4 : ℝ) := Finset.sum_le_sum fun k _ => hterm k
      _ ≤ 5 := by norm_num
  have hexact : |∑ k, ((f i k).val : ℝ) * (g k j).val - (A * B) i j| ≤ 4 * ε + 25 * roundoff := by
    rw [mul_apply, ← Finset.sum_sub_distrib]
    calc |∑ k, (((f i k).val : ℝ) * (g k j).val - A i k * B k j)|
        ≤ ∑ k, |((f i k).val : ℝ) * (g k j).val - A i k * B k j| := Finset.abs_sum_le_sum_abs ..
      _ ≤ ∑ _k : Fin 4, (6 / 5 * (5 * roundoff) + 1 * ε + ε * (5 * roundoff)) := by
          gcongr with k
          exact abs_mul_sub_mul_le (hf i k).2 (hg k j).2 (hA i k) (hB k j)
      _ ≤ 4 * ε + 25 * roundoff := by
          rw [Finset.sum_const, Finset.card_univ, Fintype.card_fin, nsmul_eq_mul]
          nlinarith
  have htiny : (2⁻¹ : ℝ) ^ 200 ≤ roundoff := by
    rw [roundoff_eq]
    exact pow_le_pow_of_le_one (by norm_num) (by norm_num) (by norm_num)
  refine (hproduct.trans hexact).mono ?_
  nlinarith

/-- The error after a number of rows. -/
noncomputable def errorBound (k : ℕ) : ℝ := 22 * (4 ^ k - 1) * roundoff

omit [CPython] in
/-- What one more link adds to the error. -/
theorem errorBound_succ (k : ℕ) :
    4 * errorBound k + 66 * roundoff = errorBound (k + 1) := by
  unfold errorBound
  ring

omit [CPython] in
/-- Six links stay within the bound of a pose. -/
theorem errorBound_le {k : ℕ} (hk : k ≤ 6) : errorBound k ≤ 2⁻¹ ^ 36 := by
  have hpow : (4 : ℝ) ^ k ≤ 4 ^ 6 := pow_le_pow_right₀ (by norm_num) hk
  calc errorBound k
      ≤ 22 * (4 ^ 6 - 1) * roundoff := by
        unfold errorBound
        have := roundoff_pos
        gcongr
    _ ≤ 2⁻¹ ^ 36 := by
        rw [roundoff_eq]
        norm_num

omit [CPython] in
/-- The entries of a row are at most one. -/
theorem abs_dhMatrix_le {theta d a alpha : ℝ} (hd : |d| ≤ 1) (ha : |a| ≤ 1) (i j : Fin 4) :
    |dhMatrix theta d a alpha i j| ≤ 1 := by
  have hcosθ := Real.abs_cos_le_one theta
  have hsinθ := Real.abs_sin_le_one theta
  have hcosα := Real.abs_cos_le_one alpha
  have hsinα := Real.abs_sin_le_one alpha
  have hmul : ∀ {x y : ℝ}, |x| ≤ 1 → |y| ≤ 1 → |x * y| ≤ 1 := fun hx hy =>
    (abs_mul _ _).trans_le (mul_le_one₀ hx (abs_nonneg _) hy)
  have hzero : |(0 : ℝ)| ≤ 1 := by norm_num
  have hone : |(1 : ℝ)| ≤ 1 := by norm_num
  have hsinθ' : |-Real.sin theta| ≤ 1 := (abs_neg _).trans_le hsinθ
  have hcosθ' : |-Real.cos theta| ≤ 1 := (abs_neg _).trans_le hcosθ
  fin_cases i <;> fin_cases j
  exacts [hcosθ, hmul hsinθ' hcosα, hmul hsinθ hsinα, hmul ha hcosθ, hsinθ, hmul hcosθ hcosα,
    hmul hcosθ' hsinα, hmul ha hsinθ, hzero, hsinα, hcosα, hd, hzero, hzero, hzero, hone]

omit [CPython] in
/-- The last row's matrix comes last. -/
theorem rowsProduct_concat (rows : List (ℝ × ℝ × ℝ × ℝ)) (row : ℝ × ℝ × ℝ × ℝ) :
    rowsProduct (rows ++ [row]) =
      rowsProduct rows * dhMatrix row.1 row.2.1 row.2.2.1 row.2.2.2 := by
  simp [rowsProduct]

/-- **The loop.** By induction over the rows that are left, for every product before them. -/
theorem chain_near (h : CPython.Accurate) {rows : List (Double × Double × Double × Double)}
    {before rest : List (ℝ × ℝ × ℝ × ℝ)} (hrows : List.Forall₂ RowNear rows rest)
    {transform : Matrix4 Double}
    (hnear : ∀ i j, Near (transform i j) (rowsProduct before i j) (errorBound before.length))
    (hlen : (before ++ rest).length ≤ 6) (hshort : ((before ++ rest).map offset).sum ≤ 6 / 5) :
    ∃ m, chain transform rows = .ok m ∧
      ∀ i j, Near (m i j) (rowsProduct (before ++ rest) i j)
        (errorBound (before ++ rest).length) := by
  induction hrows generalizing before transform with
  | nil => exact ⟨transform, rfl, by simpa using hnear⟩
  | @cons row exact rows rest hrow _ ih =>
      obtain ⟨theta, d, a, alpha⟩ := row
      obtain ⟨theta', d', a', alpha'⟩ := exact
      obtain ⟨next, hnext, hnextNear⟩ := dhTransform_near h hrow
      have hbefore : (before.map offset).sum ≤ 6 / 5 := by
        rw [List.map_append, List.sum_append] at hshort
        have hnonneg := offsets_nonneg ((theta', d', a', alpha') :: rest)
        linarith
      have hε : errorBound before.length ≤ 1 / 100 := by
        have hbound := errorBound_le (k := before.length)
          (by rw [List.length_append] at hlen; omega)
        norm_num at hbound ⊢
        linarith
      have hstep : ∀ i j, Near (PyFloat.matmul transform next i j)
          (rowsProduct (before ++ [(theta', d', a', alpha')]) i j)
          (errorBound (before ++ [(theta', d', a', alpha')]).length) := by
        intro i j
        rw [rowsProduct_concat, List.length_append, List.length_singleton, ← errorBound_succ]
        exact matmul_near h hnear hnextNear (abs_rowsProduct_le (by norm_num) hbefore)
          (abs_dhMatrix_le hrow.d_le hrow.a_le) hε i j
      have happend : before ++ (theta', d', a', alpha') :: rest =
          before ++ [(theta', d', a', alpha')] ++ rest := by simp
      rw [happend] at hlen hshort ⊢
      obtain ⟨m, hm, hmnear⟩ := ih hstep hlen hshort
      exact ⟨m, by rw [chain, hnext]; exact hm, hmnear⟩

/-! ## The arm -/

/-- A literal below one. -/
theorem near_lit {q : ℚ} (h : |q| < 1) :
    Near (PyFloat.lit q) (PyFloat.lit q : ℝ) roundoff ∧ |(PyFloat.lit q : ℝ)| ≤ 1 := by
  have hreal : |(q : ℝ)| < 1 := by exact_mod_cast h
  have hnear := near_ofRat (k := 0) (q := q) (r := q) (ε := 0) (by norm_num) (by simp)
    (by simpa using hreal)
  refine ⟨hnear.mono ?_, hreal.le⟩
  linarith [roundoff_pos]

omit [CPython] in
/-- The double `math.pi`, halved, with either sign. -/
theorem near_halfPi {hm he} :
    Near (.finite (Double.scaled 884279719003555 (-48 - 1) hm he)) (Real.pi / 2) roundoff := by
  have hlow := Real.pi_gt_d20
  have hhigh := Real.pi_lt_d20
  refine ⟨_, rfl, ?_⟩
  unfold Double.scaled
  rw [roundoff_eq]
  push_cast
  norm_num
  rw [abs_le]
  constructor <;> linarith

/-- The rows of the six joints. -/
theorem rows_near (t1 t2 t3 t4 t5 t6 : Finite64) :
    ∃ tabled : List Double, tableAlpha = .ok tabled ∧
      List.Forall₂ RowNear
        (rows [.finite t1, .finite t2, .finite t3, .finite t4, .finite t5, .finite t6] tabled)
        (rows [(t1.val : ℝ), t2.val, t3.val, t4.val, t5.val, t6.val] alphas) := by
  have hhalf : PyFloat.truediv (PyFloat.pi : Double) (PyFloat.lit 2) =
      .ok (.finite (Double.scaled 884279719003555 (-48 - 1) (by norm_num) (by norm_num))) := by
    rw [lit_double, Double.ofRat_two]
    exact truediv_double (Double.div_two_scaled ..)
  have hminus : PyFloat.truediv (-PyFloat.pi : Double) (PyFloat.lit 2) =
      .ok (Double.neg
        (.finite (Double.scaled 884279719003555 (-48 - 1) (by norm_num) (by norm_num)))) := by
    rw [lit_double, Double.ofRat_two, show (-PyFloat.pi : Double) =
      .finite (Double.scaled (-884279719003555) (-48) (by norm_num) (by norm_num)) from
        Double.neg_scaled .., Double.neg_scaled (by norm_num) (by norm_num) (by norm_num)]
    exact truediv_double (Double.div_two_scaled ..)
  have nzero : Near (PyFloat.lit 0) 0 roundoff := near_lit_zero.mono roundoff_pos.le
  have hzero : |(0 : ℝ)| ≤ 1 := by norm_num
  have nd1 := near_lit (q := 0.089159) (by norm_num [abs_of_pos])
  have nd4 := near_lit (q := 0.10915) (by norm_num [abs_of_pos])
  have nd5 := near_lit (q := 0.09465) (by norm_num [abs_of_pos])
  have nd6 := near_lit (q := 0.0823) (by norm_num [abs_of_pos])
  have na2 := near_lit (q := 0.425) (by norm_num [abs_of_pos])
  have na3 := near_lit (q := 0.39225) (by norm_num [abs_of_pos])
  refine ⟨_, tableAlpha_eq hhalf hminus, ?_⟩
  have hrows : rows [(t1.val : ℝ), t2.val, t3.val, t4.val, t5.val, t6.val] alphas =
      [(↑t1.val, PyFloat.lit 0.089159, 0, Real.pi / 2), (↑t2.val, 0, -PyFloat.lit 0.425, 0),
        (↑t3.val, 0, -PyFloat.lit 0.39225, 0), (↑t4.val, PyFloat.lit 0.10915, 0, Real.pi / 2),
        (↑t5.val, PyFloat.lit 0.09465, 0, -(Real.pi / 2)),
        (↑t6.val, PyFloat.lit 0.0823, 0, 0)] := by
    simp [rows, tableA, tableD, alphas, neg_div]
  rw [hrows]
  exact .cons ⟨near_finite t1, nd1.1, nzero, near_halfPi, nd1.2, hzero⟩
    (.cons ⟨near_finite t2, nzero, na2.1.neg, nzero, hzero, (abs_neg _).trans_le na2.2⟩
    (.cons ⟨near_finite t3, nzero, na3.1.neg, nzero, hzero, (abs_neg _).trans_le na3.2⟩
    (.cons ⟨near_finite t4, nd4.1, nzero, near_halfPi, nd4.2, hzero⟩
    (.cons ⟨near_finite t5, nd5.1, nzero, near_halfPi.neg, nd5.2, hzero⟩
    (.cons ⟨near_finite t6, nd6.1, nzero, nzero, nd6.2, hzero⟩ .nil)))))

/-- **The transform of the arm is computed to within `2⁻¹ ^ 36`.** -/
theorem forwardTransform_near (h : CPython.Accurate) (t1 t2 t3 t4 t5 t6 : Finite64) :
    ∃ transform, forwardTransform
        [.finite t1, .finite t2, .finite t3, .finite t4, .finite t5, .finite t6] = .ok transform ∧
      ∀ i j, Near (transform i j)
        (rowsProduct (rows [(t1.val : ℝ), t2.val, t3.val, t4.val, t5.val, t6.val] alphas) i j)
        (2⁻¹ ^ 36) := by
  obtain ⟨tabled, htabled, hrows⟩ := rows_near t1 t2 t3 t4 t5 t6
  have heye : ∀ i j, Near ((eye : Matrix4 Double) i j) (rowsProduct [] i j)
      (errorBound ([] : List (ℝ × ℝ × ℝ × ℝ)).length) := by
    intro i j
    rw [rowsProduct_nil, one_apply]
    unfold eye errorBound
    split_ifs
    · simpa using near_lit_one
    · simpa using near_lit_zero
  have hlen : (rows [(t1.val : ℝ), t2.val, t3.val, t4.val, t5.val, t6.val] alphas).length = 6 := rfl
  obtain ⟨transform, hchain, hnear⟩ := chain_near h hrows heye (by rw [List.nil_append, hlen])
    (by rw [List.nil_append, offsets_arm]; norm_num)
  refine ⟨transform, ?_, fun i j => (hnear i j).mono ?_⟩
  · unfold forwardTransform
    rw [if_neg (by simp), htabled]
    exact hchain
  · rw [List.nil_append, hlen]
    exact errorBound_le le_rfl

/-! ## The quaternion -/

/-- The components of a quaternion, each near its number. -/
structure QuaternionNear (q : Double × Double × Double × Double) (exact : Fin 4 → ℝ) (ε : ℝ) :
    Prop where
  x : Near q.1 (exact 0) ε
  y : Near q.2.1 (exact 1) ε
  z : Near q.2.2.1 (exact 2) ε
  w : Near q.2.2.2 (exact 3) ε

section quaternion

variable {R : Matrix (Fin 3) (Fin 3) ℝ} {ε : ℝ}

omit [CPython] in
/-- The components of a unit quaternion are at most one. -/
theorem abs_rowQuaternion_le (hR : R ∈ specialOrthogonalGroup (Fin 3) ℝ) {p : Fin 4} {s : ℝ}
    (hs : s ^ 2 = 4 * outer R p p) (hne : s ≠ 0) (i : Fin 4) : |rowQuaternion R p s i| ≤ 1 := by
  have hnorm := (ofQuaternion_pivot hR hs hne).1
  unfold normSq at hnorm
  rw [← sq_le_one_iff_abs_le_one]
  have h0 := sq_nonneg (rowQuaternion R p s 0)
  have h1 := sq_nonneg (rowQuaternion R p s 1)
  have h2 := sq_nonneg (rowQuaternion R p s 2)
  have h3 := sq_nonneg (rowQuaternion R p s 3)
  fin_cases i <;> simp only [Fin.zero_eta, Fin.mk_one, Fin.reduceFinMk] <;> linarith

/-- **A branch of the conversion** whose pivot is well away from zero: what it divides by is near
twice the root of the exact pivot. -/
theorem branch_near (hR : R ∈ specialOrthogonalGroup (Fin 3) ℝ) (hε : 100 * roundoff ≤ ε)
    (hε' : ε ≤ 1 / 1000) (p i j k : Fin 4) {x y y' y'' : Double}
    (hx : Near x (outer R p p) (4 * ε)) (hlow : 1 - 10 * ε ≤ outer R p p)
    (hhigh : outer R p p ≤ 4) (hy : Near y (outer R p i) (3 * ε))
    (hy' : Near y' (outer R p j) (3 * ε)) (hy'' : Near y'' (outer R p k) (3 * ε))
    (quaternion : Double → Double → Double → Double → Double × Double × Double × Double)
    (hnear : ∀ (s : ℝ) (c q q' q'' : Double), Near c (rowQuaternion R p s p) (16 * ε) →
      Near q (rowQuaternion R p s i) (16 * ε) → Near q' (rowQuaternion R p s j) (16 * ε) →
      Near q'' (rowQuaternion R p s k) (16 * ε) →
      QuaternionNear (quaternion c q q' q'') (rowQuaternion R p s) (16 * ε)) :
    ∃ q, (do
      let root ← PyFloat.sqrt x
      let s := root * PyFloat.lit 2
      let q ← PyFloat.truediv y s
      let q' ← PyFloat.truediv y' s
      let q'' ← PyFloat.truediv y'' s
      return quaternion (PyFloat.lit 0.25 * s) q q' q'') = Except.ok q ∧
      ∃ p s, s ≠ 0 ∧ s ^ 2 = 4 * outer R p p ∧
        QuaternionNear q (rowQuaternion R p s) (16 * ε) := by
  have hpos := roundoff_pos
  have hroot2 : Real.sqrt (outer R p p) ≤ 2 := by
    rw [Real.sqrt_le_left (by norm_num)]
    linarith
  have hroot1 : 4 / 5 ≤ Real.sqrt (outer R p p) := Real.le_sqrt_of_sq_le (by linarith)
  obtain ⟨root, hroot, nroot⟩ := hx.sqrt (c := 4 / 5) (k := 2) (by norm_num) (by linarith)
    (by linarith) (by norm_num) (by linarith)
  have ntwo : Near (PyFloat.lit 2) 2 0 := by
    rw [lit_double, Double.ofRat_two]
    simpa using near_finite Double.two
  have ns : Near (root * PyFloat.lit 2) (Real.sqrt (outer R p p) * 2) (11 * ε) := by
    have hmul := nroot.mul (k := 3) ntwo ((abs_of_nonneg (Real.sqrt_nonneg _)).trans_le hroot2)
      (by norm_num : |(2 : ℝ)| ≤ 2) (by norm_num) (by linarith)
    exact hmul.mono (by linarith)
  have hspos : 0 < Real.sqrt (outer R p p) * 2 := by linarith
  have hne := hspos.ne'
  have hs : (Real.sqrt (outer R p p) * 2) ^ 2 = 4 * outer R p p := by
    rw [mul_pow, Real.sq_sqrt (by linarith)]
    ring
  have hdiv : ∀ {y : Double} {j : Fin 4}, Near y (outer R p j) (3 * ε) →
      ∃ q, PyFloat.truediv y (root * PyFloat.lit 2) = .ok q ∧
        Near q (rowQuaternion R p (Real.sqrt (outer R p p) * 2) j) (16 * ε) := by
    intro y j hy
    have hle := abs_rowQuaternion_le hR hs hne j
    unfold rowQuaternion at hle
    rw [abs_div, abs_of_pos hspos, div_le_one hspos] at hle
    obtain ⟨q, hq, nq⟩ := hy.div (c := 1) (Q := 1) (k := 1) ns (by norm_num) (by linarith)
      (by linarith) (by norm_num) (by linarith)
    exact ⟨q, truediv_double hq, nq.mono (by linarith)⟩
  obtain ⟨q, hq, nq⟩ := hdiv hy
  obtain ⟨q', hq', nq'⟩ := hdiv hy'
  obtain ⟨q'', hq'', nq''⟩ := hdiv hy''
  have nquarter : Near (PyFloat.lit 0.25 * (root * PyFloat.lit 2))
      (rowQuaternion R p (Real.sqrt (outer R p p) * 2) p) (16 * ε) := by
    have nlit := (near_lit (q := 0.25) (by norm_num [abs_of_pos])).1
    have hquarter : |(PyFloat.lit 0.25 : ℝ)| ≤ 1 / 4 := by norm_num [abs_of_pos]
    have hle : |Real.sqrt (outer R p p) * 2| ≤ 4 := by
      rw [abs_of_pos hspos]
      linarith
    have hsmall : roundoff * (11 * ε) ≤ ε := by nlinarith [roundoff_le]
    have hmul := nlit.mul (k := 1) ns hquarter hle (by norm_num) (by linarith)
    rw [quarter_mul hne hs] at hmul
    exact hmul.mono (by linarith)
  refine ⟨_, ?_, p, _, hne, hs, hnear _ _ _ _ _ nquarter nq nq' nq''⟩
  simp only [sqrt_double hroot, hq, hq', hq'', ok_bind, pure_eq_ok]

/-- Sums and differences of two entries of a rotation. -/
theorem entries_near {x y : Double} {a b : ℝ} (hx : Near x a ε) (hy : Near y b ε) (ha : |a| ≤ 1)
    (hb : |b| ≤ 1) (hε : 100 * roundoff ≤ ε) (hε' : ε ≤ 1 / 1000) :
    Near (x + y) (a + b) (3 * ε) ∧ Near (x - y) (a - b) (3 * ε) := by
  have hpos := roundoff_pos
  have hadd := hx.add (k := 2) hy (by norm_num) (by linarith [abs_add_le a b])
  have hsub := hx.sub (k := 2) hy (by norm_num) (by linarith [abs_sub a b])
  exact ⟨hadd.mono (by linarith), hsub.mono (by linarith)⟩

/-- The trace of a rotation, and the radicand that is made of it. -/
theorem trace_near {x y z : Double} {a b c : ℝ} (hx : Near x a ε) (hy : Near y b ε)
    (hz : Near z c ε) (ha : |a| ≤ 1) (hb : |b| ≤ 1) (hc : |c| ≤ 1) (hε : 100 * roundoff ≤ ε)
    (hε' : ε ≤ 1 / 1000) :
    Near (x + y + z) (a + b + c) (4 * ε) ∧
      Near (x + y + z + PyFloat.lit 1) (a + b + c + 1) (4 * ε) := by
  have hpos := roundoff_pos
  have hab := abs_add_le a b
  have habc := abs_add_le (a + b) c
  have hxy := hx.add (k := 2) hy (by norm_num) (by linarith)
  have hxyz := hxy.add (k := 2) hz (by norm_num) (by linarith)
  have hone := hxyz.add (k := 3) near_lit_one (by norm_num)
    (by linarith [abs_add_le (a + b + c) 1, abs_one (α := ℝ)])
  exact ⟨hxyz.mono (by linarith), hone.mono (by linarith)⟩

/-- The radicand of an entry of the diagonal. -/
theorem radicand_near {x y z : Double} {a b c : ℝ} (hx : Near x a ε) (hy : Near y b ε)
    (hz : Near z c ε) (ha : |a| ≤ 1) (hb : |b| ≤ 1) (hc : |c| ≤ 1) (hε : 100 * roundoff ≤ ε)
    (hε' : ε ≤ 1 / 1000) : Near (PyFloat.lit 1 + (x - y - z)) (1 + (a - b - c)) (4 * ε) := by
  have hpos := roundoff_pos
  have hab := abs_sub a b
  have habc := abs_sub (a - b) c
  have hxy := hx.sub (k := 2) hy (by norm_num) (by linarith)
  have hxyz := hxy.sub (k := 2) hz (by norm_num) (by linarith)
  have hone := near_lit_one.add (k := 3) hxyz (by norm_num)
    (by linarith [abs_add_le 1 (a - b - c), abs_one (α := ℝ)])
  exact hone.mono (by linarith)

omit [CPython] in
/-- The entry of the diagonal that is nearly the largest one, where the trace is nearly not
positive, makes a pivot that is nearly one. -/
theorem one_sub_le_pivot {a b c δ : ℝ} (htrace : a + b + c ≤ δ) (hb : b ≤ a + δ) (hc : c ≤ a + δ)
    (hδ : 0 ≤ δ) : 1 - 2 * δ ≤ 1 + (a - b - c) := by
  by_cases ha : 0 ≤ a <;> linarith

end quaternion

omit [CPython] in
/-- The pivots are at most four. -/
theorem outer_diagonal_le {R : Matrix (Fin 3) (Fin 3) ℝ}
    (hR : R ∈ specialOrthogonalGroup (Fin 3) ℝ) (p : Fin 4) : outer R p p ≤ 4 := by
  have h0 := abs_le.mp (abs_rotation_le hR 0 0)
  have h1 := abs_le.mp (abs_rotation_le hR 1 1)
  have h2 := abs_le.mp (abs_rotation_le hR 2 2)
  fin_cases p <;> simp [outer] <;> linarith

/-- **The conversion**, by the branch that the doubles take. The tests say of the exact entries what
they say of the doubles, up to their errors, and so every pivot is nearly one or more. -/
theorem quaternion_near {r : Matrix4 Double} {T : Matrix4 ℝ} {ε : ℝ}
    (hT : rotationBlock T ∈ specialOrthogonalGroup (Fin 3) ℝ) (hε : 100 * roundoff ≤ ε)
    (hε' : ε ≤ 1 / 1000) (hr : ∀ i j, Near (r i j) (T i j) ε) :
    ∃ q, quaternionFromRotation r = .ok q ∧ ∃ p s, s ≠ 0 ∧
      s ^ 2 = 4 * outer (rotationBlock T) p p ∧
      QuaternionNear q (rowQuaternion (rotationBlock T) p s) (16 * ε) := by
  have hpos := roundoff_pos
  have hle : ∀ i j : Fin 3, |T i.castSucc j.castSucc| ≤ 1 := abs_rotation_le hT
  have hfour := outer_diagonal_le hT
  have hsum := fun i j k l => (entries_near (hr (Fin.castSucc i) (Fin.castSucc j))
    (hr (Fin.castSucc k) (Fin.castSucc l)) (hle i j) (hle k l) hε hε').1
  have hdiff := fun i j k l => (entries_near (hr (Fin.castSucc i) (Fin.castSucc j))
    (hr (Fin.castSucc k) (Fin.castSucc l)) (hle i j) (hle k l) hε hε').2
  have hradicand := fun i j k => radicand_near (hr (Fin.castSucc i) (Fin.castSucc i))
    (hr (Fin.castSucc j) (Fin.castSucc j)) (hr (Fin.castSucc k) (Fin.castSucc k)) (hle i i)
    (hle j j) (hle k k) hε hε'
  obtain ⟨ntrace, ntrace1⟩ := trace_near (hr 0 0) (hr 1 1) (hr 2 2) (hle 0 0) (hle 1 1) (hle 2 2)
    hε hε'
  unfold quaternionFromRotation
  by_cases htrace : PyFloat.lit 0 < r 0 0 + r 1 1 + r 2 2
  · have htest := near_lit_zero.lt ntrace htrace
    have hx : T 0 0 + T 1 1 + T 2 2 + 1 = outer (rotationBlock T) 3 3 := by
      simp [outer, rotationBlock]
      ring
    have hlow : 1 - 10 * ε ≤ outer (rotationBlock T) 3 3 := by
      rw [← hx]
      linarith
    rw [if_pos htrace]
    rw [hx] at ntrace1
    exact branch_near hT hε hε' 3 0 1 2 ntrace1 hlow (hfour 3)
      (hdiff 2 1 1 2) (hdiff 0 2 2 0) (hdiff 1 0 0 1) (fun q qx qy qz => (qx, qy, qz, q))
      fun s c q q' q'' n n0 n1 n2 => ⟨n0, n1, n2, n⟩
  have htest := near_lit_zero.not_lt ntrace htrace
  by_cases h0 : r 1 1 < r 0 0 ∧ r 2 2 < r 0 0
  · have h10 := (hr 1 1).lt (hr 0 0) h0.1
    have h20 := (hr 2 2).lt (hr 0 0) h0.2
    have hpivot := one_sub_le_pivot (a := T 0 0) (b := T 1 1) (c := T 2 2) (δ := 5 * ε)
      (by linarith) (by linarith) (by linarith) (by linarith)
    have hx : 1 + (T 0 0 - T 1 1 - T 2 2) = outer (rotationBlock T) 0 0 := by
      simp [outer, rotationBlock]
      ring
    have nx : Near (PyFloat.lit 1 + (r 0 0 - r 1 1 - r 2 2)) (1 + (T 0 0 - T 1 1 - T 2 2))
        (4 * ε) := hradicand 0 1 2
    rw [hx] at nx
    rw [if_neg htrace, if_pos h0]
    exact branch_near hT hε hε' 0 1 2 3 nx (by linarith) (hfour 0)
      (hsum 0 1 1 0) (hsum 0 2 2 0) (hdiff 2 1 1 2) (fun q qy qz qw => (q, qy, qz, qw))
      fun s c q q' q'' n n1 n2 n3 => ⟨n, n1, n2, n3⟩
  by_cases h1 : r 2 2 < r 1 1
  · have h21 := (hr 2 2).lt (hr 1 1) h1
    have h01 : T 0 0 ≤ T 1 1 + 4 * ε := by
      rcases not_and_or.mp h0 with h | h
      · linarith [(hr 1 1).not_lt (hr 0 0) h]
      · linarith [(hr 2 2).not_lt (hr 0 0) h]
    have hpivot := one_sub_le_pivot (a := T 1 1) (b := T 0 0) (c := T 2 2) (δ := 5 * ε)
      (by linarith) (by linarith) (by linarith) (by linarith)
    have hx : 1 + (T 1 1 - T 0 0 - T 2 2) = outer (rotationBlock T) 1 1 := by
      simp [outer, rotationBlock]
      ring
    have nx : Near (PyFloat.lit 1 + (r 1 1 - r 0 0 - r 2 2)) (1 + (T 1 1 - T 0 0 - T 2 2))
        (4 * ε) := hradicand 1 0 2
    rw [hx] at nx
    rw [if_neg htrace, if_neg h0, if_pos h1]
    exact branch_near hT hε hε' 1 0 2 3 nx (by linarith) (hfour 1)
      (hsum 0 1 1 0) (hsum 1 2 2 1) (hdiff 0 2 2 0) (fun q qx qz qw => (qx, q, qz, qw))
      fun s c q q' q'' n n0 n2 n3 => ⟨n0, n, n2, n3⟩
  · have h12 := (hr 2 2).not_lt (hr 1 1) h1
    have h02 : T 0 0 ≤ T 2 2 + 4 * ε := by
      rcases not_and_or.mp h0 with h | h
      · linarith [(hr 1 1).not_lt (hr 0 0) h]
      · linarith [(hr 2 2).not_lt (hr 0 0) h]
    have hpivot := one_sub_le_pivot (a := T 2 2) (b := T 0 0) (c := T 1 1) (δ := 5 * ε)
      (by linarith) (by linarith) (by linarith) (by linarith)
    have hx : 1 + (T 2 2 - T 0 0 - T 1 1) = outer (rotationBlock T) 2 2 := by
      simp [outer, rotationBlock]
      ring
    have nx : Near (PyFloat.lit 1 + (r 2 2 - r 0 0 - r 1 1)) (1 + (T 2 2 - T 0 0 - T 1 1))
        (4 * ε) := hradicand 2 0 1
    rw [hx] at nx
    rw [if_neg htrace, if_neg h0, if_neg h1]
    exact branch_near hT hε hε' 2 0 1 3 nx (by linarith) (hfour 2)
      (hsum 0 2 2 0) (hsum 1 2 2 1) (hdiff 1 0 0 1) (fun q qx qy qw => (qx, qy, q, qw))
      fun s c q q' q'' n n0 n1 n3 => ⟨n0, n1, n, n3⟩

/-! ## The pose -/

/-- A pose in doubles that is accurate for the exact one: each coordinate of the position up to
`2⁻¹ ^ 36` metres, and each component of the quaternion up to `2⁻¹ ^ 32` that of one of the two unit
quaternions of its rotation. -/
structure PoseNear (pose : Pose Double) (exact : Pose ℝ) : Prop where
  x : Near pose.x exact.x (2⁻¹ ^ 36)
  y : Near pose.y exact.y (2⁻¹ ^ 36)
  z : Near pose.z exact.z (2⁻¹ ^ 36)
  quaternion : ∃ q : Fin 4 → ℝ, normSq (q 0) (q 1) (q 2) (q 3) = 1 ∧
    ofQuaternion (q 0) (q 1) (q 2) (q 3) = ofQuaternion exact.qx exact.qy exact.qz exact.qw ∧
    QuaternionNear (pose.qx, pose.qy, pose.qz, pose.qw) q (2⁻¹ ^ 32)

/-- Forward kinematics of six finite angles, in doubles and in exact arithmetic. -/
theorem forward_near (h : CPython.Accurate) (t1 t2 t3 t4 t5 t6 : Finite64) :
    ∃ pose exact,
      forward [.finite t1, .finite t2, .finite t3, .finite t4, .finite t5, .finite t6] = .ok pose ∧
      forward [(t1.val : ℝ), t2.val, t3.val, t4.val, t5.val, t6.val] = .ok exact ∧
      PoseNear pose exact := by
  obtain ⟨transform, htransform, hnear⟩ := forwardTransform_near h t1 t2 t3 t4 t5 t6
  have hsix : [(t1.val : ℝ), t2.val, t3.val, t4.val, t5.val, t6.val].length = 6 := rfl
  obtain ⟨T, exact, hT, hproduct, hexact, -, -, hrotation⟩ := forward_real hsix
  obtain ⟨T', hT', hx, hy, hz⟩ := forward_some hexact
  obtain rfl := Except.ok.inj (hT.symm.trans hT')
  have hmem := rotationBlock_rowsProduct_mem
    (rows [(t1.val : ℝ), t2.val, t3.val, t4.val, t5.val, t6.val] alphas)
  simp only [← hproduct] at hnear hmem
  obtain ⟨⟨qx, qy, qz, qw⟩, hq, p, s, hne, hs, hquaternion⟩ :=
    quaternion_near hmem (by rw [roundoff_eq]; norm_num) (by norm_num) hnear
  obtain ⟨hnorm, hof⟩ := ofQuaternion_pivot hmem hs hne
  have hpose : forward [.finite t1, .finite t2, .finite t3, .finite t4, .finite t5, .finite t6] =
      .ok ⟨transform 0 3, transform 1 3, transform 2 3, qx, qy, qz, qw⟩ :=
    bind_eq_ok_iff.mpr ⟨_, htransform, bind_eq_ok_iff.mpr ⟨_, hq, rfl⟩⟩
  have hbound : (16 : ℝ) * 2⁻¹ ^ 36 = 2⁻¹ ^ 32 := by norm_num
  exact ⟨_, exact, hpose, hexact, hx ▸ hnear 0 3, hy ▸ hnear 1 3, hz ▸ hnear 2 3, _, hnorm,
    hof.trans hrotation.symm, hbound ▸ hquaternion⟩

omit [CPython] in
/-- Six angles, one by one. -/
theorem exists_six {α : Type} {angles : List α} (hlen : angles.length = 6) :
    ∃ t1 t2 t3 t4 t5 t6, angles = [t1, t2, t3, t4, t5, t6] := by
  match angles, hlen with
  | [t1, t2, t3, t4, t5, t6], _ => exact ⟨t1, t2, t3, t4, t5, t6, rfl⟩

omit [CPython] in
/-- The exact position is within the reach of the arm. -/
theorem forward_within_reach {angles : List ℝ} (hlen : angles.length = 6) {exact : Pose ℝ}
    (h : forward angles = .ok exact) : radius (exact.x, exact.y, exact.z) ≤ 1.192509 := by
  obtain ⟨t1, t2, t3, t4, t5, t6, rfl⟩ := exists_six hlen
  obtain ⟨pose, hpose, htip⟩ := forward_tip t1 t2 t3 t4 t5 t6
  obtain rfl := Except.ok.inj (h.symm.trans hpose)
  exact htip ▸ radius_arm_le t1 t2 t3 t4 t5 t6

/-- **Forward kinematics is accurate for every configuration.** For all six finite joint angles the
function returns; on an accurate platform each coordinate of the pose is within `2⁻¹ ^ 36` metres,
less than a tenth of a nanometre, of what it returns in exact arithmetic, each component of its
quaternion within `2⁻¹ ^ 32` of that of a unit quaternion of the exact rotation, and the exact
position within the reach of the arm.
Source: `kinematics.py`, `forward` -/
theorem forward_accurate (h : CPython.Accurate) {angles : List Finite64}
    (hlen : angles.length = 6) :
    ∃ pose exact, forward (angles.map .finite) = .ok pose ∧
      forward (angles.map fun theta => (theta.val : ℝ)) = .ok exact ∧
      PoseNear pose exact ∧ radius (exact.x, exact.y, exact.z) ≤ 1.192509 := by
  obtain ⟨t1, t2, t3, t4, t5, t6, rfl⟩ := exists_six hlen
  obtain ⟨pose, exact, hpose, hexact, hnear⟩ := forward_near h t1 t2 t3 t4 t5 t6
  exact ⟨pose, exact, hpose, hexact, hnear, forward_within_reach rfl hexact⟩

end accuracy

/-! ### The home position -/

section platform

attribute [local instance] CPython.floored

/-- At zero angles the computed pose is near the exact one. -/
theorem forward_accurate_home :
    ∃ (pose : Pose Double) (exact : Pose ℝ),
      forward (List.replicate 6 (.finite Double.zero)) = .ok pose ∧
      forward (List.replicate 6 0) = .ok exact ∧ PoseNear pose exact := by
  obtain ⟨pose, exact, hpose, hexact, hnear, -⟩ := forward_accurate accurate_floored
    (List.length_replicate (n := 6) (a := Double.zero))
  rw [List.map_replicate] at hpose hexact
  rw [Double.zero_val, Rat.cast_zero] at hexact
  exact ⟨pose, exact, hpose, hexact, hnear⟩

end platform

end TwinServices.State
