import Mathlib.Algebra.Order.Field.Power
import Mathlib.Data.Int.Log
import Mathlib.Data.Rat.Floor
import Mathlib.Tactic.Linarith
import Mathlib.Tactic.Positivity
import Mathlib.Tactic.Ring
import Mathlib.Tactic.FieldSimp
import Mathlib.Tactic.NormNum

/-!
# IEEE 754 binary64 arithmetic

A double is a rational of the form `m · 2^e` with at most 53 significant bits and `e ≥ -1074`,
below `2^1024` in magnitude, or one of the two infinities, or not a number. An arithmetic operation
is exact rational arithmetic followed by `round` (nearest, ties to even) and an overflow test, as
the standard defines it. The two zeros are one value here: they compare equal, and no operation
below tells them apart.

* `round`, `round_mono`, `round_idem`, `round_int_mul_zpow`: rounding to 53 bits is monotone and
  fixes what is representable.
* `Finite64`, `Double`: a finite double carries the proof that it is one.
* `ofRat`, `add`, `sub`, `mul`, `div`, `sqrt`, `Below`: the operations. `div` has no value at a zero
  divisor and `sqrt` none below zero; what a language does there is the language's choice.
* `not_sub_lt_zero`, `not_add_lt`, `not_sub_lt`: what order facts survive rounding, infinities and
  NaN.
-/

set_option autoImplicit false

namespace Lib.Binary64

/-! ## Rounding to the nearest integer -/

/-- The integer nearest to `q`, the even one of two equally near. -/
def roundEven (q : ℚ) : ℤ :=
  if q - ⌊q⌋ < 1 / 2 then ⌊q⌋
  else if 1 / 2 < q - ⌊q⌋ then ⌊q⌋ + 1
  else if ⌊q⌋ % 2 = 0 then ⌊q⌋ else ⌊q⌋ + 1

/-- An integer rounds to itself. -/
@[simp] theorem roundEven_intCast (n : ℤ) : roundEven n = n := by
  simp [roundEven]

/-- Rounding to an integer does not go below the floor. -/
theorem floor_le_roundEven (q : ℚ) : ⌊q⌋ ≤ roundEven q := by
  unfold roundEven
  split_ifs <;> omega

/-- Rounding to an integer goes at most one above the floor. -/
theorem roundEven_le_floor_add_one (q : ℚ) : roundEven q ≤ ⌊q⌋ + 1 := by
  unfold roundEven
  split_ifs <;> omega

/-- Rounding to an integer is monotone: on one unit interval by the three cases of the definition,
across intervals because the result never leaves its own. -/
theorem roundEven_mono {p q : ℚ} (h : p ≤ q) : roundEven p ≤ roundEven q := by
  rcases (Int.floor_le_floor h).lt_or_eq with hlt | heq
  · have h1 := roundEven_le_floor_add_one p
    have h2 := floor_le_roundEven q
    omega
  · unfold roundEven
    rw [heq]
    split_ifs <;> first | omega | linarith

/-- Rounding to an integer is odd. -/
theorem roundEven_neg (q : ℚ) : roundEven (-q) = -roundEven q := by
  by_cases hq : (⌊q⌋ : ℚ) = q
  · rw [← hq, ← Int.cast_neg, roundEven_intCast, roundEven_intCast]
  · have hlo : (⌊q⌋ : ℚ) < q := lt_of_le_of_ne (Int.floor_le q) hq
    have hhi := Int.lt_floor_add_one q
    have hfl : ⌊-q⌋ = -⌊q⌋ - 1 := by
      rw [Int.floor_eq_iff]
      push_cast
      constructor <;> linarith
    unfold roundEven
    rw [hfl]
    push_cast
    split_ifs <;> first | omega | linarith

/-! ## Rounding to 53 bits -/

/-- The exponent of the last of 53 significant bits at `q`, kept at the subnormal floor. -/
def lastPlace (q : ℚ) : ℤ := max (Int.log 2 |q| - 52) (-1074)

/-- `q` rounded to 53 significant bits, without a bound on the exponent from above. -/
def round (q : ℚ) : ℚ := roundEven (q / 2 ^ lastPlace q) * 2 ^ lastPlace q

/-- No last place is below that of the subnormal numbers. -/
theorem neg_1074_le_lastPlace (q : ℚ) : -1074 ≤ lastPlace q := le_max_right _ _

/-- The last place does not depend on the sign. -/
theorem lastPlace_neg (q : ℚ) : lastPlace (-q) = lastPlace q := by
  unfold lastPlace
  rw [abs_neg]

/-- Rounding commutes with negation. -/
theorem round_neg (q : ℚ) : round (-q) = -round q := by
  unfold round
  rw [lastPlace_neg, neg_div, roundEven_neg]
  push_cast
  ring

/-- Zero rounds to zero. -/
@[simp] theorem round_zero : round 0 = 0 := by
  have h : roundEven 0 = 0 := roundEven_intCast 0
  simp [round, h]

/-- A number has at most 53 bits above its last place. -/
theorem abs_lt_two_zpow_lastPlace (q : ℚ) : |q| < 2 ^ (lastPlace q + 53) := by
  have h1 := Int.lt_zpow_succ_log_self (b := 2) (by norm_num) |q|
  have h2 : Int.log 2 |q| + 1 ≤ lastPlace q + 53 := by
    have := le_max_left (Int.log 2 |q| - 52) (-1074)
    unfold lastPlace
    omega
  exact lt_of_lt_of_le h1 (zpow_le_zpow_right₀ (by norm_num) h2)

/-- A normal number has all 53 bits above its last place. -/
theorem two_zpow_lastPlace_le_abs {q : ℚ} (hq : q ≠ 0) (h : -1074 < lastPlace q) :
    2 ^ (lastPlace q + 52) ≤ |q| := by
  have h1 := Int.zpow_log_le_self (b := 2) (by norm_num) (abs_pos.mpr hq)
  have h2 : lastPlace q + 52 = Int.log 2 |q| := by
    unfold lastPlace at h ⊢
    omega
  rw [h2]
  exact_mod_cast h1

/-- The last place grows with a positive number. -/
theorem lastPlace_mono {p q : ℚ} (hp : 0 < p) (h : p ≤ q) : lastPlace p ≤ lastPlace q := by
  have := Int.log_mono_right (b := 2) hp h
  unfold lastPlace
  rw [abs_of_pos hp, abs_of_pos (hp.trans_le h)]
  omega

/-- A multiple of the last place above `q` is above `round q`. -/
theorem round_le_of_le {q : ℚ} {n : ℤ} (h : q ≤ n * 2 ^ lastPlace q) :
    round q ≤ n * 2 ^ lastPlace q := by
  have h2 : (0 : ℚ) < 2 ^ lastPlace q := by positivity
  have h3 : roundEven (q / 2 ^ lastPlace q) ≤ n := by
    rw [← roundEven_intCast n]
    exact roundEven_mono ((div_le_iff₀ h2).mpr h)
  exact mul_le_mul_of_nonneg_right (by exact_mod_cast h3) h2.le

/-- A multiple of the last place below `q` is below `round q`. -/
theorem le_round_of_le {q : ℚ} {n : ℤ} (h : n * 2 ^ lastPlace q ≤ q) :
    n * 2 ^ lastPlace q ≤ round q := by
  have h1 := round_le_of_le (q := -q) (n := -n) (by rw [lastPlace_neg]; push_cast; linarith)
  rw [round_neg, lastPlace_neg] at h1
  push_cast at h1
  linarith

/-- What is not negative does not round below zero. -/
theorem round_nonneg {q : ℚ} (h : 0 ≤ q) : 0 ≤ round q := by
  simpa using le_round_of_le (q := q) (n := 0) (by simpa using h)

/-- A rounded number is at most `2 ^ 53` units in the last place. -/
theorem abs_round_le (q : ℚ) : |round q| ≤ 2 ^ 53 * 2 ^ lastPlace q := by
  have h1 := abs_lt_two_zpow_lastPlace q
  rw [zpow_add₀ (by norm_num), mul_comm] at h1
  obtain ⟨hlo, hhi⟩ := abs_lt.mp h1
  rw [abs_le]
  constructor
  · have := le_round_of_le (q := q) (n := -2 ^ 53) (by push_cast; norm_num at hlo ⊢; linarith)
    push_cast at this
    linarith
  · have := round_le_of_le (q := q) (n := 2 ^ 53) (by push_cast; norm_num at hhi ⊢; linarith)
    push_cast at this
    linarith

/-- Monotone on the positive axis: on one binade by `roundEven_mono`, across binades because the
power of two between them is a multiple of both last places. -/
theorem round_mono_of_pos {p q : ℚ} (hp : 0 < p) (h : p ≤ q) : round p ≤ round q := by
  have hq : 0 < q := hp.trans_le h
  rcases (lastPlace_mono hp h).lt_or_eq with hlt | heq
  · have h1 : round p ≤ 2 ^ 53 * 2 ^ lastPlace p := (le_abs_self _).trans (abs_round_le p)
    have h2 : (2 : ℚ) ^ 53 * 2 ^ lastPlace p ≤ 2 ^ 52 * 2 ^ lastPlace q := by
      have : (2 : ℚ) ^ (lastPlace p + 1) ≤ 2 ^ lastPlace q :=
        zpow_le_zpow_right₀ (by norm_num) (by omega)
      rw [zpow_add₀ (by norm_num)] at this
      linarith
    have h3 : ((2 ^ 52 : ℤ) : ℚ) * 2 ^ lastPlace q ≤ q := by
      have := two_zpow_lastPlace_le_abs hq.ne' (by have := neg_1074_le_lastPlace p; omega)
      rw [zpow_add₀ (by norm_num), abs_of_pos hq] at this
      push_cast
      norm_num at this ⊢
      linarith
    have h4 := le_round_of_le h3
    push_cast at h4
    linarith
  · unfold round
    rw [heq]
    have h2 : (0 : ℚ) < 2 ^ lastPlace q := by positivity
    have h3 : roundEven (p / 2 ^ lastPlace q) ≤ roundEven (q / 2 ^ lastPlace q) :=
      roundEven_mono (div_le_div_of_nonneg_right h h2.le)
    exact mul_le_mul_of_nonneg_right (by exact_mod_cast h3) h2.le

/-- **Rounding is monotone.** -/
theorem round_mono {p q : ℚ} (h : p ≤ q) : round p ≤ round q := by
  rcases lt_trichotomy p 0 with hp | rfl | hp
  · rcases lt_or_ge q 0 with hq | hq
    · have := round_mono_of_pos (p := -q) (q := -p) (by linarith) (by linarith)
      rw [round_neg, round_neg] at this
      linarith
    · have h1 := round_nonneg (q := -p) (by linarith)
      have h2 := round_nonneg hq
      rw [round_neg] at h1
      linarith
  · simpa using round_nonneg h
  · exact round_mono_of_pos hp h

/-- **What is representable is fixed**: at most 53 significant bits above the subnormal floor. -/
theorem round_int_mul_zpow {m e : ℤ} (hm : |m| ≤ 2 ^ 53) (he : -1074 ≤ e) :
    round (m * 2 ^ e) = m * 2 ^ e := by
  rcases eq_or_ne m 0 with rfl | hm0
  · simp
  -- it is enough that the value is a whole number of last places
  suffices h : ∃ n : ℤ, (m * 2 ^ e : ℚ) / 2 ^ lastPlace (m * 2 ^ e) = n by
    obtain ⟨n, hn⟩ := h
    unfold round
    rw [hn, roundEven_intCast, ← hn, div_mul_cancel₀ _ (by positivity)]
  rcases le_or_gt (lastPlace ((m : ℚ) * 2 ^ e)) e with hle | hgt
  · obtain ⟨k, hk⟩ := Int.eq_ofNat_of_zero_le (sub_nonneg.mpr hle)
    refine ⟨m * 2 ^ k, ?_⟩
    rw [div_eq_iff (by positivity)]
    push_cast
    rw [mul_assoc, ← zpow_natCast, ← zpow_add₀ (by norm_num), ← hk, sub_add_cancel]
  · -- the last place can exceed `e` only by one, where `m` is a full power of two
    have hq0 : (m : ℚ) * 2 ^ e ≠ 0 := by positivity
    have h1 := two_zpow_lastPlace_le_abs hq0 (by omega)
    have hmq : |(m : ℚ)| ≤ 2 ^ 53 := by exact_mod_cast hm
    have habs : |(m : ℚ) * 2 ^ e| = |(m : ℚ)| * 2 ^ e := by
      rw [abs_mul, abs_of_pos (by positivity : (0 : ℚ) < 2 ^ e)]
    have h2 : (2 : ℚ) ^ (lastPlace (m * 2 ^ e) + 52) ≤ 2 ^ (53 + e) := by
      rw [zpow_add₀ (by norm_num) 53 e]
      calc (2 : ℚ) ^ (lastPlace (m * 2 ^ e) + 52) ≤ |(m : ℚ)| * 2 ^ e := habs ▸ h1
        _ ≤ 2 ^ (53 : ℤ) * 2 ^ e := by
            have : (2 : ℚ) ^ (53 : ℤ) = 2 ^ 53 := by norm_num
            rw [this]
            exact mul_le_mul_of_nonneg_right hmq (by positivity)
    have h3 : lastPlace ((m : ℚ) * 2 ^ e) + 52 ≤ 53 + e :=
      (zpow_le_zpow_iff_right₀ (by norm_num)).mp h2
    have h4 : lastPlace ((m : ℚ) * 2 ^ e) = e + 1 := by omega
    have h5 : (2 : ℚ) ^ 53 ≤ |(m : ℚ)| := by
      rw [h4, habs, show e + 1 + 52 = 53 + e by ring, zpow_add₀ (by norm_num)] at h1
      have := le_of_mul_le_mul_right h1 (by positivity : (0 : ℚ) < 2 ^ e)
      exact_mod_cast this
    have h6 : |m| = 2 ^ 53 := le_antisymm hm (by exact_mod_cast h5)
    rw [h4, zpow_add₀ (by norm_num)]
    rcases (abs_eq (by norm_num)).mp h6 with rfl | rfl
    · refine ⟨2 ^ 52, ?_⟩
      push_cast
      field_simp
      norm_num
    · refine ⟨-2 ^ 52, ?_⟩
      push_cast
      field_simp
      norm_num

/-- Rounding twice is rounding once. -/
theorem round_idem (q : ℚ) : round (round q) = round q := by
  have h1 := abs_round_le q
  have h2 : |roundEven (q / 2 ^ lastPlace q)| ≤ 2 ^ 53 := by
    unfold round at h1
    rw [abs_mul, abs_of_pos (by positivity : (0 : ℚ) < 2 ^ lastPlace q)] at h1
    have := le_of_mul_le_mul_right h1 (by positivity)
    exact_mod_cast this
  exact round_int_mul_zpow h2 (neg_1074_le_lastPlace q)

/-- Small integers are representable. -/
theorem round_intCast {n : ℤ} (h : |n| ≤ 2 ^ 53) : round n = n := by
  simpa using round_int_mul_zpow (e := 0) h (by norm_num)

/-! ## Doubles -/

/-- The first power of two that is too large for a double. -/
def overflow : ℚ := 2 ^ 1024

/-- The integers up to `2 ^ 53` are far from overflow. -/
theorem two_pow_53_lt_overflow : (2 : ℚ) ^ 53 < overflow :=
  pow_lt_pow_right₀ (by norm_num) (by norm_num)

/-- A finite double: a rational that rounding fixes, below the overflow threshold. -/
structure Finite64 where
  /-- The number the double stands for. -/
  val : ℚ
  rounded : round val = val
  bounded : |val| < overflow
deriving DecidableEq

/-- A finite double is determined by its value. -/
theorem Finite64.ext {x y : Finite64} (h : x.val = y.val) : x = y := by
  cases x
  cases y
  simp_all

/-- The smallest positive double. -/
def unit : ℚ := 2 ^ (-1074 : ℤ)

/-- The smallest positive double is positive. -/
theorem unit_pos : 0 < unit := zpow_pos (by norm_num) _

/-- A finite double as a number of units. -/
def Finite64.units (x : Finite64) : ℤ := (x.val / unit).num

/-- Every finite double is an integer number of units. -/
theorem Finite64.units_mul_unit (x : Finite64) : x.units * unit = x.val := by
  obtain ⟨m, e, hval, he⟩ : ∃ m e : ℤ, x.val = m * 2 ^ e ∧ -1074 ≤ e :=
    ⟨_, _, x.rounded.symm, neg_1074_le_lastPlace _⟩
  obtain ⟨k, hk⟩ := Int.eq_ofNat_of_zero_le (by omega : 0 ≤ e + 1074)
  have hdiv : x.val / unit = ((m * 2 ^ k : ℤ) : ℚ) := by
    rw [div_eq_iff unit_pos.ne', hval, unit, show e = k + (-1074) by omega,
      zpow_add₀ two_ne_zero, zpow_natCast, Int.cast_mul, Int.cast_pow, Int.cast_ofNat, mul_assoc]
  unfold units
  rw [hdiv, Rat.num_intCast, ← hdiv, div_mul_cancel₀ _ unit_pos.ne']

/-- A double: finite, an infinity with its sign, or not a number. -/
inductive Double
  | finite (x : Finite64)
  | inf (negative : Bool)
  | nan
deriving DecidableEq

namespace Double

/-- The double nearest to a rational, an infinity where rounding passes the largest double. -/
def ofRat (q : ℚ) : Double :=
  if h : |round q| < overflow then .finite ⟨round q, round_idem q, h⟩ else .inf (decide (q < 0))

/-- Whether a double is one of the two infinities. -/
def isInf : Double → Bool
  | .inf _ => true
  | _ => false

/-- Whether a double is finite. -/
def isFinite : Double → Bool
  | .finite _ => true
  | _ => false

/-- Whether a double is zero. -/
def isZero : Double → Bool
  | .finite x => x.val = 0
  | _ => false

/-- Negation flips the sign. -/
def neg : Double → Double
  | .finite x => .finite ⟨-x.val, by rw [round_neg, x.rounded], by rw [abs_neg]; exact x.bounded⟩
  | .inf s => .inf !s
  | .nan => .nan

/-- Addition rounds the exact sum; opposite infinities make `NaN`. -/
def add : Double → Double → Double
  | .finite x, .finite y => ofRat (x.val + y.val)
  | .inf s, .inf t => if s = t then .inf s else .nan
  | .inf s, .finite _ => .inf s
  | .finite _, .inf t => .inf t
  | .nan, _ => .nan
  | _, .nan => .nan

/-- Subtraction is addition of the negation. -/
def sub (x y : Double) : Double := add x (neg y)

/-- Multiplication rounds the exact product; zero times an infinity makes `NaN`. -/
def mul : Double → Double → Double
  | .finite x, .finite y => ofRat (x.val * y.val)
  | .inf s, .inf t => .inf (s ^^ t)
  | .inf s, .finite y => if y.val = 0 then .nan else .inf (s ^^ decide (y.val < 0))
  | .finite x, .inf t => if x.val = 0 then .nan else .inf (decide (x.val < 0) ^^ t)
  | .nan, _ => .nan
  | _, .nan => .nan

/-- Division; no value at a zero divisor. -/
def div : Double → Double → Option Double
  | .finite x, .finite y => if y.val = 0 then none else some (ofRat (x.val / y.val))
  | .inf s, .finite y => if y.val = 0 then none else some (.inf (s ^^ decide (y.val < 0)))
  | .nan, .finite y => if y.val = 0 then none else some .nan
  | .finite _, .inf _ => some (ofRat 0)
  | .inf _, .inf _ => some .nan
  | .nan, .inf _ => some .nan
  | _, .nan => some .nan

/-- The precision to which a square root is taken before it is rounded. -/
def rootScale : ℕ := 2 ^ 1200

/-- The scale of the fixed-point square root is positive. -/
theorem rootScale_pos : 0 < rootScale := by
  unfold rootScale
  positivity

/-- The integer part of `2^1200 · √q`, with a half added when something was cut off: for a double
`q` that is more than 600 bits, so rounding it is rounding the root. -/
def sqrtApprox (q : ℚ) : ℚ :=
  let n := ⌊q * (rootScale * rootScale)⌋.toNat
  (Nat.sqrt n + if Nat.sqrt n * Nat.sqrt n = n then 0 else 1 / 2) / rootScale

/-- The square root; no value below zero. -/
def sqrt : Double → Option Double
  | .finite x => if x.val < 0 then none else some (ofRat (sqrtApprox x.val))
  | .inf true => none
  | .inf false => some (.inf false)
  | .nan => some .nan

/-- The order: nothing is below or above NaN. -/
def Below : Double → Double → Prop
  | .finite x, .finite y => x.val < y.val
  | .inf s, .inf t => s = true ∧ t = false
  | .inf s, .finite _ => s = true
  | .finite _, .inf t => t = false
  | .nan, _ => False
  | _, .nan => False

/-- The order of doubles, in which `NaN` is comparable to nothing. -/
instance : LT Double := ⟨Below⟩

/-- Doubles are compared by computing. -/
instance : DecidableLT Double := fun x y =>
  match x, y with
  | .finite x, .finite y => inferInstanceAs (Decidable (x.val < y.val))
  | .inf s, .inf t => inferInstanceAs (Decidable (s = true ∧ t = false))
  | .inf s, .finite _ => inferInstanceAs (Decidable (s = true))
  | .finite _, .inf t => inferInstanceAs (Decidable (t = false))
  | .nan, .finite _ => .isFalse id
  | .nan, .inf _ => .isFalse id
  | .nan, .nan => .isFalse id
  | .finite _, .nan => .isFalse id
  | .inf _, .nan => .isFalse id

/-! ## What survives rounding

The equations of the operations on constructors come first: a proof splits its operands into
constructors and rewrites with them, and only sums and products of finite doubles are left. -/

section equations

variable (x y : Finite64) (s t : Bool) (z : Double)

/-- Finite doubles compare by value. -/
@[simp] theorem finite_lt_finite : Double.finite x < .finite y ↔ x.val < y.val := Iff.rfl

/-- Only negative infinity is below an infinity. -/
@[simp] theorem inf_lt_inf : Double.inf s < .inf t ↔ s = true ∧ t = false := Iff.rfl

/-- Only negative infinity is below a finite double. -/
@[simp] theorem inf_lt_finite : Double.inf s < .finite y ↔ s = true := Iff.rfl

/-- Only positive infinity is above a finite double. -/
@[simp] theorem finite_lt_inf : Double.finite x < .inf t ↔ t = false := Iff.rfl

/-- `NaN` is below nothing. -/
@[simp] theorem not_nan_lt : ¬ Double.nan < z := by cases z <;> exact id

/-- Nothing is below `NaN`. -/
@[simp] theorem not_lt_nan : ¬ z < Double.nan := by cases z <;> exact id

/-- The sum of finite doubles is the rounded sum. -/
@[simp] theorem add_finite_finite : add (.finite x) (.finite y) = ofRat (x.val + y.val) := rfl

/-- Infinities of one sign add up to it, opposite ones to `NaN`. -/
@[simp] theorem add_inf_inf : add (.inf s) (.inf t) = if s = t then .inf s else .nan := rfl

/-- An infinity absorbs a finite summand. -/
@[simp] theorem add_inf_finite : add (.inf s) (.finite y) = .inf s := rfl

/-- An infinity absorbs a finite summand. -/
@[simp] theorem add_finite_inf : add (.finite x) (.inf t) = .inf t := rfl

/-- `NaN` plus anything is `NaN`. -/
@[simp] theorem nan_add : add .nan z = .nan := by cases z <;> rfl

/-- Anything plus `NaN` is `NaN`. -/
@[simp] theorem add_nan : add z .nan = .nan := by cases z <;> rfl

/-- The difference of finite doubles is the rounded difference. -/
@[simp] theorem sub_finite_finite : sub (.finite x) (.finite y) = ofRat (x.val - y.val) := by
  rw [sub_eq_add_neg]
  rfl

/-- Infinities of one sign have no difference. -/
@[simp] theorem sub_inf_inf : sub (.inf s) (.inf t) = if s = !t then .inf s else .nan := rfl

/-- An infinity absorbs what is taken from it. -/
@[simp] theorem sub_inf_finite : sub (.inf s) (.finite y) = .inf s := rfl

/-- Taking an infinity from a finite double gives the opposite one. -/
@[simp] theorem sub_finite_inf : sub (.finite x) (.inf t) = .inf !t := rfl

/-- `NaN` minus anything is `NaN`. -/
@[simp] theorem nan_sub : sub .nan z = .nan := by cases z <;> rfl

/-- Anything minus `NaN` is `NaN`. -/
@[simp] theorem sub_nan : sub z .nan = .nan := by cases z <;> rfl

/-- The product of finite doubles is the rounded product. -/
@[simp] theorem mul_finite_finite : mul (.finite x) (.finite y) = ofRat (x.val * y.val) := rfl

/-- The product of infinities has the product of the signs. -/
@[simp] theorem mul_inf_inf : mul (.inf s) (.inf t) = .inf (s ^^ t) := rfl

/-- `NaN` times anything is `NaN`. -/
@[simp] theorem nan_mul : mul .nan z = .nan := by cases z <;> rfl

end equations

/-- The value of a finite double rounds to it. -/
theorem ofRat_val (x : Finite64) : ofRat x.val = .finite x := by
  unfold ofRat
  rw [dif_pos (by rw [x.rounded]; exact x.bounded)]
  simp only [x.rounded]

/-- Rounding does not pass a power of two below the overflow. -/
theorem ofRat_of_abs_le {q : ℚ} {k : ℕ} (hk : k < 1024) (h : |q| ≤ 2 ^ k) :
    ∃ x : Finite64, ofRat q = .finite x ∧ |x.val| ≤ 2 ^ k := by
  have hpow : round (2 ^ k) = 2 ^ k := by
    have hone : |(1 : ℤ)| ≤ 2 ^ 53 := by norm_num
    have hround := round_int_mul_zpow (e := k) hone (by omega)
    rwa [Int.cast_one, one_mul, zpow_natCast] at hround
  have hle : |round q| ≤ 2 ^ k := by
    rw [abs_le] at h ⊢
    constructor
    · rw [← hpow, ← round_neg]
      exact round_mono h.1
    · rw [← hpow]
      exact round_mono h.2
  have hlt : |round q| < overflow :=
    lt_of_le_of_lt hle (pow_lt_pow_right₀ (by norm_num) hk)
  exact ⟨⟨round q, round_idem q, hlt⟩, dif_pos hlt, hle⟩

/-- A small natural number as a double. -/
def nat (n : ℕ) (h : n ≤ 2 ^ 53) : Finite64 :=
  ⟨n, by exact_mod_cast round_intCast (n := n) (by rw [Nat.abs_cast]; exact_mod_cast h),
    by
      rw [Nat.abs_cast]
      exact lt_of_le_of_lt (by exact_mod_cast h) two_pow_53_lt_overflow⟩

/-- A natural number up to `2 ^ 53` is exact. -/
theorem ofRat_natCast {n : ℕ} (h : n ≤ 2 ^ 53) : ofRat n = .finite (nat n h) := ofRat_val (nat n h)

/-- A small integer scaled down by a power of two, as a double. -/
def scaled (m : ℤ) (e : ℤ) (hm : |m| ≤ 2 ^ 53) (he : -1074 ≤ e ∧ e ≤ 0) : Finite64 :=
  ⟨m * 2 ^ e, round_int_mul_zpow hm he.1, by
    have hpow : (2 : ℚ) ^ e ≤ 1 := zpow_le_one_of_nonpos₀ (by norm_num) he.2
    have hpos : (0 : ℚ) < 2 ^ e := by positivity
    have hm' : |(m : ℚ)| ≤ 2 ^ 53 := by exact_mod_cast hm
    rw [abs_mul, abs_of_pos hpos]
    calc |(m : ℚ)| * 2 ^ e ≤ |(m : ℚ)| * 1 := mul_le_mul_of_nonneg_left hpow (abs_nonneg _)
      _ ≤ 2 ^ 53 := by rwa [mul_one]
      _ < overflow := two_pow_53_lt_overflow⟩

/-- A finite double has a value. -/
theorem exists_finite {x : Double} (h : x.isFinite = true) : ∃ f, x = .finite f := by
  cases x with
  | finite f => exact ⟨f, rfl⟩
  | inf s => cases h
  | nan => cases h

/-- What lies between two finite doubles is finite. -/
theorem isFinite_of_lt_of_not_lt {x y : Finite64} {d : Double} (hx : .finite x < d)
    (hy : ¬ .finite y < d) : d.isFinite = true := by
  rcases d with d | s | _ <;> simp at hx hy
  · rfl
  · simp [hx] at hy

/-- Zero as a double. -/
def zero : Finite64 := ⟨0, round_zero, by simp [overflow]⟩

/-- One as a double. -/
def one : Finite64 :=
  ⟨1, by simpa using round_intCast (n := 1) (by norm_num),
    by simpa using lt_trans (by norm_num) two_pow_53_lt_overflow⟩

/-- Two as a double. -/
def two : Finite64 :=
  ⟨2, by simpa using round_intCast (n := 2) (by norm_num),
    by simpa using lt_trans (by norm_num) two_pow_53_lt_overflow⟩

/-- The negation of a scaled integer is that of its mantissa. -/
theorem neg_scaled {m e : ℤ} (hm : |m| ≤ 2 ^ 53) (hm' : |-m| ≤ 2 ^ 53) (he : -1074 ≤ e ∧ e ≤ 0) :
    neg (.finite (scaled m e hm he)) = .finite (scaled (-m) e hm' he) := by
  refine congrArg Double.finite (Finite64.ext ?_)
  simp only [scaled]
  push_cast
  ring

/-- Halving lowers the exponent. -/
theorem div_two_scaled {m e : ℤ} (hm : |m| ≤ 2 ^ 53) (he : -1074 ≤ e ∧ e ≤ 0)
    (he' : -1074 ≤ e - 1 ∧ e - 1 ≤ 0) :
    div (.finite (scaled m e hm he)) (.finite two) = some (.finite (scaled m (e - 1) hm he')) := by
  have hval : (scaled m e hm he).val / two.val = (scaled m (e - 1) hm he').val := by
    simp only [scaled, two]
    rw [zpow_sub_one₀ (by norm_num), ← mul_assoc, div_eq_mul_inv]
  simp only [div, hval, ofRat_val]
  exact if_neg (by simp [two])

/-- The value of the constant zero. -/
@[simp] theorem zero_val : zero.val = 0 := rfl

/-- The value of the constant one. -/
@[simp] theorem one_val : one.val = 1 := rfl

/-- The value of the constant two. -/
@[simp] theorem two_val : two.val = 2 := rfl

/-- Zero and one are different doubles. -/
theorem zero_ne_one : zero ≠ one := by
  intro h
  have hval := congrArg Finite64.val h
  rw [zero_val, one_val] at hval
  norm_num at hval

/-- Zero is exact. -/
@[simp] theorem ofRat_zero : ofRat 0 = .finite zero := ofRat_val zero

/-- One is exact. -/
@[simp] theorem ofRat_one : ofRat 1 = .finite one := ofRat_val one

/-- Two is exact. -/
@[simp] theorem ofRat_two : ofRat 2 = .finite two := ofRat_val two

/-- A rounded value that overflows is beyond every finite double, on its own side. -/
theorem round_of_overflow {q : ℚ} (h : ¬ |round q| < overflow) (y : Finite64) :
    q < 0 ∧ round q < y.val ∨ ¬ q < 0 ∧ y.val < round q := by
  have hy := abs_lt.mp y.bounded
  rw [not_lt] at h
  rcases lt_or_ge q 0 with hq | hq
  · have hround : round q ≤ 0 := by simpa using round_mono hq.le
    rw [abs_of_nonpos hround] at h
    exact Or.inl ⟨hq, by linarith⟩
  · rw [abs_of_nonneg (round_nonneg hq)] at h
    exact Or.inr ⟨not_lt.mpr hq, by linarith⟩

/-- Against a finite double an overflow behaves like the rounded value it stands for. -/
@[simp] theorem ofRat_lt_finite (q : ℚ) (y : Finite64) : ofRat q < .finite y ↔ round q < y.val := by
  unfold ofRat
  split_ifs with h
  · rfl
  · rw [inf_lt_finite, decide_eq_true_eq]
    rcases round_of_overflow h y with ⟨hq, hround⟩ | ⟨hq, hround⟩
    · exact iff_of_true hq hround
    · exact iff_of_false hq hround.le.not_gt

/-- A finite double is below a rounded number when its value is below the rounding. -/
@[simp] theorem finite_lt_ofRat (q : ℚ) (y : Finite64) : .finite y < ofRat q ↔ y.val < round q := by
  unfold ofRat
  split_ifs with h
  · rfl
  · rw [finite_lt_inf, decide_eq_false_iff_not]
    rcases round_of_overflow h y with ⟨hq, hround⟩ | ⟨hq, hround⟩
    · exact iff_of_false (not_not.mpr hq) hround.le.not_gt
    · exact iff_of_true hq hround

/-- A rounded value is never the infinity on the other side. -/
theorem not_ofRat_lt_inf_neg (q : ℚ) : ¬ ofRat q < .inf true := by
  unfold ofRat
  split_ifs <;> simp

/-- Rounding does not reorder. -/
theorem not_ofRat_lt_ofRat {p q : ℚ} (h : p ≤ q) : ¬ ofRat q < ofRat p := by
  have hround := round_mono h
  by_cases hp : |round p| < overflow
  · have heq : ofRat p = .finite ⟨round p, round_idem p, hp⟩ := dif_pos hp
    rw [heq, ofRat_lt_finite]
    exact not_lt.mpr hround
  · have heq : ofRat p = .inf (decide (p < 0)) := dif_neg hp
    by_cases hneg : p < 0
    · rw [heq, decide_eq_true hneg]
      exact not_ofRat_lt_inf_neg q
    · -- both are the positive infinity
      have hzero := round_nonneg (not_lt.mp hneg)
      have hq : ¬ |round q| < overflow := by
        rw [abs_of_nonneg hzero] at hp
        rw [abs_of_nonneg (hzero.trans hround)]
        exact fun hlt => hp (hround.trans_lt hlt)
      have heq' : ofRat q = .inf (decide (q < 0)) := dif_neg hq
      have hq0 : ¬ q < 0 := not_lt.mpr ((not_lt.mp hneg).trans h)
      rw [heq, heq', inf_lt_inf, decide_eq_false hq0]
      exact fun hlt => Bool.noConfusion hlt.1

/-- Nothing is above the positive infinity. -/
theorem not_inf_false_lt (x : Double) : ¬ Double.inf false < x := by
  rcases x with x | s | _ <;> simp

/-- Division by what is positive does not reorder. -/
theorem not_div_lt_div {z : Finite64} (hz : 0 < z.val) {x y a b : Double} (h : ¬ y < x)
    (hx : div x (.finite z) = some a) (hy : div y (.finite z) = some b) : ¬ b < a := by
  have hne : ¬ z.val = 0 := hz.ne'
  have hneg : decide (z.val < 0) = false := decide_eq_false hz.le.not_gt
  rcases x with x | s | _ <;> rcases y with y | t | _ <;>
    simp only [div, if_neg hne, hneg, Bool.xor_false, Option.some.injEq] at hx hy <;>
    subst hx <;> subst hy
  · exact not_ofRat_lt_ofRat (div_le_div_of_nonneg_right (not_lt.mp h) hz.le)
  · obtain rfl : t = false := by simpa using h
    exact not_inf_false_lt _
  · exact not_nan_lt _
  · obtain rfl : s = true := by simpa using h
    exact not_ofRat_lt_inf_neg _
  · exact h
  · exact h
  · exact not_lt_nan _
  · exact h
  · exact h

/-- Addition commutes, also on infinities and `NaN`. -/
theorem add_comm (x y : Double) : add x y = add y x := by
  rcases x with x | s | _ <;> rcases y with y | t | _ <;> simp
  · exact congrArg ofRat (Rat.add_comm ..)
  · cases s <;> cases t <;> rfl

/-- The order of doubles is transitive. -/
theorem lt_trans {x y z : Double} (h : x < y) (h' : y < z) : x < z := by
  rcases x with x | s | _ <;> rcases y with y | t | _ <;> rcases z with z | u | _ <;>
    simp at h h' ⊢ <;> grind

/-- The order of doubles is asymmetric. -/
theorem lt_asymm {x y : Double} (h : x < y) : ¬ y < x := by
  rcases x with x | s | _ <;> rcases y with y | t | _ <;> simp at h ⊢ <;> grind

/-- Apart from NaN the order is total: what is not below the middle is at most the middle. -/
theorem lt_of_not_lt_of_lt {x y z : Double} (hy : y ≠ .nan) (h : ¬ x < y) (h' : x < z) : y < z := by
  rcases x with x | s | _ <;> rcases y with y | t | _ <;> rcases z with z | u | _ <;>
    simp at h h' hy ⊢ <;> grind

/-- Apart from NaN the order is total. -/
theorem not_lt_trans {x y z : Double} (hy : y ≠ .nan) (h : ¬ x < y) (h' : ¬ y < z) : ¬ x < z := by
  rcases x with x | s | _ <;> rcases y with y | t | _ <;> rcases z with z | u | _ <;>
    simp at h h' hy ⊢ <;> grind

/-- A bound by a finite double survives rounding. -/
theorem le_round {q : ℚ} {y : Finite64} (h : y.val ≤ q) : y.val ≤ round q := by
  have := round_mono h
  rwa [y.rounded] at this

/-- Adding what is not negative leads nowhere below. -/
theorem not_add_lt {x y : Double} (hy : ¬ y < .finite zero) : ¬ add x y < x := by
  rcases x with x | s | _ <;> rcases y with y | t | _ <;> simp at hy ⊢
  · exact le_round (by linarith)
  · exact hy
  · cases s <;> cases t <;> simp

/-- The sum of two doubles that are not negative is not negative. -/
theorem not_add_lt_zero {x y : Double} (hx : ¬ x < .finite zero) (hy : ¬ y < .finite zero) :
    ¬ add x y < .finite zero := by
  rcases x with x | s | _ <;> rcases y with y | t | _ <;> simp at hx hy ⊢
  · exact round_nonneg (by linarith)
  · exact hy
  · exact hx
  · simp [hx, hy]

/-- A difference of ordered doubles is not negative. -/
theorem not_sub_lt_zero {p a : Double} (h : ¬ p < a) : ¬ sub p a < .finite zero := by
  rcases p with p | s | _ <;> rcases a with a | t | _ <;> simp at h ⊢
  · exact round_nonneg (by linarith)
  · exact h
  · exact h
  · cases s <;> cases t <;> simp_all

/-- Subtracting what is not positive leads nowhere below: a lower bound is kept. -/
theorem not_sub_lt {p a b : Double} (hb : ¬ p < b) (ha : ¬ .finite zero < a) : ¬ sub p a < b := by
  rcases p with p | s | _ <;> rcases a with a | t | _ <;> rcases b with b | u | _ <;>
    simp at hb ha ⊢
  · exact hb.trans (le_round (by linarith))
  · rw [hb]
    exact not_ofRat_lt_inf_neg _
  · exact ha
  · exact fun h => by simp [ha] at h
  · exact hb
  · exact hb
  · simp [hb, ha]
  · cases s <;> simp_all

/-- A largest entry less the two others is not negative, unless all three are positive: a largest
entry that is not positive, or one less entries that are not, cannot be overtaken. -/
theorem not_pivot_lt_zero {p a b : Double} (ha : ¬ p < a) (hb : ¬ p < b)
    (h : ¬ (.finite zero < p ∧ .finite zero < a ∧ .finite zero < b)) :
    ¬ sub (sub p a) b < .finite zero := by
  by_cases hb0 : .finite zero < b
  · by_cases ha0 : .finite zero < a
    · have hp0 : ¬ .finite zero < p := fun hp0 => h ⟨hp0, ha0, hb0⟩
      have hnan : p = .nan := by
        by_contra hne
        exact not_lt_trans hne hp0 hb hb0
      simp [hnan]
    · exact not_sub_lt_zero (not_sub_lt hb ha0)
  · exact not_sub_lt (not_sub_lt_zero ha) hb0

/-- The sum of two positive doubles is positive. -/
theorem zero_lt_add {x y : Double} (hx : .finite zero < x) (hy : .finite zero < y) :
    .finite zero < add x y := by
  rcases x with x | s | _ <;> rcases y with y | t | _ <;> simp at hx hy ⊢
  · exact hx.trans_le (le_round (by linarith))
  · exact hy
  · exact hx
  · simp [hx, hy]

/-- A square is not negative. -/
theorem not_mul_self_lt_zero (x : Double) : ¬ mul x x < .finite zero := by
  rcases x with x | s | _ <;> simp
  exact round_nonneg (mul_self_nonneg _)

/-- What is at least one is not zero. -/
theorem not_isZero_of_not_lt_one {x : Double} (h : ¬ x < .finite one) : x.isZero = false := by
  rcases x with x | s | _
  · simp only [finite_lt_finite, one_val, not_lt] at h
    simp only [isZero, decide_eq_false_iff_not]
    linarith
  · rfl
  · rfl

/-- Doubling keeps a lower bound of one. -/
theorem not_mul_two_lt_one {x : Double} (h : ¬ x < .finite one) :
    ¬ mul x (.finite two) < .finite one := by
  rcases x with x | s | _ <;> simp at h ⊢
  · exact le_round (y := one) (by rw [one_val]; linarith)
  · rw [h]
    exact fun h2 => Bool.false_ne_true h2

/-- A quotient is defined unless the divisor is zero. -/
theorem exists_div {y : Double} (x : Double) (h : y.isZero = false) : ∃ z, div x y = some z := by
  rcases y with y | t | _
  · have hy : ¬ y.val = 0 := by simpa [isZero] using h
    rcases x with x | s | _ <;> simp [div, hy]
  · rcases x with x | s | _ <;> simp [div]
  · rcases x with x | s | _ <;> simp [div]

/-- A quotient of what is not negative by what is positive is not negative. -/
theorem not_div_lt_zero {x y z : Double} (hx : ¬ x < .finite zero) (hy : .finite zero < y)
    (h : div x y = some z) : ¬ z < .finite zero := by
  rcases x with x | s | _ <;> rcases y with y | t | _ <;> simp at hx hy
  · simp only [div, hy.ne', if_false, Option.some.injEq] at h
    rw [← h]
    simpa using round_nonneg (div_nonneg hx hy.le)
  · simp only [div, ofRat_zero, Option.some.injEq] at h
    simp [← h]
  · simp only [div, hy.ne', if_false, not_lt.mpr hy.le, decide_false, Option.some.injEq] at h
    simp [← h, hx]
  · simp only [div, Option.some.injEq] at h
    simp [← h]
  · simp only [div, hy.ne', if_false, Option.some.injEq] at h
    simp [← h]
  · simp only [div, Option.some.injEq] at h
    simp [← h]

/-- A square root is defined unless the operand is negative. -/
theorem exists_sqrt {x : Double} (h : ¬ x < .finite zero) : ∃ y, sqrt x = some y := by
  rcases x with x | s | _
  · simp only [finite_lt_finite, zero_val] at h
    simp [sqrt, h]
  · cases s
    · exact ⟨_, rfl⟩
    · simp at h
  · exact ⟨_, rfl⟩

/-- The fixed-point square root of at least one is at least one. -/
theorem one_le_sqrtApprox {q : ℚ} (h : 1 ≤ q) : 1 ≤ sqrtApprox q := by
  have hposQ : (0 : ℚ) < rootScale := by exact_mod_cast rootScale_pos
  have h1 : rootScale * rootScale ≤ ⌊q * (rootScale * rootScale)⌋.toNat := by
    have h2 : ((rootScale * rootScale : ℕ) : ℤ) ≤ ⌊q * (rootScale * rootScale)⌋ := by
      rw [Int.le_floor]
      push_cast
      exact le_mul_of_one_le_left (by positivity) h
    omega
  have h3 : (rootScale : ℚ) ≤ (Nat.sqrt ⌊q * (rootScale * rootScale)⌋.toNat : ℚ) := by
    exact_mod_cast Nat.le_sqrt.mpr h1
  unfold sqrtApprox
  rw [le_div_iff₀ hposQ, one_mul]
  split_ifs <;> linarith

/-- A square root keeps a lower bound of one. -/
theorem exists_sqrt_not_lt_one {x : Double} (h : ¬ x < .finite one) :
    ∃ y, sqrt x = some y ∧ ¬ y < .finite one := by
  rcases x with x | s | _
  · simp only [finite_lt_finite, one_val, not_lt] at h
    refine ⟨ofRat (sqrtApprox x.val), ?_, ?_⟩
    · simp [sqrt, show ¬ x.val < 0 by linarith]
    · simpa using le_round (y := one) (one_le_sqrtApprox h)
  · cases s
    · exact ⟨_, rfl, by simp⟩
    · simp at h
  · exact ⟨_, rfl, by simp⟩

end Double

end Lib.Binary64
