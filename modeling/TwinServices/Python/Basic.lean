import TwinServices.Lib.Binary64
import Mathlib.Analysis.SpecialFunctions.Trigonometric.Basic
import Mathlib.Analysis.Real.Sqrt

/-!
# The Python the services are written in

What the services use of the language, its `math` module and numpy. A float operation that can
raise gives an `Except PyError`; the services are generic in the type of floats, and two types
implement the operations:

* `ℝ`: exact real arithmetic, for statements about what the code computes up to rounding.
* `Double`: IEEE 754 doubles over a `CPython`, the structure of what the language leaves to the
  platform: the C library's `cos` and `sin`, the algorithm of `sum` and the product of numpy.

A `do` block over `Except PyError` is a sequence of statements; `bind_eq_ok_iff` takes one apart.
-/

set_option autoImplicit false

namespace TwinServices.Python

open Lib.Binary64

/-- The exceptions that the modelled code raises or the language raises under it. -/
inductive PyError
  | valueError (text : String)
  /-- `ValueError(f"not a telemetry topic: {topic!r}")`. -/
  | notATelemetryTopic (topic : String)
  | zeroDivisionError (text : String)
  | queueFull
  | queueEmpty
deriving DecidableEq, Repr

section exceptions

variable {α β : Type}

/-- What did not raise goes on. -/
@[simp] theorem ok_bind (a : α) (f : α → Except PyError β) : (Except.ok a >>= f) = f a := rfl

/-- An exception passes through what would follow. -/
@[simp] theorem error_bind (e : PyError) (f : α → Except PyError β) :
    (Except.error e >>= f) = .error e := rfl

/-- A plain return raises nothing. -/
@[simp] theorem pure_eq_ok (a : α) : (pure a : Except PyError α) = .ok a := rfl

/-- Two statements in a row return if the first one does and the second one after it. -/
theorem bind_eq_ok_iff {x : Except PyError α} {f : α → Except PyError β} {b : β} :
    (x >>= f) = .ok b ↔ ∃ a, x = .ok a ∧ f a = .ok b := by
  rcases x with e | a <;> simp

end exceptions

/-! ## Floats -/

/-- The square matrices of order four, `np.ndarray` of shape `(4, 4)`. -/
abbrev Matrix4 (F : Type) : Type := Matrix (Fin 4) (Fin 4) F

/-- The operations on floats that the services use. -/
class PyFloat (F : Type) extends Add F, Sub F, Mul F, Neg F, LT F where
  /-- Comparisons are decided. -/
  decLT : DecidableLT F
  /-- A literal. -/
  lit : ℚ → F
  /-- `math.pi`. -/
  pi : F
  /-- The operator `/`. -/
  truediv : F → F → Except PyError F
  /-- `math.sqrt`. -/
  sqrt : F → Except PyError F
  /-- `math.cos`. -/
  cos : F → Except PyError F
  /-- `math.sin`. -/
  sin : F → Except PyError F
  /-- The builtin `sum` of floats. -/
  sum : List F → F
  /-- The operator `@` of numpy. -/
  matmul : Matrix4 F → Matrix4 F → Matrix4 F

/-- Floats are compared by computing. -/
instance PyFloat.decidableLT {F : Type} [PyFloat F] : DecidableLT F := PyFloat.decLT

/-- `ValueError("math domain error")`, of `math.sqrt`, `math.cos` and `math.sin`. -/
def mathDomainError : PyError := .valueError "math domain error"

/-- `ZeroDivisionError("float division by zero")`. -/
def divisionByZero : PyError := .zeroDivisionError "float division by zero"

/-! ### Exact arithmetic -/

/-- Exact real arithmetic, with the exceptions where Python has them. -/
noncomputable instance : PyFloat ℝ where
  decLT := Classical.decRel _
  lit q := q
  pi := Real.pi
  truediv x y := if y = 0 then .error divisionByZero else .ok (x / y)
  sqrt x := if x < 0 then .error mathDomainError else .ok (Real.sqrt x)
  cos x := .ok (Real.cos x)
  sin x := .ok (Real.sin x)
  sum xs := xs.sum
  matmul a b := a * b

section Real

/-- Over the reals a literal is its value. -/
@[simp] theorem lit_real (q : ℚ) : (PyFloat.lit q : ℝ) = q := rfl

/-- Over the reals `math.pi` is π. -/
@[simp] theorem pi_real : (PyFloat.pi : ℝ) = Real.pi := rfl

/-- Over the reals `math.cos` never raises. -/
@[simp] theorem cos_real (x : ℝ) : PyFloat.cos x = .ok (Real.cos x) := rfl

/-- Over the reals `math.sin` never raises. -/
@[simp] theorem sin_real (x : ℝ) : PyFloat.sin x = .ok (Real.sin x) := rfl

/-- Over the reals `sum` is the sum. -/
@[simp] theorem sum_real (xs : List ℝ) : PyFloat.sum xs = xs.sum := rfl

/-- Over the reals `@` is the product of matrices. -/
@[simp] theorem matmul_real (a b : Matrix4 ℝ) : PyFloat.matmul a b = a * b := rfl

/-- Over the reals `/` raises for a zero divisor only. -/
theorem truediv_real {x y : ℝ} (hy : y ≠ 0) : PyFloat.truediv x y = .ok (x / y) := if_neg hy

/-- Over the reals `math.sqrt` raises for a negative argument only. -/
theorem sqrt_real {x : ℝ} (hx : 0 ≤ x) : PyFloat.sqrt x = .ok (Real.sqrt x) :=
  if_neg (not_lt.mpr hx)

end Real

/-! ### Doubles -/

/-- The double `math.pi`. -/
def mathPi : Finite64 := Double.scaled 884279719003555 (-48) (by norm_num) (by norm_num)

/-- What the language leaves to the platform: the C library's cosine and sine of a finite double,
the algorithm by which `sum` adds floats (it changed in 3.12) and the order in which numpy adds up
the products of a matrix product. Of these only one fact is used: a sum of floats none of which
is negative is not negative. -/
class CPython where
  cos : Finite64 → Finite64
  sin : Finite64 → Finite64
  sum : List Double → Double
  sum_not_neg : ∀ xs : List Double,
    (∀ x ∈ xs, ¬ x < .finite Double.zero) → ¬ sum xs < .finite Double.zero
  matmul : Matrix4 Double → Matrix4 Double → Matrix4 Double

/-- `math.cos` and `math.sin` over a function of the C library: a domain error at an infinity,
NaN at NaN. -/
def mathFunction (f : Finite64 → Finite64) : Double → Except PyError Double
  | .finite x => .ok (.finite (f x))
  | .inf _ => .error mathDomainError
  | .nan => .ok .nan

section Double

variable [CPython]

/-- Python's `float`: binary64 with the platform's own functions, and `/`, `math.sqrt`, `math.cos`
and `math.sin` raise where Python raises. -/
instance : PyFloat Double where
  add := Double.add
  sub := Double.sub
  mul := Double.mul
  neg := Double.neg
  decLT := inferInstance
  lit := Double.ofRat
  pi := .finite mathPi
  truediv x y :=
    match Double.div x y with
    | some z => .ok z
    | none => .error divisionByZero
  sqrt x :=
    match Double.sqrt x with
    | some y => .ok y
    | none => .error mathDomainError
  cos := mathFunction CPython.cos
  sin := mathFunction CPython.sin
  sum := CPython.sum
  matmul := CPython.matmul

/-- `+` of Python floats is that of binary64. -/
theorem add_double (x y : Double) : x + y = Double.add x y := rfl

/-- `-` of Python floats is that of binary64. -/
theorem sub_double (x y : Double) : x - y = Double.sub x y := rfl

/-- `*` of Python floats is that of binary64. -/
theorem mul_double (x y : Double) : x * y = Double.mul x y := rfl

/-- A float literal is the nearest double. -/
theorem lit_double (q : ℚ) : (PyFloat.lit q : Double) = Double.ofRat q := rfl

/-- `math.cos` is the platform's cosine, and raises for an infinity. -/
theorem cos_double (x : Double) : PyFloat.cos x = mathFunction CPython.cos x := rfl

/-- `math.sin` is the platform's sine, and raises for an infinity. -/
theorem sin_double (x : Double) : PyFloat.sin x = mathFunction CPython.sin x := rfl

/-- `/` returns the rounded quotient where there is one. -/
theorem truediv_double {x y z : Double} (h : Double.div x y = some z) :
    PyFloat.truediv x y = .ok z := by
  simp only [PyFloat.truediv, h]

/-- What `/` returns is the rounded quotient. -/
theorem div_of_truediv {x y z : Double} (h : PyFloat.truediv x y = .ok z) :
    Double.div x y = some z := by
  simp only [PyFloat.truediv] at h
  split at h
  · rename_i z' hz
    rw [hz, Except.ok.inj h]
  · cases h

/-- `math.sqrt` returns the rounded root where there is one. -/
theorem sqrt_double {x y : Double} (h : Double.sqrt x = some y) : PyFloat.sqrt x = .ok y := by
  simp only [PyFloat.sqrt, h]

/-- What `math.sqrt` returns is the rounded root. -/
theorem root_of_sqrt {x y : Double} (h : PyFloat.sqrt x = .ok y) : Double.sqrt x = some y := by
  simp only [PyFloat.sqrt] at h
  split at h
  · rename_i y' hy
    rw [hy, Except.ok.inj h]
  · cases h

end Double

/-! ### A platform -/

/-- The finite double nearest to a rational; zero where there is none. -/
def nearest (q : ℚ) : Finite64 :=
  match Double.ofRat q with
  | .finite x => x
  | _ => Double.zero

/-- The terms of a power series up to a number of them, each from the one before. -/
def partialSum (next : ℕ → ℚ → ℚ) : ℕ → ℕ → ℚ → ℚ
  | 0, _, _ => 0
  | fuel + 1, k, term => term + partialSum next fuel (k + 1) (next k term)

/-- A platform that can be computed with: power series for cosine and sine, good for arguments up
to `π`, and sums from left to right, rounded at every step. -/
@[reducible] def CPython.series : CPython where
  cos x := nearest (partialSum (fun k t => -t * x.val ^ 2 / ((2 * k + 1) * (2 * k + 2))) 30 0 1)
  sin x := nearest (partialSum (fun k t => -t * x.val ^ 2 / ((2 * k + 2) * (2 * k + 3))) 30 0 x.val)
  sum xs := xs.foldl Double.add (.finite Double.zero)
  sum_not_neg xs h := by
    have hfold : ∀ acc : Double, ¬ acc < .finite Double.zero →
        ¬ xs.foldl Double.add acc < .finite Double.zero := by
      induction xs with
      | nil => exact fun acc hacc => hacc
      | cons x xs ih =>
          intro acc hacc
          apply ih (fun y hy => h y (List.mem_cons_of_mem _ hy))
          exact Double.not_add_lt_zero hacc (h x (List.mem_cons_self ..))
    exact hfold _ (by simp)
  matmul a b i j := (List.finRange 4).foldl
    (fun acc k => Double.add acc (Double.mul (a i k) (b k j))) (.finite Double.zero)

/-- `math.cos` and `math.sin` raise exactly at the infinities. -/
theorem mathFunction_ok_iff (f : Finite64 → Finite64) (x : Double) :
    (∃ y, mathFunction f x = .ok y) ↔ x.isInf = false := by
  cases x <;> simp [mathFunction, Double.isInf]

end TwinServices.Python
