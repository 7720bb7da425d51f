import TwinServices.Lib.JsonRoundTrip
import TwinServices.Python.Containers

/-!
# Validation and serialization

What the contracts use of pydantic v2, with its defaults: a model validates a JSON object field by
field, ignores members it does not know, and reports every field that fails; it dumps itself as
compact JSON. Floats admit the infinities and NaN, also as the tokens `Infinity` and `NaN`, and a
float that is not finite is dumped as `null`. A text is refused where more than 200 containers stand
in one another. Integers have any size: that the parser refuses more than 4300 digits is left out.

* `Pydantic`: the choices of the library that the contracts do not depend on: which decimal a
  float is written as (`read_writeFloat`: one that reads back as that float), and how a number is
  read from JSON of another type.
* `checkInt`, `checkFloat`, `checkEnum`, `checkOptional`, `checkDict`: the checks of the field
  types, each from a JSON value.
* `field`: a field of a model, with its default.
* `checkFloat_dumpFloat_iff`: exactly the finite floats survive being dumped and checked.
-/

set_option autoImplicit false

namespace TwinServices.Contracts

open TwinServices.Python Lib.Json Lib.Binary64

/-! ## The library -/

/-- What the contracts leave to pydantic. -/
class Pydantic where
  /-- The decimal that a finite float is written as. -/
  writeFloat : Finite64 → NumLit
  /-- It reads back as that float. -/
  read_writeFloat : ∀ x, Double.ofRat (writeFloat x).value = .finite x
  /-- The integer that a scalar other than an integer token and `null` is converted to. -/
  laxInt : Value → Option ℤ
  /-- The float that a string or a boolean is converted to. -/
  laxFloat : Value → Option Double

/-- Why a field fails. -/
inductive ErrorType
  | jsonInvalid
  | modelType
  | missing
  | intType
  | floatType
  | dictType
  | enum
  | greaterThanEqual (bound : ℕ)
  | greaterThan (bound : ℚ)
  | lessThanEqual (bound : ℚ)
  /-- A `ValueError` raised by a validator of the model. -/
  | valueError (text : String)
deriving DecidableEq

/-- A failing place and why it fails. -/
structure ErrorDetails where
  loc : List String
  type : ErrorType
deriving DecidableEq

/-- `ValidationError`: every failing place. -/
abbrev ValidationError : Type := List ErrorDetails

/-- The outcome of checking one value. -/
abbrev Checked (α : Type) : Type := Except ValidationError α

/-- A failure at the value itself. -/
def fail {α : Type} (type : ErrorType) : Checked α := .error [⟨[], type⟩]

/-- The same outcome with its failures placed under a name. -/
def Checked.under {α : Type} (name : String) : Checked α → Checked α
  | .ok x => .ok x
  | .error es => .error (es.map fun e => { e with loc := name :: e.loc })

/-- The failures of an outcome. -/
def Checked.errors {α : Type} : Checked α → ValidationError
  | .ok _ => []
  | .error es => es

/-! ## Field types -/

section checks

/-- The integers from a bound on, `Field(ge=…)`. -/
abbrev AtLeast (lo : ℕ) : Type := {n : ℕ // lo ≤ n}

variable [Pydantic]

/-- `int` with `ge=lo`. -/
def checkInt (lo : ℕ) (v : Value) : Checked (AtLeast lo) :=
  let read : Option ℤ := match v with
    | .num n => if n.isInt then some n.toInt else Pydantic.laxInt v
    | .null | .arr _ | .obj _ => none
    | _ => Pydantic.laxInt v
  match read with
  | none => fail .intType
  | some n => if h : lo ≤ n.toNat ∧ 0 ≤ n then .ok ⟨n.toNat, h.1⟩ else fail (.greaterThanEqual lo)

/-- `float`. -/
def checkFloat (v : Value) : Checked Double :=
  match v with
  | .num n => .ok (Double.ofRat n.value)
  | .nonFinite .nan => .ok .nan
  | .nonFinite .infinity => .ok (.inf false)
  | .nonFinite .negInfinity => .ok (.inf true)
  | .null | .arr _ | .obj _ => fail .floatType
  | v =>
      match Pydantic.laxFloat v with
      | some x => .ok x
      | none => fail .floatType

/-- A string enumeration with these members. -/
def checkEnum {α : Type} (value : α → String) (members : List α) (v : Value) : Checked α :=
  match v with
  | .str s =>
      match members.find? fun m => value m = s with
      | some m => .ok m
      | none => fail .enum
  | _ => fail .enum

/-- `T | None`. -/
def checkOptional {α : Type} (check : Value → Checked α) (v : Value) : Checked (Option α) :=
  match v with
  | .null => .ok none
  | v => (check v).map some

/-- The checked members of an object, or every failure among them. -/
def checkItems {α : Type} (check : Value → Checked α) :
    List (String × Value) → Checked (List (String × α))
  | [] => .ok []
  | (k, v) :: ms =>
      match (check v).under k, checkItems check ms with
      | .ok x, .ok xs => .ok ((k, x) :: xs)
      | .ok _, .error es => .error es
      | .error es, .ok _ => .error es
      | .error es, .error es' => .error (es ++ es')

/-- `dict[str, T]`: of members with one name the last counts. -/
def checkDict {α : Type} (check : Value → Checked α) (v : Value) : Checked (Dict String α) :=
  match v with
  | .obj ms => (checkItems check ms).map Dict.ofItems
  | _ => fail .dictType

end checks

/-! ## Models -/

/-- The value of the last member with a name. -/
def member (name : String) (ms : List (String × Value)) : Option Value :=
  (ms.reverse.find? fun m => m.1 = name).map Prod.snd

/-- A field of a model: checked where the object has it, else its default if it has one. -/
def field {α : Type} (name : String) (default : Option α) (check : Value → Checked α)
    (ms : List (String × Value)) : Checked α :=
  match member name ms, default with
  | some v, _ => (check v).under name
  | none, some x => .ok x
  | none, none => (fail .missing : Checked α).under name

/-- The parser refuses a text in which more containers than this stand in one another. -/
def maxDepth : ℕ := 200

/-- `model_validate_json` of a text, over the validation of an object's members. -/
def validateJson {α : Type} (model : List (String × Value) → Checked α) (text : String) :
    Checked α :=
  match parse true text.toList with
  | none => fail .jsonInvalid
  | some v =>
      if maxDepth < v.depth then fail .jsonInvalid
      else
        match v with
        | .obj ms => model ms
        | _ => fail .modelType

/-- The layout of `model_dump_json`. -/
def compact : Style := ⟨false, false⟩

/-- `model_dump_json` of the members of a model. -/
def dumpJson (ms : List (String × Value)) : String := String.ofList (print compact (.obj ms))

/-- Validation of a dumped text is validation of its members, where they are not too deep. -/
theorem validateJson_dumpJson {α : Type} (model : List (String × Value) → Checked α)
    {ms : List (String × Value)} (h : (Value.obj ms).depth ≤ maxDepth) :
    validateJson model (dumpJson ms) = model ms := by
  unfold validateJson dumpJson
  rw [String.toList_ofList, parse_print _ (Or.inl rfl)]
  simp only [if_neg (not_lt.mpr h)]

/-! ## Dumped values and their checks -/

/-- An integer as JSON. -/
def dumpNat (n : ℕ) : Value := .num (.ofNat n)

/-- A dumped integer nests nothing. -/
@[simp] theorem depth_dumpNat (n : ℕ) : (dumpNat n).depth = 0 := rfl

section Pydantic

variable [Pydantic]

/-- A float as JSON; `null` where it is not finite. -/
def dumpFloat : Double → Value
  | .finite x => .num (Pydantic.writeFloat x)
  | _ => .null

/-- A dumped integer passes its own check. -/
@[simp] theorem checkInt_dumpNat {lo : ℕ} (n : AtLeast lo) :
    checkInt lo (dumpNat n.val) = .ok n := by
  have h : (NumLit.ofNat n.val).toInt = n.val := rfl
  unfold checkInt dumpNat
  simp only [show (NumLit.ofNat n.val).isInt = true from rfl, if_true, h, Int.toNat_natCast]
  rw [dif_pos ⟨n.property, Int.natCast_nonneg _⟩]

/-- A dumped float nests nothing. -/
@[simp] theorem depth_dumpFloat (x : Double) : (dumpFloat x).depth = 0 := by
  cases x <;> rfl

/-- What is a float is no container. -/
theorem depth_of_checkFloat {v : Value} {x : Double} (h : checkFloat v = .ok x) : v.depth = 0 := by
  cases v with
  | arr xs => cases h
  | obj ms => cases h
  | _ => rfl

/-- A dumped finite float is read back. -/
theorem checkFloat_dumpFloat_finite (x : Finite64) :
    checkFloat (dumpFloat (.finite x)) = .ok (.finite x) :=
  congrArg Except.ok (Pydantic.read_writeFloat x)

/-- **Exactly the finite floats survive**: the others are dumped as `null`, which is refused. -/
theorem checkFloat_dumpFloat_iff (x : Double) :
    checkFloat (dumpFloat x) = .ok x ↔ x.isFinite = true := by
  cases x with
  | finite x => simp [checkFloat_dumpFloat_finite, Double.isFinite]
  | inf s => simp [dumpFloat, checkFloat, fail, Double.isFinite]
  | nan => simp [dumpFloat, checkFloat, fail, Double.isFinite]

/-- What is read back from a float is that float. -/
theorem eq_of_checkFloat_dumpFloat {x y : Double} (h : checkFloat (dumpFloat x) = .ok y) :
    y = x ∧ x.isFinite = true := by
  cases x with
  | finite x =>
      rw [checkFloat_dumpFloat_finite] at h
      exact ⟨(Except.ok.inj h).symm, rfl⟩
  | inf s => cases h
  | nan => cases h

end Pydantic

/-! ## A writer -/

/-- The exponent part `e-1074`. -/
def lastExponent : Exponent :=
  ⟨false, some true, ⟨digitVal '1', [digitVal '0', digitVal '7', digitVal '4']⟩⟩

/-- The decimal of a finite double that has no fraction and the exponent of the smallest one. -/
def exactDecimal (x : Finite64) : NumLit :=
  ⟨x.units < 0, x.units.natAbs * 5 ^ 1074, none, some lastExponent⟩

/-- The exact decimal of a finite double has its value. -/
theorem exactDecimal_value (x : Finite64) : (exactDecimal x).value = x.val := by
  have hsign : (if (exactDecimal x).negative then -1 else 1 : ℚ) * x.units.natAbs = x.units := by
    rw [Nat.cast_natAbs, show (exactDecimal x).negative = decide (x.units < 0) from rfl]
    rcases lt_or_ge x.units 0 with h | h
    · simp [h, abs_of_neg]
    · simp [not_lt.mpr h, h]
  have hexp (n : ℕ) : (5 : ℚ) ^ n * 10 ^ (-(n : ℤ)) = 2 ^ (-(n : ℤ)) := by
    rw [show (10 : ℚ) = 5 * 2 by norm_num, mul_zpow, ← mul_assoc, zpow_neg 5, zpow_natCast,
      mul_inv_cancel₀ (pow_ne_zero n (by norm_num)), one_mul]
  calc (exactDecimal x).value
      = (if (exactDecimal x).negative then -1 else 1) *
          (((x.units.natAbs * 5 ^ 1074 : ℕ) : ℚ) + 0) * 10 ^ (-1074 : ℤ) := rfl
    _ = (if (exactDecimal x).negative then -1 else 1) * x.units.natAbs *
          (5 ^ 1074 * 10 ^ (-1074 : ℤ)) := by
        simp only [add_zero, Nat.cast_mul, Nat.cast_pow, Nat.cast_ofNat, mul_assoc]
    _ = x.units * unit := congrArg₂ (· * ·) hsign (hexp 1074)
    _ = x.val := x.units_mul_unit

/-- A pydantic that writes the exact decimal of a float and converts nothing from other types. -/
@[reducible] def Pydantic.decimal : Pydantic where
  writeFloat := exactDecimal
  read_writeFloat x := by rw [exactDecimal_value, Double.ofRat_val]
  laxInt _ := none
  laxFloat _ := none

end TwinServices.Contracts
