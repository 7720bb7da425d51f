import TwinServices.Lib.JsonStrict
import TwinServices.Python.Basic

/-!
# The module `json`

What the services use of `json.dumps`, with its defaults: a blank follows `,` and `:`, characters
outside ASCII are escaped, a finite float is written as its `repr`, and the other floats as the
tokens `NaN`, `Infinity` and `-Infinity`, which the standard has not.

* `FloatRepr`: how the platform writes a finite float. It says in `sys.float_repr_style` whether
  that is the shortest decimal or one of 17 digits; both read back as the float (`read_repr`).
* `dumps`: the text of a value.
* `dumpsFloat_strict_iff`: exactly the finite floats are written as numbers of the standard.
-/

set_option autoImplicit false

namespace TwinServices.Python

open Lib.Json Lib.Binary64

/-- The `repr` of the finite floats. -/
class FloatRepr where
  /-- The decimal that a finite float is written as. -/
  repr : Finite64 → NumLit
  /-- It reads back as that float. -/
  read_repr : ∀ x, Double.ofRat (repr x).value = .finite x

/-- A text as `json.dumps` lays it out. -/
def dumps (v : Value) : String := String.ofList (print ⟨true, true⟩ v)

/-- A text that was dumped is one of the standard exactly when the value is strict, and is then
read as that value. -/
theorem parse_dumps_iff {v w : Value} :
    parse false (dumps v).toList = some w ↔ v.Strict ∧ w = v := by
  unfold dumps
  rw [String.toList_ofList]
  exact parse_print_strict_iff

section float

variable [FloatRepr]

/-- The value that a float is dumped as. -/
def dumpsFloat : Double → Value
  | .finite x => .num (FloatRepr.repr x)
  | .inf false => .nonFinite .infinity
  | .inf true => .nonFinite .negInfinity
  | .nan => .nonFinite .nan

/-- Exactly the finite floats are numbers of the standard. -/
@[simp] theorem dumpsFloat_strict_iff (x : Double) :
    (dumpsFloat x).Strict ↔ x.isFinite = true := by
  rcases x with x | s | -
  · simp [dumpsFloat, Value.Strict, Double.isFinite]
  · cases s <;> simp [dumpsFloat, Value.Strict, Double.isFinite]
  · simp [dumpsFloat, Value.Strict, Double.isFinite]

end float

end TwinServices.Python
