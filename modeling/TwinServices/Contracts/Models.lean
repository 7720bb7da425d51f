import TwinServices.Contracts.Pydantic
import TwinServices.Contracts.Topics

/-!
# The payloads

The models that cross MQTT and REST: one joint field at one instant (`JointTelemetry`) and a
setpoint request (`JointCommand`). They are generic in the type of floats; validation and dumping
are about doubles. What a validator of the model checks is a field of the structure, so a command
that breaks the rules cannot be built.

* `JointTelemetry.roundTrip_iff`, `JointCommand.roundTrip`: a payload that is dumped and
  validated again comes back as it was exactly when every float in it is finite.
-/

set_option autoImplicit false

namespace TwinServices.Contracts

open TwinServices.Python Lib.Json Lib.Binary64

/-! ## Messages -/

/-- What a message carries. MQTT itself carries bytes. -/
inductive Payload
  | bytes (b : ByteArray)
  | str (s : String)
  | other

/-- The payload as JSON text, `model_validate_json(payload)`: bytes are decoded from UTF-8.
Source: `models.py`, `JointTelemetry`, `JointCommand` -/
def Payload.validateJson {α : Type} (model : List (String × Value) → Checked α) :
    Payload → Checked α
  | .bytes b =>
      match String.fromUTF8? b with
      | some text => Contracts.validateJson model text
      | none => fail .jsonInvalid
  | .str text => Contracts.validateJson model text
  | .other => fail .jsonInvalid

/-- The payload that a published text arrives as. -/
def Payload.ofText (text : String) : Payload := .bytes text.toByteArray

/-- A payload that is the encoding of a text is validated as the text. -/
@[simp] theorem Payload.validateJson_ofText {α : Type} (model : List (String × Value) → Checked α)
    (text : String) : (ofText text).validateJson model = Contracts.validateJson model text := by
  have h : String.fromUTF8? text.toByteArray = some text := by
    unfold String.fromUTF8?
    rw [dif_pos text.isValidUTF8]
    rfl
  simp only [ofText, validateJson, h]

/-- The default of `schema_version`, which is in its own range.
Source: `models.py`, `JointTelemetry.schema_version`, `JointCommand.schema_version` -/
def currentVersion : AtLeast 1 := ⟨schemaVersion, le_rfl⟩

/-! ## Telemetry -/

/-- One joint field at one instant. Source: `models.py`, `JointTelemetry` -/
structure JointTelemetry (F : Type) where
  schemaVersion : AtLeast 1
  value : F
  stampNs : ℕ
deriving DecidableEq

namespace JointTelemetry

/-- `JointTelemetry(value=…, stamp_ns=…)`, with the default version.
Source: `models.py`, `JointTelemetry` -/
def new {F : Type} (value : F) (stampNs : ℕ) : JointTelemetry F :=
  ⟨currentVersion, value, stampNs⟩

variable [Pydantic]

/-- The validation of the members of an object.
Source: `models.py`, `JointTelemetry` -/
def validate (ms : List (String × Value)) : Checked (JointTelemetry Double) :=
  match field "schema_version" (some currentVersion) (checkInt 1) ms,
    field "value" none checkFloat ms, field "stamp_ns" none (checkInt 0) ms with
  | .ok version, .ok value, .ok stamp => .ok ⟨version, value, stamp.val⟩
  | version, value, stamp => .error (version.errors ++ value.errors ++ stamp.errors)

/-- The members of the dumped object.
Source: `models.py`, `JointTelemetry` -/
def members (t : JointTelemetry Double) : List (String × Value) :=
  [("schema_version", dumpNat t.schemaVersion.val), ("value", dumpFloat t.value),
    ("stamp_ns", dumpNat t.stampNs)]

/-- `model_dump_json`.
Source: `models.py`, `JointTelemetry` -/
def modelDumpJson (t : JointTelemetry Double) : String := dumpJson t.members

/-- `JointTelemetry.model_validate_json`.
Source: `models.py`, `JointTelemetry` -/
def modelValidateJson (p : Payload) : Checked (JointTelemetry Double) := p.validateJson validate

end JointTelemetry

/-! ## Commands -/

/-- Source: `models.py`, `CommandKind` -/
inductive CommandKind
  | home
  | moveJoints
deriving DecidableEq, Repr

/-- The text of the enumeration member.
Source: `models.py`, `CommandKind` -/
def CommandKind.value : CommandKind → String
  | home => "home"
  | moveJoints => "move_joints"

/-- The members in the order of the class.
Source: `models.py`, `CommandKind` -/
def CommandKind.members : List CommandKind := [home, moveJoints]

/-- `bool(positions)`.
Source: `models.py`, `JointCommand._positions_match_kind` -/
def truthyPositions {F : Type} : Option (Dict String F) → Bool
  | some d => d.truthy
  | none => false

/-- The text of the error that the validator of the whole command raises, if it raises one.
Source: `models.py`, `JointCommand._positions_match_kind` -/
def positionsMatchKind {F : Type} (kind : CommandKind) (positions : Option (Dict String F)) :
    Option String :=
  if kind = .moveJoints ∧ truthyPositions positions = false then
    some "move_joints requires positions"
  else if kind = .home ∧ truthyPositions positions = true then some "home takes no positions"
  else none

/-- A setpoint request. Source: `models.py`, `JointCommand` -/
structure JointCommand (F : Type) [PyFloat F] where
  schemaVersion : AtLeast 1
  kind : CommandKind
  /-- Target angles by joint name. -/
  positions : Option (Dict String F)
  durationS : F
  duration_gt : PyFloat.lit 0 < durationS
  duration_le : ¬ PyFloat.lit 30 < durationS
  positions_match : positionsMatchKind kind positions = none

namespace JointCommand

/-- A command is determined by its four fields. -/
@[ext] theorem ext {F : Type} [PyFloat F] {c d : JointCommand F}
    (hversion : c.schemaVersion = d.schemaVersion) (hkind : c.kind = d.kind)
    (hpositions : c.positions = d.positions) (hduration : c.durationS = d.durationS) : c = d := by
  cases c
  cases d
  simp_all

/-- Commands are equal when their fields are. -/
instance decidableEq [CPython] : DecidableEq (JointCommand Double) := fun c d =>
  decidable_of_iff (c.schemaVersion = d.schemaVersion ∧ c.kind = d.kind ∧
      c.positions = d.positions ∧ c.durationS = d.durationS)
    ⟨fun h => ext h.1 h.2.1 h.2.2.1 h.2.2.2, fun h => h ▸ ⟨rfl, rfl, rfl, rfl⟩⟩

/-- Every float of the command is finite. The duration always is. -/
def Finite [CPython] (c : JointCommand Double) : Prop :=
  ∀ d ∈ c.positions, ∀ p ∈ d.items, p.2.isFinite = true

section validation

variable [CPython] [Pydantic]

/-- The durations of the contract.
Source: `models.py`, `JointCommand.duration_s` -/
abbrev Duration : Type := {d : Double // PyFloat.lit 0 < d ∧ ¬ PyFloat.lit 30 < d}

/-- Thirty as a double. -/
def thirty : Finite64 := Double.nat 30 (by norm_num)

omit [Pydantic] in
/-- Thirty is exact. -/
theorem lit_thirty : (PyFloat.lit 30 : Double) = .finite thirty :=
  Double.ofRat_natCast (n := 30) (by norm_num)

/-- The default duration, `2.0`.
Source: `models.py`, `JointCommand.duration_s` -/
def defaultDuration : Duration := ⟨PyFloat.lit 2, by
  rw [lit_thirty]
  simp only [lit_double, Double.ofRat_zero, Double.ofRat_two, Double.finite_lt_finite,
    Double.zero_val, Double.two_val]
  exact ⟨by norm_num, by norm_num [thirty, Double.nat]⟩⟩

/-- `float` with `gt=0, le=30`. The upper bound is checked first, and NaN fails it.
Source: `models.py`, `JointCommand.duration_s` -/
def checkDuration (v : Value) : Checked Duration :=
  match checkFloat v with
  | .error es => .error es
  | .ok d =>
      if hle : PyFloat.lit 30 < d ∨ d = .nan then fail (.lessThanEqual 30)
      else if hgt : PyFloat.lit 0 < d then .ok ⟨d, hgt, fun h => hle (Or.inl h)⟩
      else fail (.greaterThan 0)

/-- The validation of the members of an object: the fields first, and if none of them fails the
validator of the whole command.
Source: `models.py`, `JointCommand` -/
def validate (ms : List (String × Value)) : Checked (JointCommand Double) :=
  match field "schema_version" (some currentVersion) (checkInt 1) ms,
    field "kind" none (checkEnum CommandKind.value CommandKind.members) ms,
    field "positions" (some none) (checkOptional (checkDict checkFloat)) ms,
    field "duration_s" (some defaultDuration) checkDuration ms with
  | .ok version, .ok kind, .ok positions, .ok duration =>
      match h : positionsMatchKind kind positions with
      | none => .ok ⟨version, kind, positions, duration.val, duration.2.1, duration.2.2, h⟩
      | some text => fail (.valueError text)
  | version, kind, positions, duration =>
      .error (version.errors ++ kind.errors ++ positions.errors ++ duration.errors)

/-- The positions as JSON.
Source: `models.py`, `JointCommand.positions` -/
def dumpPositions : Option (Dict String Double) → Value
  | none => .null
  | some d => .obj (d.items.map fun p => (p.1, dumpFloat p.2))

/-- The members of the dumped object.
Source: `models.py`, `JointCommand` -/
def members (c : JointCommand Double) : List (String × Value) :=
  [("schema_version", dumpNat c.schemaVersion.val), ("kind", .str c.kind.value),
    ("positions", dumpPositions c.positions), ("duration_s", dumpFloat c.durationS)]

/-- `model_dump_json`.
Source: `models.py`, `JointCommand` -/
def modelDumpJson (c : JointCommand Double) : String := dumpJson c.members

/-- `JointCommand.model_validate_json`.
Source: `models.py`, `JointCommand` -/
def modelValidateJson (p : Payload) : Checked (JointCommand Double) := p.validateJson validate

end validation

end JointCommand

/-! ## Round trips -/

section roundTrip

/-- A field whose member survives its check. -/
theorem field_of_member {α : Type} {name : String} {default : Option α}
    {check : Value → Checked α} {ms : List (String × Value)} {v : Value}
    (h : member name ms = some v) : field name default check ms = (check v).under name := by
  unfold field
  rw [h]

variable [Pydantic]

/-- A sample that was dumped is checked by checking its value. -/
theorem JointTelemetry.modelValidateJson_modelDumpJson (t : JointTelemetry Double) :
    modelValidateJson (.ofText t.modelDumpJson) =
      match checkFloat (dumpFloat t.value) with
      | .ok x => .ok { t with value := x }
      | .error es => .error (es.map fun e => { e with loc := "value" :: e.loc }) := by
  have hdepth : (Value.obj t.members).depth ≤ maxDepth :=
    (Value.depth_obj_le (d := 0) (by simp [members])).trans (by decide)
  unfold modelValidateJson modelDumpJson
  rw [Payload.validateJson_ofText, validateJson_dumpJson _ hdepth]
  unfold validate
  rw [field_of_member (v := dumpNat t.schemaVersion.val) rfl,
    field_of_member (v := dumpFloat t.value) rfl,
    field_of_member (v := dumpNat t.stampNs) rfl, checkInt_dumpNat,
    checkInt_dumpNat (⟨t.stampNs, Nat.zero_le _⟩ : AtLeast 0)]
  cases checkFloat (dumpFloat t.value) with
  | ok x => rfl
  | error es => simp [Checked.under, Checked.errors]

/-- What is read back from a sample is that sample. -/
theorem JointTelemetry.eq_of_roundTrip {t t' : JointTelemetry Double}
    (h : modelValidateJson (.ofText t.modelDumpJson) = .ok t') :
    t' = t ∧ t.value.isFinite = true := by
  rw [t.modelValidateJson_modelDumpJson] at h
  split at h
  · rename_i x hx
    obtain ⟨rfl, hfinite⟩ := eq_of_checkFloat_dumpFloat hx
    exact ⟨(Except.ok.inj h).symm, hfinite⟩
  · cases h

/-- **Telemetry survives the wire exactly when its value is finite.** -/
theorem JointTelemetry.roundTrip_iff (t : JointTelemetry Double) :
    modelValidateJson (.ofText t.modelDumpJson) = .ok t ↔ t.value.isFinite = true := by
  constructor
  · exact fun h => (eq_of_roundTrip h).2
  · intro hfinite
    rw [t.modelValidateJson_modelDumpJson, (checkFloat_dumpFloat_iff t.value).mpr hfinite]

/-- The members of a sample of the first version, which did not say its version. -/
def JointTelemetry.legacyMembers (v : Value) (stampNs : ℕ) : List (String × Value) :=
  [("value", v), ("stamp_ns", dumpNat stampNs)]

/-- Without a version a sample is of version one. -/
theorem JointTelemetry.validate_legacy {v : Value} {x : Double} (h : checkFloat v = .ok x)
    (stampNs : ℕ) :
    modelValidateJson (.ofText (dumpJson (legacyMembers v stampNs))) = .ok (.new x stampNs) := by
  have hdepth : (Value.obj (legacyMembers v stampNs)).depth ≤ maxDepth :=
    (Value.depth_obj_le (d := 0) (by simp [legacyMembers, depth_of_checkFloat h])).trans (by decide)
  unfold modelValidateJson
  rw [Payload.validateJson_ofText, validateJson_dumpJson _ hdepth]
  unfold validate legacyMembers
  have hversion : field "schema_version" (some currentVersion)
      (checkInt 1) [("value", v), ("stamp_ns", dumpNat stampNs)] =
        .ok currentVersion := rfl
  rw [hversion, field_of_member (v := v) rfl, field_of_member (v := dumpNat stampNs) rfl,
    checkInt_dumpNat (⟨stampNs, Nat.zero_le _⟩ : AtLeast 0), h]
  rfl

/-- The items of a map of finite floats survive. -/
theorem checkItems_dumpFloat {items : List (String × Double)}
    (h : ∀ p ∈ items, p.2.isFinite = true) :
    checkItems checkFloat (items.map fun p => (p.1, dumpFloat p.2)) = .ok items := by
  induction items with
  | nil => rfl
  | cons p items ih =>
      obtain ⟨k, x⟩ := p
      have hx := (checkFloat_dumpFloat_iff x).mpr (h _ (List.mem_cons_self ..))
      have hrest := ih fun q hq => h q (List.mem_cons_of_mem _ hq)
      simp only [List.map_cons, checkItems, hx, Checked.under, hrest]

/-- One float that is not finite fails the map. -/
theorem checkItems_dumpFloat_error {items : List (String × Double)} {p : String × Double}
    (hp : p ∈ items) (h : p.2.isFinite = false) :
    ∃ es, checkItems checkFloat (items.map fun p => (p.1, dumpFloat p.2)) = .error es := by
  induction items with
  | nil => simp at hp
  | cons q items ih =>
      rw [List.map_cons, checkItems]
      rcases List.mem_cons.mp hp with rfl | hp
      · have hnull : dumpFloat p.2 = .null := by
          cases hv : p.2 with
          | finite x => simp [hv, Double.isFinite] at h
          | _ => rfl
        rw [hnull]
        cases checkItems checkFloat (items.map fun p => (p.1, dumpFloat p.2)) <;>
          exact ⟨_, rfl⟩
      · obtain ⟨es, hes⟩ := ih hp
        rw [hes]
        cases (checkFloat (dumpFloat q.2)).under q.1 <;> exact ⟨_, rfl⟩

variable [CPython]

omit [Pydantic] in
/-- A duration of the contract is finite. -/
theorem JointCommand.exists_finite_duration {d : Double} (hgt : PyFloat.lit 0 < d)
    (hle : ¬ PyFloat.lit 30 < d) : ∃ x, d = .finite x ∧ 0 < x.val ∧ x.val ≤ 30 := by
  rw [lit_double, Double.ofRat_zero] at hgt
  rw [lit_thirty] at hle
  obtain ⟨x, rfl⟩ := Double.exists_finite (Double.isFinite_of_lt_of_not_lt hgt hle)
  exact ⟨x, rfl, hgt, not_lt.mp hle⟩

/-- A duration of the contract survives its check. -/
theorem JointCommand.checkDuration_dumpFloat (d : Duration) :
    checkDuration (dumpFloat d.val) = .ok d := by
  obtain ⟨d, hgt, hle⟩ := d
  obtain ⟨x, rfl, -⟩ := exists_finite_duration hgt hle
  have hle' : ¬ (PyFloat.lit 30 < Double.finite x ∨ Double.finite x = .nan) := by
    rintro (hlt | hnan)
    · exact hle hlt
    · cases hnan
  unfold checkDuration
  rw [(checkFloat_dumpFloat_iff _).mpr rfl]
  simp only
  rw [dif_neg hle', dif_pos hgt]

/-- The positions survive exactly when they are finite. -/
theorem JointCommand.checkPositions_dumpPositions (c : JointCommand Double) :
    (c.Finite →
        checkOptional (checkDict checkFloat) (dumpPositions c.positions) = .ok c.positions) ∧
      (¬ c.Finite →
        ∃ es, checkOptional (checkDict checkFloat) (dumpPositions c.positions) = .error es) := by
  unfold JointCommand.Finite
  rcases c.positions with _ | d
  · exact ⟨fun _ => rfl, fun h => absurd (by simp) h⟩
  · constructor
    · intro h
      simp only [dumpPositions, checkOptional, checkDict]
      rw [checkItems_dumpFloat (h d rfl)]
      simp [Except.map, Dict.ofItems_items]
    · intro h
      simp only [Option.mem_def, Option.some.injEq, forall_eq'] at h
      push Not at h
      obtain ⟨p, hp, hx⟩ := h
      obtain ⟨es, hes⟩ := checkItems_dumpFloat_error hp (by simpa using hx)
      refine ⟨es, ?_⟩
      simp only [dumpPositions, checkOptional, checkDict]
      rw [hes]
      rfl

/-- A dumped command has at most one object in it. -/
theorem JointCommand.depth_members (c : JointCommand Double) : ∀ m ∈ c.members, m.2.depth ≤ 1 := by
  have hpositions : (dumpPositions c.positions).depth ≤ 1 := by
    rcases c.positions with _ | d
    · exact Nat.zero_le _
    · refine Value.depth_obj_le fun m hm => ?_
      obtain ⟨p, -, rfl⟩ := List.mem_map.mp hm
      exact (depth_dumpFloat p.2).le
  have hduration : (dumpFloat c.durationS).depth ≤ 1 := by simp
  intro m hm
  simp only [members, List.mem_cons, List.not_mem_nil, or_false] at hm
  rcases hm with rfl | rfl | rfl | rfl
  · exact Nat.zero_le _
  · exact Nat.zero_le _
  · exact hpositions
  · exact hduration

/-- **A command survives the wire exactly when its positions are finite**; else it is refused. -/
theorem JointCommand.roundTrip (c : JointCommand Double) :
    (c.Finite → modelValidateJson (.ofText c.modelDumpJson) = .ok c) ∧
      (¬ c.Finite → ∃ es, modelValidateJson (.ofText c.modelDumpJson) = .error es) := by
  have hdepth : (Value.obj c.members).depth ≤ maxDepth :=
    (Value.depth_obj_le c.depth_members).trans (by decide)
  unfold modelValidateJson modelDumpJson
  rw [Payload.validateJson_ofText, validateJson_dumpJson _ hdepth]
  unfold validate
  have hkind :
      checkEnum CommandKind.value CommandKind.members (.str c.kind.value) = .ok c.kind := by
    cases c.kind <;> rfl
  have hduration := checkDuration_dumpFloat ⟨c.durationS, c.duration_gt, c.duration_le⟩
  rw [field_of_member (v := dumpNat c.schemaVersion.val) rfl,
    field_of_member (v := .str c.kind.value) rfl,
    field_of_member (v := dumpPositions c.positions) rfl,
    field_of_member (v := dumpFloat c.durationS) rfl, checkInt_dumpNat, hkind, hduration]
  obtain ⟨hok, herror⟩ := checkPositions_dumpPositions c
  constructor
  · intro hfinite
    rw [hok hfinite]
    simp only [Checked.under]
    split
    · rfl
    · rename_i text h
      exact absurd h (by simp [c.positions_match])
  · intro hfinite
    obtain ⟨es, hes⟩ := herror hfinite
    rw [hes]
    exact ⟨_, rfl⟩

end roundTrip

end TwinServices.Contracts
