import TwinServices.Python.Json
import TwinServices.State.Consumer
import TwinServices.Viz.Stream

/-!
# The text of a frame

`toFrameText` writes a `TwinState` as `to_frame` does; the browser reads the text with
`JSON.parse`, which knows the standard only, and takes what it gets for a `TwinFrame`.

* `strict_frameValue_iff`: the text is one of the standard exactly when every float in the frame is
  finite.
* `ofValue_frameValue`: a frame of finite floats is read as itself.
* `frame_readable_iff`: a state is readable exactly when its pose, positions and velocities are
  finite. The stamp always is (`stampMs_finite`).
* `nan_not_readable`: a device that sends `NaN` makes a state that is not.
-/

set_option autoImplicit false

namespace TwinServices.Viz

open TwinServices.Python TwinServices.State TwinServices.Contracts Lib.Json Lib.Binary64

/-! ## The writer -/

section write

variable [FloatRepr]

/-- The dictionary of one joint.
Source: `stream.py`, `to_frame` -/
def jointValue (joint : JointFrame Double) : Value :=
  .obj [("name", .str joint.name), ("position_rad", dumpsFloat joint.positionRad),
    ("velocity_rms", dumpsFloat joint.velocityRms)]

/-- The dictionary of a frame.
Source: `stream.py`, `to_frame` -/
def frameValue (frame : TwinFrame Double) : Value :=
  .obj [("stamp_ms", dumpsFloat frame.stampMs),
    ("ee", .obj [
      ("pos", .arr [dumpsFloat frame.ee.pos.1, dumpsFloat frame.ee.pos.2.1,
        dumpsFloat frame.ee.pos.2.2]),
      ("quat", .arr [dumpsFloat frame.ee.quat.1, dumpsFloat frame.ee.quat.2.1,
        dumpsFloat frame.ee.quat.2.2.1, dumpsFloat frame.ee.quat.2.2.2])]),
    ("joints", .arr (frame.joints.map jointValue))]

/-- One TwinState as one JSON text frame for the browser. Source: `stream.py`, `to_frame` -/
def toFrameText [CPython] (state : TwinState Double) : Except PyError String := do
  let frame ← toFrame state
  return dumps (frameValue frame)

end write

/-! ## The reader -/

/-- `JSON.parse`, which knows the standard only.
Source: `useTwinState.ts`, `onmessage` -/
def jsonParse (text : String) : Option Value := parse false text.toList

/-- A property of a parsed object; of two members with one name the later is kept. -/
def property (k : String) : Value → Option Value
  | .obj members => (members.reverse.find? fun m => m.1 = k).map Prod.snd
  | _ => none

/-- A parsed `number`. -/
def readNumber : Value → Option Double
  | .num n => some (Double.ofRat n.value)
  | _ => none

/-- A parsed `string`. -/
def readString : Value → Option String
  | .str s => some s
  | _ => none

/-- A parsed array. -/
def readArray : Value → Option (List Value)
  | .arr xs => some xs
  | _ => none

/-- A parsed object as a `JointFrame`.
Source: `useTwinState.ts`, `JointFrame` -/
def JointFrame.ofValue (v : Value) : Option (JointFrame Double) := do
  let name ← (property "name" v).bind readString
  let positionRad ← (property "position_rad" v).bind readNumber
  let velocityRms ← (property "velocity_rms" v).bind readNumber
  return ⟨name, positionRad, velocityRms⟩

/-- A parsed array as the `[number, number, number]` of `ee.pos`.
Source: `useTwinState.ts`, `TwinFrame` -/
def readPos (v : Value) : Option (Double × Double × Double) := do
  match ← readArray v with
  | [x, y, z] => return (← readNumber x, ← readNumber y, ← readNumber z)
  | _ => none

/-- A parsed array as the `[number, number, number, number]` of `ee.quat`.
Source: `useTwinState.ts`, `TwinFrame` -/
def readQuat (v : Value) : Option (Double × Double × Double × Double) := do
  match ← readArray v with
  | [x, y, z, w] => return (← readNumber x, ← readNumber y, ← readNumber z, ← readNumber w)
  | _ => none

/-- A parsed object as a `TwinFrame`.
Source: `useTwinState.ts`, `TwinFrame` -/
def TwinFrame.ofValue (v : Value) : Option (TwinFrame Double) := do
  let stampMs ← (property "stamp_ms" v).bind readNumber
  let ee ← property "ee" v
  let pos ← (property "pos" ee).bind readPos
  let quat ← (property "quat" ee).bind readQuat
  let joints ← (property "joints" v).bind readArray
  return ⟨stampMs, ⟨pos, quat⟩, ← joints.mapM JointFrame.ofValue⟩

/-- A message of the socket as the frame to show. Source: `useTwinState.ts`, `onmessage` -/
def onMessage (data : String) : Option (TwinFrame Double) :=
  (jsonParse data).bind TwinFrame.ofValue

/-! ## From the writer to the reader -/

/-- Every float that the frame of one joint carries is finite. -/
def JointFrame.Finite (joint : JointFrame Double) : Prop :=
  joint.positionRad.isFinite = true ∧ joint.velocityRms.isFinite = true

/-- The pose is finite. -/
def EndEffector.Finite (ee : EndEffector Double) : Prop :=
  (ee.pos.1.isFinite = true ∧ ee.pos.2.1.isFinite = true ∧ ee.pos.2.2.isFinite = true) ∧
    ee.quat.1.isFinite = true ∧ ee.quat.2.1.isFinite = true ∧
      ee.quat.2.2.1.isFinite = true ∧ ee.quat.2.2.2.isFinite = true

/-- Every float that a frame carries is finite. -/
def TwinFrame.Finite (frame : TwinFrame Double) : Prop :=
  frame.stampMs.isFinite = true ∧ frame.ee.Finite ∧ ∀ joint ∈ frame.joints, joint.Finite

section codec

variable [FloatRepr]

/-- A joint is strict JSON when its floats are finite. -/
theorem strict_jointValue_iff (joint : JointFrame Double) :
    (jointValue joint).Strict ↔ joint.Finite := by
  simp [jointValue, JointFrame.Finite, Value.Strict, StrictMembers]

/-- What makes the text of a frame one of the standard. -/
theorem strict_frameValue_iff (frame : TwinFrame Double) :
    (frameValue frame).Strict ↔ frame.Finite := by
  have hjoints : StrictElems (frame.joints.map jointValue) ↔
      ∀ joint ∈ frame.joints, joint.Finite := by
    rw [strictElems_iff, List.forall_mem_map]
    exact forall₂_congr fun joint _ => strict_jointValue_iff joint
  simp [frameValue, TwinFrame.Finite, EndEffector.Finite, Value.Strict, StrictElems,
    StrictMembers, hjoints]

/-- A finite float is read as itself. -/
theorem readNumber_dumpsFloat {x : Double} (h : x.isFinite = true) :
    readNumber (dumpsFloat x) = some x := by
  obtain ⟨x, rfl⟩ : ∃ y, x = .finite y := by
    rcases x with x | s | -
    · exact ⟨x, rfl⟩
    · cases h
    · cases h
  exact congrArg some (FloatRepr.read_repr x)

/-- A joint of finite floats is read back.
Source: `useTwinState.ts`, `JointFrame` -/
theorem ofValue_jointValue {joint : JointFrame Double} (h : joint.Finite) :
    JointFrame.ofValue (jointValue joint) = some joint := by
  simp [JointFrame.ofValue, jointValue, property, readString, readNumber_dumpsFloat h.1,
    readNumber_dumpsFloat h.2]

/-- A position of finite floats is read back. -/
theorem readPos_dumps {x y z : Double}
    (h : x.isFinite = true ∧ y.isFinite = true ∧ z.isFinite = true) :
    readPos (.arr [dumpsFloat x, dumpsFloat y, dumpsFloat z]) = some (x, y, z) := by
  obtain ⟨hx, hy, hz⟩ := h
  simp [readPos, readArray, readNumber_dumpsFloat, hx, hy, hz]

/-- A quaternion of finite floats is read back. -/
theorem readQuat_dumps {x y z w : Double}
    (h : x.isFinite = true ∧ y.isFinite = true ∧ z.isFinite = true ∧ w.isFinite = true) :
    readQuat (.arr [dumpsFloat x, dumpsFloat y, dumpsFloat z, dumpsFloat w]) =
      some (x, y, z, w) := by
  obtain ⟨hx, hy, hz, hw⟩ := h
  simp [readQuat, readArray, readNumber_dumpsFloat, hx, hy, hz, hw]

/-- Joints of finite floats are read back in order. -/
theorem mapM_jointValue {joints : List (JointFrame Double)} (h : ∀ joint ∈ joints, joint.Finite) :
    (joints.map jointValue).mapM JointFrame.ofValue = some joints := by
  induction joints with
  | nil => rfl
  | cons joint joints ih =>
      rw [List.forall_mem_cons] at h
      rw [List.map_cons, List.mapM_cons, ofValue_jointValue h.1, ih h.2]
      rfl

/-- A frame of finite floats is read as itself. -/
theorem ofValue_frameValue {frame : TwinFrame Double} (h : frame.Finite) :
    TwinFrame.ofValue (frameValue frame) = some frame := by
  obtain ⟨hstamp, ⟨hpos, hquat⟩, hjoints⟩ := h
  simp [TwinFrame.ofValue, frameValue, property, readArray, readNumber_dumpsFloat hstamp,
    readPos_dumps hpos, readQuat_dumps hquat, mapM_jointValue hjoints]

/-- **What the browser reads.** A text that was written for a frame is read exactly when every
float in it is finite, and is then read as that frame. -/
theorem onMessage_dumps_iff {frame read : TwinFrame Double} :
    onMessage (dumps (frameValue frame)) = some read ↔ frame.Finite ∧ read = frame := by
  unfold onMessage jsonParse
  rw [Option.bind_eq_some_iff]
  constructor
  · rintro ⟨v, hparse, hread⟩
    obtain ⟨hstrict, rfl⟩ := parse_dumps_iff.mp hparse
    have hfinite := (strict_frameValue_iff frame).mp hstrict
    rw [ofValue_frameValue hfinite] at hread
    exact ⟨hfinite, (Option.some.inj hread).symm⟩
  · rintro ⟨hfinite, rfl⟩
    refine ⟨frameValue read, ?_, ofValue_frameValue hfinite⟩
    exact parse_dumps_iff.mpr ⟨(strict_frameValue_iff read).mpr hfinite, rfl⟩

end codec

/-! ## The frame of a state -/

/-- The browser reads the frame of a state, with the pose of the state and, in the same order, the
name, the position and the velocity of every joint. -/
def Readable [CPython] [FloatRepr] (state : TwinState Double) : Prop :=
  ∃ text frame, toFrameText state = .ok text ∧ onMessage text = some frame ∧
    frame.ee.pos = (state.endEffector.x, state.endEffector.y, state.endEffector.z) ∧
    frame.ee.quat = (state.endEffector.qx, state.endEffector.qy, state.endEffector.qz,
      state.endEffector.qw) ∧
    frame.joints = state.joints.map fun joint =>
      ⟨joint.name, joint.positionRad, joint.velocityRms⟩

/-- What a state says of the pose and of the positions and velocities of the joints is finite. -/
structure FiniteState (state : TwinState Double) : Prop where
  x : state.endEffector.x.isFinite = true
  y : state.endEffector.y.isFinite = true
  z : state.endEffector.z.isFinite = true
  qx : state.endEffector.qx.isFinite = true
  qy : state.endEffector.qy.isFinite = true
  qz : state.endEffector.qz.isFinite = true
  qw : state.endEffector.qw.isFinite = true
  positionRad : ∀ joint ∈ state.joints, joint.positionRad.isFinite = true
  velocityRms : ∀ joint ∈ state.joints, joint.velocityRms.isFinite = true

/-- The frame of a state is finite when the state and the stamp are. -/
theorem finite_ofState_iff {state : TwinState Double} {stampMs : Double}
    (h : stampMs.isFinite = true) :
    (TwinFrame.ofState state stampMs).Finite ↔ FiniteState state := by
  constructor
  · rintro ⟨-, ⟨⟨hx, hy, hz⟩, hqx, hqy, hqz, hqw⟩, hjoints⟩
    have hjoint (joint) (hmem : joint ∈ state.joints) := hjoints _ (List.mem_map_of_mem hmem)
    exact ⟨hx, hy, hz, hqx, hqy, hqz, hqw, fun joint hmem => (hjoint joint hmem).1,
      fun joint hmem => (hjoint joint hmem).2⟩
  · intro hstate
    refine ⟨h, ⟨⟨hstate.x, hstate.y, hstate.z⟩, hstate.qx, hstate.qy, hstate.qz, hstate.qw⟩, ?_⟩
    intro frame hframe
    obtain ⟨joint, hmem, rfl⟩ := List.mem_map.mp hframe
    exact ⟨hstate.positionRad joint hmem, hstate.velocityRms joint hmem⟩

section state

variable [CPython]

/-- The stamp of a message, in milliseconds, is finite: the field holds 64 bits. -/
theorem stampMs_finite {n : ℕ} (h : n < uint64Limit) :
    ∃ x : Finite64,
      PyFloat.truediv (PyFloat.lit n) (PyFloat.lit 1000000) = .ok (Double.finite x) := by
  have hn : |(n : ℚ)| ≤ 2 ^ 64 := by
    rw [Nat.abs_cast]
    exact_mod_cast h.le
  obtain ⟨y, hy, hle⟩ := Double.ofRat_of_abs_le (by norm_num) hn
  have hmillion : Double.ofRat 1000000 = .finite (Double.nat 1000000 (by norm_num)) := by
    exact_mod_cast Double.ofRat_natCast _
  have hval : (Double.nat 1000000 (by norm_num)).val = 1000000 := by
    exact Nat.cast_ofNat
  have hquot : |y.val / 1000000| ≤ 2 ^ 64 := by
    rw [abs_div, div_le_iff₀ (by norm_num)]
    calc |y.val| ≤ 2 ^ 64 := hle
      _ ≤ 2 ^ 64 * |1000000| := by norm_num
  obtain ⟨x, hx, -⟩ := Double.ofRat_of_abs_le (by norm_num) hquot
  refine ⟨x, truediv_double ?_⟩
  rw [lit_double, lit_double, hy, hmillion]
  simp only [Double.div]
  rw [hval, if_neg (by norm_num), hx]

/-- The frame of a message. -/
theorem toFrame_double {state : TwinState Double} (h : state.stampNs < uint64Limit) :
    ∃ stampMs : Double, stampMs.isFinite = true ∧
      toFrame state = .ok (.ofState state stampMs) := by
  obtain ⟨stampMs, hstamp⟩ := stampMs_finite h
  refine ⟨.finite stampMs, rfl, ?_⟩
  unfold toFrame
  rw [hstamp]
  rfl

/-- **Which states the browser reads**: those of finite floats. -/
theorem frame_readable_iff [FloatRepr] {state : TwinState Double}
    (h : state.stampNs < uint64Limit) : Readable state ↔ FiniteState state := by
  obtain ⟨stampMs, hstamp, hframe⟩ := toFrame_double h
  have htext : toFrameText state = .ok (dumps (frameValue (.ofState state stampMs))) := by
    unfold toFrameText
    rw [hframe]
    rfl
  rw [← finite_ofState_iff hstamp]
  unfold Readable
  rw [htext]
  constructor
  · rintro ⟨text, frame, htext, hread, -⟩
    obtain rfl := Except.ok.inj htext
    exact (onMessage_dumps_iff.mp hread).1
  · intro hfinite
    exact ⟨_, _, rfl, onMessage_dumps_iff.mpr ⟨hfinite, rfl⟩, rfl, rfl, rfl⟩

end state

/-- The position of a joint that a message was built from is in the message. -/
theorem positionRad_of_latest [CPython] {asset joint : String} {window : RollingWindow Double}
    {rmsWindowS x : Double} {state : TwinState Double}
    (h : buildState asset window rmsWindowS = .ok (some state)) (hjoint : joint ∈ window.joints)
    (hx : window.latest (joint, .position) = some x) :
    ∃ entry ∈ state.joints, entry.name = joint ∧ entry.positionRad = x := by
  obtain ⟨snapshots, pose, hsnap, -, -, rfl⟩ := buildState_some h
  rw [← RollingWindow.snapshot_names hsnap] at hjoint
  obtain ⟨snap, hmem, rfl⟩ := List.mem_map.mp hjoint
  obtain ⟨-, -, hlatest, -⟩ := RollingWindow.entryOf_of_mem hsnap hmem
  exact ⟨_, List.mem_map_of_mem hmem, rfl, Option.some.inj (hlatest.symm.trans hx)⟩

/-! ## A platform that writes whole floats as Python does -/

/-- A whole float below `10^16` with one zero behind the point, the others by their exact
decimal. -/
def wholeRepr (x : Finite64) : NumLit :=
  if x.val.den = 1 ∧ x.val.num.natAbs < 10000000000000000 then
    ⟨x.val.num < 0, x.val.num.natAbs, some ⟨digitVal '0', []⟩, none⟩
  else exactDecimal x

/-- The written digits have the value of the float. -/
theorem wholeRepr_value (x : Finite64) : (wholeRepr x).value = x.val := by
  unfold wholeRepr
  split_ifs with h
  · have hnum : ((x.val.num : ℤ) : ℚ) = x.val := Rat.coe_int_num_of_den_eq_one h.1
    have habs : ((x.val.num.natAbs : ℕ) : ℚ) = |x.val| := by
      rw [Nat.cast_natAbs, Int.cast_abs, hnum]
    have hzero : digitVal '0' = 0 := rfl
    simp only [NumLit.value, Digits.toNat, habs, hzero]
    rcases lt_or_ge x.val 0 with hneg | hpos
    · simp [hneg, abs_of_neg]
    · simp [not_lt.mpr hpos, abs_of_nonneg hpos]
  · exact exactDecimal_value x

/-- The platform of the examples, whose `repr` writes whole floats as Python does. -/
@[reducible] def FloatRepr.whole : FloatRepr where
  repr := wholeRepr
  read_repr x := by rw [wholeRepr_value, Double.ofRat_val]

section platform

attribute [local instance] CPython.series Pydantic.decimal FloatRepr.whole

/-- A device reports that the first joint is at `NaN`: the state that is published is not
readable. -/
theorem nan_not_readable :
    ∃ c state, Lib.Transition.Run State.step reportInit (reportTick (.nonFinite .nan) .nan) c ∧
      c.hub.latest = some state ∧ ¬ Readable state := by
  have hpan : checkFloat (.nonFinite .nan) = .ok .nan := rfl
  obtain ⟨c, hrun, hdirty, hwindow⟩ := run_report hpan
  have hfit : StampsFit (reportEvents (.nonFinite .nan) .nan) := fun topic payload hmem =>
    stampsFit_reportTick hpan topic payload (List.mem_append_left _ hmem)
  obtain ⟨t, state, hstep, hlatest, heq, -, -, hbuild⟩ := (consumerInv_of_run hrun).tick_publishes
    (stampNs_lt_of_run hrun hfit) hdirty (hwindow ▸ complete_report)
    (hwindow ▸ not_infinitePosition_report rfl)
  refine ⟨t, state, hrun.snoc hstep, hlatest, ?_⟩
  have hstamp : state.stampNs < uint64Limit := by
    obtain ⟨snapshots, pose, -, -, hlt, rfl⟩ := buildState_some hbuild
    exact hlt
  rw [frame_readable_iff hstamp]
  intro hfinite
  have hpanMem : "shoulder_pan_joint" ∈ t.window.joints := by
    rw [heq, hwindow]
    decide
  have hpanLatest : t.window.latest ("shoulder_pan_joint", .position) = some .nan := by
    rw [heq, hwindow]
    exact latest_report
  obtain ⟨entry, hmem, -, hposition⟩ := positionRad_of_latest hbuild hpanMem hpanLatest
  have hfalse := hfinite.positionRad entry hmem
  rw [hposition] at hfalse
  cases hfalse

/-- A state whose floats are whole. -/
def homeState : TwinState Double where
  schemaVersion := schemaVersion
  asset := "ur5"
  stampNs := 1500000000
  endEffector :=
    { x := .neg (.finite Double.one), y := .finite Double.zero, z := .finite Double.zero
      qx := .finite Double.zero, qy := .finite Double.zero, qz := .finite Double.zero
      qw := .finite Double.one }
  joints :=
    [{ name := "elbow_joint", positionRad := .finite Double.two, velocityRadS := .finite Double.zero
       effortNm := .finite Double.zero, velocityRms := .finite Double.one }]
  rmsWindowS := .finite Double.two

/-- The frame of the state at home is read back. -/
theorem frame_readable_iff_home : Readable homeState :=
  (frame_readable_iff (by decide)).mpr
    { x := rfl, y := rfl, z := rfl, qx := rfl, qy := rfl, qz := rfl, qw := rfl
      positionRad := by simp [homeState, Double.isFinite]
      velocityRms := by simp [homeState, Double.isFinite] }

end platform

end TwinServices.Viz
