import TwinServices.State.Build

/-!
# Frames for the browser

`toFrame` picks from a `TwinState` what the viewer shows. The frame is the object that the browser
has after `JSON.parse`; its text is another matter.

* `toFrame_ok`: the frame of a state, in exact arithmetic.
-/

set_option autoImplicit false

namespace TwinServices.Viz

open TwinServices.Python TwinServices.State

/-- The member `ee` of a frame.
Source: `useTwinState.ts`, `TwinFrame` -/
structure EndEffector (F : Type) where
  pos : F × F × F
  quat : F × F × F × F

/-- Source: `useTwinState.ts`, `JointFrame` -/
structure JointFrame (F : Type) where
  name : String
  positionRad : F
  velocityRms : F

/-- Source: `useTwinState.ts`, `TwinFrame` -/
structure TwinFrame (F : Type) where
  stampMs : F
  ee : EndEffector F
  joints : List (JointFrame F)

section frame

variable {F : Type}

/-- The frame of one joint.
Source: `stream.py`, `to_frame` -/
def JointFrame.ofState (joint : JointState F) : JointFrame F :=
  ⟨joint.name, joint.positionRad, joint.velocityRms⟩

/-- The frame of a state with its stamp in milliseconds.
Source: `stream.py`, `to_frame` -/
def TwinFrame.ofState (state : TwinState F) (stampMs : F) : TwinFrame F where
  stampMs := stampMs
  ee :=
    { pos := (state.endEffector.x, state.endEffector.y, state.endEffector.z)
      quat := (state.endEffector.qx, state.endEffector.qy, state.endEffector.qz,
        state.endEffector.qw) }
  joints := state.joints.map JointFrame.ofState

variable [PyFloat F]

/-- One TwinState as one frame. Source: `stream.py`, `to_frame` -/
def toFrame (state : TwinState F) : Except PyError (TwinFrame F) := do
  let stampMs ← PyFloat.truediv (PyFloat.lit state.stampNs) (PyFloat.lit 1000000)
  return .ofState state stampMs

end frame

/-- The frame of a state, in exact arithmetic. -/
theorem toFrame_ok (state : TwinState ℝ) :
    toFrame state = .ok (.ofState state (state.stampNs / 1000000)) := by
  unfold toFrame
  rw [truediv_real (by norm_num)]
  simp

end TwinServices.Viz
