import TwinServices.System.Shown

/-!
# The marker in the browser

A frame carries the angles of the joints, from which the browser draws the arm, and the pose of the
end effector, where it draws the marker. The pose was computed of the same angles; on an accurate
platform the marker is at the tip of the arm that is drawn.

* `MarksTip`: what a frame says of the tip.
* `marker_at_tip`: every frame that any browser shows, over every run.
-/

set_option autoImplicit false

namespace TwinServices.System

open TwinServices.Python TwinServices.Contracts TwinServices.Viz
open Lib.Transition Lib.Binary64

/-- The pose of a frame. -/
def markerPose (ee : EndEffector Double) : State.Pose Double :=
  ⟨ee.pos.1, ee.pos.2.1, ee.pos.2.2, ee.quat.1, ee.quat.2.1, ee.quat.2.2.1, ee.quat.2.2.2⟩

/-- The frame shows finite angles of the six joints, and the marker where exact kinematics takes
them, up to the bounds of `PoseNear` in each coordinate, within the reach of the arm. -/
def MarksTip (frame : TwinFrame Double) : Prop :=
  frame.joints.map JointFrame.name = ur5JointNames ∧
    ∃ (angles : List Finite64) (exact : State.Pose ℝ),
      frame.joints.map JointFrame.positionRad = angles.map .finite ∧
      State.forward (angles.map fun theta => (theta.val : ℝ)) = .ok exact ∧
      State.PoseNear (markerPose frame.ee) exact ∧
      State.radius (exact.x, exact.y, exact.z) ≤ 1.192509

section marker

variable [CPython] [Pydantic] [FloatRepr]
variable {asset assetName : String} {rmsWindowS : Double} {windowNs : ℤ} {l : List PipelineEvent}
  {p : Pipeline}

omit [Pydantic] [FloatRepr] in
/-- A finite frame that shows the arm marks its tip. -/
theorem marksTip_of_showsArm (haccurate : CPython.Accurate)
    {obs : List (State.RollingWindow.Observation Double)} {frame : TwinFrame Double}
    (hshows : ShowsArm obs frame) (hfinite : frame.Finite) : MarksTip frame := by
  obtain ⟨t1, t2, t3, t4, t5, t6, hangles⟩ :=
    exists_angles hshows.joints fun joint hjoint => (hfinite.2.2 joint hjoint).1
  obtain ⟨pose, hpose, hee⟩ := hshows.pose
  obtain ⟨pose', exact, hpose', hexact, hnear⟩ := State.forward_near haccurate t1 t2 t3 t4 t5 t6
  rw [hangles] at hpose
  obtain rfl := Except.ok.inj (hpose.symm.trans hpose')
  refine ⟨hshows.joints, _, exact, hangles, hexact, ?_, State.forward_within_reach rfl hexact⟩
  rw [hee]
  exact hnear

/-- Every frame that a browser has shown marks the tip. -/
theorem marksTip_of_shown (haccurate : CPython.Accurate)
    (h : Run (pipelineStep asset) (.init assetName rmsWindowS windowNs) l p) {tab : Tab}
    (htab : tab ∈ p.tabs) {frame : TwinFrame Double} (hframe : frame ∈ tab.shown) :
    MarksTip frame := by
  obtain ⟨states, hframes, -, hbuilt⟩ := exists_built_of_run h htab
  obtain ⟨state, hstate, hto⟩ := exists_of_mem_forall₂ hframes hframe
  obtain ⟨before, s, -, hrun, hbuild⟩ := hbuilt state hstate
  exact marksTip_of_showsArm haccurate (showsArm_of_build hrun hbuild hto)
    (finite_of_shown h htab hframe)

/-- **The marker is at the tip of the arm.** On an accurate platform, after every run of state-svc
and viz-svc with any number of browsers, every frame that a browser has shown has finite angles of
the six joints, and its marker is where exact forward kinematics takes just these angles: up to
`2⁻¹ ^ 36` metres in each coordinate and `2⁻¹ ^ 32` in each component of the quaternion, and within
the reach of the arm.
Source: `kinematics.py`, `forward`; `grpc_server.py`, `build_state`; `stream.py`, `to_frame`;
`useTwinState.ts` -/
theorem marker_at_tip (haccurate : CPython.Accurate)
    (h : Run (pipelineStep asset) (.init assetName rmsWindowS windowNs) l p) {tab : Tab}
    (htab : tab ∈ p.tabs) : ∀ frame ∈ tab.shown, MarksTip frame :=
  fun _ hframe => marksTip_of_shown haccurate h htab hframe

end marker

/-! ### An arm that turns -/

section platform

attribute [local instance] CPython.floored Pydantic.decimal FloatRepr.whole

/-- The marker of a frame shown for an arm that turns is at the tip. -/
theorem marker_at_tip_turning :
    ∃ l p tab frame, Run (pipelineStep "ur5") (.init "ur5" (PyFloat.lit 2) 2000000000) l p ∧
      tab ∈ p.tabs ∧ tab.shown = [frame] ∧ MarksTip frame := by
  obtain ⟨l, i, c, hub, state, text, hrun, -, -, htext, hbuilt⟩ :=
    run_shownPipeline
  have hmem : ⟨some 0, [state], [text], [text]⟩ ∈ (shownPipeline c hub i state text).tabs :=
    List.mem_singleton_self _
  obtain ⟨frame, -, hshown⟩ := exists_frame_shown hrun htext hbuilt
  have hframe : frame ∈ Tab.shown ⟨some 0, [state], [text], [text]⟩ := by
    rw [hshown]
    exact List.mem_singleton_self frame
  exact ⟨l, _, _, frame, hrun, hmem, hshown,
    marker_at_tip accurate_floored hrun hmem frame hframe⟩

end platform

end TwinServices.System
