import TwinServices.System.Marker
import TwinServices.System.Provenance

/-!
# From the robot to the browser

All parts together: the bridges, the broker, state-svc, viz-svc and the browsers of every asset,
in any interleaving. What a browser shows of an arm is what ROS reported to the bridge of that arm.

* `ShowsReported`: what a frame says of the reports.
* `browser_provenance`: every frame that any browser of any asset shows, over every run of the
  fleet.
-/

set_option autoImplicit false

namespace TwinServices.System

open TwinServices.Python TwinServices.Contracts TwinServices.Bridge TwinServices.Viz
open Lib.Transition Lib.Binary64 Lib.Network

section viewer

variable [CPython] [Pydantic] [FloatRepr] {rmsWindowS : Double} {windowNs : ℤ}
  {l : List (AssetName × DeploymentEvent)} {net : Net AssetName Deployment (String × Payload)}

omit [Pydantic] [FloatRepr] in
/-- A frame of the six joints, each at a position that was reported for it, with a stamp that was
reported, in milliseconds. -/
structure ShowsReported (msgs : List (JointStateMessage Double)) (frame : TwinFrame Double) :
    Prop where
  joints : frame.joints.map JointFrame.name = ur5JointNames
  reported : ∀ joint ∈ frame.joints, ∃ stampNs,
    Reports msgs joint.name .position joint.positionRad stampNs
  stamp : ∃ msg ∈ msgs,
    PyFloat.truediv (PyFloat.lit msg.stampNs) (PyFloat.lit 1000000) = .ok frame.stampMs

omit [Pydantic] [FloatRepr] in
/-- The frame of a state that was made of reports. -/
theorem showsReported_of_madeOf {msgs : List (JointStateMessage Double)}
    {state : State.TwinState Double} {frame : TwinFrame Double} (hmade : MadeOf msgs state)
    (hframe : toFrame state = .ok frame)
    (hjoints : frame.joints.map JointFrame.name = ur5JointNames) : ShowsReported msgs frame := by
  obtain ⟨heq, hstamp⟩ := toFrame_eq_ofState hframe
  have hentries : frame.joints = state.joints.map JointFrame.ofState :=
    congrArg TwinFrame.joints heq
  obtain ⟨⟨msg, hmsg, hsame⟩, hvalues⟩ := hmade
  refine ⟨hjoints, ?_, msg, hmsg, hsame ▸ hstamp⟩
  intro joint hjoint
  obtain ⟨entry, hentry, rfl⟩ := List.mem_map.mp (hentries ▸ hjoint)
  exact hvalues entry hentry .position

/-- **From the robot to the browser.** After every run of any number of deployments over one broker,
for every browser of every asset: each frame it has shown is of the six joints, each at a position
that ROS reported for it to the bridge of that same asset, with a reported stamp in milliseconds;
every float in it is finite; the stamps of its frames do not go back; and on an accurate platform
the marker of every frame is at the tip of the arm, up to `2⁻¹ ^ 36` metres in each coordinate.
Source: `main.py`, `publish_joint_states`; `consumer.py`, `Consumer._observe`; `grpc_server.py`,
`build_state`, `StateServicer`; `stream.py`, `to_frame`, `StateStream.frames`; `useTwinState.ts` -/
theorem browser_provenance
    (h : Run (fleet rmsWindowS windowNs).netStep (fleet rmsWindowS windowNs).netInit l net)
    (asset : AssetName) {tab : Tab} (htab : tab ∈ (net.site asset).view.tabs) :
    (∀ frame ∈ tab.shown, ShowsReported (reportedTo asset l) frame ∧ frame.Finite) ∧
    (tab.shown.Pairwise fun before after => ¬ after.stampMs < before.stampMs) ∧
    (CPython.Accurate → ∀ frame ∈ tab.shown, MarksTip frame) := by
  have hview := (partyRuns_of_run (Sites.run_site h asset)).view
  obtain ⟨states, hframes, hforward, hbuilt⟩ := exists_built_of_run hview htab
  refine ⟨?_, pairwise_stampMs hframes hforward, fun haccurate frame hframe =>
    marksTip_of_shown haccurate hview htab hframe⟩
  intro frame hframe
  obtain ⟨state, hstate, hto⟩ := exists_of_mem_forall₂ hframes hframe
  obtain ⟨before, s, -, hrun, hbuild⟩ := hbuilt state hstate
  refine ⟨showsReported_of_madeOf (madeOf_of_builtIn h (hbuilt state hstate)) hto ?_,
    finite_of_shown hview htab hframe⟩
  exact (showsArm_of_build hrun hbuild hto).joints

/-! ### An arm that is shown -/

end viewer

section platform

attribute [local instance] CPython.floored Pydantic.decimal FloatRepr.whole

/-- A browser shows the arm that the bridge published. -/
theorem exists_frame_shownTurning :
    ∃ l net tab frame, Run (fleet (PyFloat.lit 2) 2000000000).netStep
        (fleet (PyFloat.lit 2) 2000000000).netInit l net ∧
      tab ∈ (net.site ur5).view.tabs ∧ tab.shown = [frame] ∧
      ∀ joint ∈ frame.joints, joint.velocityRms = .finite Double.one := by
  obtain ⟨l, net, i, c, hub, state, text, hrun, hview, htext, hbuilt⟩ := run_shownTurning
  have hpipeline := (partyRuns_of_run (Sites.run_site hrun ur5)).view
  rw [hview] at hpipeline
  obtain ⟨frame, hto, hshown⟩ := exists_frame_shown hpipeline htext hbuilt
  exact ⟨l, net, _, frame, hrun, hview ▸ List.mem_singleton_self _, hshown,
    velocityRms_of_turning hbuilt hto⟩

/-- A browser of an arm that turns shows a frame of what was reported. -/
theorem browser_provenance_turning :
    ∃ l net tab frame, Run (fleet (PyFloat.lit 2) 2000000000).netStep
        (fleet (PyFloat.lit 2) 2000000000).netInit l net ∧
      tab ∈ (net.site ur5).view.tabs ∧ tab.shown = [frame] ∧
      ShowsReported (reportedTo ur5 l) frame ∧ MarksTip frame := by
  obtain ⟨l, net, tab, frame, hrun, htab, hshown, -⟩ := exists_frame_shownTurning
  have hmem : frame ∈ tab.shown := hshown ▸ List.mem_singleton_self frame
  obtain ⟨hreported, -, hmarks⟩ := browser_provenance hrun ur5 htab
  exact ⟨l, net, tab, frame, hrun, htab, hshown, (hreported frame hmem).1,
    hmarks accurate_floored frame hmem⟩

end platform

end TwinServices.System
