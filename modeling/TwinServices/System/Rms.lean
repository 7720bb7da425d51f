import TwinServices.State.Pruning
import TwinServices.State.RmsAccuracy
import TwinServices.System.Viewer

/-!
# The velocity RMS in the browser

The RMS of a joint that a browser shows was computed in doubles, of the velocities that the window
of state-svc held when the state was built. These were reported by ROS for that joint, and the
number that is shown is near their exact RMS.

* `averaged`, `ShowsRms`: the velocities, and what a frame says of them.
* `browser_rms_accurate`: every frame that any browser of any asset shows, over every run of the
  fleet.
-/

set_option autoImplicit false

namespace TwinServices.System

open TwinServices.Python TwinServices.Contracts TwinServices.Bridge TwinServices.Viz
open State.RollingWindow (velocitySamples sampleStamp lastCutoff)
open Lib.Transition Lib.Binary64 Lib.Network

/-- The velocities of a joint that are averaged after a list of observations, with their stamps:
those that no prune discarded. -/
def averaged (windowNs : ℤ) (joint : String)
    (obs : List (State.RollingWindow.Observation Double)) : List (ℕ × Double) :=
  (velocitySamples joint obs).dropWhile fun p =>
    sampleStamp p < lastCutoff windowNs ur5JointNames joint obs

/-- The RMS of each joint is near the exact one of the velocities that are averaged, and these are
finite and were reported for the joint. Up to `2 ^ 53` velocities a double can count them. -/
def ShowsRms (msgs : List (JointStateMessage Double)) (windowNs : ℤ)
    (obs : List (State.RollingWindow.Observation Double)) (frame : TwinFrame Double) : Prop :=
  ∀ joint ∈ frame.joints, (averaged windowNs joint.name obs).length ≤ 2 ^ 53 →
    ∃ samples : List (ℕ × Finite64),
      averaged windowNs joint.name obs = samples.map (fun p => (p.1, .finite p.2)) ∧
      (∀ p ∈ samples, Reports msgs joint.name .velocity (.finite p.2) p.1) ∧
      State.RmsNear joint.velocityRms (samples.map Prod.snd)

/-- What is averaged was observed. -/
theorem mem_of_averaged {windowNs : ℤ} {joint : String}
    {obs : List (State.RollingWindow.Observation Double)} {p : ℕ × Double}
    (h : p ∈ averaged windowNs joint obs) :
    ∃ o ∈ obs, o.joint = joint ∧ o.field = .velocity ∧ o.sample.stampNs = p.1 ∧
      o.sample.value = p.2 := by
  obtain ⟨o, ho, rfl⟩ := List.mem_map.mp ((List.dropWhile_sublist _).subset h)
  obtain ⟨ho, hvelocity⟩ := List.mem_filter.mp ho
  simp only [decide_eq_true_eq] at hvelocity
  exact ⟨o, ho, hvelocity.1, hvelocity.2, rfl, rfl⟩

/-- Stamped values that are finite. -/
theorem exists_finite_samples {ps : List (ℕ × Double)} {vs : List Finite64}
    (h : ps.map Prod.snd = vs.map .finite) :
    ∃ samples : List (ℕ × Finite64), ps = samples.map (fun p => (p.1, .finite p.2)) ∧
      samples.map Prod.snd = vs := by
  induction ps generalizing vs with
  | nil =>
      obtain rfl : vs = [] := List.map_eq_nil_iff.mp h.symm
      exact ⟨[], rfl, rfl⟩
  | cons p ps ih =>
      obtain ⟨v, vs, rfl, hv, hrest⟩ := List.map_eq_cons_iff.mp h.symm
      obtain ⟨samples, rfl, rfl⟩ := ih hrest.symm
      exact ⟨(p.1, v) :: samples, by simp [hv], rfl⟩

section rms

variable [CPython] [Pydantic] [FloatRepr] {rmsWindowS : Double} {windowNs : ℤ}
  {l : List (AssetName × DeploymentEvent)} {net : Net AssetName Deployment (String × Payload)}

omit [FloatRepr] in
/-- The history of a joint in state-svc. -/
theorem velocities_of_run {assetName joint : String} {sl : List State.ServiceEvent}
    {s : State.Service} (h : Run State.serviceStep (.init assetName rmsWindowS windowNs) sl s)
    (hmem : joint ∈ ur5JointNames) :
    s.consumer.window.velocities joint =
      averaged windowNs joint (sl.filterMap State.accepted) := by
  rw [(State.serviceInv_of_run h).window]
  exact State.RollingWindow.velocities_eq_filtered hmem _

omit [FloatRepr] in
/-- The frame of a state that was built of reports. -/
theorem showsRms_of_build (haccurate : CPython.AccurateSum) {assetName : String}
    {sl : List State.ServiceEvent} {s : State.Service}
    (h : Run State.serviceStep (.init assetName rmsWindowS windowNs) sl s)
    {state : State.TwinState Double} {frame : TwinFrame Double}
    (hbuild : State.buildState s.consumer.assetName s.consumer.window s.consumer.rmsWindowS =
      .ok (some state)) (hframe : toFrame state = .ok frame) (hfinite : frame.Finite)
    {msgs : List (JointStateMessage Double)}
    (hmsgs : ∀ o ∈ sl.filterMap State.accepted,
      Reports msgs o.joint o.field o.sample.value o.sample.stampNs) :
    ShowsRms msgs windowNs (sl.filterMap State.accepted) frame := by
  intro joint hjoint hmany
  obtain ⟨heq, -⟩ := toFrame_eq_ofState hframe
  have hjoints : frame.joints = state.joints.map JointFrame.ofState := congrArg TwinFrame.joints heq
  obtain ⟨entry, hentry, rfl⟩ := List.mem_map.mp (hjoints ▸ hjoint)
  obtain ⟨snapshots, pose, hsnap, -, -, rfl⟩ := State.buildState_some hbuild
  obtain ⟨snap, hmem, rfl⟩ := List.mem_map.mp hentry
  obtain ⟨hname, -, -, -, -, hrms⟩ := State.RollingWindow.entryOf_of_mem hsnap hmem
  rw [(State.serviceInv_of_run h).window, State.RollingWindow.observeAll_joints] at hname
  have hvelocities := velocities_of_run h hname
  obtain ⟨rms, hvalue⟩ := Double.exists_finite (hfinite.2.2 _ hjoint).2
  have hvalue : snap.velocityRms = .finite rms := hvalue
  rw [hvalue] at hrms
  obtain ⟨vs, hvs, hnear⟩ :=
    State.velocityRms_accurate haccurate (hvelocities ▸ hmany) hrms
  obtain ⟨samples, hsamples, rfl⟩ := exists_finite_samples (hvelocities ▸ hvs)
  refine ⟨samples, hsamples, fun p hp => ?_, ?_⟩
  · have hmem : (p.1, Double.finite p.2) ∈ averaged windowNs snap.name
        (sl.filterMap State.accepted) :=
      hsamples ▸ List.mem_map_of_mem hp
    obtain ⟨o, ho, hjoint, hfield, hstamp, hvalue⟩ := mem_of_averaged hmem
    have hreports := hmsgs o ho
    rwa [hjoint, hfield, hstamp, hvalue] at hreports
  · rwa [← hvalue] at hnear

/-- **The RMS in the browser is that of what the robot reported.** On a platform whose sums are
accurate, after every run of any number of deployments over one broker, for every browser of every
asset: for each frame that it has shown there is a point of the run such that the RMS of each joint
is near the exact RMS of the velocities that the window held there, all of which ROS reported for
that joint to the bridge of that asset: up to a rounding for each of them and three more, relative
to it, and `2⁻¹ ^ 535` radians per second. Source: `main.py`, `publish_joint_states`; `window.py`,
`RollingWindow.observe`, `_velocity_rms`; `grpc_server.py`, `build_state`; `stream.py`, `to_frame`;
`useTwinState.ts` -/
theorem browser_rms_accurate (haccurate : CPython.AccurateSum)
    (h : Run (fleet rmsWindowS windowNs).netStep (fleet rmsWindowS windowNs).netInit l net)
    (asset : AssetName) {tab : Tab} (htab : tab ∈ (net.site asset).view.tabs) :
    ∀ frame ∈ tab.shown, ∃ obs, obs <+: (stateEvents asset l).filterMap State.accepted ∧
      ShowsRms (reportedTo asset l) windowNs obs frame := by
  intro frame hframe
  have hview := (partyRuns_of_run (Sites.run_site h asset)).view
  obtain ⟨states, hframes, -, hbuilt⟩ := exists_built_of_run hview htab
  obtain ⟨state, hstate, hto⟩ := exists_of_mem_forall₂ hframes hframe
  obtain ⟨before, s, hbefore, hrun, hbuild⟩ := hbuilt state hstate
  have hbegins : before.filterMap State.accepted <+:
      (stateEvents asset l).filterMap State.accepted :=
    ((List.prefix_append ..).trans hbefore).filterMap _
  exact ⟨_, hbegins, showsRms_of_build haccurate hrun hbuild hto (finite_of_shown hview htab hframe)
    fun o ho => reports_of_accepted h asset o (hbegins.subset ho)⟩

end rms

/-! ### An arm that turns -/

section platform

attribute [local instance] CPython.floored Pydantic.decimal FloatRepr.whole

/-- The frame of an arm that turns at one rad/s shows an RMS of one for each joint. -/
theorem browser_rms_accurate_turning :
    ∃ l net tab frame obs, Run (fleet (PyFloat.lit 2) 2000000000).netStep
        (fleet (PyFloat.lit 2) 2000000000).netInit l net ∧
      tab ∈ (net.site ur5).view.tabs ∧ tab.shown = [frame] ∧
      (∀ joint ∈ frame.joints, joint.velocityRms = .finite Double.one) ∧
      obs <+: (stateEvents ur5 l).filterMap State.accepted ∧
      ShowsRms (reportedTo ur5 l) 2000000000 obs frame := by
  obtain ⟨l, net, tab, frame, hrun, htab, hshown, hone⟩ := exists_frame_shownTurning
  have hmem : frame ∈ tab.shown := hshown ▸ List.mem_singleton_self frame
  obtain ⟨obs, hbegins, hrms⟩ :=
    browser_rms_accurate accurateSum_floored hrun ur5 htab frame hmem
  exact ⟨l, net, tab, frame, obs, hrun, htab, hshown, hone, hbegins, hrms⟩

end platform

end TwinServices.System
