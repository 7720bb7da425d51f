import TwinServices.State.ArrivalOrder
import TwinServices.State.Build

/-!
# Snapshots of runs

What `snapshot` shows after a run of `observe` calls, in terms of the calls alone.

* `complete_observeAll_iff`: the window is complete once every field of every joint was observed.
* `shows_of_snapshot`: a snapshot shows the value observed last for every channel.
* `snapshots_of_runs`: the two together, the calls for other joints than those of the window, which
  leave no trace in it, and the angles that reach forward kinematics.
-/

set_option autoImplicit false

namespace TwinServices.State.RollingWindow

open TwinServices.Python TwinServices.Contracts Lib.Binary64

section runs

variable {F : Type}

/-- Every field of every joint was observed at least once. -/
def Observed (joints : List String) (obs : List (Observation F)) : Prop :=
  ∀ joint ∈ joints, ∀ field, ∃ o ∈ obs, o.joint = joint ∧ o.field = field

/-- What was observed stays observed. -/
theorem Observed.append {joints : List String} {obs : List (Observation F)}
    (h : Observed joints obs) (more : List (Observation F)) : Observed joints (obs ++ more) := by
  intro joint hjoint field
  obtain ⟨o, ho, hchannel⟩ := h joint hjoint field
  exact ⟨o, List.mem_append_left _ ho, hchannel⟩

/-- The value observed last for a channel. -/
def lastObserved (channel : String × JointField) (obs : List (Observation F)) : Option F :=
  (ofChannel channel obs).getLast?.map fun o => o.sample.value

/-- **When a window is complete**: once every field of every joint was observed. -/
theorem complete_observeAll_iff {windowNs : ℤ} {joints : List String}
    {obs : List (Observation F)} :
    ((new windowNs joints).observeAll obs).Complete ↔ Observed joints obs := by
  have hjoints : ((new windowNs joints).observeAll obs).joints = joints :=
    observeAll_joints (new windowNs joints) obs
  unfold Complete
  rw [hjoints]
  constructor
  · intro h joint hjoint field
    obtain ⟨x, hx⟩ := Option.isSome_iff_exists.mp (h joint hjoint field)
    obtain ⟨o, ho, hj, hf, -⟩ :=
      exists_observation_of_latest (w := new windowNs joints) hjoint rfl hx
    exact ⟨o, ho, hj, hf⟩
  · intro h joint hjoint field
    obtain ⟨o, ho, rfl, rfl⟩ := h joint hjoint field
    exact isSome_latest_observeAll (w := new windowNs joints) ho hjoint

/-- What a snapshot shows of a run: the joints in their order, each with the value observed last for
every field. -/
structure Shows (joints : List String) (obs : List (Observation F))
    (snaps : List (JointSnapshot F)) : Prop where
  names : snaps.map JointSnapshot.name = joints
  values : ∀ snap ∈ snaps, ∀ field, lastObserved (snap.name, field) obs = some (snap.measured field)

/-- The positions of a snapshot, joint by joint. -/
theorem Shows.positions {joints : List String} {obs : List (Observation F)}
    {snaps : List (JointSnapshot F)} (h : Shows joints obs snaps) :
    List.Forall₂ (fun joint angle => lastObserved (joint, .position) obs = some angle) joints
      (snaps.map JointSnapshot.positionRad) := by
  rw [← h.names, List.forall₂_map_left_iff, List.forall₂_map_right_iff, List.forall₂_same]
  exact fun snap hsnap => h.values snap hsnap .position

variable [PyFloat F]

/-- A snapshot shows the last values of the observations. -/
theorem shows_of_snapshot {windowNs : ℤ} {joints : List String} {obs : List (Observation F)}
    {snaps : List (JointSnapshot F)}
    (h : ((new windowNs joints).observeAll obs).snapshot = .ok (some snaps)) :
    Shows joints obs snaps := by
  have hjoints : ((new windowNs joints).observeAll obs).joints = joints :=
    observeAll_joints (new windowNs joints) obs
  refine ⟨(snapshot_names h).trans hjoints, fun snap hsnap field => ?_⟩
  obtain ⟨hmem, hentry⟩ := entryOf_of_mem h hsnap
  rw [hjoints] at hmem
  rw [lastObserved, ← latest_new hmem]
  exact hentry.latest field

end runs

section Double

variable [CPython]

/-- The snapshot of a run of calls over doubles. -/
theorem snapshot_of_run (windowNs : ℤ) (joints : List String) (obs : List (Observation Double)) :
    ∃ snaps, ((new windowNs joints).observeAll obs).snapshot = .ok snaps ∧
      (snaps ≠ none ↔ Observed joints obs) := by
  obtain ⟨snaps, hsnaps, hiff⟩ :=
    snapshot_of_rms ((new windowNs joints).observeAll obs).velocityRms_double
  refine ⟨snaps, hsnaps, ?_⟩
  rw [← complete_observeAll_iff, ← hiff, Option.isSome_iff_ne_none]

/-- **Snapshots are complete, ordered and immune to foreign joints.** After every run of `observe`
calls over a window of any joints: `snapshot` is not none exactly if every field of every joint was
observed, and so stays not none; it then shows the joints in their order with the values observed
last; and the window, with its snapshot, its histories and its stamp, is what the calls for its own
joints alone make it. Over the joints of the arm `build_state` passes the last position of each of
the six to forward kinematics, in their order. Source: `window.py`, `RollingWindow.observe`,
`RollingWindow.snapshot`; `grpc_server.py`, `build_state` -/
theorem snapshots_of_runs (windowNs : ℤ) (joints : List String)
    (obs : List (Observation Double)) :
    (∃ snaps, ((new windowNs joints).observeAll obs).snapshot = .ok snaps ∧
      (snaps ≠ none ↔ Observed joints obs)) ∧
    (∀ snaps, ((new windowNs joints).observeAll obs).snapshot = .ok (some snaps) →
      Shows joints obs snaps ∧ ∀ more, ∃ snaps',
        ((new windowNs joints).observeAll (obs ++ more)).snapshot = .ok (some snaps')) ∧
    (new windowNs joints : RollingWindow Double).observeAll
        (obs.filter fun o => o.joint ∈ joints) = (new windowNs joints).observeAll obs ∧
    ∀ asset rmsWindowS snaps,
      ((new windowNs ur5JointNames).observeAll obs).snapshot = .ok (some snaps) →
      ∃ angles : List Double, angles.length = 6 ∧
        List.Forall₂ (fun joint angle => lastObserved (joint, .position) obs = some angle)
          ur5JointNames angles ∧
        (∀ e, forward angles = .error e →
          buildState asset ((new windowNs ur5JointNames).observeAll obs) rmsWindowS = .error e) ∧
        ∀ state, buildState asset ((new windowNs ur5JointNames).observeAll obs) rmsWindowS =
          .ok (some state) → forward angles = .ok state.endEffector := by
  refine ⟨snapshot_of_run windowNs joints obs, fun snaps hsnaps => ?_,
    observeAll_filter (new windowNs joints) obs, fun asset rmsWindowS snaps hsnaps => ?_⟩
  · refine ⟨shows_of_snapshot hsnaps, fun more => ?_⟩
    have hobserved : Observed joints obs := by
      obtain ⟨snaps', hsnaps', hiff⟩ := snapshot_of_run windowNs joints obs
      apply hiff.mp
      rw [← Except.ok.inj (hsnaps.symm.trans hsnaps')]
      exact Option.some_ne_none snaps
    obtain ⟨snaps', hsnaps', hiff⟩ := snapshot_of_run windowNs joints (obs ++ more)
    obtain ⟨snaps', rfl⟩ := Option.ne_none_iff_exists'.mp (hiff.mpr (hobserved.append more))
    exact ⟨snaps', hsnaps'⟩
  · have hpositions := (shows_of_snapshot hsnaps).positions
    refine ⟨_, hpositions.length_eq.symm, hpositions, fun e he => ?_, fun state hstate => ?_⟩
    · unfold buildState
      rw [hsnaps, ok_bind]
      simp only [he, error_bind]
    · obtain ⟨snaps', pose, hsnaps', hpose, -, rfl⟩ := buildState_some hstate
      obtain rfl : snaps = snaps' := Option.some.inj (Except.ok.inj (hsnaps.symm.trans hsnaps'))
      exact hpose

end Double

end TwinServices.State.RollingWindow
