import TwinServices.State.Kinematics
import TwinServices.State.Window

/-!
# From the window to a TwinState

`buildState` turns a complete window into the message that is published: the snapshot, the pose
that forward kinematics computes from its positions, and the newest stamp.

* `buildState_none`, `buildState_ok`, `buildState_some`: what it builds, and from what.
* `buildState_double_iff`: over doubles it returns exactly unless the window is complete and either
  some position in it is infinite or the newest stamp does not fit 64 bits.
-/

set_option autoImplicit false

namespace TwinServices.State

open TwinServices.Python TwinServices.Contracts Lib.Binary64

/-! ## The message -/

/-- Source: `state.proto`, `JointState` -/
structure JointState (F : Type) where
  name : String
  positionRad : F
  velocityRadS : F
  effortNm : F
  velocityRms : F
deriving DecidableEq

/-- Source: `state.proto`, `TwinState` -/
structure TwinState (F : Type) where
  schemaVersion : ℕ
  asset : String
  stampNs : ℕ
  endEffector : Pose F
  joints : List (JointState F)
  rmsWindowS : F
deriving DecidableEq

/-- The first number that a `uint64` field does not hold.
Source: `state.proto`, `TwinState.stamp_ns` -/
def uint64Limit : ℕ := 2 ^ 64

section build

variable {F : Type}

/-- The message of one entry of a snapshot.
Source: `grpc_server.py`, `build_state` -/
def JointState.ofSnapshot (snap : JointSnapshot F) : JointState F :=
  ⟨snap.name, snap.positionRad, snap.velocityRadS, snap.effortNm, snap.velocityRms⟩

variable [PyFloat F]

/-- The window as a message, or none while it is not complete. The field `stamp_ns` is a `uint64`,
and assigning what does not fit raises. Source: `grpc_server.py`, `build_state` -/
def buildState (asset : String) (window : RollingWindow F) (rmsWindowS : F) :
    Except PyError (Option (TwinState F)) := do
  let snapshots ← window.snapshot
  match snapshots with
  | none => return none
  | some snapshots =>
      let pose ← forward (snapshots.map JointSnapshot.positionRad)
      if window.stampNs < uint64Limit then
        return some ⟨schemaVersion, asset, window.stampNs, pose,
          snapshots.map JointState.ofSnapshot, rmsWindowS⟩
      else throw (.valueError ("Value out of range: " ++ toString window.stampNs))

/-- Without a snapshot there is no state. -/
theorem buildState_none {asset : String} {window : RollingWindow F} {rmsWindowS : F}
    (h : window.snapshot = .ok none) : buildState asset window rmsWindowS = .ok none := by
  unfold buildState
  rw [h]
  rfl

/-- With a snapshot, a pose and a stamp in range the state is put together of them. -/
theorem buildState_ok {asset : String} {window : RollingWindow F} {rmsWindowS : F}
    {snapshots : List (JointSnapshot F)} {pose : Pose F}
    (hsnap : window.snapshot = .ok (some snapshots))
    (hpose : forward (snapshots.map JointSnapshot.positionRad) = .ok pose)
    (hstamp : window.stampNs < uint64Limit) :
    buildState asset window rmsWindowS = .ok (some ⟨schemaVersion, asset, window.stampNs, pose,
      snapshots.map JointState.ofSnapshot, rmsWindowS⟩) :=
  bind_eq_ok_iff.mpr ⟨_, hsnap, bind_eq_ok_iff.mpr ⟨pose, hpose, if_pos hstamp⟩⟩

/-- What is built, and from what. -/
theorem buildState_cases {asset : String} {window : RollingWindow F} {rmsWindowS : F}
    {state : Option (TwinState F)} (h : buildState asset window rmsWindowS = .ok state) :
    (window.snapshot = .ok none ∧ state = none) ∨
    (∃ snapshots pose, window.snapshot = .ok (some snapshots) ∧
      forward (snapshots.map JointSnapshot.positionRad) = .ok pose ∧
      window.stampNs < uint64Limit ∧
      state = some ⟨schemaVersion, asset, window.stampNs, pose,
        snapshots.map JointState.ofSnapshot, rmsWindowS⟩) := by
  unfold buildState at h
  obtain ⟨snapshots, hsnap, h⟩ := bind_eq_ok_iff.mp h
  rcases snapshots with _ | snapshots
  · exact Or.inl ⟨hsnap, (Except.ok.inj h).symm⟩
  · obtain ⟨pose, hpose, h⟩ := bind_eq_ok_iff.mp h
    split_ifs at h with hstamp
    · exact Or.inr ⟨snapshots, pose, hsnap, hpose, hstamp, (Except.ok.inj h).symm⟩

/-- What a message that was built says, and where it comes from. -/
theorem buildState_some {asset : String} {window : RollingWindow F} {rmsWindowS : F}
    {state : TwinState F} (h : buildState asset window rmsWindowS = .ok (some state)) :
    ∃ snapshots pose, window.snapshot = .ok (some snapshots) ∧
      forward (snapshots.map JointSnapshot.positionRad) = .ok pose ∧
      window.stampNs < uint64Limit ∧
      state = ⟨schemaVersion, asset, window.stampNs, pose, snapshots.map JointState.ofSnapshot,
        rmsWindowS⟩ := by
  rcases buildState_cases h with ⟨-, hnone⟩ | ⟨snapshots, pose, hsnap, hpose, hstamp, hsome⟩
  · cases hnone
  · exact ⟨snapshots, pose, hsnap, hpose, hstamp, Option.some.inj hsome⟩

/-- A state has the stamp of its window. -/
theorem stampNs_of_build {asset : String} {window : RollingWindow F} {rmsWindowS : F}
    {state : TwinState F} (h : buildState asset window rmsWindowS = .ok (some state)) :
    state.stampNs = window.stampNs := by
  obtain ⟨snapshots, pose, -, -, -, rfl⟩ := buildState_some h
  rfl

end build

/-! ## Over doubles -/

section Double

variable [CPython] {asset : String} {w : RollingWindow Double} {rmsWindowS : Double}

/-- No latest position of a joint of the window is infinite. -/
def FinitePositions (w : RollingWindow Double) : Prop :=
  ∀ joint ∈ w.joints, ∀ x, w.latest (joint, .position) = some x → x.isInf = false

/-- The positions of a snapshot are the latest positions of the window. -/
theorem finitePositions_iff {snaps : List (JointSnapshot Double)}
    (h : w.snapshot = .ok (some snaps)) :
    FinitePositions w ↔ ∀ theta ∈ snaps.map JointSnapshot.positionRad, theta.isInf = false := by
  rw [List.forall_mem_map]
  have hall := RollingWindow.snapshot_some h
  clear h
  unfold FinitePositions
  generalize w.joints = joints at hall ⊢
  induction hall with
  | nil => simp
  | cons hentry _ ih =>
      obtain ⟨-, hp, -⟩ := hentry
      rw [List.forall_mem_cons, List.forall_mem_cons]
      refine and_congr ?_ ih
      rw [hp]
      simp

/-- A window that is not complete makes no state. -/
theorem buildState_of_not_complete (h : ¬ w.Complete) :
    buildState asset w rmsWindowS = .ok none := by
  obtain ⟨snaps, hsnaps, hiff⟩ := RollingWindow.snapshot_of_rms w.velocityRms_double
  rcases snaps with _ | snaps
  · exact buildState_none hsnaps
  · exact absurd (hiff.mp rfl) h

/-- What is built of a window tells whether it is complete. -/
theorem isSome_buildState_iff {state : Option (TwinState Double)}
    (h : buildState asset w rmsWindowS = .ok state) : state.isSome = true ↔ w.Complete := by
  obtain ⟨snaps, hsnaps, hiff⟩ := RollingWindow.snapshot_of_rms w.velocityRms_double
  rw [← hiff]
  rcases buildState_cases h with ⟨hnone, rfl⟩ | ⟨snaps', -, hsome, -, -, rfl⟩
  · obtain rfl : none = snaps := Except.ok.inj (hnone.symm.trans hsnaps)
    rfl
  · obtain rfl : some snaps' = snaps := Except.ok.inj (hsome.symm.trans hsnaps)
    rfl

/-- Over a complete window of six joints a message is built where no position is infinite and the
stamp fits, and an exception is raised else. -/
theorem buildState_of_complete (h : w.Complete) (hjoints : w.joints.length = 6) :
    (FinitePositions w ∧ w.stampNs < uint64Limit →
        ∃ state, buildState asset w rmsWindowS = .ok (some state)) ∧
      (¬ (FinitePositions w ∧ w.stampNs < uint64Limit) →
        ∃ e, buildState asset w rmsWindowS = .error e) := by
  obtain ⟨snaps, hsnaps, hiff⟩ := RollingWindow.snapshot_of_rms w.velocityRms_double
  rcases snaps with _ | snaps
  · exact absurd (hiff.mpr h) (by simp)
  · have hlen : (snaps.map JointSnapshot.positionRad).length = 6 := by
      rw [List.length_map, ← (RollingWindow.snapshot_some hsnaps).length_eq, hjoints]
    rw [finitePositions_iff hsnaps, ← forward_double_iff hlen]
    unfold buildState
    rw [hsnaps]
    simp only [ok_bind]
    rcases forward (snaps.map JointSnapshot.positionRad) with e | pose
    · simp
    · by_cases hstamp : w.stampNs < uint64Limit
      · simp [hstamp]
      · simp [hstamp, throw, throwThe, MonadExceptOf.throw]

/-- **When `buildState` returns**: unless the window is complete and some position in it is
infinite or its stamp does not fit. -/
theorem buildState_double_iff (hjoints : w.joints.length = 6) :
    (∃ state, buildState asset w rmsWindowS = .ok state) ↔
      (w.Complete → FinitePositions w ∧ w.stampNs < uint64Limit) := by
  by_cases h : w.Complete
  · have hbuild := @buildState_of_complete _ asset w rmsWindowS h hjoints
    by_cases hfinite : FinitePositions w ∧ w.stampNs < uint64Limit
    · obtain ⟨state, hstate⟩ := hbuild.1 hfinite
      exact ⟨fun _ _ => hfinite, fun _ => ⟨_, hstate⟩⟩
    · obtain ⟨e, he⟩ := hbuild.2 hfinite
      refine ⟨fun ⟨state, hstate⟩ => ?_, fun himp => absurd (himp h) hfinite⟩
      rw [he] at hstate
      cases hstate
  · exact ⟨fun _ hc => absurd hc h, fun _ => ⟨none, buildState_of_not_complete h⟩⟩

end Double

end TwinServices.State
