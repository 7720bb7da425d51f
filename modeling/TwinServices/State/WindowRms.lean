import TwinServices.State.History

/-!
# What the velocity RMS averages

For stamps in order, the history of a joint is the window that was current when its own last
velocity arrived (`velocities_observeAll`): later telemetry of other channels moves the newest
stamp, and the history stays as it is. The RMS is in exact arithmetic.

* `velocityRms_sq_iff`: the RMS of a snapshot is the one over the rolling window exactly when no
  velocity has left the window since the joint's last one, or those that left have the mean square
  of those that stayed.
* `quietElbow_rms`: a joint whose velocity went quiet reports an RMS over samples that the window
  has long passed.
-/

set_option autoImplicit false

namespace TwinServices.State

open TwinServices.Python TwinServices.Contracts Lib.TimeWindow

namespace RollingWindow

section runs

variable {F : Type}

/-- The stamp of the last velocity sample of a joint; zero before the first. -/
def lastVelocityStamp (joint : String) (obs : List (Observation F)) : ℕ :=
  ((velocitySamples joint obs).getLast?.map Prod.fst).getD 0

/-- The stamps are nondecreasing in the order of arrival. -/
def InOrder (obs : List (Observation F)) : Prop := Ordered (fun o => o.sample.stampNs) obs

/-- In an ordered run the samples of each joint are ordered. -/
theorem InOrder.velocitySamples {obs : List (Observation F)} (h : InOrder obs) (joint : String) :
    Ordered sampleStamp (velocitySamples joint obs) := by
  refine (List.pairwise_map.mpr ?_)
  apply (h.sublist List.filter_sublist).imp
  intro o o' hle
  exact Int.ofNat_le.mpr hle

/-- A joint's last velocity is not newer than the window. -/
theorem lastVelocityStamp_le_stampNs {windowNs : ℤ} {joints : List String} {joint : String}
    (hmem : joint ∈ joints) (obs : List (Observation F)) :
    lastVelocityStamp joint obs ≤
      ((new windowNs joints : RollingWindow F).observeAll obs).stampNs := by
  unfold lastVelocityStamp
  rcases hlast : (velocitySamples joint obs).getLast? with _ | p
  · exact Nat.zero_le _
  · obtain ⟨o, ho, rfl⟩ := List.mem_map.mp (List.mem_of_getLast? hlast)
    obtain ⟨ho, hjoint⟩ := List.mem_filter.mp ho
    simp only [decide_eq_true_eq] at hjoint
    have hle : o.sample.stampNs ≤
        ((new windowNs joints : RollingWindow F).observeAll obs).stampNs :=
      le_stampNs_observeAll ho (by rwa [hjoint.1])
    simpa using hle

/-- With stamps in order, the newest one at the last velocity of a joint is that velocity's. -/
theorem stampNs_upToVelocity {windowNs : ℤ} {joints : List String} {obs : List (Observation F)}
    (horder : InOrder obs) {joint : String} (hmem : joint ∈ joints)
    (hne : velocitySamples joint obs ≠ []) :
    ((new windowNs joints : RollingWindow F).observeAll (upToVelocity joint obs)).stampNs =
      lastVelocityStamp joint obs := by
  induction obs using List.reverseRecOn with
  | nil => exact absurd rfl hne
  | append_singleton obs o ih =>
      obtain ⟨hinit, -, hlast⟩ := List.pairwise_append.mp horder
      by_cases hvel : o.joint = joint ∧ o.field = .velocity
      · have hbefore : ∀ o' ∈ obs, o'.sample.stampNs ≤ o.sample.stampNs :=
          fun o' ho' => hlast o' ho' o (List.mem_singleton_self o)
        have hstamp : lastVelocityStamp joint (obs ++ [o]) = o.sample.stampNs := by
          simp [lastVelocityStamp, velocitySamples_concat hvel]
        rw [upToVelocity_concat hvel, hstamp, observeAll_concat,
          observe_stampNs _ _ _ (mem_joints_new.mpr (hvel.1 ▸ hmem))]
        exact max_eq_right (stampNs_observeAll_le hbefore)
      · rw [velocitySamples_concat_of_ne hvel] at hne
        have hstamp : lastVelocityStamp joint (obs ++ [o]) = lastVelocityStamp joint obs := by
          simp [lastVelocityStamp, velocitySamples_concat_of_ne hvel]
        rw [upToVelocity_concat_of_ne hvel, ih hinit hne, hstamp]

/-- **The history of a joint** is the window of its samples that was current at its last one: the
samples before that window are at the front, and one prune drops them. -/
theorem velocities_observeAll {windowNs : ℤ} {joints : List String} {obs : List (Observation F)}
    (horder : InOrder obs) {joint : String} (hmem : joint ∈ joints) :
    ((new windowNs joints).observeAll obs).velocities joint =
      since sampleStamp (lastVelocityStamp joint obs - windowNs) (velocitySamples joint obs) := by
  rw [velocities_eq_dropWhile hmem]
  rcases eq_or_ne (velocitySamples joint obs) [] with hnil | hne
  · rw [hnil]
    rfl
  · rw [stampNs_upToVelocity horder hmem hne]
    exact (dropWhile_eq_since_iff sampleStamp).mpr ((horder.velocitySamples joint).expiredFirst ..)

/-- The velocity samples of a joint that the window still held when the joint's last velocity
arrived, and holds no more. -/
def stale (w : RollingWindow F) (joint : String) (obs : List (Observation F)) : List (ℕ × F) :=
  between sampleStamp (lastVelocityStamp joint obs - w.windowNs) (w.stampNs - w.windowNs)
    (velocitySamples joint obs)

end runs

/-! ## The RMS in exact arithmetic -/

section exact

/-- The square of the RMS is the mean square of the history. -/
theorem velocityRms_sq {w : RollingWindow ℝ} {joint : String} {rms : ℝ}
    (h : w.velocityRms joint = .ok rms) :
    rms ^ 2 = meanSquare ((w.velocities joint).map Prod.snd) := by
  by_cases hempty : w.velocities joint = []
  · have hzero : w.velocityRms joint = .ok 0 := by simp [velocityRms, hempty]
    obtain rfl : (0 : ℝ) = rms := Except.ok.inj (hzero.symm.trans h)
    simp [hempty]
  · rw [velocityRms_real w joint hempty] at h
    obtain rfl := Except.ok.inj h
    rw [Real.sq_sqrt]
    · simp [meanSquare, Function.comp_def]
    · refine div_nonneg (List.sum_nonneg ?_) (Nat.cast_nonneg _)
      intro x hx
      obtain ⟨p, -, rfl⟩ := List.mem_map.mp hx
      exact mul_self_nonneg p.2

/-- **When the RMS is the one over the rolling window.** After observations with stamps in order,
for every joint of a snapshot: the square of its RMS is the mean square of its velocities in the
window exactly when none has gone stale since its last velocity, or the stale ones have the mean
square of those in the window. Source: `window.py`, `RollingWindow.observe`, `snapshot` -/
theorem velocityRms_sq_iff (windowNs : ℤ) (joints : List String) {obs : List (Observation ℝ)}
    (horder : InOrder obs) {snaps : List (JointSnapshot ℝ)}
    (hsnaps : ((new windowNs joints).observeAll obs).snapshot = .ok (some snaps))
    {snap : JointSnapshot ℝ} (hsnap : snap ∈ snaps) :
    let w := (new windowNs joints).observeAll obs
    snap.velocityRms ^ 2 = meanSquare ((w.inWindow snap.name obs).map Prod.snd) ↔
      w.stale snap.name obs = [] ∨
        meanSquare ((w.stale snap.name obs).map Prod.snd) =
          meanSquare ((w.inWindow snap.name obs).map Prod.snd) := by
  intro w
  obtain ⟨hmem, -, -, -, -, hrms⟩ := entryOf_of_mem hsnaps hsnap
  have hjoint : snap.name ∈ joints := mem_joints_new.mp hmem
  have hle : (lastVelocityStamp snap.name obs : ℤ) - windowNs ≤ w.stampNs - windowNs :=
    sub_le_sub_right (Int.ofNat_le.mpr (lastVelocityStamp_le_stampNs hjoint obs)) windowNs
  rw [velocityRms_sq hrms, velocities_observeAll horder hjoint]
  unfold inWindow stale
  rw [observeAll_windowNs]
  exact meanSquare_since_eq_iff sampleStamp Prod.snd hle (velocitySamples snap.name obs)

/-- The elbow moves, and then only its position is reported. -/
def quietElbow : List (Observation ℝ) :=
  [⟨"elbow_joint", .position, .new 0 0⟩, ⟨"elbow_joint", .effort, .new 0 0⟩,
    ⟨"elbow_joint", .velocity, .new 1 0⟩, ⟨"elbow_joint", .position, .new 0 100⟩]

/-- The samples of the quiet elbow are ordered. -/
theorem quietElbow_inOrder : InOrder quietElbow := by
  simp [InOrder, Ordered, quietElbow, JointTelemetry.new]

/-- The snapshot still shows the velocity that has left the window. -/
theorem quietElbow_snapshot :
    ((new 10 ["elbow_joint"]).observeAll quietElbow).snapshot =
      .ok (some [⟨"elbow_joint", 0, 1, 0, 1⟩]) := by
  have hvel : ((new 10 ["elbow_joint"]).observeAll quietElbow).velocities "elbow_joint" =
      [(0, 1)] := rfl
  have hrms : ((new 10 ["elbow_joint"]).observeAll quietElbow).velocityRms "elbow_joint" =
      .ok 1 := by
    rw [velocityRms_real _ _ (by rw [hvel]; simp), hvel]
    congr 1
    rw [Real.sqrt_eq_iff_mul_self_eq] <;> norm_num
  have hnil : ((new 10 ["elbow_joint"]).observeAll quietElbow).snapshotFrom [] = .ok (some []) :=
    rfl
  exact snapshotFrom_cons rfl rfl rfl hrms hnil

/-- The equivalence for the quiet elbow, whose RMS is 1. -/
theorem velocityRms_sq_iff_quietElbow :
    let w := (new 10 ["elbow_joint"]).observeAll quietElbow
    (1 : ℝ) ^ 2 = meanSquare ((w.inWindow "elbow_joint" quietElbow).map Prod.snd) ↔
      w.stale "elbow_joint" quietElbow = [] ∨
        meanSquare ((w.stale "elbow_joint" quietElbow).map Prod.snd) =
          meanSquare ((w.inWindow "elbow_joint" quietElbow).map Prod.snd) :=
  velocityRms_sq_iff 10 ["elbow_joint"] quietElbow_inOrder quietElbow_snapshot
    (List.mem_singleton_self _)

/-- The elbow's only velocity is ninety nanoseconds too old for the window, and its RMS is still
that velocity. -/
theorem quietElbow_rms :
    InOrder quietElbow ∧
      ((new 10 ["elbow_joint"]).observeAll quietElbow).snapshot =
        .ok (some [⟨"elbow_joint", 0, 1, 0, 1⟩]) ∧
      (1 : ℝ) ^ 2 ≠ meanSquare ((((new 10 ["elbow_joint"]).observeAll quietElbow).inWindow
        "elbow_joint" quietElbow).map Prod.snd) := by
  have hwindow : ((new 10 ["elbow_joint"]).observeAll quietElbow).inWindow
      "elbow_joint" quietElbow = [] := rfl
  refine ⟨quietElbow_inOrder, quietElbow_snapshot, ?_⟩
  rw [hwindow]
  norm_num

end exact

end RollingWindow

end TwinServices.State
