import TwinServices.State.WindowRms

/-!
# Pruning as one filter

`observe` prunes the history of a joint at each of its velocities, with a cutoff that the calls for
all joints of the window move. After any run the history is what one filter of the joint's samples
leaves, with the cutoff of its last velocity.

* `lastCutoff`: that cutoff, from the calls alone.
* `observe_discards`, `run_discards`: what one call and a whole run discard has expired.
* `velocities_ne_nil`: with the stamps in order the last velocity is kept.
* `incremental_eq_batch`: the three together.
-/

set_option autoImplicit false

namespace TwinServices.State.RollingWindow

open TwinServices.Python TwinServices.Contracts Lib.TimeWindow Lib.Binary64

variable {F : Type} {windowNs : ℤ} {joints : List String} {joint : String}

/-- The cutoff at the last velocity of a joint: the length of the window before the newest stamp of
the joints up to then. -/
def lastCutoff (windowNs : ℤ) (joints : List String) (joint : String)
    (obs : List (Observation F)) : ℤ :=
  newestStamp joints (upToVelocity joint obs) - windowNs

/-- The cutoff never goes back. -/
theorem lastCutoff_le (obs : List (Observation F)) :
    lastCutoff windowNs joints joint obs ≤
      ((new windowNs joints : RollingWindow F).observeAll obs).stampNs - windowNs := by
  unfold lastCutoff
  rw [← stampNs_eq_newestStamp windowNs]
  exact sub_le_sub_right (Int.ofNat_le.mpr (stampNs_mono _ (prefix_upToVelocity joint obs))) _

/-- **All the prunes are one filter**, with the cutoff of the last velocity. -/
theorem velocities_eq_filtered (hmem : joint ∈ joints) (obs : List (Observation F)) :
    ((new windowNs joints).observeAll obs).velocities joint =
      (velocitySamples joint obs).dropWhile fun p =>
        sampleStamp p < lastCutoff windowNs joints joint obs := by
  rw [velocities_eq_dropWhile hmem, stampNs_eq_newestStamp]
  rfl

/-! ## What is discarded -/

/-- What a call discards of the history and its own sample has expired. -/
theorem observe_discards {w : RollingWindow F} (hmem : joint ∈ w.joints) (o : Observation F) :
    ∃ discarded, w.velocities joint ++ velocitySamples joint [o] =
        discarded ++ (w.observe o.joint o.field o.sample).velocities joint ∧
      ∀ p ∈ discarded,
        sampleStamp p < (w.observe o.joint o.field o.sample).stampNs - w.windowNs := by
  by_cases hvel : o.joint = joint ∧ o.field = .velocity
  · have hsample : velocitySamples joint [o] = [(o.sample.stampNs, o.sample.value)] :=
      velocitySamples_concat hvel []
    obtain ⟨rfl, hfield⟩ := hvel
    rw [hsample, hfield, observe_velocities _ _ hmem, observe_stampNs _ _ _ hmem]
    exact exists_dropped sampleStamp _ _
  · refine ⟨[], ?_, fun p hp => absurd hp List.not_mem_nil⟩
    rw [observe_velocities_of_ne _ _ _ _ hvel, List.nil_append]
    have hnone : velocitySamples joint [o] = [] := velocitySamples_concat_of_ne hvel []
    rw [hnone, List.append_nil]

/-- What a run has discarded of the samples of a joint has expired. -/
theorem run_discards (hmem : joint ∈ joints) (obs : List (Observation F)) :
    ∃ discarded, velocitySamples joint obs =
        discarded ++ ((new windowNs joints).observeAll obs).velocities joint ∧
      ∀ p ∈ discarded, sampleStamp p <
        ((new windowNs joints : RollingWindow F).observeAll obs).stampNs - windowNs := by
  obtain ⟨discarded, heq, hexpired⟩ := exists_dropped sampleStamp
    (lastCutoff windowNs joints joint obs) (velocitySamples joint obs)
  rw [← velocities_eq_filtered hmem] at heq
  exact ⟨discarded, heq, fun p hp => (hexpired p hp).trans_le (lastCutoff_le obs)⟩

/-! ## What is kept -/

/-- The velocities of a joint of the window are among the calls for its joints. -/
theorem velocitySamples_filter (hmem : joint ∈ joints) (obs : List (Observation F)) :
    velocitySamples joint (obs.filter fun o => o.joint ∈ joints) = velocitySamples joint obs := by
  unfold velocitySamples
  rw [List.filter_filter]
  congr 1
  refine List.filter_congr fun o _ => ?_
  rw [← Bool.decide_and, decide_eq_decide]
  exact ⟨fun h => h.1, fun h => ⟨h, h.1 ▸ hmem⟩⟩

/-- **A joint with a velocity has a history**, if the stamps of the joints are in order: its last
velocity is kept. -/
theorem velocities_ne_nil (hwindow : 0 ≤ windowNs) (hmem : joint ∈ joints)
    {obs : List (Observation F)} (horder : InOrder (obs.filter fun o => o.joint ∈ joints))
    (hne : velocitySamples joint obs ≠ []) :
    ((new windowNs joints).observeAll obs).velocities joint ≠ [] := by
  have hfilter : (new windowNs joints : RollingWindow F).observeAll
      (obs.filter fun o => o.joint ∈ joints) = (new windowNs joints).observeAll obs :=
    observeAll_filter (new windowNs joints) obs
  rw [← velocitySamples_filter hmem] at hne
  obtain ⟨p, hlast⟩ := Option.isSome_iff_exists.mp (List.getLast?_isSome.mpr hne)
  have hstamp : lastVelocityStamp joint (obs.filter fun o => o.joint ∈ joints) = p.1 := by
    rw [lastVelocityStamp, hlast]
    rfl
  have hkept : (p.1 : ℤ) - windowNs ≤ sampleStamp p := sub_le_self _ hwindow
  rw [← hfilter, velocities_observeAll horder hmem, hstamp]
  exact List.ne_nil_of_mem
    (List.mem_filter.mpr ⟨List.mem_of_getLast? hlast, decide_eq_true hkept⟩)

/-! ## Every run -/

/-- **Incremental pruning is one batch filter.** After every run of calls, in any order of stamps
and with any length of the window, for each of its joints: the history is the list of all its
velocity samples without the longest prefix before the last cutoff; whatever the run or its next
call has discarded is before the current cutoff; and with the stamps of the window's joints in order
the history is not empty once the joint has had a velocity.
Source: `window.py`, `RollingWindow.observe` -/
theorem incremental_eq_batch (windowNs : ℤ) {joints : List String} {joint : String}
    (hmem : joint ∈ joints) (obs : List (Observation F)) :
    let w := (new windowNs joints).observeAll obs
    w.velocities joint = (velocitySamples joint obs).dropWhile (fun p =>
        sampleStamp p < lastCutoff windowNs joints joint obs) ∧
      (∃ discarded, velocitySamples joint obs = discarded ++ w.velocities joint ∧
        ∀ p ∈ discarded, sampleStamp p < w.stampNs - windowNs) ∧
      (∀ o : Observation F, ∃ discarded, w.velocities joint ++ velocitySamples joint [o] =
          discarded ++ (w.observe o.joint o.field o.sample).velocities joint ∧
        ∀ p ∈ discarded,
          sampleStamp p < (w.observe o.joint o.field o.sample).stampNs - windowNs) ∧
      (0 ≤ windowNs → InOrder (obs.filter fun o => o.joint ∈ joints) →
        velocitySamples joint obs ≠ [] → w.velocities joint ≠ []) := by
  intro w
  refine ⟨velocities_eq_filtered hmem obs, run_discards hmem obs, fun o => ?_,
    fun hwindow horder hne => velocities_ne_nil hwindow hmem horder hne⟩
  have hdiscards := observe_discards (mem_joints_new.mpr hmem : joint ∈ w.joints) o
  rwa [observeAll_windowNs] at hdiscards

/-- The elbow moves, between calls for another joint of the window and for one that it does not
have. -/
def interleaved : List (Observation Double) :=
  [⟨"elbow_joint", .velocity, .new (.finite Double.one) 0⟩,
    ⟨"gripper_joint", .velocity, .new (.finite Double.one) 900⟩,
    ⟨"elbow_joint", .velocity, .new (.finite Double.one) 8⟩,
    ⟨"wrist_1_joint", .position, .new (.finite Double.zero) 15⟩,
    ⟨"elbow_joint", .velocity, .new (.finite Double.zero) 16⟩]

/-- The interleaved run of two joints is ordered. -/
theorem interleaved_inOrder :
    InOrder (interleaved.filter fun o => o.joint ∈ ["elbow_joint", "wrist_1_joint"]) := by
  simp [InOrder, Ordered, interleaved, JointTelemetry.new]

/-- The elbow's history after the interleaved run is that of the batch. -/
theorem incremental_eq_batch_interleaved :
    ((new 10 ["elbow_joint", "wrist_1_joint"]).observeAll interleaved).velocities "elbow_joint" =
        [(8, Double.finite Double.one), (16, Double.finite Double.zero)] ∧
      ((new 10 ["elbow_joint", "wrist_1_joint"]).observeAll interleaved).velocities
        "elbow_joint" ≠ [] := by
  have hbatch := incremental_eq_batch 10 (List.mem_cons_self : "elbow_joint" ∈
    ["elbow_joint", "wrist_1_joint"]) interleaved
  obtain ⟨heq, -, -, hne⟩ := hbatch
  refine ⟨heq.trans rfl, hne (by norm_num) interleaved_inOrder ?_⟩
  simp [velocitySamples, interleaved]

end TwinServices.State.RollingWindow
