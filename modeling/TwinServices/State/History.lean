import TwinServices.Lib.TimeWindow
import TwinServices.State.Window
import Mathlib.Data.List.DropRight

/-!
# What the velocity histories hold

The history of a joint is pruned only from its front and only when a velocity of that joint
arrives, with a cutoff that other channels move too. All these prunes amount to one
(`velocities_eq_dropWhile`), whatever the stamps and their order: the samples of the joint without
those before the last cutoff at their front.

* `velocitySamples`: the velocity samples of a joint in a run.
* `inWindow`: those that the rolling window holds.
* `history_exact_iff`: in a run the history of every joint is the window, each time after a velocity
  of the joint, exactly when no expired sample of a joint is ever behind one that has not expired.
* `restart_accumulates`: after the stamps start again from zero, nothing is dropped any more.
-/

set_option autoImplicit false

namespace TwinServices.State

open TwinServices.Python TwinServices.Contracts Lib.TimeWindow Lib.Binary64

namespace RollingWindow

section runs

variable {F : Type}

/-- The velocity samples of a joint among the observations. -/
def velocitySamples (joint : String) (obs : List (Observation F)) : List (ℕ × F) :=
  (obs.filter fun o => o.joint = joint ∧ o.field = .velocity).map fun o =>
    (o.sample.stampNs, o.sample.value)

/-- The stamp of a sample. -/
def sampleStamp (p : ℕ × F) : ℤ := p.1

/-- Another observation adds no velocity sample. -/
theorem velocitySamples_concat_of_ne {joint : String} {o : Observation F}
    (h : ¬ (o.joint = joint ∧ o.field = .velocity)) (obs : List (Observation F)) :
    velocitySamples joint (obs ++ [o]) = velocitySamples joint obs := by
  simp [velocitySamples, List.filter_append, h]

/-- A velocity of the joint is the last of its samples. -/
theorem velocitySamples_concat {joint : String} {o : Observation F}
    (h : o.joint = joint ∧ o.field = .velocity) (obs : List (Observation F)) :
    velocitySamples joint (obs ++ [o]) =
      velocitySamples joint obs ++ [(o.sample.stampNs, o.sample.value)] := by
  simp [velocitySamples, List.filter_append, h]

/-- The velocity samples of a joint that the rolling window holds: from its length before the
newest stamp on. -/
def inWindow (w : RollingWindow F) (joint : String) (obs : List (Observation F)) : List (ℕ × F) :=
  since sampleStamp (w.stampNs - w.windowNs) (velocitySamples joint obs)

/-! ## All the prunes as one -/

/-- The observations up to the last velocity of a joint. -/
def upToVelocity (joint : String) (obs : List (Observation F)) : List (Observation F) :=
  obs.rdropWhile fun o => ¬ (o.joint = joint ∧ o.field = .velocity)

/-- After a velocity of the joint nothing is left out. -/
theorem upToVelocity_concat {joint : String} {o : Observation F}
    (h : o.joint = joint ∧ o.field = .velocity) (obs : List (Observation F)) :
    upToVelocity joint (obs ++ [o]) = obs ++ [o] :=
  List.rdropWhile_concat_neg _ _ _ (by simpa using h)

/-- What comes after the joint's last velocity is left out. -/
theorem upToVelocity_concat_of_ne {joint : String} {o : Observation F}
    (h : ¬ (o.joint = joint ∧ o.field = .velocity)) (obs : List (Observation F)) :
    upToVelocity joint (obs ++ [o]) = upToVelocity joint obs :=
  List.rdropWhile_concat_pos _ _ _ (decide_eq_true h)

/-- The observations up to the last velocity come first. -/
theorem prefix_upToVelocity (joint : String) (obs : List (Observation F)) :
    upToVelocity joint obs <+: obs := List.rdropWhile_prefix ..

/-- The newest stamp never goes back. -/
theorem stampNs_le_observeAll (w : RollingWindow F) (obs : List (Observation F)) :
    w.stampNs ≤ (w.observeAll obs).stampNs := by
  induction obs using List.reverseRecOn with
  | nil => exact le_rfl
  | append_singleton obs o ih =>
      rw [observeAll_concat]
      by_cases hmem : o.joint ∈ (w.observeAll obs).joints
      · rw [observe_stampNs _ _ _ hmem]
        exact ih.trans (le_max_left ..)
      · rwa [observe_of_not_mem _ _ _ hmem]

/-- The stamp of a window never goes back. -/
theorem stampNs_mono (w : RollingWindow F) {obs obs' : List (Observation F)} (h : obs <+: obs') :
    (w.observeAll obs).stampNs ≤ (w.observeAll obs').stampNs := by
  obtain ⟨rest, rfl⟩ := h
  rw [observeAll_append]
  exact stampNs_le_observeAll ..

/-- **All the prunes as one.** The history of a joint is what it received, without the samples at
the front that are before the cutoff of its last velocity. By induction over the run: a velocity of
the joint prunes once more, with a cutoff that is not earlier; anything else leaves both sides as
they are. -/
theorem velocities_eq_dropWhile {windowNs : ℤ} {joints : List String} {joint : String}
    (hmem : joint ∈ joints) (obs : List (Observation F)) :
    ((new windowNs joints).observeAll obs).velocities joint =
      (velocitySamples joint obs).dropWhile fun p => sampleStamp p <
        ((new windowNs joints : RollingWindow F).observeAll (upToVelocity joint obs)).stampNs -
          windowNs := by
  induction obs using List.reverseRecOn with
  | nil => rfl
  | append_singleton obs o ih =>
      by_cases hvel : o.joint = joint ∧ o.field = .velocity
      · rw [upToVelocity_concat hvel, velocitySamples_concat hvel, observeAll_concat]
        have hle := stampNs_mono (new windowNs joints : RollingWindow F)
          ((prefix_upToVelocity joint obs).trans (List.prefix_append obs [o]))
        obtain ⟨rfl, hfield⟩ := hvel
        rw [hfield, observe_velocities _ _ (mem_joints_new.mpr hmem), observeAll_windowNs, ih,
          observe_stampNs _ _ _ (mem_joints_new.mpr hmem)]
        rw [observeAll_concat, observe_stampNs _ _ _ (mem_joints_new.mpr hmem)] at hle
        exact dropWhile_dropWhile_append sampleStamp
          (sub_le_sub_right (Int.ofNat_le.mpr hle) windowNs) ..
      · rw [upToVelocity_concat_of_ne hvel, velocitySamples_concat_of_ne hvel, observeAll_concat,
          observe_velocities_of_ne _ _ _ _ hvel, ih]

/-! ## When the history is the window -/

/-- The newest stamp among the observations of the joints; zero without any. -/
def newestStamp (joints : List String) (obs : List (Observation F)) : ℕ :=
  ((obs.filter fun o => o.joint ∈ joints).map fun o => o.sample.stampNs).foldl max 0

/-- The stamp of a window is the newest one observed. -/
theorem stampNs_eq_newestStamp (windowNs : ℤ) (joints : List String) (obs : List (Observation F)) :
    ((new windowNs joints : RollingWindow F).observeAll obs).stampNs = newestStamp joints obs := by
  unfold newestStamp
  induction obs using List.reverseRecOn with
  | nil => rfl
  | append_singleton obs o ih =>
      rw [observeAll_concat, List.filter_append, List.map_append, List.foldl_append, ← ih]
      by_cases hmem : o.joint ∈ joints
      · rw [observe_stampNs _ _ _ (mem_joints_new.mpr hmem),
          List.filter_cons_of_pos (by simpa using hmem)]
        rfl
      · rw [observe_of_not_mem _ _ _ (mt mem_joints_new.mp hmem),
          List.filter_cons_of_neg (by simpa using hmem)]
        rfl

/-- Something holds of a joint of the window and the run so far, each time after a velocity of the
joint. -/
def AfterVelocities (joints : List String) (obs : List (Observation F))
    (P : String → List (Observation F) → Prop) : Prop :=
  ∀ joint ∈ joints, ∀ before sample, before ++ [⟨joint, .velocity, sample⟩] <+: obs →
    P joint (before ++ [⟨joint, .velocity, sample⟩])

/-- The history of a joint is what the rolling window holds of its velocity samples. -/
def HistoryExact (windowNs : ℤ) (joints : List String) (joint : String)
    (obs : List (Observation F)) : Prop :=
  ((new windowNs joints).observeAll obs).velocities joint =
    ((new windowNs joints).observeAll obs).inWindow joint obs

/-- No velocity sample of a joint that has expired is behind one that has not. -/
def NoneExpiredBehind (windowNs : ℤ) (joints : List String) (joint : String)
    (obs : List (Observation F)) : Prop :=
  ExpiredFirst sampleStamp (newestStamp joints obs - windowNs) (velocitySamples joint obs)

/-- Right after a velocity of a joint, its history was pruned with the current cutoff. -/
theorem historyExact_concat_iff {windowNs : ℤ} {joints : List String} {joint : String}
    (hmem : joint ∈ joints) (before : List (Observation F)) (sample : JointTelemetry F) :
    HistoryExact windowNs joints joint (before ++ [⟨joint, .velocity, sample⟩]) ↔
      NoneExpiredBehind windowNs joints joint (before ++ [⟨joint, .velocity, sample⟩]) := by
  have hvel : (⟨joint, .velocity, sample⟩ : Observation F).joint = joint ∧
      (⟨joint, .velocity, sample⟩ : Observation F).field = .velocity := ⟨rfl, rfl⟩
  unfold HistoryExact NoneExpiredBehind inWindow
  rw [velocities_eq_dropWhile hmem, upToVelocity_concat hvel, observeAll_windowNs,
    ← stampNs_eq_newestStamp windowNs]
  exact dropWhile_eq_since_iff sampleStamp

/-- **When the history is exactly the window.** In every run, whatever the stamps and their order:
each time after a velocity of a joint the history of that joint is exactly its samples in the
window, if and only if at none of these times an expired sample of the joint is behind one that has
not expired. Source: `window.py`, `RollingWindow.observe` -/
theorem history_exact_iff (windowNs : ℤ) (joints : List String) (obs : List (Observation F)) :
    AfterVelocities joints obs (HistoryExact windowNs joints) ↔
      AfterVelocities joints obs (NoneExpiredBehind windowNs joints) := by
  constructor
  · intro h joint hmem before sample hprefix
    exact (historyExact_concat_iff hmem before sample).mp (h joint hmem before sample hprefix)
  · intro h joint hmem before sample hprefix
    exact (historyExact_concat_iff hmem before sample).mpr (h joint hmem before sample hprefix)

/-! ### A restart -/

/-- A velocity of the elbow, and more of them after the stamps have started again from zero. -/
def restarted (x : F) (n : ℕ) : List (Observation F) :=
  ⟨"elbow_joint", .velocity, .new x 100⟩ ::
    List.replicate n ⟨"elbow_joint", .velocity, .new x 0⟩

/-- The samples of the run whose stamps start again at zero. -/
theorem velocitySamples_restarted (x : F) (n : ℕ) :
    velocitySamples "elbow_joint" (restarted x n) = (100, x) :: List.replicate n (0, x) := by
  simp [velocitySamples, restarted, JointTelemetry.new]

/-- The newest stamp of that run is the first one. -/
theorem newestStamp_restarted (x : F) (n : ℕ) :
    newestStamp ["elbow_joint"] (restarted x n) = 100 := by
  induction n with
  | zero => rfl
  | succ n ih =>
      have hconcat : restarted x (n + 1) =
          restarted x n ++ [⟨"elbow_joint", .velocity, .new x 0⟩] := by
        rw [restarted, List.replicate_succ', ← List.cons_append]
        rfl
      rw [newestStamp, hconcat, List.filter_append, List.map_append, List.foldl_append]
      exact congrArg (max · 0) ih

/-- **After a restart nothing is dropped.** The sample from before the restart stays at the front,
and all the expired ones behind it stay too. -/
theorem restart_accumulates (x : F) (n : ℕ) :
    ((new 10 ["elbow_joint"]).observeAll (restarted x n)).velocities "elbow_joint" =
        (100, x) :: List.replicate n (0, x) ∧
      ((new 10 ["elbow_joint"]).observeAll (restarted x n)).inWindow "elbow_joint"
        (restarted x n) = [(100, x)] := by
  constructor
  · rw [velocities_eq_dropWhile (List.mem_singleton_self _), velocitySamples_restarted]
    apply List.dropWhile_cons_of_neg
    have hle := stampNs_mono (new 10 ["elbow_joint"] : RollingWindow F)
      (prefix_upToVelocity "elbow_joint" (restarted x n))
    rw [stampNs_eq_newestStamp 10 _ (restarted x n), newestStamp_restarted] at hle
    rw [decide_eq_true_eq, not_lt]
    show _ ≤ (100 : ℤ)
    omega
  · unfold inWindow
    rw [velocitySamples_restarted, stampNs_eq_newestStamp, newestStamp_restarted,
      observeAll_windowNs]
    simp [since, sampleStamp, new]

/-- One velocity after a restart, with a stamp far before the window, stays in the history. -/
theorem restart_not_exact :
    ¬ AfterVelocities ["elbow_joint"] (restarted (Double.finite Double.zero) 1)
      (HistoryExact 10 ["elbow_joint"]) := by
  intro h
  have hexact := h "elbow_joint" (List.mem_singleton_self _)
    (restarted (Double.finite Double.zero) 0) (.new (.finite Double.zero) 0) List.prefix_rfl
  have hhistory : [(100, Double.finite Double.zero), (0, Double.finite Double.zero)] =
      [(100, Double.finite Double.zero)] := hexact
  exact absurd (congrArg List.length hhistory) (by decide)

end runs

end RollingWindow

end TwinServices.State
