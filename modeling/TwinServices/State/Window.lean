import TwinServices.Contracts.Models

/-!
# The rolling window

`RollingWindow` assembles single samples into the state of every joint and keeps a velocity
history for the RMS. It is generic in the type of floats.

* `RollingWindow`, `observe`, `snapshot`, `velocityRms`: the class and its methods.
* `observeAll`: a run of `observe` calls.
* `snapshot_some`, `snapshot_of_rms`: a snapshot lists the window's joints in order with their
  latest values; it is none exactly while some field of some joint has not arrived (`Complete`).
* `Complete.observe`: a complete window stays complete.
* `velocityRms_double`, `velocityRms_real`: the RMS is a value for every history, over doubles
  and in exact arithmetic.
-/

set_option autoImplicit false

namespace TwinServices.State

open TwinServices.Python TwinServices.Contracts Lib.Binary64

/-! ## The class -/

/-- Source: `window.py`, `JointSnapshot` -/
structure JointSnapshot (F : Type) where
  name : String
  positionRad : F
  velocityRadS : F
  effortNm : F
  velocityRms : F
deriving DecidableEq

/-- What was measured for a field.
Source: `window.py`, `JointSnapshot` -/
def JointSnapshot.measured {F : Type} (snap : JointSnapshot F) : JointField → F
  | .position => snap.positionRad
  | .velocity => snap.velocityRadS
  | .effort => snap.effortNm

/-- The window: its length in nanoseconds, the joints, the latest value of every channel, the
velocity history of every joint, oldest first, and the newest stamp. The history of a joint
outside `joints` is never touched. Source: `window.py`, `RollingWindow` -/
structure RollingWindow (F : Type) where
  windowNs : ℤ
  joints : List String
  latest : String × JointField → Option F
  velocities : String → List (ℕ × F)
  stampNs : ℕ

namespace RollingWindow

section methods

variable {F : Type}

/-- A window of a length, `int(window_s * 1e9)`, before any telemetry.
Source: `window.py`, `RollingWindow.__init__` -/
def new (windowNs : ℤ) (joints : List String) : RollingWindow F where
  windowNs := windowNs
  joints := joints
  latest _ := none
  velocities _ := []
  stampNs := 0

/-- A history without the samples before the cutoff at its front.
Source: `window.py`, `RollingWindow.observe` -/
def prune (cutoff : ℤ) (history : List (ℕ × F)) : List (ℕ × F) :=
  history.dropWhile fun p => (p.1 : ℤ) < cutoff

/-- One sample folded into the window. Source: `window.py`, `RollingWindow.observe` -/
def observe (w : RollingWindow F) (joint : String) (field : JointField)
    (sample : JointTelemetry F) : RollingWindow F :=
  if joint ∉ w.joints then w
  else
    let stampNs := max w.stampNs sample.stampNs
    { w with
      latest := Function.update w.latest (joint, field) (some sample.value)
      stampNs := stampNs
      velocities :=
        if field = .velocity then
          Function.update w.velocities joint
            (prune (stampNs - w.windowNs)
              (w.velocities joint ++ [(sample.stampNs, sample.value)]))
        else w.velocities }

variable [PyFloat F]

/-- Source: `window.py`, `RollingWindow._velocity_rms` -/
def velocityRms (w : RollingWindow F) (joint : String) : Except PyError F :=
  let history := w.velocities joint
  if history.isEmpty then .ok (PyFloat.lit 0)
  else do
    let mean ← PyFloat.truediv (PyFloat.sum (history.map fun p => p.2 * p.2))
      (PyFloat.lit history.length)
    PyFloat.sqrt mean

/-- The loop of `snapshot` over the joints that are left.
Source: `window.py`, `RollingWindow.snapshot` -/
def snapshotFrom (w : RollingWindow F) :
    List String → Except PyError (Option (List (JointSnapshot F)))
  | [] => .ok (some [])
  | joint :: joints =>
      match w.latest (joint, .position), w.latest (joint, .velocity), w.latest (joint, .effort) with
      | some position, some velocity, some effort => do
          let rms ← w.velocityRms joint
          let rest ← w.snapshotFrom joints
          return rest.map (⟨joint, position, velocity, effort, rms⟩ :: ·)
      | _, _, _ => .ok none

/-- Source: `window.py`, `RollingWindow.snapshot` -/
def snapshot (w : RollingWindow F) : Except PyError (Option (List (JointSnapshot F))) :=
  w.snapshotFrom w.joints

end methods

/-! ## What `observe` changes -/

section observe

variable {F : Type} (w : RollingWindow F) (joint : String) (field : JointField)
  (sample : JointTelemetry F)

/-- A joint that is not one of the window's changes nothing. -/
theorem observe_of_not_mem {joint : String} (h : joint ∉ w.joints) :
    w.observe joint field sample = w := if_pos h

/-- An observation leaves the joints. -/
@[simp] theorem observe_joints : (w.observe joint field sample).joints = w.joints := by
  unfold observe
  split_ifs <;> rfl

/-- An observation leaves the length of the window. -/
@[simp] theorem observe_windowNs : (w.observe joint field sample).windowNs = w.windowNs := by
  unfold observe
  split_ifs <;> rfl

/-- An observation sets the latest value of its channel and leaves the others. -/
theorem observe_latest {joint : String} (h : joint ∈ w.joints) :
    (w.observe joint field sample).latest =
      Function.update w.latest (joint, field) (some sample.value) := by
  unfold observe
  rw [if_neg (not_not.mpr h)]

/-- An observation takes the stamp forward, never back. -/
theorem observe_stampNs {joint : String} (h : joint ∈ w.joints) :
    (w.observe joint field sample).stampNs = max w.stampNs sample.stampNs := by
  unfold observe
  rw [if_neg (not_not.mpr h)]

/-- Only a velocity changes a history, and only that of its joint. -/
theorem observe_velocities_of_ne {j : String} (h : ¬ (joint = j ∧ field = .velocity)) :
    (w.observe joint field sample).velocities j = w.velocities j := by
  unfold observe
  by_cases hmem : joint ∈ w.joints
  · rw [if_neg (not_not.mpr hmem)]
    by_cases hfield : field = .velocity
    · simp only [if_pos hfield]
      exact Function.update_of_ne (fun hj => h ⟨hj.symm, hfield⟩) ..
    · simp only [if_neg hfield]
  · rw [if_pos hmem]

/-- A velocity is appended to the joint's history, which is pruned at the new stamp. -/
theorem observe_velocities {joint : String} (h : joint ∈ w.joints) :
    (w.observe joint .velocity sample).velocities joint =
      prune ((max w.stampNs sample.stampNs : ℕ) - w.windowNs)
        (w.velocities joint ++ [(sample.stampNs, sample.value)]) := by
  unfold observe
  rw [if_neg (not_not.mpr h)]
  simp

end observe

/-! ## Runs -/

section runs

variable {F : Type}

/-- One call of `observe`.
Source: `window.py`, `RollingWindow.observe` -/
structure Observation (F : Type) where
  joint : String
  field : JointField
  sample : JointTelemetry F

/-- A run of `observe` calls.
Source: `window.py`, `RollingWindow.observe` -/
def observeAll (w : RollingWindow F) (obs : List (Observation F)) : RollingWindow F :=
  obs.foldl (fun w o => w.observe o.joint o.field o.sample) w

/-- Observations are folded one part after the other. -/
theorem observeAll_append (w : RollingWindow F) (obs obs' : List (Observation F)) :
    w.observeAll (obs ++ obs') = (w.observeAll obs).observeAll obs' := List.foldl_append

/-- The last observation is folded last. -/
theorem observeAll_concat (w : RollingWindow F) (obs : List (Observation F)) (o : Observation F) :
    w.observeAll (obs ++ [o]) = (w.observeAll obs).observe o.joint o.field o.sample :=
  observeAll_append w obs [o]

/-- No observation changes the joints. -/
@[simp] theorem observeAll_joints (w : RollingWindow F) (obs : List (Observation F)) :
    (w.observeAll obs).joints = w.joints := by
  induction obs using List.reverseRecOn with
  | nil => rfl
  | append_singleton obs o ih => rw [observeAll_concat, observe_joints, ih]

/-- No observation changes the length of the window. -/
@[simp] theorem observeAll_windowNs (w : RollingWindow F) (obs : List (Observation F)) :
    (w.observeAll obs).windowNs = w.windowNs := by
  induction obs using List.reverseRecOn with
  | nil => rfl
  | append_singleton obs o ih => rw [observeAll_concat, observe_windowNs, ih]

/-- The joints of a window are those it was made for. -/
theorem mem_joints_new {windowNs : ℤ} {joints : List String} {joint : String}
    {obs : List (Observation F)} :
    joint ∈ ((new windowNs joints : RollingWindow F).observeAll obs).joints ↔ joint ∈ joints := by
  rw [observeAll_joints]
  rfl

/-- Observations of other joints than those of the window leave it as it is. -/
theorem observeAll_of_not_mem {w : RollingWindow F} {obs : List (Observation F)}
    (h : ∀ o ∈ obs, o.joint ∉ w.joints) : w.observeAll obs = w := by
  induction obs using List.reverseRecOn with
  | nil => rfl
  | append_singleton obs o ih =>
      rw [List.forall_mem_append, List.forall_mem_singleton] at h
      rw [observeAll_concat, ih h.1, observe_of_not_mem _ _ _ h.2]

/-- **Foreign joints leave no trace.** Whatever their stamps, the calls for joints that the window
does not have can be deleted from a run. By induction over the run: such a call returns before it
moves the newest stamp, and so the cutoff. -/
theorem observeAll_filter (w : RollingWindow F) (obs : List (Observation F)) :
    w.observeAll (obs.filter fun o => o.joint ∈ w.joints) = w.observeAll obs := by
  induction obs using List.reverseRecOn with
  | nil => rfl
  | append_singleton obs o ih =>
      rw [List.filter_append, observeAll_concat]
      by_cases hmem : o.joint ∈ w.joints
      · rw [List.filter_cons_of_pos (by simpa using hmem), List.filter_nil, observeAll_concat, ih]
      · rw [List.filter_cons_of_neg (by simpa using hmem), List.filter_nil, List.append_nil, ih,
          observe_of_not_mem _ _ _ (by rwa [observeAll_joints])]

/-- The latest value of a channel is that of its last observation. -/
theorem observeAll_latest {w : RollingWindow F} {joint : String} (h : joint ∈ w.joints)
    (field : JointField) (obs : List (Observation F)) :
    (w.observeAll obs).latest (joint, field) =
      ((obs.filter fun o => o.joint = joint ∧ o.field = field).getLast?.map
        fun o => o.sample.value).or (w.latest (joint, field)) := by
  induction obs using List.reverseRecOn with
  | nil => rfl
  | append_singleton obs o ih =>
      rw [observeAll_concat, List.filter_append]
      by_cases hchannel : o.joint = joint ∧ o.field = field
      · obtain ⟨rfl, rfl⟩ := hchannel
        rw [observe_latest _ _ _ (by simpa using h), Function.update_self]
        simp
      · rw [List.filter_cons_of_neg (by simpa using hchannel), List.filter_nil, List.append_nil,
          ← ih]
        by_cases hmem : o.joint ∈ w.joints
        · rw [observe_latest _ _ _ (by simpa using hmem)]
          apply Function.update_of_ne
          intro heq
          obtain ⟨rfl, rfl⟩ := Prod.mk.inj heq
          exact hchannel ⟨rfl, rfl⟩
        · rw [observe_of_not_mem _ _ _ (by simpa using hmem)]

/-- The latest value of a channel that began without one was observed. -/
theorem exists_observation_of_latest {w : RollingWindow F} {joint : String} (h : joint ∈ w.joints)
    {field : JointField} (hnone : w.latest (joint, field) = none) {obs : List (Observation F)}
    {x : F} (hx : (w.observeAll obs).latest (joint, field) = some x) :
    ∃ o ∈ obs, o.joint = joint ∧ o.field = field ∧ o.sample.value = x := by
  rw [observeAll_latest h, hnone, Option.or_none, Option.map_eq_some_iff] at hx
  obtain ⟨o, ho, hvalue⟩ := hx
  obtain ⟨hmem, hchannel⟩ := List.mem_filter.mp (List.mem_of_getLast? ho)
  obtain ⟨hjoint, hfield⟩ := of_decide_eq_true hchannel
  exact ⟨o, hmem, hjoint, hfield, hvalue⟩

/-- A channel that was observed has a latest value. -/
theorem isSome_latest_observeAll {w : RollingWindow F} {obs : List (Observation F)}
    {o : Observation F} (ho : o ∈ obs) (hmem : o.joint ∈ w.joints) :
    ((w.observeAll obs).latest (o.joint, o.field)).isSome = true := by
  rw [observeAll_latest hmem, Option.isSome_or, Option.isSome_map, Bool.or_eq_true,
    List.getLast?_isSome]
  exact Or.inl (List.ne_nil_of_mem (List.mem_filter.mpr ⟨ho, by simp⟩))

/-- After more observations, the latest value of a channel that is among them is one of theirs. -/
theorem exists_observation_of_latest_append {w : RollingWindow F} {joint : String}
    (h : joint ∈ w.joints) {field : JointField} {obs obs' : List (Observation F)}
    (hobs' : ∃ o ∈ obs', o.joint = joint ∧ o.field = field) {x : F}
    (hx : (w.observeAll (obs ++ obs')).latest (joint, field) = some x) :
    ∃ o ∈ obs', o.joint = joint ∧ o.field = field ∧ o.sample.value = x := by
  rw [observeAll_append, observeAll_latest (by simpa using h)] at hx
  obtain ⟨o, ho, hjoint, hfield⟩ := hobs'
  have hne : obs'.filter (fun o => o.joint = joint ∧ o.field = field) ≠ [] :=
    List.ne_nil_of_mem (List.mem_filter.mpr ⟨ho, by simp [hjoint, hfield]⟩)
  obtain ⟨last, hlast⟩ := Option.isSome_iff_exists.mp (List.getLast?_isSome.mpr hne)
  rw [hlast, Option.map_some, Option.some_or] at hx
  obtain ⟨hmem, hchannel⟩ := List.mem_filter.mp (List.mem_of_getLast? hlast)
  obtain ⟨hjoint', hfield'⟩ := of_decide_eq_true hchannel
  exact ⟨last, hmem, hjoint', hfield', Option.some.inj hx⟩

/-- The newest stamp is the stamp of some observation, or zero. -/
theorem stampNs_observeAll_le {windowNs : ℤ} {joints : List String} {obs : List (Observation F)}
    {b : ℕ} (h : ∀ o ∈ obs, o.sample.stampNs ≤ b) :
    ((new windowNs joints : RollingWindow F).observeAll obs).stampNs ≤ b := by
  induction obs using List.reverseRecOn with
  | nil => exact Nat.zero_le _
  | append_singleton obs o ih =>
      have hrest := ih fun o' ho' => h o' (List.mem_append_left _ ho')
      rw [observeAll_concat]
      by_cases hmem : o.joint ∈ joints
      · rw [observe_stampNs _ _ _ (mem_joints_new.mpr hmem)]
        exact max_le hrest (h o (by simp))
      · rwa [observe_of_not_mem _ _ _ (mt mem_joints_new.mp hmem)]

/-- An observation of a joint of the window is not newer than the newest stamp. -/
theorem le_stampNs_observeAll {windowNs : ℤ} {joints : List String} {obs : List (Observation F)}
    {o : Observation F} (ho : o ∈ obs) (hmem : o.joint ∈ joints) :
    o.sample.stampNs ≤ ((new windowNs joints : RollingWindow F).observeAll obs).stampNs := by
  induction obs using List.reverseRecOn with
  | nil => simp at ho
  | append_singleton obs o' ih =>
      rw [observeAll_concat]
      by_cases hmem' : o'.joint ∈ joints
      · rw [observe_stampNs _ _ _ (mem_joints_new.mpr hmem')]
        rcases List.mem_append.mp ho with ho | ho
        · exact le_max_of_le_left (ih ho)
        · obtain rfl : o = o' := by simpa using ho
          exact le_max_right _ _
      · rw [observe_of_not_mem _ _ _ (mt mem_joints_new.mp hmem')]
        rcases List.mem_append.mp ho with ho | ho
        · exact ih ho
        · obtain rfl : o = o' := by simpa using ho
          exact absurd hmem hmem'

end runs

/-! ## Snapshots -/

section snapshot

variable {F : Type}

/-- Every field of every joint has arrived. -/
def Complete (w : RollingWindow F) : Prop :=
  ∀ joint ∈ w.joints, ∀ field, (w.latest (joint, field)).isSome = true

/-- A complete window stays complete. -/
theorem Complete.observe {w : RollingWindow F} (h : w.Complete) (joint : String)
    (field : JointField) (sample : JointTelemetry F) : (w.observe joint field sample).Complete := by
  by_cases hmem : joint ∈ w.joints
  · intro j hj f
    rw [observe_joints] at hj
    rw [observe_latest w field sample hmem, Function.update_apply]
    split_ifs
    · rfl
    · exact h j hj f
  · rwa [observe_of_not_mem w field sample hmem]

variable [PyFloat F]

/-- The entry of a joint in a snapshot. -/
def EntryOf (w : RollingWindow F) (joint : String) (snap : JointSnapshot F) : Prop :=
  snap.name = joint ∧ w.latest (joint, .position) = some snap.positionRad ∧
    w.latest (joint, .velocity) = some snap.velocityRadS ∧
    w.latest (joint, .effort) = some snap.effortNm ∧ w.velocityRms joint = .ok snap.velocityRms

/-- An entry of a snapshot has the latest value of every field. -/
theorem EntryOf.latest {w : RollingWindow F} {joint : String} {snap : JointSnapshot F}
    (h : w.EntryOf joint snap) (field : JointField) :
    w.latest (joint, field) = some (snap.measured field) := by
  obtain ⟨-, hp, hv, he, -⟩ := h
  cases field with
  | position => exact hp
  | velocity => exact hv
  | effort => exact he

/-- The snapshot of a joint whose values and RMS are there goes before that of the others. -/
theorem snapshotFrom_cons {w : RollingWindow F} {joint : String} {joints : List String}
    {position velocity effort rms : F} {rest : Option (List (JointSnapshot F))}
    (hp : w.latest (joint, .position) = some position)
    (hv : w.latest (joint, .velocity) = some velocity)
    (he : w.latest (joint, .effort) = some effort) (hr : w.velocityRms joint = .ok rms)
    (hs : w.snapshotFrom joints = .ok rest) :
    w.snapshotFrom (joint :: joints) =
      .ok (rest.map (⟨joint, position, velocity, effort, rms⟩ :: ·)) := by
  rw [snapshotFrom, hp, hv, he, hr, hs]
  rfl

/-- A snapshot has one entry for each joint, in order. -/
theorem snapshotFrom_some {w : RollingWindow F} {joints : List String}
    {snaps : List (JointSnapshot F)} (h : w.snapshotFrom joints = .ok (some snaps)) :
    List.Forall₂ w.EntryOf joints snaps := by
  induction joints generalizing snaps with
  | nil =>
      obtain rfl : [] = snaps := by simpa [snapshotFrom] using h
      exact .nil
  | cons joint joints ih =>
      rw [snapshotFrom] at h
      split at h
      · rename_i position velocity effort hp hv he
        obtain ⟨rms, hr, h⟩ := bind_eq_ok_iff.mp h
        obtain ⟨rest, hs, h⟩ := bind_eq_ok_iff.mp h
        obtain ⟨rest, rfl, rfl⟩ := Option.map_eq_some_iff.mp (Except.ok.inj h)
        exact .cons ⟨rfl, hp, hv, he, hr⟩ (ih hs)
      · simp at h

/-- A snapshot lists the joints of the window in order, with their latest values. -/
theorem snapshot_some {w : RollingWindow F} {snaps : List (JointSnapshot F)}
    (h : w.snapshot = .ok (some snaps)) : List.Forall₂ w.EntryOf w.joints snaps :=
  snapshotFrom_some h

/-- The names of a snapshot are the joints of the window. -/
theorem snapshot_names {w : RollingWindow F} {snaps : List (JointSnapshot F)}
    (h : w.snapshot = .ok (some snaps)) : snaps.map JointSnapshot.name = w.joints := by
  have hall := snapshot_some h
  clear h
  generalize w.joints = joints at hall ⊢
  induction hall with
  | nil => rfl
  | cons hentry _ ih => rw [List.map_cons, ih, hentry.1]

/-- Every entry of a snapshot is the entry of its own joint. -/
theorem entryOf_of_mem {w : RollingWindow F} {snaps : List (JointSnapshot F)}
    (h : w.snapshot = .ok (some snaps)) {snap : JointSnapshot F} (hmem : snap ∈ snaps) :
    snap.name ∈ w.joints ∧ w.EntryOf snap.name snap := by
  have hall := snapshot_some h
  clear h
  generalize w.joints = joints at hall ⊢
  induction hall with
  | nil => simp at hmem
  | cons hentry _ ih =>
      rcases List.mem_cons.mp hmem with rfl | hmem
      · refine ⟨?_, ?_⟩
        · rw [hentry.1]
          exact List.mem_cons_self ..
        · rw [hentry.1]
          exact hentry
      · exact ⟨List.mem_cons_of_mem _ (ih hmem).1, (ih hmem).2⟩

/-- If every RMS returns, so does the snapshot, and there is one when every channel has a value. -/
theorem snapshotFrom_of_rms {w : RollingWindow F} (hrms : ∀ j, ∃ r, w.velocityRms j = .ok r)
    (joints : List String) :
    ∃ snaps, w.snapshotFrom joints = .ok snaps ∧
      (snaps.isSome = true ↔
        ∀ joint ∈ joints, ∀ field, (w.latest (joint, field)).isSome = true) := by
  induction joints with
  | nil => exact ⟨_, rfl, by simp⟩
  | cons joint joints ih =>
      obtain ⟨rest, hrest, hiff⟩ := ih
      obtain ⟨rms, hr⟩ := hrms joint
      by_cases hjoint : ∀ field, (w.latest (joint, field)).isSome = true
      · obtain ⟨p, hp⟩ := Option.isSome_iff_exists.mp (hjoint .position)
        obtain ⟨v, hv⟩ := Option.isSome_iff_exists.mp (hjoint .velocity)
        obtain ⟨e, he⟩ := Option.isSome_iff_exists.mp (hjoint .effort)
        refine ⟨_, snapshotFrom_cons hp hv he hr hrest, ?_⟩
        rw [Option.isSome_map, hiff, List.forall_mem_cons]
        exact ⟨fun h => ⟨hjoint, h⟩, fun h => h.2⟩
      · refine ⟨none, ?_, ?_⟩
        · rw [snapshotFrom]
          split
          · rename_i p v e hp hv he
            refine absurd ?_ hjoint
            rintro (_ | _ | _)
            · simp [hp]
            · simp [hv]
            · simp [he]
          · rfl
        · rw [List.forall_mem_cons]
          exact ⟨fun h => absurd h (by simp), fun h => absurd h.1 hjoint⟩

/-- Where the RMS of every joint is a value, `snapshot` returns, and none exactly while the window
is not complete. -/
theorem snapshot_of_rms {w : RollingWindow F} (hrms : ∀ j, ∃ r, w.velocityRms j = .ok r) :
    ∃ snaps, w.snapshot = .ok snaps ∧ (snaps.isSome = true ↔ w.Complete) :=
  snapshotFrom_of_rms hrms w.joints

end snapshot

/-! ## The RMS is a value -/

/-- No history of doubles makes the RMS raise: a sum of squares is not negative. -/
theorem velocityRms_double [CPython] (w : RollingWindow Double) (joint : String) :
    ∃ r, w.velocityRms joint = .ok r := by
  unfold velocityRms
  simp only
  split_ifs with hempty
  · exact ⟨_, rfl⟩
  · have hlen : ¬ Double.ofRat (w.velocities joint).length < .finite Double.one := by
      rw [Double.ofRat_lt_finite, not_lt]
      apply Double.le_round
      rw [Double.one_val]
      exact_mod_cast List.length_pos_of_ne_nil (by simpa using hempty)
    have hpos : .finite Double.zero < Double.ofRat (w.velocities joint).length := by
      rw [Double.finite_lt_ofRat, Double.zero_val]
      rw [Double.ofRat_lt_finite, Double.one_val] at hlen
      linarith
    have hsum : ¬ PyFloat.sum ((w.velocities joint).map fun p => p.2 * p.2) <
        .finite Double.zero := by
      apply CPython.sum_not_neg
      intro x hx
      obtain ⟨p, -, rfl⟩ := List.mem_map.mp hx
      exact Double.not_mul_self_lt_zero p.2
    obtain ⟨mean, hmean⟩ := Double.exists_div
      (PyFloat.sum ((w.velocities joint).map fun p => p.2 * p.2))
      (Double.not_isZero_of_not_lt_one hlen)
    obtain ⟨root, hroot⟩ := Double.exists_sqrt (Double.not_div_lt_zero hsum hpos hmean)
    refine ⟨root, ?_⟩
    rw [lit_double, truediv_double hmean]
    exact sqrt_double hroot

/-- A complete window of doubles has a snapshot. -/
theorem Complete.exists_snapshot [CPython] {w : RollingWindow Double} (h : w.Complete) :
    ∃ snaps, w.snapshot = .ok (some snaps) := by
  obtain ⟨snaps, hsnaps, hiff⟩ := snapshot_of_rms (velocityRms_double w)
  obtain ⟨snaps, rfl⟩ := Option.isSome_iff_exists.mp (hiff.mpr h)
  exact ⟨snaps, hsnaps⟩

/-- The RMS in exact arithmetic. -/
theorem velocityRms_real (w : RollingWindow ℝ) (joint : String) (h : w.velocities joint ≠ []) :
    w.velocityRms joint = .ok (Real.sqrt
      (((w.velocities joint).map fun p => p.2 * p.2).sum / (w.velocities joint).length)) := by
  have hlen : ((w.velocities joint).length : ℝ) ≠ 0 := by
    simpa using h
  have hsum : 0 ≤ ((w.velocities joint).map fun p => p.2 * p.2).sum := by
    apply List.sum_nonneg
    intro x hx
    obtain ⟨p, -, rfl⟩ := List.mem_map.mp hx
    exact mul_self_nonneg p.2
  unfold velocityRms
  simp only [List.isEmpty_iff, h, if_false, sum_real, lit_real, Rat.cast_natCast]
  rw [truediv_real hlen]
  exact sqrt_real (div_nonneg hsum (Nat.cast_nonneg _))

/-- No history of reals makes the RMS raise. -/
theorem exists_velocityRms_real (w : RollingWindow ℝ) (joint : String) :
    ∃ r, w.velocityRms joint = .ok r := by
  by_cases h : w.velocities joint = []
  · exact ⟨PyFloat.lit 0, if_pos (by simp [h])⟩
  · exact ⟨_, w.velocityRms_real joint h⟩

end RollingWindow

end TwinServices.State
