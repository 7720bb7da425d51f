import TwinServices.State.ArrivalOrder
import TwinServices.System.TelemetryPath

/-!
# The bridge and state-svc compose to the identity

The bridge takes a joint state apart into one message per joint per field; the consumer puts it
together again from whatever order the broker delivers the messages in.

* `deliver`: the consumer after it has received messages one after the other.
* `readings`: the observations that the consumer makes of the messages of a joint state, one for
  each channel of the arm.
* `compose_identity`: the messages of a joint state that covers the arm leave one window in every
  order, and its snapshot is the joint state.
-/

set_option autoImplicit false

namespace TwinServices.System

open TwinServices.Python TwinServices.Contracts TwinServices.Bridge TwinServices.State
open Lib.Binary64

/-- What is picked from a list, under a key that its origin has too, is part of the keys. -/
theorem filterMap_map_sublist {α β γ : Type} {pick : α → Option β} {key : β → γ} {key' : α → γ}
    (h : ∀ a b, pick a = some b → key b = key' a) (l : List α) :
    ((l.filterMap pick).map key).Sublist (l.map key') := by
  induction l with
  | nil => exact .slnil
  | cons a l ih =>
      rcases hpick : pick a with _ | b
      · rw [List.filterMap_cons_none hpick]
        exact ih.cons _
      · rw [List.filterMap_cons_some hpick, List.map_cons, List.map_cons, h a b hpick]
        exact ih.cons_cons _

section composition

variable [Pydantic]

/-- The consumer after it has received the messages, in their order.
Source: `consumer.py`, `Consumer._observe` -/
def deliver (c : Consumer) (messages : List (String × String)) : Consumer :=
  messages.foldl (fun c p => c.observe p.1 (.ofText p.2)) c

/-- The observation that the consumer makes of a message, if any.
Source: `consumer.py`, `Consumer._observe` -/
def reading (p : String × String) : Option (RollingWindow.Observation Double) :=
  folded (.message p.1 (.ofText p.2))

/-- The window takes the observations that the consumer makes of the messages. -/
theorem window_deliver (c : Consumer) (messages : List (String × String)) :
    (deliver c messages).window = c.window.observeAll (messages.filterMap reading) := by
  induction messages generalizing c with
  | nil => rfl
  | cons p messages ih =>
      rw [deliver, List.foldl_cons]
      apply (ih (c.observe p.1 (.ofText p.2))).trans
      rcases hcheck : checkMessage p.1 (.ofText p.2) with reason | ⟨joint, field, sample⟩
      · have hread : reading p = none := by
          simp only [reading, folded, hcheck]
        rw [observe_rejected hcheck, List.filterMap_cons_none hread]
      · have hread : reading p = some ⟨joint, field, sample⟩ := folded_message hcheck
        rw [observe_accepted hcheck, List.filterMap_cons_some hread]
        rfl

/-- The readings of the messages of a joint state. -/
def readings (asset : String) (msg : JointStateMessage Double) :
    List (RollingWindow.Observation Double) := (publishJointStates msg asset).filterMap reading

/-- The readings of a joint state are those read back from its samples. -/
theorem readings_eq (asset : String) (msg : JointStateMessage Double) :
    readings asset msg = (samples asset msg).filterMap readBack := by
  unfold readings publishJointStates
  rw [List.filterMap_map]
  rfl

/-- The readings are the entries of the arm's joints, where they are finite. -/
theorem mem_readings {asset : String} (hasset : IsLevel asset) {msg : JointStateMessage Double}
    (hmatch : msg.fieldLengthsMatch = true) {o : RollingWindow.Observation Double} :
    o ∈ readings asset msg ↔ ∃ entry ∈ msg.entries, entry.1 ∈ ur5JointNames ∧
      ∃ field, (entryValue entry field).isFinite = true ∧
        o = ⟨entry.1, field, .new (entryValue entry field) msg.stampNs⟩ := by
  rw [readings_eq, List.mem_filterMap]
  constructor
  · rintro ⟨p, hp, hread⟩
    obtain ⟨-, entry, hentry, field, rfl⟩ := mem_samples.mp hp
    obtain ⟨-, hjoint, hfinite, rfl⟩ := readBack_telemetryTopic_iff.mp hread
    exact ⟨entry, hentry, hjoint, field, hfinite, rfl⟩
  · rintro ⟨entry, hentry, hjoint, field, hfinite, rfl⟩
    exact ⟨_, mem_samples.mpr ⟨hmatch, entry, hentry, field, rfl⟩,
      readBack_telemetryTopic_iff.mpr ⟨hasset, hjoint, hfinite, rfl⟩⟩

omit [Pydantic] in
/-- The samples of a joint state, one for each entry and field. -/
theorem samples_eq_product {asset : String} {msg : JointStateMessage Double}
    (hmatch : msg.fieldLengthsMatch = true) :
    samples asset msg = (msg.entries ×ˢ JointField.members).map fun q =>
      (telemetryTopic asset q.1.1 q.2, .new (entryValue q.1 q.2) msg.stampNs) := by
  unfold samples
  rw [if_pos hmatch]
  simp only [SProd.sprod, List.product, List.map_flatMap, List.map_map]
  rfl

/-- Where the names are distinct, there is at most one reading for each channel. -/
theorem nodup_readings (asset : String) {msg : JointStateMessage Double}
    (hmatch : msg.fieldLengthsMatch = true) (hnodup : msg.names.Nodup) :
    ((readings asset msg).map RollingWindow.Observation.channel).Nodup := by
  have hmembers : JointField.members.Nodup := by decide
  have hproduct : (msg.names ×ˢ JointField.members).Nodup := hnodup.product hmembers
  have hchannels : (msg.entries ×ˢ JointField.members).map (fun q => (q.1.1, q.2)) =
      msg.names ×ˢ JointField.members := by
    rw [← JointStateMessage.entries_names hmatch]
    simp only [SProd.sprod, List.product, List.map_flatMap, List.map_map, List.flatMap_map]
    rfl
  rw [← hchannels] at hproduct
  rw [readings_eq, samples_eq_product hmatch, List.filterMap_map]
  refine hproduct.sublist (filterMap_map_sublist ?_ _)
  intro q o hread
  obtain ⟨-, -, -, rfl⟩ := readBack_telemetryTopic_iff.mp hread
  rfl

omit [Pydantic] in
/-- Every name of a joint state has an entry. -/
theorem exists_entry_of_name {msg : JointStateMessage Double}
    (hmatch : msg.fieldLengthsMatch = true) {joint : String} (h : joint ∈ msg.names) :
    ∃ entry ∈ msg.entries, entry.1 = joint := by
  rwa [← List.mem_map, JointStateMessage.entries_names hmatch]

/-- Where all values are finite, every entry of a joint of the arm is read on every field. -/
theorem exists_reading {asset : String} (hasset : IsLevel asset) {msg : JointStateMessage Double}
    (hmatch : msg.fieldLengthsMatch = true) (hfinite : ∀ x ∈ msg.values, x.isFinite = true)
    {entry : String × Double × Double × Double} (hentry : entry ∈ msg.entries)
    (hjoint : entry.1 ∈ ur5JointNames) (field : JointField) :
    (⟨entry.1, field, .new (entryValue entry field) msg.stampNs⟩ :
      RollingWindow.Observation Double) ∈ readings asset msg := by
  rw [mem_readings hasset hmatch]
  refine ⟨entry, hentry, hjoint, field, hfinite _ ?_, rfl⟩
  rw [mem_values_iff asset hmatch]
  exact ⟨_, mem_samples.mpr ⟨hmatch, entry, hentry, field, rfl⟩, rfl⟩

/-- After the readings of a joint state, the latest values of a joint are those of its entry. -/
theorem entryValue_of_latest {asset : String} (hasset : IsLevel asset)
    {msg : JointStateMessage Double} (hmatch : msg.fieldLengthsMatch = true)
    (hfinite : ∀ x ∈ msg.values, x.isFinite = true) (hnodup : msg.names.Nodup)
    {w : RollingWindow Double} (hjoints : w.joints = ur5JointNames)
    {entry : String × Double × Double × Double} (hentry : entry ∈ msg.entries)
    (hjoint : entry.1 ∈ ur5JointNames) {field : JointField} {x : Double}
    (hx : (w.observeAll (readings asset msg)).latest (entry.1, field) = some x) :
    x = entryValue entry field := by
  rw [← List.nil_append (readings asset msg)] at hx
  obtain ⟨o, ho, hname, hfield, rfl⟩ := RollingWindow.exists_observation_of_latest_append
    (by rwa [hjoints]) ⟨_, exists_reading hasset hmatch hfinite hentry hjoint field, rfl, rfl⟩ hx
  obtain ⟨entry', hentry', -, field', -, rfl⟩ := (mem_readings hasset hmatch).mp ho
  obtain rfl : field' = field := hfield
  -- the names are distinct, so it is the same entry
  rw [← JointStateMessage.entries_names hmatch] at hnodup
  rw [List.inj_on_of_nodup_map hnodup hentry' hentry hname]
  rfl

variable [CPython]

/-- **The bridge and state-svc compose to the identity.** The messages of a joint state with finite
values and distinct names that cover the arm leave one window over the arm, in whatever order they
are delivered. Its snapshot lists the joints of the arm in contract order, each with its entry in
the joint state, and its stamp is the newer of the old one and the joint state's.
Source: `main.py`, `publish_joint_states`; `consumer.py`, `Consumer._observe`; `window.py`,
`RollingWindow` -/
theorem compose_identity {c : Consumer} (hjoints : c.window.joints = ur5JointNames)
    {asset : String} (hasset : IsLevel asset) {msg : JointStateMessage Double}
    (hmatch : msg.fieldLengthsMatch = true) (hfinite : ∀ x ∈ msg.values, x.isFinite = true)
    (hnodup : msg.names.Nodup) (harm : ∀ joint ∈ ur5JointNames, joint ∈ msg.names) :
    ∃ w snaps,
      (∀ messages, messages.Perm (publishJointStates msg asset) →
        (deliver c messages).window = w) ∧
      w.snapshot = .ok (some snaps) ∧ snaps.map JointSnapshot.name = ur5JointNames ∧
      (∀ snap ∈ snaps,
        (snap.name, snap.positionRad, snap.velocityRadS, snap.effortNm) ∈ msg.entries) ∧
      w.stampNs = max c.window.stampNs msg.stampNs := by
  have hstamp : ∀ o ∈ readings asset msg, o.sample.stampNs = msg.stampNs := by
    intro o ho
    obtain ⟨-, -, -, -, -, rfl⟩ := (mem_readings hasset hmatch).mp ho
    rfl
  have hread : ∀ joint ∈ ur5JointNames, ∀ field, ∃ o ∈ readings asset msg,
      o.joint = joint ∧ o.field = field := by
    intro joint hjoint field
    obtain ⟨entry, hmem, rfl⟩ := exists_entry_of_name hmatch (harm joint hjoint)
    exact ⟨_, exists_reading hasset hmatch hfinite hmem hjoint field, rfl, rfl⟩
  have hjoints' : (c.window.observeAll (readings asset msg)).joints = ur5JointNames := by
    rw [RollingWindow.observeAll_joints, hjoints]
  have hcomplete : (c.window.observeAll (readings asset msg)).Complete := by
    intro joint hjoint field
    rw [hjoints'] at hjoint
    obtain ⟨o, ho, rfl, rfl⟩ := hread joint hjoint field
    exact RollingWindow.isSome_latest_observeAll ho (by rwa [hjoints])
  obtain ⟨snaps, hsnaps⟩ := hcomplete.exists_snapshot
  refine ⟨c.window.observeAll (readings asset msg), snaps, ?_, hsnaps, ?_, ?_, ?_⟩
  · intro messages hperm
    rw [window_deliver]
    exact (RollingWindow.observeAll_perm (hperm.filterMap reading).symm hstamp
      (nodup_readings asset hmatch hnodup) c.window).symm
  · rw [RollingWindow.snapshot_names hsnaps, hjoints']
  · intro snap hsnap
    obtain ⟨hmem, hof⟩ := RollingWindow.entryOf_of_mem hsnaps hsnap
    rw [hjoints'] at hmem
    obtain ⟨entry, hentry, hname⟩ := exists_entry_of_name hmatch (harm snap.name hmem)
    have hvalue : ∀ field, snap.measured field = entryValue entry field := by
      intro field
      apply entryValue_of_latest hasset hmatch hfinite hnodup hjoints hentry (by rwa [hname])
      rw [hname]
      exact hof.latest field
    obtain ⟨name, position, velocity, effort⟩ := entry
    obtain rfl : name = snap.name := hname
    rwa [show snap.positionRad = position from hvalue .position,
      show snap.velocityRadS = velocity from hvalue .velocity,
      show snap.effortNm = effort from hvalue .effort]
  · obtain ⟨o, ho, hjoint, -⟩ := hread "elbow_joint" (by decide) .position
    apply RollingWindow.stampNs_observeAll_of_stamp hstamp
    refine ⟨o, ho, ?_⟩
    rw [hjoint, hjoints]
    decide

end composition

/-! ### A joint state of the whole arm -/

section platform

attribute [local instance] CPython.series Pydantic.decimal

/-- The messages of the first joint state in any order make one window. -/
theorem compose_identity_first :
    ∃ w snaps,
      (∀ messages, messages.Perm (publishJointStates first "ur5") →
        (deliver consumerInit messages).window = w) ∧
      w.snapshot = .ok (some snaps) ∧ snaps.map JointSnapshot.name = ur5JointNames ∧
      (∀ snap ∈ snaps,
        (snap.name, snap.positionRad, snap.velocityRadS, snap.effortNm) ∈ first.entries) ∧
      w.stampNs = max consumerInit.window.stampNs first.stampNs := by
  apply compose_identity rfl (by decide) rfl
  · intro x hx
    obtain ⟨p, hp, rfl⟩ := (mem_values_iff "ur5" rfl x).mp hx
    obtain ⟨joint, -, field, rfl⟩ := mem_samples_allEqual.mp hp
    rfl
  · decide
  · exact fun _ h => h

end platform

end TwinServices.System
