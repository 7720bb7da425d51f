import TwinServices.Bridge.Main
import TwinServices.State.Consumer

/-!
# The path of telemetry

From the joint states that the bridge publishes, one message per joint per field, over the broker to
the states that state-svc publishes. The messages of a joint state and the ticks of the broadcast
interleave, so a tick can find a joint state delivered in part.

* `wire`, `deliveries`: what the bridge sends, and what a run of the consumer got of it.
* `Coherent`: the state is that of one joint state.
* `published_states_coherent`: every published state is coherent if every tick that publishes finds
  the current joint state delivered as a whole.
* `torn_state`: one message of the next joint state before a tick is enough for a state that is not.
-/

set_option autoImplicit false

namespace TwinServices.System

open TwinServices.Python TwinServices.Contracts TwinServices.Bridge TwinServices.State
open Lib.Transition Lib.Binary64

/-! ## From the bridge to the window -/

/-- The messages that a run delivered, in order. -/
def deliveries (l : List Event) : List (String × Payload) :=
  l.filterMap fun e => match e with
    | .message topic payload => some (topic, payload)
    | _ => none

section path

variable [Pydantic]

/-- What the bridge sends for joint states, in order.
Source: `main.py`, `publish_joint_states` -/
def wire (asset : String) (msgs : List (JointStateMessage Double)) : List (String × Payload) :=
  (msgs.flatMap fun msg => publishJointStates msg asset).map fun p => (p.1, .ofText p.2)

/-- What is sent is the dumped samples under their topics.
Source: `main.py`, `publish_joint_states` -/
theorem wire_eq (asset : String) (msgs : List (JointStateMessage Double)) :
    wire asset msgs =
      (msgs.flatMap (samples asset)).map fun p => (p.1, .ofText p.2.modelDumpJson) := by
  unfold wire publishJointStates
  rw [← List.map_flatMap, List.map_map]
  rfl

omit [Pydantic] in
/-- The samples behind the messages that a run delivered. -/
def delivered (asset : String) (msgs : List (JointStateMessage Double)) (l : List Event) :
    List (String × JointTelemetry Double) :=
  (msgs.flatMap (samples asset)).take (deliveries l).length

/-- The observation that the consumer makes of a sample that was sent, if any.
Source: `consumer.py`, `Consumer._observe` -/
def readBack (p : String × JointTelemetry Double) : Option (RollingWindow.Observation Double) :=
  folded (.message p.1 (.ofText p.2.modelDumpJson))

/-- A sample is observed as it was sent, and only on a level of the arm and with a finite value. -/
theorem readBack_telemetryTopic_iff {asset joint : String} {field : JointField} {x : Double}
    {stampNs : ℕ} {o : RollingWindow.Observation Double} :
    readBack (telemetryTopic asset joint field, .new x stampNs) = some o ↔
      IsLevel asset ∧ joint ∈ ur5JointNames ∧ x.isFinite = true ∧
        o = ⟨joint, field, .new x stampNs⟩ := by
  constructor
  · intro h
    simp only [readBack, folded] at h
    split at h
    · rename_i joint' field' sample hcheck
      obtain ⟨⟨asset', hparse⟩, hjoint, hvalid⟩ := checkMessage_ok hcheck
      obtain ⟨hasset, -, heq⟩ := parseTelemetryTopic_telemetryTopic.mp hparse
      obtain ⟨rfl, rfl, rfl⟩ : asset' = asset ∧ joint' = joint ∧ field' = field := by
        simpa using heq
      obtain ⟨rfl, hfinite⟩ := JointTelemetry.eq_of_roundTrip hvalid
      exact ⟨hasset, hjoint, hfinite, (Option.some.inj h).symm⟩
    · cases h
  · rintro ⟨hasset, hjoint, hfinite, rfl⟩
    exact folded_message (checkMessage_telemetryTopic hasset hjoint field
      ((JointTelemetry.roundTrip_iff _).mpr hfinite))

/-- What is read back is the sample as it was sent, with a finite value. -/
theorem readBack_sample {p : String × JointTelemetry Double}
    {o : RollingWindow.Observation Double} (h : readBack p = some o) :
    o.sample = p.2 ∧ p.2.value.isFinite = true := by
  simp only [readBack, folded] at h
  split at h
  · rename_i joint field sample hcheck
    obtain ⟨rfl, hfinite⟩ := JointTelemetry.eq_of_roundTrip (checkMessage_ok hcheck).2.2
    exact ⟨by rw [← Option.some.inj h], hfinite⟩
  · cases h

/-- The consumer folds the samples that were delivered to it. -/
theorem filterMap_folded {asset : String} {msgs : List (JointStateMessage Double)} {l : List Event}
    (h : deliveries l <+: wire asset msgs) :
    l.filterMap folded = (delivered asset msgs l).filterMap readBack := by
  have hdeliveries : deliveries l =
      (delivered asset msgs l).map fun p => (p.1, .ofText p.2.modelDumpJson) := by
    have htake := List.prefix_iff_eq_take.mp h
    rwa [wire_eq, ← List.map_take] at htake
  have hfolded : l.filterMap folded =
      (deliveries l).filterMap fun d => folded (.message d.1 d.2) := by
    unfold deliveries
    rw [List.filterMap_filterMap]
    congr 1
    funext e
    cases e <;> rfl
  rw [hfolded, hdeliveries, List.filterMap_map]
  rfl

/-! ## Coherent states -/

/-- The value of a field in the entry of a published state. -/
def stateValue (joint : JointState Double) : JointField → Double
  | .position => joint.positionRad
  | .velocity => joint.velocityRadS
  | .effort => joint.effortNm

/-- A joint state from which something is published for every joint of the arm. -/
def CoversArm (msg : JointStateMessage Double) : Prop :=
  msg.fieldLengthsMatch = true ∧ ∀ joint ∈ ur5JointNames, joint ∈ msg.names

/-- The state is that of one joint state: it has its stamp, and lists the joints of the arm with the
position, velocity and effort that it gives them. -/
def Coherent (msgs : List (JointStateMessage Double)) (state : TwinState Double) : Prop :=
  ∃ msg ∈ msgs, state.stampNs = msg.stampNs ∧ state.joints.map JointState.name = ur5JointNames ∧
    ∀ joint ∈ state.joints, ∀ field, ∃ entry ∈ msg.entries,
      entry.1 = joint.name ∧ entryValue entry field = stateValue joint field

/-- The samples that were delivered are those of some joint states, then of a last one enough to
cover every channel of the arm with a finite value, and after these none for the arm. The joint
states before the last one are not newer. -/
def Whole (asset : String) (msgs : List (JointStateMessage Double))
    (sent : List (String × JointTelemetry Double)) : Prop :=
  ∃ earlier msg later part rest, msgs = earlier ++ msg :: later ∧
    sent = earlier.flatMap (samples asset) ++ part ++ rest ∧ part <+: samples asset msg ∧
    (∀ joint ∈ ur5JointNames, ∀ field, ∃ x, x.isFinite = true ∧
      (telemetryTopic asset joint field, .new x msg.stampNs) ∈ part) ∧
    (∀ joint ∈ ur5JointNames, ∀ field, telemetryTopic asset joint field ∉ rest.map Prod.fst) ∧
    ∀ msg' ∈ earlier, msg'.stampNs ≤ msg.stampNs

/-- An observation of a sent sample has its topic and is that of an entry. -/
theorem exists_entry_of_readBack {asset : String} {msg : JointStateMessage Double}
    {p : String × JointTelemetry Double} (hp : p ∈ samples asset msg)
    {o : RollingWindow.Observation Double} (ho : readBack p = some o) :
    IsLevel asset ∧ o.joint ∈ ur5JointNames ∧ p.1 = telemetryTopic asset o.joint o.field ∧
      o.sample.stampNs = msg.stampNs ∧
      ∃ entry ∈ msg.entries, entry.1 = o.joint ∧ entryValue entry o.field = o.sample.value := by
  obtain ⟨-, entry, hentry, field, rfl⟩ := mem_samples.mp hp
  obtain ⟨hasset, hjoint, -, rfl⟩ := readBack_telemetryTopic_iff.mp ho
  exact ⟨hasset, hjoint, rfl, rfl, entry, hentry, rfl, rfl⟩

omit [Pydantic] in
/-- A published value is the latest one of its channel. -/
theorem latest_of_entryOf [CPython] {w : RollingWindow Double} {joint : String}
    {snap : JointSnapshot Double} (h : w.EntryOf joint snap) (field : JointField) :
    w.latest (joint, field) = some (stateValue (.ofSnapshot snap) field) := by
  have hvalue : stateValue (.ofSnapshot snap) field = snap.measured field := by
    cases field <;> rfl
  rw [hvalue]
  exact h.latest field

/-- What is observed of the samples of some joint states is an entry of one of them. -/
theorem exists_entry_of_mem {asset : String} {msgs : List (JointStateMessage Double)}
    {sent : List (String × JointTelemetry Double)} (hsent : sent ⊆ msgs.flatMap (samples asset))
    {o : RollingWindow.Observation Double} (ho : o ∈ sent.filterMap readBack) :
    IsLevel asset ∧ ∃ msg ∈ msgs, o.sample.stampNs = msg.stampNs ∧
      ∃ entry ∈ msg.entries, entry.1 = o.joint ∧ entryValue entry o.field = o.sample.value := by
  obtain ⟨p, hp, hread⟩ := List.mem_filterMap.mp ho
  obtain ⟨msg, hmsg, hp'⟩ := List.mem_flatMap.mp (hsent hp)
  obtain ⟨hasset, -, -, hstamp, hentry⟩ := exists_entry_of_readBack hp' hread
  exact ⟨hasset, msg, hmsg, hstamp, hentry⟩

/-- A window that the samples complete has observed one of them, so the asset is a level. -/
theorem isLevel_of_complete {asset : String} {windowNs : ℤ}
    {msgs : List (JointStateMessage Double)} {sent : List (String × JointTelemetry Double)}
    (hsent : sent ⊆ msgs.flatMap (samples asset))
    (hcomplete : ((RollingWindow.new windowNs ur5JointNames).observeAll
      (sent.filterMap readBack)).Complete) : IsLevel asset := by
  have hjoint : "elbow_joint" ∈ (RollingWindow.new windowNs ur5JointNames :
      RollingWindow Double).joints := by simp [RollingWindow.new, ur5JointNames]
  have hjoint' := hjoint
  rw [← RollingWindow.observeAll_joints _ (sent.filterMap readBack)] at hjoint'
  obtain ⟨x, hx⟩ := Option.isSome_iff_exists.mp (hcomplete "elbow_joint" hjoint' .position)
  obtain ⟨o, ho, -⟩ := RollingWindow.exists_observation_of_latest hjoint rfl hx
  exact (exists_entry_of_mem hsent ho).1

/-- Nothing is observed of samples on other topics than those of the arm. -/
theorem filterMap_readBack_eq_nil {asset : String} {msgs : List (JointStateMessage Double)}
    {sent : List (String × JointTelemetry Double)} (hsent : sent ⊆ msgs.flatMap (samples asset))
    (htopics : ∀ joint ∈ ur5JointNames, ∀ field,
      telemetryTopic asset joint field ∉ sent.map Prod.fst) : sent.filterMap readBack = [] := by
  rw [List.filterMap_eq_nil_iff]
  intro p hp
  by_contra hsome
  obtain ⟨o, ho⟩ := Option.ne_none_iff_exists'.mp hsome
  obtain ⟨msg, -, hp'⟩ := List.mem_flatMap.mp (hsent hp)
  obtain ⟨-, hjoint, htopic, -⟩ := exists_entry_of_readBack hp' ho
  exact htopics o.joint hjoint o.field (htopic ▸ List.mem_map_of_mem hp)

variable [CPython]

/-- **A whole joint state makes a coherent state.** Its samples come last on every channel of the
arm, and no stamp is newer. -/
theorem coherent_of_whole {asset assetName : String} {rmsWindowS : Double} {windowNs : ℤ}
    {msgs : List (JointStateMessage Double)} {sent : List (String × JointTelemetry Double)}
    (hsent : sent ⊆ msgs.flatMap (samples asset)) (hwhole : Whole asset msgs sent)
    {state : TwinState Double}
    (hbuild : buildState assetName ((RollingWindow.new windowNs ur5JointNames).observeAll
      (sent.filterMap readBack)) rmsWindowS = .ok (some state)) :
    Coherent msgs state := by
  have hasset := isLevel_of_complete hsent ((isSome_buildState_iff hbuild).mp rfl)
  obtain ⟨earlier, msg, later, part, rest, hmsgs, rfl, hpart, hcovers, hrest, hstamps⟩ := hwhole
  have hnone : rest.filterMap readBack = [] :=
    filterMap_readBack_eq_nil (List.append_subset.mp hsent).2 hrest
  rw [List.filterMap_append, List.filterMap_append, hnone, List.append_nil] at hbuild
  have hbefore : ∀ o ∈ (earlier.flatMap (samples asset)).filterMap readBack,
      o.sample.stampNs ≤ msg.stampNs := by
    intro o ho
    obtain ⟨-, msg', hmsg', hstamp, -⟩ := exists_entry_of_mem (List.Subset.refl _) ho
    exact hstamp ▸ hstamps msg' hmsg'
  have hnow : ∀ o ∈ part.filterMap readBack, o.sample.stampNs = msg.stampNs ∧
      ∃ entry ∈ msg.entries, entry.1 = o.joint ∧ entryValue entry o.field = o.sample.value := by
    intro o ho
    have hsub : part ⊆ [msg].flatMap (samples asset) := by
      simpa using hpart.subset
    obtain ⟨-, msg', hmsg', hstamp, hentry⟩ := exists_entry_of_mem hsub ho
    obtain rfl := List.mem_singleton.mp hmsg'
    exact ⟨hstamp, hentry⟩
  have hchannel : ∀ joint ∈ ur5JointNames, ∀ field,
      ∃ o ∈ part.filterMap readBack, o.joint = joint ∧ o.field = field := by
    intro joint hjoint field
    obtain ⟨x, hfinite, hp⟩ := hcovers joint hjoint field
    refine ⟨⟨joint, field, .new x msg.stampNs⟩, List.mem_filterMap.mpr ⟨_, hp, ?_⟩, rfl, rfl⟩
    exact readBack_telemetryTopic_iff.mpr ⟨hasset, hjoint, hfinite, rfl⟩
  obtain ⟨snaps, pose, hsnap, -, -, rfl⟩ := buildState_some hbuild
  refine ⟨msg, by simp [hmsgs], ?_, ?_, ?_⟩
  · apply le_antisymm
    · apply RollingWindow.stampNs_observeAll_le
      intro o ho
      rcases List.mem_append.mp ho with ho | ho
      · exact hbefore o ho
      · exact (hnow o ho).1.le
    · obtain ⟨o, ho, hjoint, -⟩ := hchannel "elbow_joint" (by decide) .position
      rw [← (hnow o ho).1]
      exact RollingWindow.le_stampNs_observeAll (List.mem_append_right _ ho) (hjoint ▸ by decide)
  · have hnames := RollingWindow.snapshot_names hsnap
    rw [RollingWindow.observeAll_joints] at hnames
    simp only [List.map_map]
    exact hnames
  · intro joint hjoint field
    obtain ⟨snap, hsnap', rfl⟩ := List.mem_map.mp hjoint
    obtain ⟨hmem, hentry⟩ := RollingWindow.entryOf_of_mem hsnap hsnap'
    rw [RollingWindow.observeAll_joints] at hmem
    obtain ⟨o, ho, hname, rfl, hvalue⟩ := RollingWindow.exists_observation_of_latest_append hmem
      (hchannel snap.name hmem field) (latest_of_entryOf hentry field)
    obtain ⟨-, entry, hentry, hname', hvalue'⟩ := hnow o ho
    exact ⟨entry, hentry, hname'.trans hname, hvalue'.trans hvalue⟩

/-! ## Every published state -/

/-- **When published states are coherent.** Let the messages of a run be those that the bridge
publishes for joint states, in order and without loss, up to some message. If every tick that finds
the window marked and complete finds the current joint state delivered as a whole, then every state
that is published is that of one joint state, the one with its stamp.
Source: `main.py`, `publish_joint_states`; `window.py`, `RollingWindow`; `consumer.py`,
`Consumer._broadcast_forever` -/
theorem published_states_coherent {asset assetName : String} {rmsWindowS : Double} {windowNs : ℤ}
    {msgs : List (JointStateMessage Double)} {l : List Event}
    (hdeliveries : deliveries l <+: wire asset msgs)
    (hticks : ∀ l' c, l' ++ [.tick] <+: l →
      Run step (Consumer.init assetName rmsWindowS windowNs) l' c →
      c.dirty = true → c.window.Complete → Whole asset msgs (delivered asset msgs l')) :
    Throughout step (Consumer.init assetName rmsWindowS windowNs)
      (fun c => ∀ state, c.hub.latest = some state → Coherent msgs state) l := by
  intro l' c hp hrun
  refine hrun.history (I := fun l' c => l' <+: l →
    ∀ state, c.hub.latest = some state → Coherent msgs state) ?_ ?_ hp
  · intro _ state hstate
    cases hstate
  · intro l' c e t hrun ih hstep hp state hstate
    have hp' := (List.prefix_append l' [e]).trans hp
    rcases step_cases hstep with ⟨_, _, _, _, _, -, -, rfl⟩ | ⟨rfl, htick⟩ | ⟨-, -, hsame⟩
    · exact ih hp' state hstate
    · rcases tick_cases htick with ⟨-, rfl⟩ | ⟨-, -, rfl⟩ |
        ⟨built, hub, hdirty, hbuild, hpublish, rfl⟩
      · exact ih hp' state hstate
      · exact ih hp' state hstate
      · rw [publish_ok (consumerInv_of_run hrun).sound] at hpublish
        obtain rfl := Except.ok.inj hpublish
        obtain rfl := Option.some.inj hstate
        have hwhole := hticks l' c hp hrun hdirty ((isSome_buildState_iff hbuild).mp rfl)
        rw [window_of_run hrun,
          filterMap_folded ((hp'.filterMap _).trans hdeliveries)] at hbuild
        exact coherent_of_whole (List.take_subset _ _) hwhole hbuild
    · rw [hsame.latest] at hstate
      exact ih hp' state hstate

end path

/-! ### A torn state -/

section platform

attribute [local instance] CPython.series Pydantic.decimal

/-- The events of samples that arrive. -/
def arrivals (sent : List (String × JointTelemetry Double)) : List Event :=
  sent.map fun p => .message p.1 (.ofText p.2.modelDumpJson)

/-- A consumer of the default configuration. -/
def consumerInit : Consumer := .init "ur5" (PyFloat.lit 2) 2000000000

/-- Its window after samples. -/
def sentWindow (sent : List (String × JointTelemetry Double)) : RollingWindow Double :=
  consumerInit.window.observeAll (sent.filterMap readBack)

/-- Its joints are those of the arm. -/
theorem sentWindow_joints (sent : List (String × JointTelemetry Double)) :
    (sentWindow sent).joints = ur5JointNames := RollingWindow.observeAll_joints ..

/-- A latest value of that window was sent. -/
theorem exists_sent_of_latest {sent : List (String × JointTelemetry Double)} {joint : String}
    (hjoint : joint ∈ ur5JointNames) {field : JointField} {x : Double}
    (hx : (sentWindow sent).latest (joint, field) = some x) :
    ∃ p ∈ sent, p.2.value = x ∧ ∃ o, readBack p = some o ∧ o.field = field := by
  obtain ⟨o, ho, -, hfield, hvalue⟩ :=
    RollingWindow.exists_observation_of_latest (w := consumerInit.window) hjoint rfl hx
  obtain ⟨p, hp, hread⟩ := List.mem_filterMap.mp ho
  rw [(readBack_sample hread).1] at hvalue
  exact ⟨p, hp, hvalue, o, hread, hfield⟩

/-- The window is not older than a sample that is read back. -/
theorem le_stampNs_sentWindow {sent : List (String × JointTelemetry Double)}
    {p : String × JointTelemetry Double} (hp : p ∈ sent) {o : RollingWindow.Observation Double}
    (hread : readBack p = some o) (hjoint : o.joint ∈ ur5JointNames) :
    o.sample.stampNs ≤ (sentWindow sent).stampNs :=
  RollingWindow.le_stampNs_observeAll (List.mem_filterMap.mpr ⟨p, hp, hread⟩) hjoint

/-- A joint state of the arm with one value everywhere. -/
def allEqual (x : Finite64) (stampNs : ℕ) : JointStateMessage Double where
  stampNs := stampNs
  names := ur5JointNames
  positions := List.replicate 6 (.finite x)
  velocities := List.replicate 6 (.finite x)
  efforts := List.replicate 6 (.finite x)
  names_ne_nil := by decide

/-- Its entries have the one value three times. -/
theorem entries_allEqual (x : Finite64) (stampNs : ℕ) : (allEqual x stampNs).entries =
    ur5JointNames.map fun joint => (joint, .finite x, .finite x, .finite x) := rfl

/-- Every value of its entries is that one. -/
theorem entryValue_allEqual {x : Finite64} {stampNs : ℕ} {entry : String × Double × Double × Double}
    (h : entry ∈ (allEqual x stampNs).entries) (field : JointField) :
    entryValue entry field = .finite x := by
  rw [entries_allEqual] at h
  obtain ⟨joint, -, rfl⟩ := List.mem_map.mp h
  cases field <;> rfl

/-- Its samples are one for each channel of the arm. -/
theorem mem_samples_allEqual {x : Finite64} {stampNs : ℕ} {p : String × JointTelemetry Double} :
    p ∈ samples "ur5" (allEqual x stampNs) ↔ ∃ joint ∈ ur5JointNames, ∃ field,
      p = (telemetryTopic "ur5" joint field, .new (.finite x) stampNs) := by
  rw [mem_samples]
  constructor
  · rintro ⟨-, entry, hentry, field, rfl⟩
    rw [entryValue_allEqual hentry]
    rw [entries_allEqual] at hentry
    obtain ⟨joint, hjoint, rfl⟩ := List.mem_map.mp hentry
    exact ⟨joint, hjoint, field, rfl⟩
  · rintro ⟨joint, hjoint, field, rfl⟩
    have hentry := List.mem_map_of_mem (f := fun joint : String =>
      (joint, Double.finite x, Double.finite x, Double.finite x)) hjoint
    rw [← entries_allEqual x stampNs] at hentry
    refine ⟨rfl, _, hentry, field, ?_⟩
    rw [entryValue_allEqual hentry]
    rfl

/-- Samples that are read back from every channel of the arm make the window complete. -/
theorem complete_sentWindow {sent : List (String × JointTelemetry Double)}
    (hcovers : ∀ joint ∈ ur5JointNames, ∀ field, ∃ p ∈ sent, ∃ o, readBack p = some o ∧
      o.joint = joint ∧ o.field = field) : (sentWindow sent).Complete := by
  intro joint hjoint field
  rw [sentWindow_joints] at hjoint
  obtain ⟨p, hp, o, ho, rfl, rfl⟩ := hcovers joint hjoint field
  exact RollingWindow.isSome_latest_observeAll (List.mem_filterMap.mpr ⟨p, hp, ho⟩) hjoint

/-- What was sent over the wire is never infinite in the window. -/
theorem not_infinitePosition_sentWindow (sent : List (String × JointTelemetry Double)) :
    ¬ InfinitePosition (sentWindow sent) := by
  rintro ⟨joint, hjoint, s, hs⟩
  obtain ⟨p, -, hvalue, o, ho, -⟩ := exists_sent_of_latest hjoint hs
  have hfinite := (readBack_sample ho).2
  rw [hvalue] at hfinite
  cases hfinite

/-- The window is not newer than the newest sample. -/
theorem stampNs_sentWindow_le {sent : List (String × JointTelemetry Double)} {b : ℕ}
    (hstamps : ∀ p ∈ sent, p.2.stampNs ≤ b) : (sentWindow sent).stampNs ≤ b := by
  refine RollingWindow.stampNs_observeAll_le fun o ho => ?_
  obtain ⟨p, hp, hread⟩ := List.mem_filterMap.mp ho
  rw [(readBack_sample hread).1]
  exact hstamps p hp

/-- The samples of such a joint state are read back. -/
theorem readBack_allEqual {x : Finite64} {stampNs : ℕ} {joint : String}
    (hjoint : joint ∈ ur5JointNames) (field : JointField) :
    readBack (telemetryTopic "ur5" joint field, .new (.finite x) stampNs) =
      some ⟨joint, field, .new (.finite x) stampNs⟩ :=
  readBack_telemetryTopic_iff.mpr ⟨by decide, hjoint, rfl, rfl⟩

/-- A sample for the arm: on one of its channels, with a finite value and a stamp in range. -/
def ForArm (p : String × JointTelemetry Double) : Prop :=
  ∃ joint ∈ ur5JointNames, ∃ field x stampNs,
    p = (telemetryTopic "ur5" joint field, .new (.finite x) stampNs) ∧ stampNs < uint64Limit

/-- It is read back. -/
theorem ForArm.isSome_readBack {p : String × JointTelemetry Double} (h : ForArm p) :
    (readBack p).isSome = true := by
  obtain ⟨joint, hjoint, field, x, stampNs, rfl, -⟩ := h
  rw [readBack_allEqual hjoint]
  rfl

/-- Its stamp is in range. -/
theorem ForArm.stampNs_lt {p : String × JointTelemetry Double} (h : ForArm p) :
    p.2.stampNs < uint64Limit := by
  obtain ⟨joint, -, field, x, stampNs, rfl, hstamp⟩ := h
  exact hstamp

/-- The samples of such a joint state are for the arm. -/
theorem forArm_of_mem_samples {x : Finite64} {stampNs : ℕ} (hstamp : stampNs < uint64Limit)
    {p : String × JointTelemetry Double} (hp : p ∈ samples "ur5" (allEqual x stampNs)) :
    ForArm p := by
  obtain ⟨joint, hjoint, field, rfl⟩ := mem_samples_allEqual.mp hp
  exact ⟨joint, hjoint, field, x, stampNs, rfl, hstamp⟩

/-- Such a joint state has samples. -/
theorem samples_allEqual_ne_nil (x : Finite64) (stampNs : ℕ) :
    samples "ur5" (allEqual x stampNs) ≠ [] :=
  List.ne_nil_of_mem (mem_samples_allEqual.mpr ⟨"elbow_joint", by decide, .position, rfl⟩)

/-- A joint state of the arm arrives after a run that has read back other samples for the arm, and
maybe with more of these: after them the tick publishes. -/
theorem run_arrivals_after {before sent : List (String × JointTelemetry Double)} {l : List Event}
    {c₀ : Consumer} (hrun : Run step consumerInit l c₀)
    (hbefore : l.filterMap folded = before.filterMap readBack)
    (harm : ∀ p ∈ before ++ sent, ForArm p) {x : Finite64} {stampNs : ℕ}
    (hcovers : samples "ur5" (allEqual x stampNs) ⊆ sent) :
    ∃ c state, Run step consumerInit (l ++ arrivals sent ++ [.tick]) c ∧
      c.hub.latest = some state ∧
      buildState c.assetName (sentWindow (before ++ sent)) c.rmsWindowS = .ok (some state) := by
  have hfolded : (arrivals sent).filterMap folded = sent.filterMap readBack := by
    rw [arrivals, List.filterMap_map]
    rfl
  have haccepted : ∀ e ∈ arrivals sent, (folded e).isSome = true := by
    intro e he
    obtain ⟨p, hp, rfl⟩ := List.mem_map.mp he
    exact (harm p (List.mem_append_right _ hp)).isSome_readBack
  obtain ⟨c, harrive, hdirty, -, -⟩ := run_accepted haccepted c₀
  have hall := hrun.append harrive
  have hwindow : c.window = sentWindow (before ++ sent) := by
    rw [window_of_run hall, List.filterMap_append, hbefore, hfolded, ← List.filterMap_append]
    rfl
  have hstamp : (sentWindow (before ++ sent)).stampNs < uint64Limit := by
    apply Nat.lt_of_le_pred (by decide)
    exact stampNs_sentWindow_le fun p hp => Nat.le_pred_of_lt (harm p hp).stampNs_lt
  have hcomplete : (sentWindow (before ++ sent)).Complete := by
    apply complete_sentWindow
    intro joint hjoint field
    have hp := hcovers (mem_samples_allEqual.mpr ⟨joint, hjoint, field, rfl⟩)
    exact ⟨_, List.mem_append_right _ hp, _, readBack_allEqual hjoint field, rfl, rfl⟩
  have hne : arrivals sent ≠ [] := by
    obtain ⟨p, hp⟩ := List.exists_mem_of_ne_nil _ (samples_allEqual_ne_nil x stampNs)
    exact List.ne_nil_of_mem (List.mem_map_of_mem (hcovers hp))
  obtain ⟨t, state, hstep, hlatest, heq, -, -, hbuild⟩ := (consumerInv_of_run hall).tick_publishes
    (hwindow ▸ hstamp) (hdirty hne) (hwindow ▸ hcomplete)
    (hwindow ▸ not_infinitePosition_sentWindow _)
  rw [heq, hwindow] at hbuild
  exact ⟨t, state, hall.snoc hstep, hlatest, hbuild⟩

/-- A joint state of the arm, and maybe more samples for it: after them the tick publishes. -/
theorem run_arrivals {sent : List (String × JointTelemetry Double)} (harm : ∀ p ∈ sent, ForArm p)
    {x : Finite64} {stampNs : ℕ} (hcovers : samples "ur5" (allEqual x stampNs) ⊆ sent) :
    ∃ c state, Run step consumerInit (arrivals sent ++ [.tick]) c ∧ c.hub.latest = some state ∧
      buildState c.assetName (sentWindow sent) c.rmsWindowS = .ok (some state) := by
  have hnone : ([] : List Event).filterMap folded =
      ([] : List (String × JointTelemetry Double)).filterMap readBack := rfl
  exact run_arrivals_after .nil hnone harm hcovers

/-- The first joint state, at zero, and the second one, at one. -/
def first : JointStateMessage Double := allEqual Double.zero 1

/-- The second joint state, at one. -/
def second : JointStateMessage Double := allEqual Double.one 2

/-- The first message of the second joint state. -/
def panAtOne : String × JointTelemetry Double :=
  (telemetryTopic "ur5" "shoulder_pan_joint" .position, .new (.finite Double.one) 2)

/-- The first joint state, and one message of the second one. -/
def torn : List (String × JointTelemetry Double) := samples "ur5" first ++ [panAtOne]

/-- The first joint state and more samples for the arm: a tick publishes. -/
theorem run_first (more : List (String × JointTelemetry Double))
    (hmore : ∀ p ∈ more, ForArm p) :
    ∃ c state, Run step consumerInit (arrivals (samples "ur5" first ++ more) ++ [.tick]) c ∧
      c.hub.latest = some state ∧
      buildState c.assetName (sentWindow (samples "ur5" first ++ more)) c.rmsWindowS =
        .ok (some state) := by
  have hfirst : ∀ p ∈ samples "ur5" first, ForArm p := by
    intro p hp
    exact forArm_of_mem_samples (by decide) hp
  exact run_arrivals (List.forall_mem_append.mpr ⟨hfirst, hmore⟩)
    (List.subset_append_left (samples "ur5" first) more)

/-- The messages of a run are those of its parts. -/
theorem deliveries_append (l l' : List Event) :
    deliveries (l ++ l') = deliveries l ++ deliveries l' := List.filterMap_append

/-- The messages of samples that arrive are the dumped samples. -/
theorem deliveries_arrivals (sent : List (String × JointTelemetry Double)) :
    deliveries (arrivals sent) = sent.map fun p => (p.1, .ofText p.2.modelDumpJson) := by
  rw [deliveries, arrivals, List.filterMap_map, ← List.filterMap_eq_map]
  rfl

/-- A tick is no message. -/
theorem deliveries_arrivals_tick (sent : List (String × JointTelemetry Double)) :
    deliveries (arrivals sent ++ [.tick]) =
      sent.map fun p => (p.1, .ofText p.2.modelDumpJson) := by
  rw [deliveries_append, deliveries_arrivals]
  exact List.append_nil _

/-- Samples that arrive are no ticks. -/
theorem tick_not_mem_arrivals (sent : List (String × JointTelemetry Double)) :
    .tick ∉ arrivals sent := by
  simp [arrivals]

/-- Both joint states as wholes, with a tick after each. -/
def wholes : List Event :=
  arrivals (samples "ur5" first) ++ [.tick] ++ arrivals (samples "ur5" second) ++ [.tick]

/-- All of the wire is delivered. -/
theorem deliveries_wholes : deliveries wholes = wire "ur5" [first, second] := by
  have hboth : ([first, second].flatMap (samples "ur5")) =
      samples "ur5" first ++ samples "ur5" second := by simp
  rw [wire_eq, hboth, List.map_append, wholes, List.append_assoc, deliveries_append,
    deliveries_arrivals_tick, deliveries_arrivals_tick]

/-- A joint state after earlier ones is whole when all of it was delivered. -/
theorem whole_allEqual {earlier later : List (JointStateMessage Double)} {x : Finite64}
    {stampNs : ℕ} (hstamps : ∀ msg ∈ earlier, msg.stampNs ≤ stampNs) :
    Whole "ur5" (earlier ++ allEqual x stampNs :: later)
      (earlier.flatMap (samples "ur5") ++ samples "ur5" (allEqual x stampNs)) := by
  refine ⟨earlier, allEqual x stampNs, later, samples "ur5" (allEqual x stampNs), [], rfl,
    (List.append_nil _).symm, List.prefix_rfl, ?_, ?_, hstamps⟩
  · intro joint hjoint field
    exact ⟨.finite x, rfl, mem_samples_allEqual.mpr ⟨joint, hjoint, field, rfl⟩⟩
  · intro joint _ field
    exact List.not_mem_nil

/-- The samples behind a run's messages are the first ones of the wire, as many as came. -/
theorem delivered_eq {msgs : List (JointStateMessage Double)} {l : List Event}
    {sent rest : List (String × JointTelemetry Double)}
    (hmsgs : msgs.flatMap (samples "ur5") = sent ++ rest)
    (hsent : (deliveries l).length = sent.length) : delivered "ur5" msgs l = sent := by
  rw [delivered, hmsgs, hsent, List.take_left]

/-- Each of the two ticks finds a whole joint state. -/
theorem whole_wholes {l : List Event} (hp : l ++ [.tick] <+: wholes) :
    Whole "ur5" [first, second] (delivered "ur5" [first, second] l) := by
  have hboth : [first, second].flatMap (samples "ur5") =
      samples "ur5" first ++ samples "ur5" second := by simp
  rcases List.prefix_concat_iff.mp hp with heq | hp
  · obtain rfl := (List.append_singleton_inj.mp heq).1
    have hall : [first, second].flatMap (samples "ur5") =
        (samples "ur5" first ++ samples "ur5" second) ++ [] := by
      rw [hboth, List.append_nil]
    rw [delivered_eq hall]
    · have hearlier : ∀ msg ∈ [first], msg.stampNs ≤ 2 := by
        intro msg hmsg
        rw [List.mem_singleton.mp hmsg]
        exact Nat.le_succ 1
      have hwhole : Whole "ur5" ([first] ++ [second]) _ := whole_allEqual hearlier
      rwa [List.flatMap_singleton] at hwhole
    · rw [deliveries_append, deliveries_arrivals_tick, deliveries_arrivals, List.length_append,
        List.length_append, List.length_map, List.length_map]
  · obtain rfl := eq_of_concat_prefix (tick_not_mem_arrivals _)
      (concat_prefix_of_append (tick_not_mem_arrivals _) hp)
    rw [delivered_eq hboth]
    · have hnone : ∀ msg ∈ ([] : List (JointStateMessage Double)), msg.stampNs ≤ 1 := by
        intro msg hmsg
        cases hmsg
      exact whole_allEqual hnone
    · rw [deliveries_arrivals, List.length_map]

/-- The stamp of the window after a joint state that is not older than what came before. -/
theorem stampNs_sentWindow_allEqual {before : List (String × JointTelemetry Double)}
    {x : Finite64} {stampNs : ℕ} (hbefore : ∀ p ∈ before, p.2.stampNs ≤ stampNs) :
    (sentWindow (before ++ samples "ur5" (allEqual x stampNs))).stampNs = stampNs := by
  apply le_antisymm
  · refine stampNs_sentWindow_le (List.forall_mem_append.mpr ⟨hbefore, fun p hp => ?_⟩)
    obtain ⟨joint, -, field, rfl⟩ := mem_samples_allEqual.mp hp
    exact le_rfl
  · have hpan : "shoulder_pan_joint" ∈ ur5JointNames := by decide
    exact le_stampNs_sentWindow (List.mem_append_right _
      (mem_samples_allEqual.mpr ⟨_, hpan, .position, rfl⟩)) (readBack_allEqual hpan .position) hpan

/-- Both ticks publish: the first one the state of the first joint state, the second one that of
the second joint state. -/
theorem run_wholes :
    ∃ c₁ s₁ c₂ s₂, Run step consumerInit (arrivals (samples "ur5" first) ++ [.tick]) c₁ ∧
      c₁.hub.latest = some s₁ ∧ s₁.stampNs = 1 ∧
      Run step consumerInit wholes c₂ ∧ c₂.hub.latest = some s₂ ∧ s₂.stampNs = 2 := by
  obtain ⟨c₁, s₁, hrun₁, hlatest₁, hbuild₁⟩ := run_first [] fun p hp =>
    absurd hp List.not_mem_nil
  have hfirst : ∀ p ∈ samples "ur5" first, p.2.stampNs ≤ 2 := by
    intro p hp
    obtain ⟨joint, -, field, rfl⟩ := mem_samples_allEqual.mp hp
    exact Nat.le_succ 1
  have hnone : ∀ p ∈ ([] : List (String × JointTelemetry Double)), p.2.stampNs ≤ 1 := by
    intro p hp
    cases hp
  have hstamp₁ := stampNs_sentWindow_allEqual (x := Double.zero) hnone
  have hstamp₂ := stampNs_sentWindow_allEqual (x := Double.one) hfirst
  rw [List.append_nil] at hrun₁ hbuild₁
  rw [List.nil_append] at hstamp₁
  have hbefore : (arrivals (samples "ur5" first) ++ [Event.tick]).filterMap folded =
      (samples "ur5" first).filterMap readBack := by
    rw [List.filterMap_append, arrivals, List.filterMap_map]
    exact List.append_nil _
  have hboth : ∀ p ∈ samples "ur5" first ++ samples "ur5" second, ForArm p := by
    rw [List.forall_mem_append]
    constructor
    · intro p hp
      exact forArm_of_mem_samples (by decide) hp
    · intro p hp
      exact forArm_of_mem_samples (by decide) hp
  obtain ⟨c₂, s₂, hrun₂, hlatest₂, hbuild₂⟩ :=
    run_arrivals_after hrun₁ hbefore hboth (List.Subset.refl (samples "ur5" second))
  refine ⟨c₁, s₁, c₂, s₂, hrun₁, hlatest₁, ?_, ?_, hlatest₂, ?_⟩
  · rw [stampNs_of_build hbuild₁, first]
    exact hstamp₁
  · rw [wholes]
    exact hrun₂
  · rw [stampNs_of_build hbuild₂, second]
    exact hstamp₂

/-- Both joint states are delivered as wholes, with a tick after each: the first tick publishes the
first one and the second tick the second one. -/
theorem published_states_coherent_wholes :
    ∃ c₁ s₁ c₂ s₂, Run step consumerInit (arrivals (samples "ur5" first) ++ [.tick]) c₁ ∧
      c₁.hub.latest = some s₁ ∧ s₁.stampNs = 1 ∧ Coherent [first, second] s₁ ∧
      Run step consumerInit wholes c₂ ∧ c₂.hub.latest = some s₂ ∧ s₂.stampNs = 2 ∧
      Coherent [first, second] s₂ := by
  obtain ⟨c₁, s₁, c₂, s₂, hrun₁, hlatest₁, hstamp₁, hrun₂, hlatest₂, hstamp₂⟩ := run_wholes
  have hdeliveries : deliveries wholes <+: wire "ur5" [first, second] := by
    rw [deliveries_wholes]
  have hcoherent : Throughout step consumerInit (fun c => ∀ state, c.hub.latest = some state →
      Coherent [first, second] state) wholes :=
    published_states_coherent hdeliveries fun l' c hp _ _ _ => whole_wholes hp
  have hpart : arrivals (samples "ur5" first) ++ [.tick] <+: wholes := by
    rw [wholes, List.append_assoc]
    exact List.prefix_append ..
  exact ⟨c₁, s₁, c₂, s₂, hrun₁, hlatest₁, hstamp₁, hcoherent _ _ hpart hrun₁ s₁ hlatest₁, hrun₂,
    hlatest₂, hstamp₂, hcoherent _ _ List.prefix_rfl hrun₂ s₂ hlatest₂⟩

/-- The first message of the second joint state is read back. -/
theorem readBack_panAtOne : readBack panAtOne =
    some ⟨"shoulder_pan_joint", .position, .new (.finite Double.one) 2⟩ :=
  readBack_allEqual (by decide) .position

/-- The window of the torn run has the stamp of the second joint state. -/
theorem two_le_stampNs_torn : 2 ≤ (sentWindow torn).stampNs :=
  le_stampNs_sentWindow (List.mem_append_right _ (List.mem_singleton_self _)) readBack_panAtOne
    (by decide)

/-- Its velocities are those of the first joint state. -/
theorem velocity_torn {joint : String} (hjoint : joint ∈ ur5JointNames) {x : Double}
    (hx : (sentWindow torn).latest (joint, .velocity) = some x) : x = .finite Double.zero := by
  obtain ⟨p, hp, rfl, o, hread, hfield⟩ := exists_sent_of_latest hjoint hx
  rw [torn, List.mem_append] at hp
  rcases hp with hp | hp
  · obtain ⟨joint', -, field, rfl⟩ := mem_samples_allEqual.mp hp
    rfl
  · obtain rfl := List.mem_singleton.mp hp
    rw [readBack_panAtOne] at hread
    obtain rfl := Option.some.inj hread
    cases hfield

/-- A state with the stamp of the second joint state and the velocities of the first one is that of
neither. -/
theorem not_coherent_sentWindow {sent : List (String × JointTelemetry Double)}
    (hstamps : 2 ≤ (sentWindow sent).stampNs)
    (hvelocities : ∀ joint ∈ ur5JointNames, ∀ x,
      (sentWindow sent).latest (joint, .velocity) = some x → x = .finite Double.zero)
    {assetName : String} {rmsWindowS : Double} {state : TwinState Double}
    (hbuild : buildState assetName (sentWindow sent) rmsWindowS = .ok (some state)) :
    ¬ Coherent [first, second] state := by
  obtain ⟨snaps, pose, hsnap, -, -, rfl⟩ := buildState_some hbuild
  rintro ⟨msg, hmsg, hstamp, -, hvalues⟩
  obtain rfl : msg = second := by
    rcases List.mem_pair.mp hmsg with rfl | rfl
    · have hle : 2 ≤ first.stampNs := le_of_le_of_eq hstamps hstamp
      exact absurd hle (by decide)
    · rfl
  obtain ⟨snap, hmem, -⟩ : ∃ snap ∈ snaps, snap.name = "shoulder_pan_joint" := by
    apply List.mem_map.mp
    rw [RollingWindow.snapshot_names hsnap, sentWindow_joints]
    decide
  obtain ⟨hjoint, hentryOf⟩ := RollingWindow.entryOf_of_mem hsnap hmem
  rw [sentWindow_joints] at hjoint
  have hzero := hvelocities _ hjoint _ (latest_of_entryOf hentryOf .velocity)
  obtain ⟨entry, hentry, -, hone⟩ := hvalues _ (List.mem_map_of_mem hmem) .velocity
  rw [entryValue_allEqual hentry] at hone
  exact absurd (hone.trans hzero) (by decide)

/-- One message of the second joint state before a tick: a state is published that is that of
neither joint state. -/
theorem torn_state :
    (∀ msg ∈ [first, second], CoversArm msg) ∧
      deliveries (arrivals torn ++ [.tick]) <+: wire "ur5" [first, second] ∧
      ∃ c state, Run step consumerInit (arrivals torn ++ [.tick]) c ∧
        c.hub.latest = some state ∧ ¬ Coherent [first, second] state := by
  refine ⟨?_, ?_, ?_⟩
  · intro msg hmsg
    rcases List.mem_pair.mp hmsg with rfl | rfl <;> exact ⟨rfl, by decide⟩
  · rw [deliveries_arrivals_tick, wire_eq]
    apply List.IsPrefix.map
    have hsecond : [panAtOne] <+: samples "ur5" second := ⟨_, rfl⟩
    simpa [torn] using hsecond
  · have hmore : ∀ p ∈ [panAtOne], ForArm p := by
      intro p hp
      obtain rfl := List.mem_singleton.mp hp
      exact ⟨"shoulder_pan_joint", by decide, .position, _, 2, rfl, by decide⟩
    obtain ⟨c, state, hrun, hlatest, hbuild⟩ := run_first _ hmore
    refine ⟨c, state, hrun, hlatest, not_coherent_sentWindow two_le_stampNs_torn ?_ hbuild⟩
    exact fun joint hjoint x hx => velocity_torn hjoint hx

end platform

end TwinServices.System
