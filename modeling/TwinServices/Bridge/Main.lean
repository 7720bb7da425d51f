import TwinServices.Contracts.Models

/-!
# The bridge

The two directions of the bridge between ROS 2 and MQTT: a validated joint state goes out as one
message per joint per field (`publishJointStates`), and a message on the command topic is
validated and handed to the ROS node (`commandWorkerMessage`).

* `samples_survive_iff`: of the samples the bridge sends, a consumer reads back exactly those whose
  value is finite.
-/

set_option autoImplicit false

namespace TwinServices.Bridge

open TwinServices.Python TwinServices.Contracts Lib.Binary64

/-! ## Telemetry out -/

/-- A validated `sensor_msgs/JointState`. Source: `bridge/models.py`, `JointStateMessage` -/
structure JointStateMessage (F : Type) where
  stampNs : ℕ
  names : List String
  positions : List F
  velocities : List F
  efforts : List F
  names_ne_nil : names ≠ []

namespace JointStateMessage

variable {F : Type}

/-- Source: `bridge/models.py`, `JointStateMessage.field_lengths_match` -/
def fieldLengthsMatch (msg : JointStateMessage F) : Bool :=
  let n := msg.names.length
  msg.positions.length = msg.velocities.length && msg.velocities.length = msg.efforts.length &&
    msg.efforts.length = n

/-- The entries of a message whose lengths match: at each index a name and its three values.
Source: `main.py`, `publish_joint_states` -/
def entries (msg : JointStateMessage F) : List (String × F × F × F) :=
  msg.names.zip (msg.positions.zip (msg.velocities.zip msg.efforts))

end JointStateMessage

section telemetry

variable {F : Type}

/-- The three samples of one entry with their topics, in the order of the inner loop.
Source: `main.py`, `publish_joint_states` -/
def entrySamples (asset : String) (stampNs : ℕ) (entry : String × F × F × F) :
    List (String × JointTelemetry F) :=
  match entry with
  | (name, position, velocity, effort) =>
      [(telemetryTopic asset name .position, .new position stampNs),
        (telemetryTopic asset name .velocity, .new velocity stampNs),
        (telemetryTopic asset name .effort, .new effort stampNs)]

/-- The value of a field in an entry.
Source: `main.py`, `publish_joint_states` -/
def entryValue (entry : String × F × F × F) : JointField → F
  | .position => entry.2.1
  | .velocity => entry.2.2.1
  | .effort => entry.2.2.2

/-- The samples of a message with their topics; none where the lengths do not match.
Source: `main.py`, `publish_joint_states` -/
def samples (asset : String) (msg : JointStateMessage F) : List (String × JointTelemetry F) :=
  if msg.fieldLengthsMatch then msg.entries.flatMap (entrySamples asset msg.stampNs) else []

/-- The samples of an entry are one for each field.
Source: `main.py`, `publish_joint_states` -/
theorem mem_entrySamples {asset : String} {stampNs : ℕ} {entry : String × F × F × F}
    {p : String × JointTelemetry F} :
    p ∈ entrySamples asset stampNs entry ↔
      ∃ field, p = (telemetryTopic asset entry.1 field, .new (entryValue entry field) stampNs) := by
  obtain ⟨name, position, velocity, effort⟩ := entry
  simp only [entrySamples, List.mem_cons, List.not_mem_nil, or_false]
  constructor
  · rintro (rfl | rfl | rfl)
    · exact ⟨.position, rfl⟩
    · exact ⟨.velocity, rfl⟩
    · exact ⟨.effort, rfl⟩
  · rintro ⟨field, rfl⟩
    cases field with
    | position => exact Or.inl rfl
    | velocity => exact Or.inr (Or.inl rfl)
    | effort => exact Or.inr (Or.inr rfl)

/-- There is one sample for each entry and field, with the stamp of the message. -/
theorem mem_samples {asset : String} {msg : JointStateMessage F} {p : String × JointTelemetry F} :
    p ∈ samples asset msg ↔ msg.fieldLengthsMatch = true ∧ ∃ entry ∈ msg.entries, ∃ field,
      p = (telemetryTopic asset entry.1 field, .new (entryValue entry field) msg.stampNs) := by
  unfold samples
  by_cases h : msg.fieldLengthsMatch = true
  · simp only [h, if_true, List.mem_flatMap, mem_entrySamples, true_and]
  · simp [h]

end telemetry

section wire

variable [Pydantic]

/-- The messages that are published for a joint state, as topic and text.
Source: `main.py`, `publish_joint_states` -/
def publishJointStates (msg : JointStateMessage Double) (asset : String) : List (String × String) :=
  (samples asset msg).map fun p => (p.1, p.2.modelDumpJson)

/-! ## Commands in -/

/-- The command that one message on the command topic hands to `node.publish_command`, if it
hands over any: other payloads than bytes and text are passed over, invalid ones are logged.
Source: `main.py`, `command_worker` -/
def commandWorkerMessage [CPython] (raw : Payload) : Option (JointCommand Double) :=
  match raw with
  | .other => none
  | raw =>
      match JointCommand.modelValidateJson raw with
      | .ok cmd => some cmd
      | .error _ => none

end wire

/-! ## What survives the wire -/

/-- What a consumer reads from the text of a sample is that sample.
Source: `models.py`, `JointTelemetry` -/
def Survives [Pydantic] (sample : JointTelemetry Double) : Prop :=
  JointTelemetry.modelValidateJson (.ofText sample.modelDumpJson) = .ok sample

/-- The values of a message, of all its entries and fields. -/
def JointStateMessage.values {F : Type} (msg : JointStateMessage F) : List F :=
  msg.positions ++ msg.velocities ++ msg.efforts

/-- Where the lengths match, every name has an entry. -/
theorem JointStateMessage.entries_names {F : Type} {msg : JointStateMessage F}
    (h : msg.fieldLengthsMatch = true) : msg.entries.map Prod.fst = msg.names := by
  simp only [fieldLengthsMatch, Bool.and_eq_true, decide_eq_true_eq] at h
  obtain ⟨⟨hpv, hve⟩, hen⟩ := h
  refine List.map_fst_zip ?_
  simp only [List.length_zip]
  omega

/-- Where the lengths match, the entries hold the three lists. -/
theorem JointStateMessage.entries_fields {F : Type} {msg : JointStateMessage F}
    (h : msg.fieldLengthsMatch = true) :
    msg.entries.map (fun e => e.2.1) = msg.positions ∧
      msg.entries.map (fun e => e.2.2.1) = msg.velocities ∧
      msg.entries.map (fun e => e.2.2.2) = msg.efforts := by
  simp only [fieldLengthsMatch, Bool.and_eq_true, decide_eq_true_eq] at h
  obtain ⟨⟨hpv, hve⟩, hen⟩ := h
  have hinner : (msg.velocities.zip msg.efforts).length = msg.efforts.length := by
    rw [List.length_zip]
    omega
  have houter :
      (msg.positions.zip (msg.velocities.zip msg.efforts)).length = msg.efforts.length := by
    rw [List.length_zip]
    omega
  have hrest : msg.entries.map Prod.snd = msg.positions.zip (msg.velocities.zip msg.efforts) :=
    List.map_snd_zip (by omega)
  have hvel : (msg.positions.zip (msg.velocities.zip msg.efforts)).map Prod.snd =
      msg.velocities.zip msg.efforts := List.map_snd_zip (by omega)
  refine ⟨?_, ?_, ?_⟩
  · rw [show (fun e : String × F × F × F => e.2.1) = Prod.fst ∘ Prod.snd from rfl,
      ← List.map_map, hrest]
    exact List.map_fst_zip (by omega)
  · rw [show (fun e : String × F × F × F => e.2.2.1) = Prod.fst ∘ Prod.snd ∘ Prod.snd from rfl,
      ← List.map_map, ← List.map_map, hrest, hvel]
    exact List.map_fst_zip (by omega)
  · rw [show (fun e : String × F × F × F => e.2.2.2) = Prod.snd ∘ Prod.snd ∘ Prod.snd from rfl,
      ← List.map_map, ← List.map_map, hrest, hvel]
    exact List.map_snd_zip (by omega)

/-- The values of the samples are the values of the message. -/
theorem mem_values_iff {F : Type} {msg : JointStateMessage F} (asset : String)
    (h : msg.fieldLengthsMatch = true) (x : F) :
    x ∈ msg.values ↔ ∃ p ∈ samples asset msg, p.2.value = x := by
  obtain ⟨hp, hv, he⟩ := JointStateMessage.entries_fields h
  unfold JointStateMessage.values
  rw [← hp, ← hv, ← he]
  simp only [List.mem_append, List.mem_map, mem_samples, h, true_and]
  constructor
  · rintro ((⟨e, hmem, rfl⟩ | ⟨e, hmem, rfl⟩) | ⟨e, hmem, rfl⟩)
    · exact ⟨_, ⟨e, hmem, .position, rfl⟩, rfl⟩
    · exact ⟨_, ⟨e, hmem, .velocity, rfl⟩, rfl⟩
    · exact ⟨_, ⟨e, hmem, .effort, rfl⟩, rfl⟩
  · rintro ⟨p, ⟨e, hmem, field, rfl⟩, rfl⟩
    cases field with
    | position => exact Or.inl (Or.inl ⟨e, hmem, rfl⟩)
    | velocity => exact Or.inl (Or.inr ⟨e, hmem, rfl⟩)
    | effort => exact Or.inr ⟨e, hmem, rfl⟩

/-- **Telemetry survives the wire exactly where it is finite.** A sample of a joint state is read
back as it was exactly when its value is finite, and all samples are exactly when all values of
the joint state are. Source: `main.py`, `publish_joint_states`; `models.py`, `JointTelemetry` -/
theorem samples_survive_iff [Pydantic] (asset : String) (msg : JointStateMessage Double)
    (h : msg.fieldLengthsMatch = true) :
    (∀ p ∈ samples asset msg, Survives p.2 ↔ p.2.value.isFinite = true) ∧
      ((∀ p ∈ samples asset msg, Survives p.2) ↔ ∀ x ∈ msg.values, x.isFinite = true) := by
  have hone : ∀ p ∈ samples asset msg, Survives p.2 ↔ p.2.value.isFinite = true :=
    fun p _ => p.2.roundTrip_iff
  refine ⟨hone, ?_⟩
  constructor
  · intro hall x hx
    obtain ⟨p, hp, rfl⟩ := (mem_values_iff asset h x).mp hx
    exact (hone p hp).mp (hall p hp)
  · intro hall p hp
    exact (hone p hp).mpr (hall _ ((mem_values_iff asset h _).mpr ⟨p, hp, rfl⟩))

/-- A joint state of one joint whose driver does not measure effort. -/
def unmeasuredEffort : JointStateMessage Double where
  stampNs := 1
  names := ["elbow_joint"]
  positions := [.finite Double.one]
  velocities := [.finite Double.zero]
  efforts := [.nan]
  names_ne_nil := by decide

/-- The equivalence for a joint state whose effort is not measured. -/
theorem samples_survive_iff_unmeasuredEffort :
    unmeasuredEffort.fieldLengthsMatch = true ∧
      ((∀ p ∈ samples "ur5" unmeasuredEffort, @Survives .decimal p.2) ↔
        ∀ x ∈ unmeasuredEffort.values, x.isFinite = true) :=
  ⟨rfl, (@samples_survive_iff .decimal "ur5" unmeasuredEffort rfl).2⟩

/-- Unmeasured effort is lost on the wire: a sample of a valid joint state is refused. -/
theorem unmeasuredEffort_lost :
    unmeasuredEffort.fieldLengthsMatch = true ∧
      ∃ p ∈ samples "ur5" unmeasuredEffort, ¬ @Survives .decimal p.2 := by
  refine ⟨rfl, (telemetryTopic "ur5" "elbow_joint" .effort, .new .nan 1), ?_, ?_⟩
  · exact List.mem_cons_of_mem _ (List.mem_cons_of_mem _ (List.mem_cons_self ..))
  · unfold Survives
    rw [@JointTelemetry.roundTrip_iff .decimal]
    decide

end TwinServices.Bridge
