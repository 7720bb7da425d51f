import TwinServices.Bridge.Main
import TwinServices.Bridge.Trajectory
import TwinServices.Contracts.Evolution
import TwinServices.System.Accounting
import TwinServices.System.Pipeline
import TwinServices.System.Redelivery

/-!
# Producers of other versions

The services and the bridge are deployed one at a time, so a consumer hears from producers of other
versions. It makes nothing of the difference: every message may be replaced by one of another
version that says the same, and the consumers run as they did.

* `observe_same`, `checkRecord_same`, `trajectory_same`: one message in each consumer.
* `SameView`, `SameTelemetry`: labels that differ in the version of a message.
* `versions_make_no_difference`: all runs of the consumers.
-/

set_option autoImplicit false

namespace TwinServices.System

open TwinServices.Python TwinServices.Contracts TwinServices.Bridge TwinServices.Viz
open Lib.Json Lib.Transition Lib.Binary64

section evolution

variable [Pydantic]

/-! ## One message -/

/-- What is neither bytes nor text is refused as a sample too, so its check can be left out. -/
theorem checkMessage_eq (topic : String) (payload : Payload) :
    State.checkMessage topic payload =
      match parseTelemetryTopic topic with
      | .error _ => .error .topic
      | .ok (_, joint, field) =>
          if joint ∉ ur5JointNames then .error .joint
          else
            match JointTelemetry.modelValidateJson payload with
            | .error _ => .error .payload
            | .ok sample => .ok (joint, field, sample) := by
  unfold State.checkMessage
  cases payload <;> rfl

/-- state-svc takes in another version's message as its own. -/
theorem observe_same {p p' : Payload} (h : p.Same JointTelemetry.fieldNames p')
    (c : State.Consumer) (topic : String) : c.observe topic p' = c.observe topic p := by
  unfold State.Consumer.observe
  rw [checkMessage_eq, checkMessage_eq]
  rcases parseTelemetryTopic topic with e | ⟨asset, joint, field⟩
  · rfl
  · rcases JointTelemetry.modelValidateJson_same h with ⟨es, es', hp, hp'⟩ |
      ⟨t, t', hp, hp', hcurrent⟩
    · simp only [hp, hp']
    · obtain ⟨hvalue, hstamp⟩ : t'.value = t.value ∧ t'.stampNs = t.stampNs := by
        simpa [JointTelemetry.current, JointTelemetry.new] using hcurrent
      simp only [hp, hp']
      split_ifs
      · simp only [State.RollingWindow.observe, hvalue, hstamp]
      · rfl

/-- telemetry-svc makes the same point of it. -/
theorem checkRecord_same {p p' : Payload} (h : p.Same JointTelemetry.fieldNames p')
    (topic : String) : Telemetry.checkRecord topic p' = Telemetry.checkRecord topic p := by
  cases h with
  | refl => rfl
  | @object _ ms ms' hobject hobject' hsame =>
      have hcheck : ∀ q : Payload, q ≠ .other →
          Telemetry.checkRecord topic q = Telemetry.toPoint topic q := by
        intro q hq
        cases q with
        | other => exact absurd rfl hq
        | bytes b => rfl
        | str text => rfl
      rw [hcheck _ (Payload.ne_other_of_object hobject),
        hcheck _ (Payload.ne_other_of_object hobject')]
      unfold Telemetry.toPoint
      rcases JointTelemetry.modelValidateJson_same (.object hobject hobject' hsame) with
        ⟨es, es', hp, hp'⟩ | ⟨t, t', hp, hp', hcurrent⟩
      · simp only [hp, hp']
      · obtain ⟨hvalue, hstamp⟩ : t'.value = t.value ∧ t'.stampNs = t.stampNs := by
          simpa [JointTelemetry.current, JointTelemetry.new] using hcurrent
        simp only [hp, hp', hvalue, hstamp]

variable [CPython]

/-- The trajectory that a message on the command topic makes the node publish, if it makes one.
Source: `main.py`, `command_worker`, `BridgeNode.publish_command` -/
def trajectory (raw : Payload) : Option (Except NodeError (JointTrajectory Double)) :=
  (commandWorkerMessage raw).map publishCommand

/-- What is neither bytes nor text is refused as a command too. -/
theorem commandWorkerMessage_eq (raw : Payload) :
    commandWorkerMessage raw = (JointCommand.modelValidateJson raw).toOption := by
  cases raw with
  | other => rfl
  | bytes b =>
      simp only [commandWorkerMessage]
      rcases JointCommand.modelValidateJson (.bytes b) with es | cmd <;> rfl
  | str text =>
      simp only [commandWorkerMessage]
      rcases JointCommand.modelValidateJson (.str text) with es | cmd <;> rfl

/-- The node does not read the version of a command. -/
theorem trajectory_eq (raw : Payload) : trajectory raw =
    ((JointCommand.modelValidateJson raw).toOption.map JointCommand.current).map
      publishCommand := by
  rw [trajectory, commandWorkerMessage_eq, Option.map_map]
  rfl

/-- The bridge makes the node publish the same trajectory for another version's command. -/
theorem trajectory_same {p p' : Payload} (h : p.Same JointCommand.fieldNames p') :
    trajectory p' = trajectory p := by
  rw [trajectory_eq, trajectory_eq, JointCommand.modelValidateJson_same h]

/-! ## Runs -/

/-- Steps of state-svc, viz-svc and the browsers that differ at most in the version of a message. -/
inductive SameView : PipelineEvent → PipelineEvent → Prop
  | refl (e : PipelineEvent) : SameView e e
  | message (topic : String) {p p' : Payload} (h : p.Same JointTelemetry.fieldNames p') :
      SameView (.service (.message topic p)) (.service (.message topic p'))

/-- Steps of telemetry-svc that differ at most in the version of a message. -/
inductive SameTelemetry : Telemetry.Event → Telemetry.Event → Prop
  | refl (e : Telemetry.Event) : SameTelemetry e e
  | message (topic : String) {p p' : Payload} (h : p.Same JointTelemetry.fieldNames p') :
      SameTelemetry (.message topic p) (.message topic p')

omit [CPython] in
/-- telemetry-svc takes the same step for a message that says the same.
Source: `ingest.py`, `Ingestor._consume` -/
theorem telemetryStep_same {e e' : Telemetry.Event} (h : SameTelemetry e e')
    (s : Telemetry.Ingestor) : Telemetry.step s e' = Telemetry.step s e := by
  cases h with
  | refl => rfl
  | message topic h =>
      simp only [Telemetry.step, Telemetry.Ingestor.receive, checkRecord_same h topic]

variable [FloatRepr]

/-- state-svc, viz-svc and the browsers take the same step for a message that says the same. -/
theorem pipelineStep_same {asset : String} {e e' : PipelineEvent} (h : SameView e e')
    (p : Pipeline) : pipelineStep asset p e' = pipelineStep asset p e := by
  cases h with
  | refl => rfl
  | message topic h =>
      simp only [pipelineStep, State.serviceStep, State.Service.consume, State.step,
        observe_same h _ topic]

/-- **Versions make no difference.** In every run of state-svc and viz-svc with all their browsers
and in every run of telemetry-svc, each message may be replaced by one of another version that says
the same (whatever unknown members it holds within the limits of the parser, in whatever order and
layout, and whichever version it says it is, if any): it stays a run, with the same final state. And
from such commands the bridge makes the node publish the same trajectories. Source: `models.py`,
`JointTelemetry`, `JointCommand`; `consumer.py`, `Consumer._observe`; `ingest.py`, `_to_point`;
`main.py`, `command_worker` -/
theorem versions_make_no_difference (asset assetName : String) (rmsWindowS : Double)
    (windowNs : ℤ) :
    (∀ l l' p, List.Forall₂ SameView l l' →
      Run (pipelineStep asset) (.init assetName rmsWindowS windowNs) l p →
        Run (pipelineStep asset) (.init assetName rmsWindowS windowNs) l' p) ∧
    (∀ l l' s, List.Forall₂ SameTelemetry l l' → Run Telemetry.step .init l s →
      Run Telemetry.step .init l' s) ∧
    ∀ ps ps' : List Payload, List.Forall₂ (Payload.Same JointCommand.fieldNames) ps ps' →
      ps'.filterMap trajectory = ps.filterMap trajectory := by
  refine ⟨fun l l' p hl h => h.relabel hl fun p e e' he => pipelineStep_same he p,
    fun l l' s hl h => h.relabel hl fun s e e' he => telemetryStep_same he s, ?_⟩
  intro ps ps' hps
  induction hps with
  | nil => rfl
  | cons h _ ih => rw [List.filterMap_cons, List.filterMap_cons, trajectory_same h, ih]

end evolution

/-! ### A later version -/

section platform

attribute [local instance] CPython.series Pydantic.decimal FloatRepr.whole

/-- The version after this one. -/
def laterVersion : AtLeast 1 := ⟨2, by decide⟩

/-- What a later version adds. -/
def addedMembers : List (String × Value) := [("frame_id", .str "base_link")]

/-- The sample of the elbow as a later version sends it, spaced. -/
def laterElbow : Payload :=
  .ofText (String.ofList (print ⟨true, false⟩ (.obj (("schema_version", dumpNat laterVersion.val) ::
    JointTelemetry.legacyMembers (.num (.ofNat 0)) 1 ++ addedMembers))))

/-- The later version of the elbow's message says the same. -/
theorem same_laterElbow : elbowPayload.Same JointTelemetry.fieldNames laterElbow := by
  refine .object (Payload.object_ofText compact (by decide) (by decide +kernel))
    (Payload.object_ofText _ (by decide) (by decide +kernel)) ?_
  exact (sameFields_of_version rfl (by decide)).trans (sameFields_of_known rfl)

/-- The command of the home position as a later version sends it. -/
def laterHome : Payload :=
  .ofText (String.ofList (print ⟨true, true⟩ (.obj (addedMembers ++ Command.goHome.members))))

/-- The later version of the command says the same. -/
theorem same_laterHome :
    (Payload.ofText Command.goHome.modelDumpJson).Same JointCommand.fieldNames laterHome := by
  have hmembers := Command.goHome.depth_members
  have hlater : ∀ m ∈ addedMembers ++ Command.goHome.members, m.2.depth ≤ 1 :=
    List.forall_mem_append.mpr ⟨by decide, hmembers⟩
  refine .object (Payload.object_ofText compact ?_ (by decide +kernel))
    (Payload.object_ofText _ ?_ (by decide +kernel)) (sameFields_of_known rfl)
  · exact (Value.depth_obj_le hmembers).trans (by decide)
  · exact (Value.depth_obj_le hlater).trans (by decide)

/-- A session of telemetry-svc that writes the sample of the elbow, in a version. -/
def elbowSession (payload : Payload) : List Telemetry.Event :=
  [.connected, .pinged true] ++ [.message elbowTopic payload] ++ [.writeReturned]

/-- The sample of the elbow leaves the same services behind in both versions, and the command of the
home position makes the same trajectory. -/
theorem versions_make_no_difference_elbow :
    (∃ p, Run (pipelineStep "ur5") (.init "ur5" (PyFloat.lit 2) 2000000000)
        [.service (.message elbowTopic elbowPayload)] p ∧
      Run (pipelineStep "ur5") (.init "ur5" (PyFloat.lit 2) 2000000000)
        [.service (.message elbowTopic laterElbow)] p) ∧
    (∃ s, Run Telemetry.step .init (elbowSession elbowPayload) s ∧ s.written.length = 1 ∧
      Run Telemetry.step .init (elbowSession laterElbow) s) ∧
    [laterHome].filterMap trajectory = [publishCommand Command.goHome] := by
  obtain ⟨hview, htelemetry, hcommands⟩ :=
    versions_make_no_difference "ur5" "ur5" (PyFloat.lit 2) 2000000000
  have helbow : Telemetry.checkRecord elbowTopic elbowPayload = .ok _ :=
    checkRecord_elbowPayload (by decide)
  have hwritten : Run Telemetry.step .init (elbowSession elbowPayload) _ :=
    (run_consuming.snoc (Telemetry.step_accepted rfl helbow)).snoc rfl
  have hsessions : List.Forall₂ SameTelemetry (elbowSession elbowPayload)
      (elbowSession laterElbow) :=
    .cons (.refl _) (.cons (.refl _) (.cons (.message _ same_laterElbow) (.cons (.refl _) .nil)))
  refine ⟨⟨_, Run.nil.snoc rfl, hview _ _ _ (.cons (.message _ same_laterElbow) .nil)
    (Run.nil.snoc rfl)⟩, ⟨_, hwritten, rfl, htelemetry _ _ _ hsessions hwritten⟩, ?_⟩
  rw [hcommands _ _ (.cons same_laterHome .nil), List.filterMap_cons, trajectory,
    (commandWorkerMessage_modelDumpJson Command.goHome).1 finite_goHome]
  rfl

end platform

end TwinServices.System
