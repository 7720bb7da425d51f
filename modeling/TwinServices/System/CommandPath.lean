import TwinServices.Bridge.Main
import TwinServices.Command.Publisher

/-!
# The path of a command

From the request that command-svc accepts over the broker to the ROS node of the bridge: what
`Publisher.publish` sends is what `command_worker` validates.

* `forwarded_iff_finite`: the bridge forwards the very command that was accepted exactly when
  every angle in it is finite; a command with another angle is answered as accepted and dropped.
-/

set_option autoImplicit false

namespace TwinServices.System

open TwinServices.Python TwinServices.Contracts TwinServices.Bridge TwinServices.Command
open Lib.Binary64

section path

variable [CPython] [Pydantic]

/-- The bridge forwards a command that was sent exactly when its angles are finite, and drops it
else. -/
theorem commandWorkerMessage_modelDumpJson (c : JointCommand Double) :
    (c.Finite → commandWorkerMessage (.ofText c.modelDumpJson) = some c) ∧
      (¬ c.Finite → commandWorkerMessage (.ofText c.modelDumpJson) = none) := by
  obtain ⟨hok, herror⟩ := c.roundTrip
  constructor
  · intro hfinite
    have h := hok hfinite
    simp only [Payload.ofText] at h
    simp only [commandWorkerMessage, Payload.ofText, h]
  · intro hfinite
    obtain ⟨es, h⟩ := herror hfinite
    simp only [Payload.ofText] at h
    simp only [commandWorkerMessage, Payload.ofText, h]

/-- **Which commands reach the robot.** A `publish()` over an open session sends one message on
the command topic, and the bridge forwards the accepted command from it exactly when every angle
of the command is finite.
Source: `publisher.py`, `Publisher.publish`; `main.py`, `command_worker` -/
theorem forwarded_iff_finite (asset : String) (s : State) (n : Request) (c : JointCommand Double)
    {client : Client} (hclient : s.client = some client) :
    ∃ sent, (enterPublish asset s n c).sent = s.sent ++ [sent] ∧ sent.client = client ∧
      sent.topic = commandTopic asset ∧
      (commandWorkerMessage (.ofText sent.payload) = some c ↔ c.Finite) := by
  refine ⟨⟨n, client, commandTopic asset, c.modelDumpJson⟩, ?_, rfl, rfl, ?_⟩
  · simp only [enterPublish, hclient]
  · obtain ⟨hok, hnone⟩ := commandWorkerMessage_modelDumpJson c
    by_cases hfinite : c.Finite
    · simp [hfinite, hok hfinite]
    · simp [hfinite, hnone hfinite]

end path

/-! ### A finite and an infinite angle -/

section platform

attribute [local instance] CPython.series Pydantic.decimal

/-- Where the elbow turns. -/
def elbowPosition : Option (Dict String Double) :=
  some (Dict.ofItems [("elbow_joint", .finite Double.one)])

/-- A move has to say where to. -/
theorem elbowPosition_match : positionsMatchKind .moveJoints elbowPosition = none := rfl

/-- The default duration is positive. -/
theorem elbowDuration_gt : PyFloat.lit 0 < goHome.durationS := goHome.duration_gt

/-- The default duration is within the bound. -/
theorem elbowDuration_le : ¬ PyFloat.lit 30 < goHome.durationS := goHome.duration_le

/-- The request to turn the elbow. -/
def turnElbow : JointCommand Double where
  schemaVersion := currentVersion
  kind := .moveJoints
  positions := elbowPosition
  durationS := goHome.durationS
  duration_gt := elbowDuration_gt
  duration_le := elbowDuration_le
  positions_match := elbowPosition_match

/-- Its one angle is finite. -/
theorem finite_turnElbow : turnElbow.Finite := by
  intro d hd p hp
  obtain rfl := Option.some.inj hd
  obtain rfl := List.mem_singleton.mp hp
  rfl

/-- A request that turns one joint without end. -/
def infiniteElbow : JointCommand Double :=
  { goHome with
    kind := .moveJoints
    positions := some (Dict.ofItems [("elbow_joint", .inf false)])
    positions_match := by decide }

/-- A publisher over its first session.
Source: `publisher.py`, `Publisher.run` -/
def connectedState : State :=
  { State.init with task := .iterating 0, client := some 0, sessions := 1 }

/-- The finite angle is accepted and sent, and the bridge forwards the command. -/
theorem forwarded_iff_finite_turnElbow :
    ∃ sent, (enterPublish "ur5" connectedState 0 turnElbow).sent = [sent] ∧ sent.client = 0 ∧
      sent.topic = "twin/ur5/cmd/joints" ∧ turnElbow.Finite ∧
      commandWorkerMessage (.ofText sent.payload) = some turnElbow := by
  obtain ⟨sent, hsent, hclient, htopic, hiff⟩ :=
    forwarded_iff_finite "ur5" connectedState 0 turnElbow rfl
  exact ⟨sent, hsent, hclient, htopic, finite_turnElbow, hiff.mpr finite_turnElbow⟩

/-- The infinite angle is accepted and sent, and the bridge drops the command. -/
theorem infiniteElbow_dropped :
    ∃ sent, (enterPublish "ur5" connectedState 0 infiniteElbow).sent = [sent] ∧
      commandWorkerMessage (.ofText sent.payload) = none := by
  refine ⟨⟨0, 0, "twin/ur5/cmd/joints", infiniteElbow.modelDumpJson⟩, rfl, ?_⟩
  apply (commandWorkerMessage_modelDumpJson infiniteElbow).2
  intro hfinite
  exact absurd (hfinite _ rfl ("elbow_joint", .inf false) (by decide)) (by decide)

end platform

end TwinServices.System
