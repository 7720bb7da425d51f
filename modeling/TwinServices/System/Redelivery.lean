import TwinServices.Lib.AtLeastOnce
import TwinServices.System.CommandPath

/-!
# Commands that are delivered again

command-svc sends commands with QoS 1: the broker delivers each of them at least once, and again
when an acknowledgement is lost with the connection. The bridge hands every command that it reads to
the ROS node. A setpoint that comes twice in a row is one motion, a run of setpoints that comes
twice is not.

* `handed`: the commands that the node gets of what the broker delivered.
* `redelivery_safe_iff`: the node gets the commands as they were sent, up to repetitions, exactly
  when they are finite and nothing but the newest command is delivered again.
* `redelivery_sends_back`: two commands delivered again send the arm back to the first.
-/

set_option autoImplicit false

namespace TwinServices.System

open TwinServices.Python TwinServices.Contracts TwinServices.Bridge
open Lib.Transition Lib.Binary64 Lib.AtLeastOnce

section redelivery

variable [CPython] [Pydantic]

/-- What `command_worker` hands to `node.publish_command` of the message with a command, if it hands
over anything.
Source: `main.py`, `command_worker` -/
def forwarded (c : JointCommand Double) : Option (JointCommand Double) :=
  commandWorkerMessage (.ofText c.modelDumpJson)

/-- The commands that were handed to `node.publish_command`, oldest first.
Source: `main.py`, `command_worker` -/
def handed (s : Channel (JointCommand Double)) : List (JointCommand Double) :=
  s.received.filterMap forwarded

/-- The node got the commands that were delivered for the first time, up to repetitions. -/
def InStep (s : Channel (JointCommand Double)) : Prop := merge (handed s) = merge s.first

omit [Pydantic] in
/-- A command that is delivered for the first time is finite, and nothing but the newest command is
delivered again. -/
def RepeatsNewest (s : Channel (JointCommand Double)) : Event (JointCommand Double) → Prop
  | .deliver => ∀ c ∈ s.sent[s.delivered]?, c.Finite
  | .redeliver i j => ∀ c ∈ (s.sent.take j).drop i, s.first.getLast? = some c
  | _ => True

/-- A command is forwarded as it was sent, if it is finite, and not at all else. -/
theorem forwarded_eq_some_iff {c d : JointCommand Double} :
    forwarded c = some d ↔ c.Finite ∧ d = c := by
  obtain ⟨hok, hnone⟩ := commandWorkerMessage_modelDumpJson c
  by_cases hfinite : c.Finite
  · rw [forwarded, hok hfinite]
    simp [hfinite, eq_comm]
  · rw [forwarded, hnone hfinite]
    simp [hfinite]

/-- The condition of an at-least-once channel, for what the bridge hands on. -/
theorem harmless_iff (s : Channel (JointCommand Double)) (e : Event (JointCommand Double)) :
    Harmless forwarded s e ↔ RepeatsNewest s e := by
  cases e with
  | send c => exact Iff.rfl
  | deliver =>
      simp only [Harmless, RepeatsNewest, forwarded_eq_some_iff, and_true]
  | ack => exact Iff.rfl
  | redeliver i j => exact Iff.rfl

/-- **When delivery at least once is safe.** For every sequence of commands and every run of
deliveries, the node gets the commands in the order in which they were sent, up to adjacent
repetitions, in every state exactly when every command delivered is finite and nothing but the
newest one is ever delivered again. After such a run that delivered everything, it got what was
sent. Source: `main.py`, `command_worker`; `publisher.py`, `Publisher.publish` -/
theorem redelivery_safe_iff {l : List (Event (JointCommand Double))}
    {s : Channel (JointCommand Double)} (h : Run step Channel.empty l s) :
    (Throughout step Channel.empty InStep l ↔ AlongSteps step Channel.empty RepeatsNewest l) ∧
    (AlongSteps step Channel.empty RepeatsNewest l → s.delivered = s.sent.length →
      merge (handed s) = merge s.sent) := by
  have hread : ∀ c d : JointCommand Double, forwarded c = some d → d = c :=
    fun c d hd => (forwarded_eq_some_iff.mp hd).2
  have hiff : Throughout step Channel.empty InStep l ↔
      AlongSteps step Channel.empty RepeatsNewest l := by
    apply (merged_throughout_iff hread h).trans
    exact alongSteps_congr fun _ s e _ _ => harmless_iff s e
  refine ⟨hiff, fun hC hall => ?_⟩
  have hlast := hiff.mpr hC l s List.prefix_rfl h
  unfold InStep Channel.first at hlast
  rwa [hall, List.take_length] at hlast

end redelivery

/-! ### Two commands in flight -/

section platform

attribute [local instance] CPython.series Pydantic.decimal

/-- A request without angles has only finite ones. -/
theorem finite_goHome : Command.goHome.Finite := by
  intro d hd
  cases hd

/-- The two requests differ in kind. -/
theorem turnElbow_ne_goHome : turnElbow ≠ Command.goHome := by
  intro h
  exact absurd (congrArg JointCommand.kind h) (by decide)

/-- The elbow turns and the arm goes home, and both commands are delivered again, as neither was
acknowledged. -/
def bothAgain : List (Event (JointCommand Double)) :=
  [.send turnElbow, .send Command.goHome, .deliver, .deliver, .redeliver 0 2]

/-- The equivalence for the run in which both commands come again. -/
theorem redelivery_safe_iff_bothAgain :
    ∃ s, Run step Channel.empty bothAgain s ∧
      (Throughout step Channel.empty InStep bothAgain ↔
        AlongSteps step Channel.empty RepeatsNewest bothAgain) :=
  ⟨_, .of_exec rfl, (redelivery_safe_iff (.of_exec rfl)).1⟩

/-- The arm is sent back to where the elbow is turned after it was sent home. -/
theorem redelivery_sends_back :
    ∃ s, Run step Channel.empty bothAgain s ∧ s.delivered = s.sent.length ∧
      handed s = [turnElbow, Command.goHome, turnElbow, Command.goHome] ∧
      merge (handed s) ≠ merge s.sent ∧ ¬ InStep s := by
  refine ⟨⟨[turnElbow, Command.goHome], 0, 2,
    [turnElbow, Command.goHome, turnElbow, Command.goHome]⟩, .of_exec rfl, rfl, ?_⟩
  have hturn : forwarded turnElbow = some turnElbow :=
    forwarded_eq_some_iff.mpr ⟨finite_turnElbow, rfl⟩
  have hhome : forwarded Command.goHome = some Command.goHome :=
    forwarded_eq_some_iff.mpr ⟨finite_goHome, rfl⟩
  have hhanded : handed ⟨[turnElbow, Command.goHome], 0, 2,
      [turnElbow, Command.goHome, turnElbow, Command.goHome]⟩ =
      [turnElbow, Command.goHome, turnElbow, Command.goHome] := by
    simp only [handed, List.filterMap_cons_some hturn, List.filterMap_cons_some hhome,
      List.filterMap_nil]
  have hmerge : merge [turnElbow, Command.goHome, turnElbow, Command.goHome] ≠
      merge [turnElbow, Command.goHome] := by
    intro heq
    have hnewest := (merge_append_eq_iff [turnElbow, Command.goHome]
      [turnElbow, Command.goHome]).mp heq turnElbow (List.mem_cons_self ..)
    exact turnElbow_ne_goHome (Option.some.inj hnewest).symm
  refine ⟨hhanded, ?_, ?_⟩
  · rw [hhanded]
    exact hmerge
  · unfold InStep
    rw [hhanded]
    exact hmerge

end platform

end TwinServices.System
