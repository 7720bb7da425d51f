import TwinServices.Lib.Transition
import TwinServices.Contracts.Models

/-!
# The publisher of command-svc

`Publisher` holds one broker connection. Two kinds of coroutines share its field `_client`:
`run()`, which sets it when a session opens and clears it when the session is lost, and every
`publish()`, which reads it once and clears it when its own `client.publish` fails. Every `await`
is a point where another coroutine can run, so a label of the system is what happens at one of
them, and a run of the system is an interleaving.

* `State`, `Event`, `step`: the coroutines, with what they sent, counted and answered.
* `honest_iff_no_publish_fails`: readiness is honest throughout a run exactly when no `publish()`
  fails while `run()` iterates over an open session.
* `honest_not_kept`: one publish that fails while the connection stays up leaves the service
  unavailable over an open session.
-/

set_option autoImplicit false

namespace TwinServices.Command

open TwinServices.Python TwinServices.Contracts Lib.Transition Lib.Binary64

/-! ## The coroutines -/

section system

variable [CPython]

/-- An `aiomqtt.Client`. `run()` makes one per session, so the number of the session names it.
Source: `publisher.py`, `Publisher.run` -/
abbrev Client : Type := ℕ

/-- The number of a request, one call of `publish()`.
Source: `api.py`, `command` -/
abbrev Request : Type := ℕ

/-- Where `run()` is suspended.
Source: `publisher.py`, `Publisher.run` -/
inductive Task
  /-- In `__aenter__` of a new client. -/
  | connecting
  /-- In `async for _ in client.messages`. -/
  | iterating (client : Client)
  /-- In `__aexit__` of the client, with an `MqttError` on its way out. -/
  | closing (client : Client)
  /-- In `asyncio.sleep(RECONNECT_DELAY_S)`. -/
  | sleeping
deriving DecidableEq

/-- A `publish()` suspended in `client.publish`: the client it read and its command.
Source: `publisher.py`, `Publisher.publish` -/
structure Call where
  client : Client
  command : JointCommand Double

/-- A call of `client.publish`, with its arguments.
Source: `publisher.py`, `Publisher.publish` -/
structure Sent where
  request : Request
  client : Client
  topic : String
  payload : String
deriving DecidableEq

/-- What `POST /command` answers: 202 with the receipt's kind and topic, or 503 with a detail.
Source: `api.py`, `command` -/
inductive Answer
  | accepted (kind : CommandKind) (topic : String)
  | unavailable (detail : String)
deriving DecidableEq

/-- The state of the publisher and of the requests it serves.
Source: `publisher.py`, `Publisher`; `api.py`, `command` -/
structure State where
  task : Task
  /-- The field `_client`. -/
  client : Option Client
  /-- How many sessions were opened. -/
  sessions : ℕ
  /-- The calls suspended in `client.publish`. -/
  calls : Request → Option Call
  /-- The calls of `client.publish`, oldest first. -/
  sent : List Sent
  /-- The counter `PUBLISHED`, by kind. -/
  published : CommandKind → ℕ
  /-- The answered requests. -/
  answers : Request → Option Answer

/-- `Publisher(config)`, before `run()` has connected.
Source: `publisher.py`, `Publisher.__init__` -/
def State.init : State where
  task := .connecting
  client := none
  sessions := 0
  calls _ := none
  sent := []
  published _ := 0
  answers _ := none

/-- Source: `publisher.py`, `Publisher.readiness` -/
def readiness (s : State) : Bool := s.client.isSome

/-- What happens at an `await`.
Source: `publisher.py`, `Publisher.run`, `Publisher.publish`; `api.py`, `command` -/
inductive Event
  /-- `__aenter__` returns: a session is open. -/
  | connected
  /-- `__aenter__` raises `MqttError`. -/
  | connectFailed
  /-- The iteration over the messages raises `MqttError`. -/
  | sessionLost
  /-- `__aexit__` is through and the `except` clause runs. -/
  | sessionHandled
  /-- The sleep is over. -/
  | woken
  /-- A request enters `publish()`. -/
  | post (request : Request) (command : JointCommand Double)
  /-- `client.publish` returns. -/
  | publishReturned (request : Request)
  /-- `client.publish` raises `MqttError`. -/
  | publishFailed (request : Request) (error : String)

/-- The `except` clause of `run()`.
Source: `publisher.py`, `Publisher.run` -/
def handleDisconnect (s : State) : State := { s with client := none, task := .sleeping }

/-- `publish()` up to its `await`: without a client it raises, else it calls `client.publish`.
Source: `publisher.py`, `Publisher.publish`; `api.py`, `command` -/
def enterPublish (asset : String) (s : State) (n : Request) (command : JointCommand Double)
    [Pydantic] : State :=
  match s.client with
  | none =>
      { s with answers := Function.update s.answers n
                 (some (.unavailable "MQTT broker unavailable")) }
  | some client =>
      { s with
        calls := Function.update s.calls n (some ⟨client, command⟩)
        sent := s.sent ++ [⟨n, client, commandTopic asset, command.modelDumpJson⟩] }

/-- `publish()` after `client.publish` has returned: count and answer.
Source: `publisher.py`, `Publisher.publish`; `api.py`, `command` -/
def returnPublish (asset : String) (s : State) (n : Request) (call : Call) : State :=
  { s with
    calls := Function.update s.calls n none
    published := Function.update s.published call.command.kind (s.published call.command.kind + 1)
    answers := Function.update s.answers n
      (some (.accepted call.command.kind (commandTopic asset))) }

/-- `publish()` after `client.publish` has raised: forget the client and answer.
Source: `publisher.py`, `Publisher.publish`; `api.py`, `command` -/
def failPublish (s : State) (n : Request) (error : String) : State :=
  { s with
    client := none
    calls := Function.update s.calls n none
    answers := Function.update s.answers n (some (.unavailable error)) }

/-- One event, where it can happen. Source: `publisher.py`, `Publisher.run`, `Publisher.publish` -/
def step [Pydantic] (asset : String) (s : State) : Event → Option State
  | .connected =>
      match s.task with
      | .connecting =>
          some { s with
            task := .iterating s.sessions, client := some s.sessions, sessions := s.sessions + 1 }
      | _ => none
  | .connectFailed =>
      match s.task with
      | .connecting => some (handleDisconnect s)
      | _ => none
  | .sessionLost =>
      match s.task with
      | .iterating c => some { s with task := .closing c }
      | _ => none
  | .sessionHandled =>
      match s.task with
      | .closing _ => some (handleDisconnect s)
      | _ => none
  | .woken =>
      match s.task with
      | .sleeping => some { s with task := .connecting }
      | _ => none
  | .post n command =>
      if s.calls n = none ∧ s.answers n = none then some (enterPublish asset s n command) else none
  | .publishReturned n => (s.calls n).map (returnPublish asset s n)
  | .publishFailed n error => (s.calls n).map fun _ => failPublish s n error

/-! ## One step -/

section inversion

variable [Pydantic] {asset : String} {s t : State} {e : Event}

/-- What each event needs, and what it leads to. -/
theorem step_cases (h : step asset s e = some t) :
    (e = .connected ∧ s.task = .connecting ∧ t = { s with
      task := .iterating s.sessions, client := some s.sessions, sessions := s.sessions + 1 }) ∨
    ((e = .connectFailed ∨ e = .sessionHandled) ∧ t = handleDisconnect s) ∨
    (∃ c, e = .sessionLost ∧ s.task = .iterating c ∧ t = { s with task := .closing c }) ∨
    (e = .woken ∧ t = { s with task := .connecting }) ∨
    (∃ n command, e = .post n command ∧ s.calls n = none ∧ s.answers n = none ∧
      t = enterPublish asset s n command) ∨
    (∃ n call, e = .publishReturned n ∧ s.calls n = some call ∧
      t = returnPublish asset s n call) ∨
    (∃ n call error, e = .publishFailed n error ∧ s.calls n = some call ∧
      t = failPublish s n error) := by
  cases e with
  | connected =>
      simp only [step] at h
      split at h
      · rename_i htask
        exact Or.inl ⟨rfl, htask, (Option.some.inj h).symm⟩
      · cases h
  | connectFailed | sessionHandled =>
      simp only [step] at h
      split at h
      · exact Or.inr (Or.inl ⟨by simp, (Option.some.inj h).symm⟩)
      · cases h
  | sessionLost =>
      simp only [step] at h
      split at h
      · rename_i c htask
        exact Or.inr (Or.inr (Or.inl ⟨c, rfl, htask, (Option.some.inj h).symm⟩))
      · cases h
  | woken =>
      simp only [step] at h
      split at h
      · exact Or.inr (Or.inr (Or.inr (Or.inl ⟨rfl, (Option.some.inj h).symm⟩)))
      · cases h
  | post n command =>
      simp only [step] at h
      split_ifs at h with hfree
      iterate 4 right
      exact Or.inl ⟨n, command, rfl, hfree.1, hfree.2, (Option.some.inj h).symm⟩
  | publishReturned n =>
      simp only [step, Option.map_eq_some_iff] at h
      obtain ⟨call, hcall, rfl⟩ := h
      iterate 5 right
      exact Or.inl ⟨n, call, rfl, hcall, rfl⟩
  | publishFailed n error =>
      simp only [step, Option.map_eq_some_iff] at h
      obtain ⟨call, hcall, rfl⟩ := h
      iterate 6 right
      exact ⟨n, call, error, rfl, hcall, rfl⟩

/-- A call that enters finds no client and is answered, or calls `client.publish`. -/
theorem enterPublish_cases (asset : String) (s : State) (n : Request)
    (command : JointCommand Double) :
    (s.client = none ∧ enterPublish asset s n command = { s with
      answers := Function.update s.answers n (some (.unavailable "MQTT broker unavailable")) }) ∨
    (∃ client, s.client = some client ∧ enterPublish asset s n command = { s with
      calls := Function.update s.calls n (some ⟨client, command⟩)
      sent := s.sent ++ [⟨n, client, commandTopic asset, command.modelDumpJson⟩] }) := by
  rcases hclient : s.client with _ | client
  · refine Or.inl ⟨rfl, ?_⟩
    simp only [enterPublish, hclient]
  · refine Or.inr ⟨client, rfl, ?_⟩
    simp only [enterPublish, hclient]

/-- It leaves the session alone. -/
theorem enterPublish_session (asset : String) (s : State) (n : Request)
    (command : JointCommand Double) : (enterPublish asset s n command).task = s.task ∧
      (enterPublish asset s n command).client = s.client ∧
      (enterPublish asset s n command).sessions = s.sessions := by
  rcases enterPublish_cases asset s n command with ⟨-, heq⟩ | ⟨client, -, heq⟩ <;> rw [heq] <;>
    exact ⟨rfl, rfl, rfl⟩

end inversion

/-! ## Honest readiness -/

section readiness

variable [Pydantic] {asset : String}

/-- While `run()` iterates over an open client, that client is the stored one: readiness reports
it and the next `publish()` uses it. -/
structure HonestFor (asset : String) (s : State) (client : Client) : Prop where
  stored : s.client = some client
  ready : readiness s = true
  next : ∀ n command t, step asset s (.post n command) = some t →
    ∃ call, t.calls n = some call ∧ call.client = client

/-- Readiness is honest in a state.
Source: `publisher.py`, `Publisher.readiness` -/
def Honest (asset : String) (s : State) : Prop :=
  ∀ client, s.task = .iterating client → HonestFor asset s client

/-- The step is a `publish()` that fails while `run()` iterates over an open session. -/
def FailsWhileIterating (s : State) (e : Event) : Prop :=
  (∃ client, s.task = .iterating client) ∧ ∃ n error, e = .publishFailed n error

/-- The stored client decides the rest. -/
theorem honestFor_iff {s : State} {client : Client} :
    HonestFor asset s client ↔ s.client = some client := by
  refine ⟨fun h => h.stored, fun h => ⟨h, ?_, ?_⟩⟩
  · rw [readiness, h]
    rfl
  · intro n command t ht
    simp only [step] at ht
    split_ifs at ht
    obtain rfl := Option.some.inj ht
    refine ⟨⟨client, command⟩, ?_, rfl⟩
    simp only [enterPublish, h, Function.update_self]

/-- The readiness is honest when the client that `run()` iterates over is the stored one. -/
theorem honest_iff {s : State} :
    Honest asset s ↔ ∀ client, s.task = .iterating client → s.client = some client := by
  simp only [Honest, honestFor_iff]

/-- What each event does to where `run()` is and to the stored client. -/
theorem step_task_client {s t : State} {e : Event} (h : step asset s e = some t) :
    (∃ c, t.task = .iterating c ∧ t.client = some c ∧ e = .connected) ∨
      ((∀ c, t.task ≠ .iterating c) ∧ ∀ n error, e ≠ .publishFailed n error) ∨
      (t.task = s.task ∧ t.client = s.client ∧ ∀ n error, e ≠ .publishFailed n error) ∨
      (t.task = s.task ∧ t.client = none ∧ ∃ n error, e = .publishFailed n error) := by
  rcases step_cases h with ⟨rfl, -, rfl⟩ | ⟨rfl | rfl, rfl⟩ | ⟨c, rfl, -, rfl⟩ | ⟨rfl, rfl⟩ |
    ⟨n, command, rfl, -, -, rfl⟩ | ⟨n, call, rfl, -, rfl⟩ | ⟨n, call, error, rfl, -, rfl⟩
  · exact Or.inl ⟨_, rfl, rfl, rfl⟩
  -- `run()` iterates over no session afterwards
  · exact Or.inr (Or.inl ⟨by simp [handleDisconnect], by simp⟩)
  · exact Or.inr (Or.inl ⟨by simp [handleDisconnect], by simp⟩)
  · exact Or.inr (Or.inl ⟨by simp, by simp⟩)
  · exact Or.inr (Or.inl ⟨by simp, by simp⟩)
  -- a call of `publish()` moves on
  · obtain ⟨htask, hclient, -⟩ := enterPublish_session asset s n command
    exact Or.inr (Or.inr (Or.inl ⟨htask, hclient, by simp⟩))
  · exact Or.inr (Or.inr (Or.inl ⟨rfl, rfl, by simp⟩))
  · exact Or.inr (Or.inr (Or.inr ⟨rfl, rfl, n, error, rfl⟩))

/-- A step keeps readiness honest exactly when it is no publish failing over an open session. -/
theorem honest_step_iff {s t : State} {e : Event} (hs : Honest asset s)
    (h : step asset s e = some t) : Honest asset t ↔ ¬ FailsWhileIterating s e := by
  rw [honest_iff] at hs ⊢
  unfold FailsWhileIterating
  rcases step_task_client h with ⟨c, htask, hclient, rfl⟩ | ⟨htask, he⟩ | ⟨htask, hclient, he⟩ |
    ⟨htask, hclient, n, error, rfl⟩
  · simp [htask, hclient]
  · refine ⟨fun _ => ?_, fun _ c hc => absurd hc (htask c)⟩
    rintro ⟨-, n, error, rfl⟩
    exact he n error rfl
  · refine ⟨fun _ => ?_, fun _ => by rwa [htask, hclient]⟩
    rintro ⟨-, n, error, rfl⟩
    exact he n error rfl
  · rw [htask, hclient]
    constructor
    · rintro ht ⟨⟨c, hc⟩, -⟩
      exact absurd (ht c hc) (by simp)
    · intro ht c hc
      exact absurd ⟨⟨c, hc⟩, n, error, rfl⟩ ht

/-- **When readiness is honest.** In every run of `run()` and any number of `publish()` calls,
readiness is honest in every state exactly when no `publish()` fails while `run()` iterates over
an open session. Source: `publisher.py`, `Publisher.run`, `Publisher.publish` -/
theorem honest_iff_no_publish_fails {l : List Event} {s : State}
    (h : Run (step asset) State.init l s) :
    Throughout (step asset) State.init (Honest asset) l ↔
      AlongSteps (step asset) State.init (fun s e => ¬ FailsWhileIterating s e) l := by
  refine h.throughout_iff ?_ fun l s e t _ hs hstep => honest_step_iff hs hstep
  rw [honest_iff]
  intro client hc
  cases hc

end readiness

end system

/-! ### A publish that fails over an open session -/

section platform

attribute [local instance] CPython.series Pydantic.decimal

/-- The request to go home. -/
def goHome : JointCommand Double where
  schemaVersion := currentVersion
  kind := .home
  positions := none
  durationS := JointCommand.defaultDuration.val
  duration_gt := JointCommand.defaultDuration.2.1
  duration_le := JointCommand.defaultDuration.2.2
  positions_match := rfl

/-- The equivalence for a request whose call returns. -/
theorem honest_iff_no_publish_fails_goHome :
    ∃ s, Run (step "ur5") State.init [.connected, .post 0 goHome, .publishReturned 0] s ∧
      (Throughout (step "ur5") State.init (Honest "ur5")
          [.connected, .post 0 goHome, .publishReturned 0] ↔
        AlongSteps (step "ur5") State.init (fun s e => ¬ FailsWhileIterating s e)
          [.connected, .post 0 goHome, .publishReturned 0]) :=
  ⟨_, .of_exec rfl, honest_iff_no_publish_fails (.of_exec rfl)⟩

/-- One publish fails while the connection stays up: `run()` iterates over its open session, and
readiness is false. -/
theorem honest_not_kept :
    ∃ s, Run (step "ur5") State.init
        [.connected, .post 0 goHome, .publishFailed 0 "Operation timed out"] s ∧
      s.task = .iterating 0 ∧ readiness s = false ∧ ¬ Honest "ur5" s := by
  refine ⟨_, .of_exec rfl, rfl, rfl, ?_⟩
  rw [honest_iff]
  intro h
  exact Option.some_ne_none 0 (h 0 rfl).symm

end platform

end TwinServices.Command
