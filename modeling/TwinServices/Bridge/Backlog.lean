import TwinServices.Lib.Transition
import TwinServices.Python.AsyncQueue
import TwinServices.Bridge.Main
import Mathlib.Data.List.Range

/-!
# The backlog of the bridge

ROS calls `_on_msg` on a thread of its own. Each accepted joint state becomes a task of the event
loop that runs `queue.put` and that nobody awaits; the telemetry worker takes joint states from the
queue and publishes them while it has a broker. The bridge holds what was accepted and not yet
taken: in tasks that have not run, in puts that wait on the full queue, in the queue.

* `Backlog`, `State`, `Event`, `step`: the callbacks, the tasks, the queue and the worker, one event
  per atomic step, so that a run is an interleaving. A joint state carries the number `_on_msg`
  accepted it under.
* `nothing_lost`: what was accepted has been taken or is held, once.
* `backlog_bounded_iff`: the backlog stays within the size of the queue exactly when no joint state
  is accepted while that many are held; an outage does not keep `_on_msg` from accepting
  (`backlog_not_bounded`).
* `taken_in_order`: the worker takes joint states in the order they were accepted in while no put
  starts on a queue that has room for a woken one; a put that does overtakes it
  (`taken_out_of_order`).
-/

set_option autoImplicit false

namespace TwinServices.Bridge.Async

open TwinServices.Python TwinServices.Contracts Lib.Transition Lib.Binary64

/-! ## Callbacks, tasks and the queue -/

/-- A `sensor_msgs/JointState`, as far as the bridge reads it. -/
structure JointState where
  sec : ℤ
  nanosec : ℕ
  name : List String
  position : List Double
  velocity : List Double
  effort : List Double

/-- The stamp of a message in nanoseconds.
Source: `main.py`, `BridgeNode._on_msg` -/
def JointState.stampNs (msg : JointState) : ℤ := msg.sec * 1000000000 + msg.nanosec

/-- What `_on_msg` makes of a message, where its stamp and names are valid.
Source: `main.py`, `BridgeNode._on_msg`; `models.py`, `JointStateMessage` -/
def validated (msg : JointState) : Option (JointStateMessage Double) :=
  if h : 0 ≤ msg.stampNs ∧ msg.name ≠ [] then
    some ⟨msg.stampNs.toNat, msg.name, msg.position, msg.velocity, msg.effort, h.2⟩
  else none

/-- A joint state with the number `_on_msg` accepted it under. -/
abbrev Item : Type := JointStateMessage Double × ℕ

/-- What became of the joint states. -/
structure Backlog where
  /-- The accepted joint states, oldest first. -/
  accepted : List (JointStateMessage Double)
  /-- The tasks that are to run `queue.put` and have not started, oldest first. -/
  scheduled : List Item
  queue : WaitQueue Item
  /-- What the worker took from the queue, oldest first. -/
  taken : List Item

namespace Backlog

/-- No message yet, over a new queue. -/
def empty (maxsize : ℕ) : Backlog := ⟨[], [], .new maxsize, []⟩

/-- An accepted joint state is scheduled: `run_coroutine_threadsafe(queue.put(validated), loop)`.
Source: `main.py`, `BridgeNode._on_msg` -/
def accept (b : Backlog) (msg : JointStateMessage Double) : Backlog :=
  { b with
    accepted := b.accepted ++ [msg], scheduled := b.scheduled ++ [(msg, b.accepted.length)] }

/-- Source: `main.py`, `BridgeNode._on_msg` -/
def onMsg (b : Backlog) (msg : JointState) : Backlog :=
  match validated msg with
  | some msg => b.accept msg
  | none => b

/-- The oldest scheduled task starts its `put`.
Source: `main.py`, `BridgeNode._on_msg` -/
def startPut (b : Backlog) : Option Backlog :=
  match b.scheduled with
  | [] => none
  | item :: scheduled => some { b with scheduled := scheduled, queue := b.queue.put item }

/-- A woken `put` runs again.
Source: `main.py`, `BridgeNode._on_msg` -/
def resumePut (b : Backlog) : Option Backlog := b.queue.resume.map fun q => { b with queue := q }

/-- `await queue.get()`, where it need not wait.
Source: `main.py`, `telemetry_worker` -/
def get (b : Backlog) : Option (Item × Backlog) :=
  b.queue.get.map fun p => (p.1, { b with queue := p.2, taken := b.taken ++ [p.1] })

/-- What is held, in the order in which it would be taken if no more came. -/
def line (b : Backlog) : List Item := b.queue.line ++ b.scheduled

/-- How many joint states are accepted and not yet taken: in the queue, in a woken or a waiting
`put`, in a task that has not started. -/
def held (b : Backlog) : ℕ :=
  b.queue.queue.items.length + b.queue.woken.length + b.queue.putters.length + b.scheduled.length

/-- The worker took the joint states in the order in which they were accepted. -/
def InOrder (b : Backlog) : Prop := b.taken <+: b.accepted.zipIdx

/-- The joint states were taken, and stand in line, in the order in which they were accepted. -/
def InLine (b : Backlog) : Prop := b.taken ++ b.line = b.accepted.zipIdx

/-- The line is what is held. -/
theorem length_line (b : Backlog) : b.line.length = b.held := by
  simp only [line, WaitQueue.line, held, List.length_append]
  omega

/-- What is taken in order is the first of what was accepted. -/
theorem InOrder.values {b : Backlog} (h : b.InOrder) : b.taken.map Prod.fst <+: b.accepted := by
  have hmap := h.map Prod.fst
  rwa [List.zipIdx_map_fst] at hmap

/-- What is taken and in line together is in order only if what is taken is. -/
theorem InLine.inOrder {b : Backlog} (h : b.InLine) : b.InOrder := ⟨b.line, h⟩

/-- A valid message is accepted.
Source: `main.py`, `BridgeNode._on_msg` -/
theorem onMsg_of_validated {b : Backlog} {msg : JointState} {m : JointStateMessage Double}
    (h : validated msg = some m) : b.onMsg msg = b.accept m := by
  simp only [onMsg, h]

/-- Another one is dropped.
Source: `main.py`, `BridgeNode._on_msg` -/
theorem onMsg_of_not_validated {b : Backlog} {msg : JointState} (h : validated msg = none) :
    b.onMsg msg = b := by
  simp only [onMsg, h]

/-- The `put` that starts is the oldest scheduled one. -/
theorem startPut_eq_some {b b' : Backlog} (h : b.startPut = some b') :
    ∃ item scheduled, b.scheduled = item :: scheduled ∧
      b' = { b with scheduled := scheduled, queue := b.queue.put item } := by
  unfold startPut at h
  rcases hscheduled : b.scheduled with _ | ⟨item, scheduled⟩
  · simp [hscheduled] at h
  · rw [hscheduled] at h
    exact ⟨item, scheduled, rfl, (Option.some.inj h).symm⟩

/-- A `put` that resumes changes the queue alone. -/
theorem resumePut_eq_some {b b' : Backlog} (h : b.resumePut = some b') :
    ∃ q, b.queue.resume = some q ∧ b' = { b with queue := q } := by
  obtain ⟨q, hq, rfl⟩ := Option.map_eq_some_iff.mp h
  exact ⟨q, hq, rfl⟩

/-- A woken `put` resumes. -/
theorem resumePut_of_resume {b : Backlog} {q : WaitQueue Item} (h : b.queue.resume = some q) :
    b.resumePut = some { b with queue := q } := by
  simp only [resumePut, h, Option.map_some]

/-- A `get` takes the item off the queue. -/
theorem get_eq_some {b b' : Backlog} {item : Item} (h : b.get = some (item, b')) :
    ∃ q, b.queue.get = some (item, q) ∧
      b' = { b with queue := q, taken := b.taken ++ [item] } := by
  obtain ⟨p, hp, heq⟩ := Option.map_eq_some_iff.mp h
  obtain ⟨rfl, rfl⟩ := Prod.mk.inj heq
  exact ⟨p.2, hp, rfl⟩

/-- An accepted joint state gets the next number and the last place in line. -/
theorem accept_line (b : Backlog) (msg : JointStateMessage Double) :
    (b.accept msg).line = b.line ++ [(msg, b.accepted.length)] ∧
      (b.accept msg).accepted.zipIdx = b.accepted.zipIdx ++ [(msg, b.accepted.length)] := by
  constructor
  · simp only [line, accept, List.append_assoc]
  · simp only [accept, List.zipIdx_append, Nat.zero_add, List.zipIdx_singleton]

end Backlog

/-! ## The telemetry worker -/

/-- Where the telemetry worker is suspended.
Source: `main.py`, `telemetry_worker`, `publish_joint_states` -/
inductive Worker
  /-- In `__aenter__` of a new client. -/
  | connecting
  /-- In `queue.get()`. -/
  | getting
  /-- In `client.publish`, with the messages of the joint state that are left after this one. -/
  | publishing (left : List (String × String))
  /-- In `__aexit__` of the client, with an `MqttError` on its way out. -/
  | closing
  /-- In `asyncio.sleep(2.0)`. -/
  | sleeping

/-- The state of the bridge's telemetry side.
Source: `main.py`, `BridgeNode`, `telemetry_worker` -/
structure State where
  backlog : Backlog
  worker : Worker
  /-- The calls of `client.publish`, oldest first: topic and payload. -/
  sent : List (String × String)

/-- The bridge before its first message.
Source: `main.py`, `main_async` -/
def State.init (maxsize : ℕ) : State := ⟨.empty maxsize, .connecting, []⟩

/-- The bridge as it is started. Source: `main.py`, `main_async` -/
def mainAsync : State := .init 1000

/-- What happens to the worker at an `await` other than that of `queue.get()`.
Source: `main.py`, `telemetry_worker`, `publish_joint_states` -/
inductive WorkerEvent
  | connected
  | connectFailed
  | publishReturned
  | publishFailed
  | closed
  | woken

/-- An atomic step.
Source: `main.py`, `BridgeNode._on_msg`, `telemetry_worker` -/
inductive Event
  /-- ROS calls `_on_msg`. -/
  | onMsg (msg : JointState)
  /-- The oldest scheduled task runs. -/
  | startPut
  /-- The `put` that was woken first runs again. -/
  | resumePut
  /-- `queue.get()` returns. -/
  | get
  | worker (e : WorkerEvent)

/-- The loop of `publish_joint_states` up to its next `await`, and back to `queue.get()` after the
last message.
Source: `main.py`, `publish_joint_states`, `telemetry_worker` -/
def callNext (s : State) : List (String × String) → State
  | [] => { s with worker := .getting }
  | message :: left => { s with worker := .publishing left, sent := s.sent ++ [message] }

/-- Source: `main.py`, `telemetry_worker` -/
def stepWorker (s : State) : WorkerEvent → Option State
  | .connected =>
      match s.worker with
      | .connecting => some { s with worker := .getting }
      | _ => none
  | .connectFailed =>
      match s.worker with
      | .connecting => some { s with worker := .sleeping }
      | _ => none
  | .publishReturned =>
      match s.worker with
      | .publishing left => some (callNext s left)
      | _ => none
  | .publishFailed =>
      match s.worker with
      | .publishing _ => some { s with worker := .closing }
      | _ => none
  | .closed =>
      match s.worker with
      | .closing => some { s with worker := .sleeping }
      | _ => none
  | .woken =>
      match s.worker with
      | .sleeping => some { s with worker := .connecting }
      | _ => none

/-- One step, where it can happen.
Source: `main.py`, `BridgeNode._on_msg`, `telemetry_worker`, `publish_joint_states` -/
def step [Pydantic] (asset : String) (s : State) : Event → Option State
  | .onMsg msg => some { s with backlog := s.backlog.onMsg msg }
  | .startPut => s.backlog.startPut.map fun b => { s with backlog := b }
  | .resumePut => s.backlog.resumePut.map fun b => { s with backlog := b }
  | .get =>
      match s.worker with
      | .getting =>
          s.backlog.get.map fun p =>
            callNext { s with backlog := p.2 } (publishJointStates p.1.1 asset)
      | _ => none
  | .worker e => stepWorker s e

/-- Sending the next message leaves the backlog. -/
theorem callNext_backlog (s : State) (left : List (String × String)) :
    (callNext s left).backlog = s.backlog := by
  cases left <;> rfl

/-- Apart from its `get` the worker leaves the backlog alone. -/
theorem stepWorker_backlog {s t : State} {e : WorkerEvent} (h : stepWorker s e = some t) :
    t.backlog = s.backlog := by
  cases e with
  | connected | connectFailed | publishFailed | closed | woken =>
      simp only [stepWorker] at h
      split at h
      · obtain rfl := Option.some.inj h
        rfl
      · cases h
  | publishReturned =>
      simp only [stepWorker] at h
      split at h
      · obtain rfl := Option.some.inj h
        exact callNext_backlog s _
      · cases h

section runs

variable [Pydantic] {asset : String}

/-- What each event does to the backlog. -/
theorem step_cases {s t : State} {e : Event} (h : step asset s e = some t) :
    (∃ msg, e = .onMsg msg ∧ t.backlog = s.backlog.onMsg msg) ∨
      (e = .startPut ∧ s.backlog.startPut = some t.backlog) ∨
      (e = .resumePut ∧ s.backlog.resumePut = some t.backlog) ∨
      (e = .get ∧ ∃ item, s.backlog.get = some (item, t.backlog)) ∨
      ((∃ e', e = .worker e') ∧ t.backlog = s.backlog) := by
  cases e with
  | onMsg msg =>
      obtain rfl := Option.some.inj h
      exact Or.inl ⟨msg, rfl, rfl⟩
  | startPut =>
      obtain ⟨b, hb, rfl⟩ := Option.map_eq_some_iff.mp h
      exact Or.inr (Or.inl ⟨rfl, hb⟩)
  | resumePut =>
      obtain ⟨b, hb, rfl⟩ := Option.map_eq_some_iff.mp h
      exact Or.inr (Or.inr (Or.inl ⟨rfl, hb⟩))
  | get =>
      simp only [step] at h
      split at h
      · obtain ⟨p, hp, rfl⟩ := Option.map_eq_some_iff.mp h
        rw [callNext_backlog]
        exact Or.inr (Or.inr (Or.inr (Or.inl ⟨rfl, p.1, hp⟩)))
      · cases h
  | worker e => exact Or.inr (Or.inr (Or.inr (Or.inr ⟨⟨e, rfl⟩, stepWorker_backlog h⟩)))

/-! ## Nothing is lost and nothing comes twice -/

/-- Every accepted joint state has been taken or is held, once. -/
def Backlog.Accounted (b : Backlog) : Prop := (b.taken ++ b.line).Perm b.accepted.zipIdx

/-- One step keeps the account. -/
theorem Backlog.Accounted.step {s t : State} {e : Event} (hs : s.backlog.Accounted)
    (h : step asset s e = some t) : t.backlog.Accounted := by
  unfold Backlog.Accounted at hs ⊢
  rcases step_cases h with ⟨msg, -, ht⟩ | ⟨-, hput⟩ | ⟨-, hresume⟩ | ⟨-, item, hget⟩ | ⟨-, ht⟩
  · rw [ht]
    rcases hmsg : validated msg with _ | m
    · rwa [Backlog.onMsg_of_not_validated hmsg]
    · obtain ⟨hline, haccepted⟩ := s.backlog.accept_line m
      rw [Backlog.onMsg_of_validated hmsg, hline, haccepted, ← List.append_assoc]
      exact hs.append_right _
  · obtain ⟨item, scheduled, hscheduled, ht⟩ := Backlog.startPut_eq_some hput
    rw [ht]
    refine List.Perm.trans ?_ hs
    simp only [Backlog.line, hscheduled]
    apply List.Perm.append_left
    rw [← List.singleton_append, ← List.append_assoc]
    exact (WaitQueue.line_put_perm _ item).append_right _
  · obtain ⟨q, hq, ht⟩ := Backlog.resumePut_eq_some hresume
    rw [ht]
    refine List.Perm.trans ?_ hs
    simp only [Backlog.line]
    apply List.Perm.append_left
    exact (WaitQueue.line_resume_perm hq).append_right _
  · obtain ⟨q, hq, ht⟩ := Backlog.get_eq_some hget
    rw [ht]
    simp only [Backlog.line, WaitQueue.line_get hq] at hs ⊢
    rwa [List.append_assoc]
  · rwa [ht]

/-- **Nothing is lost.** In every reachable state every accepted joint state has been taken by the
worker or is held by the bridge, once.
Source: `main.py`, `BridgeNode._on_msg`, `telemetry_worker` -/
theorem nothing_lost {maxsize : ℕ} {l : List Event} {s : State}
    (h : Run (step asset) (State.init maxsize) l s) : s.backlog.Accounted :=
  h.invariant (I := fun s => s.backlog.Accounted) (List.Perm.refl _) fun _ _ _ => .step

/-- The size of the backlog is how far the worker is behind. -/
theorem held_add_taken {maxsize : ℕ} {l : List Event} {s : State}
    (h : Run (step asset) (State.init maxsize) l s) :
    s.backlog.held + s.backlog.taken.length = s.backlog.accepted.length := by
  have hlen := (nothing_lost h).length_eq
  rw [List.length_append, Backlog.length_line, List.length_zipIdx] at hlen
  omega

/-! ## The size of the backlog -/

/-- The step is a callback whose message `_on_msg` accepts. -/
def Accepts : Event → Prop
  | .onMsg msg => (validated msg).isSome = true
  | _ => False

/-- The step is a `get`. -/
def Takes : Event → Prop
  | .get => True
  | _ => False

/-- An accepted message makes the backlog larger by one, a `get` smaller by one, and no other step
changes its size. -/
theorem held_step {s t : State} {e : Event} (h : step asset s e = some t) :
    (Accepts e ∧ t.backlog.held = s.backlog.held + 1) ∨
      (Takes e ∧ ¬ Accepts e ∧ t.backlog.held + 1 = s.backlog.held) ∨
      (¬ Takes e ∧ ¬ Accepts e ∧ t.backlog.held = s.backlog.held) := by
  simp only [← Backlog.length_line]
  rcases step_cases h with ⟨msg, rfl, ht⟩ | ⟨rfl, hput⟩ | ⟨rfl, hresume⟩ | ⟨rfl, item, hget⟩ |
    ⟨⟨e', rfl⟩, ht⟩
  · rcases hmsg : validated msg with _ | m
    · refine Or.inr (Or.inr ⟨id, by simp [Accepts, hmsg], ?_⟩)
      rw [ht, Backlog.onMsg_of_not_validated hmsg]
    · refine Or.inl ⟨by simp [Accepts, hmsg], ?_⟩
      rw [ht, Backlog.onMsg_of_validated hmsg, (s.backlog.accept_line m).1, List.length_append,
        List.length_singleton]
  · obtain ⟨item, scheduled, hscheduled, ht⟩ := Backlog.startPut_eq_some hput
    refine Or.inr (Or.inr ⟨id, id, ?_⟩)
    have hlen := (WaitQueue.line_put_perm s.backlog.queue item).length_eq
    rw [List.length_append, List.length_singleton] at hlen
    simp only [ht, Backlog.line, hscheduled, List.length_append, List.length_cons, hlen]
    omega
  · obtain ⟨q, hq, ht⟩ := Backlog.resumePut_eq_some hresume
    refine Or.inr (Or.inr ⟨id, id, ?_⟩)
    simp only [ht, Backlog.line, List.length_append, (WaitQueue.line_resume_perm hq).length_eq]
  · obtain ⟨q, hq, ht⟩ := Backlog.get_eq_some hget
    refine Or.inr (Or.inl ⟨trivial, id, ?_⟩)
    simp only [ht, Backlog.line, WaitQueue.line_get hq, List.length_append, List.length_cons]
    omega
  · exact Or.inr (Or.inr ⟨id, id, by rw [ht]⟩)

/-- **When the backlog is bounded.** In every run the bridge holds at most as many joint states as
its queue has places in every state exactly when no joint state is accepted while that many are
held. Source: `main.py`, `BridgeNode._on_msg`, `main_async` -/
theorem backlog_bounded_iff {l : List Event} {s : State} (h : Run (step asset) mainAsync l s) :
    Throughout (step asset) mainAsync (fun s => s.backlog.held ≤ 1000) l ↔
      AlongSteps (step asset) mainAsync (fun s e => ¬ (Accepts e ∧ s.backlog.held = 1000)) l := by
  apply h.throughout_iff
  · exact Nat.zero_le _
  · intro _ s e t _ hs hstep
    rcases held_step hstep with ⟨he, ht⟩ | ⟨-, he, ht⟩ | ⟨-, he, ht⟩
    · simp only [he, true_and, ht]
      omega
    · simp only [he, false_and, not_false_eq_true, iff_true]
      omega
    · simp only [he, false_and, not_false_eq_true, iff_true]
      omega

/-! ## The order of the joint states -/

/-- The step starts a `put` on a queue that has room while a woken `put` has not run. -/
def Overtakes (s : State) : Event → Prop
  | .startPut => s.backlog.queue.queue.full = false ∧ s.backlog.queue.woken ≠ []
  | _ => False

/-- A step that lets no `put` overtake a woken one keeps the joint states in line, and the room for
the woken ones. -/
theorem inLine_step {s t : State} {e : Event} (hline : s.backlog.InLine)
    (hbooked : s.backlog.queue.Booked) (h : step asset s e = some t) (he : ¬ Overtakes s e) :
    t.backlog.InLine ∧ t.backlog.queue.Booked := by
  unfold Backlog.InLine at hline ⊢
  rcases step_cases h with ⟨msg, rfl, ht⟩ | ⟨rfl, hput⟩ | ⟨rfl, hresume⟩ | ⟨rfl, item, hget⟩ |
    ⟨⟨e', rfl⟩, ht⟩
  · rw [ht]
    rcases hmsg : validated msg with _ | m
    · rw [Backlog.onMsg_of_not_validated hmsg]
      exact ⟨hline, hbooked⟩
    · obtain ⟨hacceptLine, haccepted⟩ := s.backlog.accept_line m
      rw [Backlog.onMsg_of_validated hmsg, hacceptLine, haccepted, ← List.append_assoc]
      exact ⟨by rw [← hline]; rfl, hbooked⟩
  · obtain ⟨item, scheduled, hscheduled, ht⟩ := Backlog.startPut_eq_some hput
    have hfree : s.backlog.queue.queue.full = false → s.backlog.queue.woken = [] :=
      fun hfull => by_contra fun hne => he ⟨hfull, hne⟩
    have hend : (s.backlog.queue.put item).line = s.backlog.queue.line ++ [item] := by
      rcases hfull : s.backlog.queue.queue.full with _ | _
      · -- no put waits, so the new item is the last one
        rw [WaitQueue.line_put_of_not_full hfull, WaitQueue.line, hfree hfull,
          hbooked.putters_eq_nil hfull (hfree hfull)]
        simp only [List.append_nil]
      · exact WaitQueue.line_put_of_full hfull item
    rw [ht]
    refine ⟨?_, hbooked.put item hfree⟩
    rw [← hline]
    simp only [Backlog.line, hscheduled, hend, List.append_assoc, List.singleton_append]
  · obtain ⟨q, hq, ht⟩ := Backlog.resumePut_eq_some hresume
    obtain ⟨hbooked', hq'⟩ := hbooked.resume hq
    rw [ht]
    refine ⟨?_, hbooked'⟩
    rw [← hline]
    simp only [Backlog.line, hq']
  · obtain ⟨q, hq, ht⟩ := Backlog.get_eq_some hget
    rw [ht]
    refine ⟨?_, hbooked.get hq⟩
    rw [← hline]
    simp only [Backlog.line, WaitQueue.line_get hq, List.append_assoc, List.cons_append,
      List.nil_append]
  · rw [ht]
    exact ⟨hline, hbooked⟩

/-- A `put` that overtakes a woken one takes its place in line. -/
theorem not_inLine_of_overtakes {s t : State} {e : Event} (hline : s.backlog.InLine)
    (h : step asset s e = some t) (he : Overtakes s e) : ¬ t.backlog.InLine := by
  rcases step_cases h with ⟨msg, rfl, -⟩ | ⟨rfl, hput⟩ | ⟨rfl, -⟩ | ⟨rfl, -⟩ | ⟨⟨e', rfl⟩, -⟩
  · exact he.elim
  · obtain ⟨item, scheduled, hscheduled, ht⟩ := Backlog.startPut_eq_some hput
    obtain ⟨hfull, hne⟩ := he
    obtain ⟨first, woken, hwoken⟩ := List.exists_cons_of_ne_nil hne
    intro hline'
    unfold Backlog.InLine at hline hline'
    have hnodup : s.backlog.accepted.zipIdx.Nodup := by
      apply List.Nodup.of_map Prod.snd
      rw [List.zipIdx_map_snd]
      exact List.nodup_range'
    rw [ht] at hline'
    simp only [Backlog.line, WaitQueue.line_put_of_not_full hfull] at hline'
    rw [← hline'] at hline
    -- the next place after the items belongs to the woken put, and is the new one's
    simp only [Backlog.line, WaitQueue.line, hwoken, hscheduled, List.append_assoc,
      List.cons_append, List.append_cancel_left_eq, List.cons.injEq] at hline
    rw [← hline', hwoken, ← hline.1] at hnodup
    simp only [List.append_assoc, List.cons_append] at hnodup
    have hpair := (List.nodup_append.mp (List.nodup_append.mp hnodup).2.1).2.1
    exact (List.nodup_cons.mp hpair).1 (List.mem_cons_self ..)
  · exact he.elim
  · exact he.elim
  · exact he.elim

/-- **The order of the joint states.** In every run in which no `put` starts on a queue with room
while a woken one has not run, the worker takes the joint states in the order in which they were
accepted. A `put` that does so takes a place in line that belongs to an earlier joint state: the
joint states stand in line in order throughout a run exactly when none does.
Source: `main.py`, `BridgeNode._on_msg`, `telemetry_worker` -/
theorem taken_in_order {l : List Event} {s : State} (h : Run (step asset) mainAsync l s) :
    (AlongSteps (step asset) mainAsync (fun s e => ¬ Overtakes s e) l →
      Throughout (step asset) mainAsync (fun s => s.backlog.InOrder) l) ∧
    (Throughout (step asset) mainAsync (fun s => s.backlog.InLine) l ↔
      AlongSteps (step asset) mainAsync (fun s e => ¬ Overtakes s e) l) := by
  have hbooked : mainAsync.backlog.queue.Booked := WaitQueue.booked_new (Nat.succ_pos _)
  have hiff := h.throughout_iff_of_inv (P := fun s => s.backlog.InLine)
    (J := fun s => s.backlog.queue.Booked) (C := fun s e => ¬ Overtakes s e) rfl hbooked
    (fun _ s e t _ hline hroom hstep => ⟨fun ht he => not_inLine_of_overtakes hline hstep he ht,
      fun he => (inLine_step hline hroom hstep he).1⟩)
    fun _ s e t _ hline hroom hstep he => (inLine_step hline hroom hstep he).2
  exact ⟨fun hC l' s' hp hs' => (hiff.mpr hC l' s' hp hs').inOrder, hiff⟩

end runs

/-! ### An outage -/

/-- The message of the elbow at a time, in seconds. -/
def elbow (sec : ℕ) : JointState :=
  ⟨sec, 0, ["elbow_joint"], [.finite Double.zero], [.finite Double.zero], [.finite Double.zero]⟩

/-- The message has a joint. -/
theorem elbow_ne_nil : ["elbow_joint"] ≠ [] := List.cons_ne_nil _ _

/-- The joint state of the elbow at a time. -/
def elbowState (sec : ℕ) : JointStateMessage Double :=
  ⟨sec * 1000000000, ["elbow_joint"], [.finite Double.zero], [.finite Double.zero],
    [.finite Double.zero], elbow_ne_nil⟩

/-- The first accepted joint states of the elbow, with their numbers. -/
def elbowItems (n : ℕ) : List Item := (List.range n).map fun k => (elbowState k, k)

/-- The message is valid. -/
theorem validated_elbow (sec : ℕ) : validated (elbow sec) = some (elbowState sec) := by
  have hstamp : (elbow sec).stampNs = ((sec * 1000000000 : ℕ) : ℤ) := by
    simp only [JointState.stampNs, elbow]
    push_cast
    ring
  have hvalid : 0 ≤ (elbow sec).stampNs ∧ (elbow sec).name ≠ [] :=
    ⟨by rw [hstamp]; exact Int.natCast_nonneg _, List.cons_ne_nil _ _⟩
  rw [validated, dif_pos hvalid]
  simp only [hstamp, Int.toNat_natCast]
  rfl

/-- One more message is the last item. -/
theorem elbowItems_succ (n : ℕ) : elbowItems (n + 1) = elbowItems n ++ [(elbowState n, n)] := by
  simp only [elbowItems, List.range_succ, List.map_append, List.map_singleton]

/-- There is one item for each message. -/
theorem length_elbowItems (n : ℕ) : (elbowItems n).length = n := by
  simp only [elbowItems, List.length_map, List.length_range]

/-- Messages come in and their `put`s run, one after the other, and nothing is taken. -/
def outage : ℕ → List Event
  | 0 => []
  | n + 1 => outage n ++ [.onMsg (elbow n)] ++ [.startPut]

/-- The backlog after an outage: the queue holds the oldest joint states, the others wait. -/
def afterOutage (maxsize n : ℕ) : Backlog where
  accepted := (elbowItems n).map Prod.fst
  scheduled := []
  queue := ⟨⟨maxsize, (elbowItems n).take maxsize⟩, (elbowItems n).drop maxsize, []⟩
  taken := []

/-- In an outage the queue fills up. -/
theorem afterOutage_full {maxsize n : ℕ} (h : 0 < maxsize) :
    (afterOutage maxsize n).queue.queue.full = decide (maxsize ≤ n) := by
  simp only [Queue.full, afterOutage, List.length_take, length_elbowItems, h, decide_true,
    Bool.true_and, decide_eq_decide]
  omega

/-- In an outage the bridge holds every message that came. -/
theorem held_afterOutage (maxsize n : ℕ) : (afterOutage maxsize n).held = n := by
  simp only [Backlog.held, afterOutage, List.length_take, List.length_drop, length_elbowItems,
    List.length_nil]
  omega

/-- The joint states of an outage followed by a late one are not the first that were accepted. -/
theorem elbowItems_not_prefix (n : ℕ) :
    ¬ (elbowItems n ++ [(elbowState (n + 1), n + 1)]).map Prod.fst <+:
      (elbowItems (n + 2)).map Prod.fst := by
  rw [elbowItems_succ, elbowItems_succ]
  simp only [List.map_append, List.append_assoc, List.prefix_append_right_inj]
  intro hpre
  have hstamp := congrArg JointStateMessage.stampNs (List.cons_prefix_cons.mp hpre).1
  simp only [elbowState] at hstamp
  omega

section outage

variable [Pydantic] {asset : String}

/-- The next message of an outage is scheduled. -/
theorem step_onMsg_outage (maxsize n : ℕ) :
    step asset ⟨afterOutage maxsize n, .connecting, []⟩ (.onMsg (elbow n)) =
      some ⟨(afterOutage maxsize n).accept (elbowState n), .connecting, []⟩ := by
  simp only [step, Backlog.onMsg_of_validated (validated_elbow n)]

/-- After `n` messages and their `put`s the bridge is as `afterOutage` says. -/
theorem run_outage {maxsize : ℕ} (h : 0 < maxsize) (n : ℕ) :
    Run (step asset) (State.init maxsize) (outage n)
      ⟨afterOutage maxsize n, .connecting, []⟩ := by
  induction n with
  | zero =>
      have hempty : afterOutage maxsize 0 = .empty maxsize := by
        simp [afterOutage, elbowItems, Backlog.empty, WaitQueue.new, Queue.new]
      rw [hempty]
      exact .nil
  | succ n ih =>
      refine (ih.snoc (step_onMsg_outage maxsize n)).snoc ?_
      have hnumber : (afterOutage maxsize n).accepted.length = n := by
        simp only [afterOutage, List.length_map, length_elbowItems]
      have hput : (afterOutage maxsize n).queue.put (elbowState n, n) =
          (afterOutage maxsize (n + 1)).queue := by
        rcases Nat.lt_or_ge n maxsize with hlt | hge
        · -- there is room in the queue
          rw [WaitQueue.put_of_not_full]
          · simp only [afterOutage, elbowItems_succ]
            rw [List.take_of_length_le, List.take_of_length_le, List.drop_of_length_le,
              List.drop_of_length_le] <;>
              simp only [List.length_append, length_elbowItems, List.length_singleton] <;> omega
          · rw [afterOutage_full h, decide_eq_false_iff_not]
            omega
        · rw [WaitQueue.put_of_full]
          · simp only [afterOutage, elbowItems_succ]
            rw [List.take_append_of_le_length, List.drop_append_of_le_length] <;>
              rw [length_elbowItems] <;> omega
          · rw [afterOutage_full h, decide_eq_true_eq]
            exact hge
      simp only [step, Backlog.startPut, Backlog.accept, hnumber]
      simp only [afterOutage, List.nil_append, Option.map_some, Option.some.injEq,
        State.mk.injEq, and_true] at hput ⊢
      rw [hput, elbowItems_succ, List.map_append, List.map_singleton]

/-- The conditions along an outage, by those on its callbacks and its `put`s. -/
theorem alongSteps_outage {maxsize : ℕ} (h : 0 < maxsize) {C : State → Event → Prop} {n : ℕ}
    (hmsg : ∀ k < n, C ⟨afterOutage maxsize k, .connecting, []⟩ (.onMsg (elbow k)))
    (hput : ∀ k < n, C ⟨(afterOutage maxsize k).accept (elbowState k), .connecting, []⟩ .startPut) :
    AlongSteps (step asset) (State.init maxsize) C (outage n) := by
  induction n with
  | zero => exact alongSteps_nil
  | succ n ih =>
      have hbefore := ih (fun k hk => hmsg k (Nat.lt_succ_of_lt hk))
        fun k hk => hput k (Nat.lt_succ_of_lt hk)
      have hcallback := (alongSteps_snoc (run_outage h n)).mpr ⟨hbefore, hmsg n n.lt_succ_self⟩
      exact (alongSteps_snoc ((run_outage h n).snoc (step_onMsg_outage maxsize n))).mpr
        ⟨hcallback, hput n n.lt_succ_self⟩

/-- An outage that the queue has room for: no message is accepted while the queue is full. -/
theorem alongSteps_outage_bounded {maxsize n : ℕ} (h : 0 < maxsize) (hn : n ≤ maxsize) :
    AlongSteps (step asset) (State.init maxsize)
      (fun s e => ¬ (Accepts e ∧ s.backlog.held = maxsize)) (outage n) := by
  refine alongSteps_outage h (fun k hk hboth => ?_) fun k hk hboth => hboth.1
  have hheld := hboth.2
  rw [held_afterOutage] at hheld
  omega

/-- No `put` of an outage overtakes a woken one: none is woken. -/
theorem alongSteps_outage_ordered {maxsize : ℕ} (h : 0 < maxsize) (n : ℕ) :
    AlongSteps (step asset) (State.init maxsize) (fun s e => ¬ Overtakes s e) (outage n) :=
  alongSteps_outage h (fun _ _ => id) fun _ _ hboth => hboth.2 rfl

/-! ### Overtaking -/

/-- The worker publishes what it took and waits for the next joint state. -/
theorem run_publish (s : State) (left : List (String × String)) :
    ∃ l t, Run (step asset) (callNext s left) l t ∧ t.worker = .getting ∧
      t.backlog = s.backlog ∧ .startPut ∉ l := by
  induction left generalizing s with
  | nil => exact ⟨[], _, .nil, rfl, rfl, List.not_mem_nil⟩
  | cons message left ih =>
      obtain ⟨l, t, hrun, hworker, hbacklog, hputs⟩ := ih (callNext s (message :: left))
      refine ⟨[.worker .publishReturned] ++ l, t, ?_, hworker, hbacklog, by simpa using hputs⟩
      exact (Run.nil.snoc (l := []) rfl).append hrun

/-- The worker takes an item, publishes it and waits for the next one. -/
theorem run_get {s : State} {x : Item} {q : WaitQueue Item} (hworker : s.worker = .getting)
    (hq : s.backlog.queue.get = some (x, q)) :
    ∃ l t, Run (step asset) s l t ∧ t.worker = .getting ∧
      t.backlog = { s.backlog with queue := q, taken := s.backlog.taken ++ [x] } ∧
      .startPut ∉ l := by
  have hget : s.backlog.get =
      some (x, { s.backlog with queue := q, taken := s.backlog.taken ++ [x] }) := by
    simp only [Backlog.get, hq, Option.map_some]
  obtain ⟨l, t, hrun, hgetting, hbacklog, hputs⟩ := run_publish
    { s with backlog := { s.backlog with queue := q, taken := s.backlog.taken ++ [x] } }
    (publishJointStates x.1 asset)
  refine ⟨[.get] ++ l, t, (Run.nil.snoc (l := []) ?_).append hrun, hgetting, hbacklog,
    by simpa using hputs⟩
  simp only [step, hworker, hget, Option.map_some]

/-- The worker takes the items of the queue one after the other. -/
theorem run_drain {s : State} {xs ys : List Item} (hworker : s.worker = .getting)
    (hitems : s.backlog.queue.queue.items = xs ++ ys) :
    ∃ l t, Run (step asset) s l t ∧ t.backlog.taken = s.backlog.taken ++ xs ∧
      t.backlog.accepted = s.backlog.accepted := by
  induction xs generalizing s with
  | nil => exact ⟨[], s, .nil, (List.append_nil _).symm, rfl⟩
  | cons x xs ih =>
      obtain ⟨q, hq, hrest⟩ := WaitQueue.get_of_items hitems
      obtain ⟨l, t, hrun, hgetting, hbacklog, -⟩ := run_get hworker hq
      obtain ⟨l', t', hrun', htaken, haccepted⟩ := ih hgetting (hbacklog ▸ hrest)
      rw [hbacklog] at htaken haccepted
      refine ⟨l ++ l', t', hrun.append hrun', ?_, haccepted⟩
      rw [htaken, List.append_assoc, List.singleton_append]

/-- A `put` may start while the worker publishes. -/
theorem step_startPut_callNext {s : State} {b b' : Backlog} {left : List (String × String)}
    (h : b.startPut = some b') :
    step asset (callNext { s with backlog := b } left) .startPut =
      some (callNext { s with backlog := b' } left) := by
  simp only [step, callNext_backlog, h, Option.map_some]
  cases left <;> rfl

/-- A `put` that starts between a `get` and the resumption of the `put` it woke: the worker takes
its joint state first. -/
theorem run_overtake {s : State} {x first next : Item} {items : List Item} {maxsize : ℕ}
    (hworker : s.worker = .getting) (hscheduled : s.backlog.scheduled = [next])
    (hqueue : s.backlog.queue = ⟨⟨maxsize, x :: items⟩, [first], []⟩)
    (hroom : items.length < maxsize) :
    ∃ l t, Run (step asset) s l t ∧
      t.backlog.taken = s.backlog.taken ++ x :: (items ++ [next]) ∧
      t.backlog.accepted = s.backlog.accepted := by
  have hget : s.backlog.get = some (x, ⟨s.backlog.accepted, [next],
      ⟨⟨maxsize, items⟩, [], [first]⟩, s.backlog.taken ++ [x]⟩) := by
    simp only [Backlog.get, hqueue, hscheduled, WaitQueue.get, Queue.getNowait, Option.map_some]
    rfl
  have hnotFull : (⟨maxsize, items⟩ : Queue Item).full = false := by
    simp only [Queue.full, Bool.and_eq_false_iff, decide_eq_false_iff_not]
    omega
  have hput : Backlog.startPut ⟨s.backlog.accepted, [next], ⟨⟨maxsize, items⟩, [], [first]⟩,
      s.backlog.taken ++ [x]⟩ = some ⟨s.backlog.accepted, [],
        ⟨⟨maxsize, items ++ [next]⟩, [], [first]⟩, s.backlog.taken ++ [x]⟩ := by
    simp only [Backlog.startPut]
    rw [WaitQueue.put_of_not_full hnotFull]
  generalize (⟨s.backlog.accepted, [next], ⟨⟨maxsize, items⟩, [], [first]⟩,
    s.backlog.taken ++ [x]⟩ : Backlog) = got at hget hput
  have hgot : Run (step asset) s [.get]
      (callNext { s with backlog := got } (publishJointStates x.1 asset)) := by
    refine Run.nil.snoc (l := []) ?_
    simp only [step, hworker, hget, Option.map_some]
  -- the new `put` runs while the worker publishes
  have hstart := hgot.snoc (step_startPut_callNext hput)
  obtain ⟨l, t, hrun, hgetting, hbacklog, -⟩ := run_publish
    { s with backlog := ⟨s.backlog.accepted, [], ⟨⟨maxsize, items ++ [next]⟩, [], [first]⟩,
      s.backlog.taken ++ [x]⟩ } (publishJointStates x.1 asset)
  have hitems : t.backlog.queue.queue.items = (items ++ [next]) ++ [] := by
    rw [hbacklog, List.append_nil]
  obtain ⟨l', t', hrun', htaken, haccepted⟩ := run_drain hgetting hitems
  refine ⟨_, t', (hstart.append hrun).append hrun', ?_, ?_⟩
  · rw [htaken, hbacklog]
    exact List.append_assoc _ _ _
  · rw [haccepted, hbacklog]

omit [Pydantic] in
/-- The backlog of an outage that lasts one message longer than the queue has room for. -/
theorem queue_afterOutage {maxsize : ℕ} {x : Item} {items : List Item}
    (hitems : elbowItems maxsize = x :: items) :
    (afterOutage maxsize (maxsize + 1)).queue =
      ⟨⟨maxsize, x :: items⟩, [(elbowState maxsize, maxsize)], []⟩ := by
  simp only [afterOutage, elbowItems_succ]
  rw [List.take_left' (length_elbowItems maxsize), List.drop_left' (length_elbowItems maxsize),
    hitems]

/-- The outage lasts one message longer than the queue has room for. When the broker is back the
worker takes a joint state, the `put` that waited runs, and the worker takes the next one. -/
theorem run_elbow_waits (maxsize : ℕ) :
    ∃ l s, Run (step asset) (State.init (maxsize + 2)) l s ∧
      AlongSteps (step asset) (State.init (maxsize + 2)) (fun s e => ¬ Overtakes s e) l ∧
      s.backlog.taken = [(elbowState 0, 0), (elbowState 1, 1)] := by
  obtain ⟨items, hitems⟩ : ∃ items,
      elbowItems (maxsize + 2) = (elbowState 0, 0) :: (elbowState 1, 1) :: items := by
    simp [elbowItems, List.range_succ_eq_map]
  have hlen : items.length = maxsize := by
    have hall := length_elbowItems (maxsize + 2)
    rw [hitems] at hall
    simpa using hall
  have haway : Run (step asset) (State.init (maxsize + 2)) (outage (maxsize + 3))
      ⟨afterOutage (maxsize + 2) (maxsize + 3), .connecting, []⟩ := run_outage (by omega) _
  have hback : Run (step asset) (State.init (maxsize + 2))
      (outage (maxsize + 3) ++ [.worker .connected])
      ⟨afterOutage (maxsize + 2) (maxsize + 3), .getting, []⟩ := haway.snoc rfl
  have hqueue := queue_afterOutage hitems
  have hget : (afterOutage (maxsize + 2) (maxsize + 3)).queue.get = some ((elbowState 0, 0),
      ⟨⟨maxsize + 2, (elbowState 1, 1) :: items⟩, [],
        [(elbowState (maxsize + 2), maxsize + 2)]⟩) := by
    rw [hqueue]
    rfl
  obtain ⟨l, s, hfirst, hgetting, hbacklog, hputs⟩ :=
    run_get (s := ⟨afterOutage (maxsize + 2) (maxsize + 3), .getting, []⟩) rfl hget
  -- the `put` of the last message has room now
  have hnotFull : (⟨maxsize + 2, (elbowState 1, 1) :: items⟩ : Queue Item).full = false := by
    simp only [Queue.full, List.length_cons, hlen, Bool.and_eq_false_iff, decide_eq_false_iff_not]
    omega
  obtain ⟨q, q', hresume, hnext⟩ : ∃ q q', s.backlog.queue.resume = some q ∧
      q.get = some ((elbowState 1, 1), q') := by
    refine ⟨⟨⟨maxsize + 2, (elbowState 1, 1) :: items ++
      [(elbowState (maxsize + 2), maxsize + 2)]⟩, [], []⟩, _, ?_, rfl⟩
    rw [hbacklog, WaitQueue.resume]
    exact congrArg some (WaitQueue.put_of_not_full hnotFull _)
  have hresumed : step asset s .resumePut =
      some { s with backlog := { s.backlog with queue := q } } := by
    simp only [step, Backlog.resumePut_of_resume hresume, Option.map_some]
  obtain ⟨l', t, hsecond, -, hbacklog', hputs'⟩ :=
    run_get (s := { s with backlog := { s.backlog with queue := q } }) hgetting hnext
  have hrest := (hfirst.snoc hresumed).append hsecond
  refine ⟨_, t, hback.append hrest, ?_, ?_⟩
  · refine (alongSteps_append hback hrest).mpr ⟨(alongSteps_snoc haway).mpr
      ⟨alongSteps_outage_ordered (by omega) _, id⟩, alongSteps_of_forall ?_⟩
    intro e he state hovertakes
    have hne : e ≠ .startPut := by
      rintro rfl
      simp [hputs, hputs'] at he
    cases e with
    | startPut => exact hne rfl
    | _ => exact hovertakes
  · rw [hbacklog']
    simp only [hbacklog]
    rfl

/-- The outage lasts one message longer than the queue has room for, and when the broker is back a
new message is scheduled just before the first `get`. -/
theorem run_elbow_overtakes {maxsize : ℕ} (h : 0 < maxsize) :
    ∃ l s, Run (step asset) (State.init maxsize) l s ∧
      s.backlog.taken = elbowItems maxsize ++ [(elbowState (maxsize + 1), maxsize + 1)] ∧
      s.backlog.accepted = (elbowItems (maxsize + 2)).map Prod.fst := by
  have hne : elbowItems maxsize ≠ [] :=
    List.ne_nil_of_length_pos (by rwa [length_elbowItems])
  obtain ⟨x, items, hitems⟩ := List.exists_cons_of_ne_nil hne
  have hlen := length_elbowItems maxsize
  rw [hitems, List.length_cons] at hlen
  have hnumber : (afterOutage maxsize (maxsize + 1)).accepted.length = maxsize + 1 := by
    simp only [afterOutage, List.length_map, length_elbowItems]
  have hqueue := queue_afterOutage hitems
  -- the broker is back and one more message is scheduled
  have hback : Run (step asset) (State.init maxsize)
      (outage (maxsize + 1) ++ [.worker .connected] ++ [.onMsg (elbow (maxsize + 1))])
      ⟨(afterOutage maxsize (maxsize + 1)).accept (elbowState (maxsize + 1)), .getting, []⟩ := by
    apply ((run_outage h (maxsize + 1)).snoc rfl).snoc
    simp only [step, Backlog.onMsg_of_validated (validated_elbow (maxsize + 1))]
  have hscheduled : ((afterOutage maxsize (maxsize + 1)).accept
      (elbowState (maxsize + 1))).scheduled = [(elbowState (maxsize + 1), maxsize + 1)] := by
    rw [Backlog.accept, hnumber]
    rfl
  obtain ⟨l, t, hrun, htaken, haccepted⟩ := run_overtake
    (s := ⟨(afterOutage maxsize (maxsize + 1)).accept (elbowState (maxsize + 1)), .getting, []⟩)
    rfl hscheduled hqueue (by omega)
  refine ⟨_, t, hback.append hrun, ?_, ?_⟩
  · rw [htaken, hitems]
    simp only [Backlog.accept, afterOutage, List.nil_append, List.cons_append]
  · rw [haccepted, elbowItems_succ (maxsize + 1), List.map_append, List.map_singleton]
    rfl

end outage

/-! ### The two runs -/

section platform

attribute [local instance] Pydantic.decimal

/-- A broker that is away while 1000 messages arrive: the backlog stays within the size of the
queue. One more message is accepted while the queue is full, and it no longer does. -/
theorem backlog_bounded_iff_outage :
    ∃ s t, Run (step "ur5") mainAsync (outage 1000) s ∧ s.backlog.held = 1000 ∧
      Throughout (step "ur5") mainAsync (fun s => s.backlog.held ≤ 1000) (outage 1000) ∧
      Run (step "ur5") mainAsync (outage 1001) t ∧ t.backlog.held = 1001 ∧
      ¬ AlongSteps (step "ur5") mainAsync
        (fun s e => ¬ (Accepts e ∧ s.backlog.held = 1000)) (outage 1001) := by
  have hpos : 0 < 1000 := by omega
  have hrun : Run (step "ur5") mainAsync (outage 1000) _ := run_outage hpos 1000
  have hlonger : Run (step "ur5") mainAsync (outage 1001) _ := run_outage hpos 1001
  refine ⟨_, _, hrun, held_afterOutage _ _, ?_, hlonger, held_afterOutage _ _, fun hbounded => ?_⟩
  · exact (backlog_bounded_iff hrun).mpr (alongSteps_outage_bounded hpos le_rfl)
  · have hheld := (backlog_bounded_iff hlonger).mpr hbounded _ _ List.prefix_rfl hlonger
    simp only [held_afterOutage] at hheld
    omega

/-- A broker that is away while 1001 messages arrive: the bridge holds them all. -/
theorem backlog_not_bounded :
    ∃ s, Run (step "ur5") mainAsync (outage 1001) s ∧ s.backlog.scheduled = [] ∧
      ¬ s.backlog.held ≤ 1000 := by
  refine ⟨_, run_outage (Nat.succ_pos _) 1001, rfl, ?_⟩
  rw [held_afterOutage]
  omega

/-- After an outage in which a `put` has to wait, the worker takes two joint states, in order. -/
theorem taken_in_order_outage :
    ∃ l s, Run (step "ur5") mainAsync l s ∧
      s.backlog.taken = [(elbowState 0, 0), (elbowState 1, 1)] ∧
      Throughout (step "ur5") mainAsync (fun s => s.backlog.InOrder) l ∧
      Throughout (step "ur5") mainAsync (fun s => s.backlog.InLine) l := by
  obtain ⟨l, s, hrun, hordered, htaken⟩ := run_elbow_waits 998
  obtain ⟨htakes, hline⟩ := taken_in_order hrun
  exact ⟨l, s, hrun, htaken, htakes hordered, hline.mpr hordered⟩

/-- After an outage that fills the queue, the worker takes the joint state of second 1001 before
that of second 1000. -/
theorem taken_out_of_order :
    ∃ l s, Run (step "ur5") mainAsync l s ∧ ¬ s.backlog.taken.map Prod.fst <+: s.backlog.accepted ∧
      ¬ s.backlog.InOrder := by
  obtain ⟨l, s, hrun, htaken, haccepted⟩ := run_elbow_overtakes (Nat.succ_pos 999)
  have hvalues : ¬ s.backlog.taken.map Prod.fst <+: s.backlog.accepted := by
    rw [htaken, haccepted]
    exact elbowItems_not_prefix _
  exact ⟨l, s, hrun, hvalues, fun horder => hvalues horder.values⟩

end platform

end TwinServices.Bridge.Async
