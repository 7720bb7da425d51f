import TwinServices.Bridge.Backlog

/-!
# What the telemetry worker publishes

The worker takes a joint state and calls `client.publish` for its messages one after the other. A
call that fails ends the session, and the messages that are left with it: the joint state is gone
from the queue, and nothing puts it back.

* `Attempt`, `Attempted`: the calls that were made for each joint state that was taken.
* `published_at_most_once`: what was sent is a prefix of the messages of each joint state taken, in
  the order in which they were taken, each once; every joint state cut short was cut by a failure.
-/

set_option autoImplicit false

namespace TwinServices.Bridge.Async

open TwinServices.Python TwinServices.Contracts Lib.Transition Lib.Binary64

section publication

variable [Pydantic] {asset : String}

/-! ## One joint state -/

/-- A joint state that was taken, with the calls of `client.publish` that were made for it. -/
structure Attempt where
  item : Item
  calls : List (String × String)

/-- The messages of the joint state were not all sent. -/
def Attempt.cutShort (asset : String) (a : Attempt) : Bool :=
  a.calls ≠ publishJointStates a.item.1 asset

/-- The `client.publish` that the worker waits for raises. -/
def Event.fails : Event → Bool
  | .worker .publishFailed => true
  | _ => false

/-- How many calls of `client.publish` raised. -/
def failures (l : List Event) : ℕ := l.countP Event.fails

/-- One, while the worker is within `publish_joint_states`. -/
def Worker.busy : Worker → ℕ
  | .publishing _ => 1
  | _ => 0

/-- What the worker does with a step: nothing; it takes a joint state and makes its first call; it
makes the next call; its call fails; it moves on outside `publish_joint_states`. -/
theorem step_worker {s t : State} {e : Event} (h : step asset s e = some t) :
    (e.fails = false ∧ t.worker = s.worker ∧ t.sent = s.sent ∧
      t.backlog.taken = s.backlog.taken) ∨
    (∃ item s', e.fails = false ∧ s.worker = .getting ∧ s'.sent = s.sent ∧
      s'.backlog.taken = s.backlog.taken ++ [item] ∧
      t = callNext s' (publishJointStates item.1 asset)) ∨
    (∃ left, e.fails = false ∧ s.worker = .publishing left ∧ t = callNext s left) ∨
    (∃ left, e.fails = true ∧ s.worker = .publishing left ∧ t = { s with worker := .closing }) ∨
    (e.fails = false ∧ s.worker.busy = 0 ∧ t.worker.busy = 0 ∧ t.sent = s.sent ∧
      t.backlog = s.backlog) := by
  cases e with
  | onMsg msg =>
      obtain rfl := Option.some.inj h
      refine Or.inl ⟨rfl, rfl, rfl, ?_⟩
      rcases hmsg : validated msg with _ | m
      · rw [Backlog.onMsg_of_not_validated hmsg]
      · rw [Backlog.onMsg_of_validated hmsg]
        rfl
  | startPut =>
      obtain ⟨b, hb, rfl⟩ := Option.map_eq_some_iff.mp h
      obtain ⟨item, scheduled, -, rfl⟩ := Backlog.startPut_eq_some hb
      exact Or.inl ⟨rfl, rfl, rfl, rfl⟩
  | resumePut =>
      obtain ⟨b, hb, rfl⟩ := Option.map_eq_some_iff.mp h
      obtain ⟨q, -, rfl⟩ := Backlog.resumePut_eq_some hb
      exact Or.inl ⟨rfl, rfl, rfl, rfl⟩
  | get =>
      simp only [step] at h
      split at h
      · rename_i hworker
        obtain ⟨⟨item, b⟩, hb, rfl⟩ := Option.map_eq_some_iff.mp h
        obtain ⟨q, -, rfl⟩ := Backlog.get_eq_some hb
        exact Or.inr (Or.inl ⟨item, { s with backlog :=
          { s.backlog with queue := q, taken := s.backlog.taken ++ [item] } },
          rfl, hworker, rfl, rfl, rfl⟩)
      · cases h
  | worker e =>
      cases e with
      | publishReturned =>
          simp only [step, stepWorker] at h
          split at h
          · rename_i left hworker
            exact Or.inr (Or.inr (Or.inl ⟨left, rfl, hworker, (Option.some.inj h).symm⟩))
          · cases h
      | publishFailed =>
          simp only [step, stepWorker] at h
          split at h
          · rename_i left hworker
            exact Or.inr (Or.inr (Or.inr (Or.inl ⟨left, rfl, hworker, (Option.some.inj h).symm⟩)))
          · cases h
      | connected | connectFailed | closed | woken =>
          simp only [step, stepWorker] at h
          split at h
          · rename_i hworker
            obtain rfl := Option.some.inj h
            exact Or.inr (Or.inr (Or.inr (Or.inr ⟨rfl, by rw [hworker]; rfl, rfl, rfl, rfl⟩)))
          · cases h

omit [Pydantic] in
/-- What reached the broker stays there when the next message is sent. -/
theorem prefix_callNext (s : State) (left : List (String × String)) :
    s.sent <+: (callNext s left).sent := by
  cases left with
  | nil => exact List.prefix_rfl
  | cons message left => exact List.prefix_append ..

/-- What was sent stays sent. -/
theorem prefix_sent_of_step {s t : State} {e : Event} (h : step asset s e = some t) :
    s.sent <+: t.sent := by
  rcases step_worker h with ⟨-, -, hsent, -⟩ | ⟨item, s', -, -, hsent, -, rfl⟩ |
    ⟨left, -, -, rfl⟩ | ⟨left, -, -, rfl⟩ | ⟨-, -, -, hsent, -⟩
  · rw [hsent]
  · rw [← hsent]
    exact prefix_callNext s' _
  · exact prefix_callNext s left
  · exact List.prefix_rfl
  · rw [hsent]

/-- What reached the broker stays there. -/
theorem prefix_sent_of_run {s t : State} {l : List Event} (h : Run (step asset) s l t) :
    s.sent <+: t.sent :=
  h.invariant (I := fun t => s.sent <+: t.sent) List.prefix_rfl fun _ _ _ hp hstep =>
    hp.trans (prefix_sent_of_step hstep)

/-! ## All of them -/

/-- The attempts are those of the joint states that were taken, in order, and their calls are all
that were made; each sent the first of its messages. -/
structure Attempted (asset : String) (s : State) (attempts : List Attempt) : Prop where
  items : attempts.map Attempt.item = s.backlog.taken
  sent : s.sent = attempts.flatMap Attempt.calls
  firsts : ∀ a ∈ attempts, a.calls <+: publishJointStates a.item.1 asset

/-- The invariant of the worker over its history: its attempts, of which those that failures cut
short are cut short, and the one it is at. -/
structure WorkerInv (asset : String) (l : List Event) (s : State) (attempts : List Attempt) :
    Prop extends Attempted asset s attempts where
  cut : attempts.countP (Attempt.cutShort asset) ≤ failures l + s.worker.busy
  /-- The messages that are left of the joint state at hand complete its calls. -/
  atHand : ∀ left, s.worker = .publishing left → ∃ before a, attempts = before ++ [a] ∧
    a.calls ++ left = publishJointStates a.item.1 asset ∧
    before.countP (Attempt.cutShort asset) ≤ failures l

/-- The calls for a joint state go on: one more, or its end. -/
theorem WorkerInv.callNext {l : List Event} {s : State} {before : List Attempt} {a : Attempt}
    {left : List (String × String)} (h : Attempted asset s (before ++ [a]))
    (hcut : before.countP (Attempt.cutShort asset) ≤ failures l)
    (hleft : a.calls ++ left = publishJointStates a.item.1 asset) :
    ∃ attempts, WorkerInv asset l (callNext s left) attempts := by
  cases left with
  | nil =>
      have hwhole : a.cutShort asset = false := by
        simpa [Attempt.cutShort] using hleft
      refine ⟨before ++ [a], ⟨h.items, h.sent, h.firsts⟩, ?_, fun left hworker => by cases hworker⟩
      rw [List.countP_append, List.countP_singleton, hwhole]
      exact Nat.le_add_right_of_le hcut
  | cons message left =>
      have hleft' : (a.calls ++ [message]) ++ left = publishJointStates a.item.1 asset := by
        rw [List.append_assoc]
        exact hleft
      refine ⟨before ++ [⟨a.item, a.calls ++ [message]⟩], ⟨?_, ?_, ?_⟩, ?_, ?_⟩
      · rw [callNext_backlog, ← h.items]
        simp only [List.map_append, List.map_singleton]
      · have hsent := h.sent
        simp only [List.flatMap_append, List.flatMap_singleton] at hsent ⊢
        simp only [Async.callNext, hsent, List.append_assoc]
      · intro b hb
        rcases List.mem_append.mp hb with hb | hb
        · exact h.firsts b (List.mem_append_left _ hb)
        · obtain rfl := List.mem_singleton.mp hb
          exact ⟨left, hleft'⟩
      · rw [List.countP_append]
        have hone := List.countP_le_length (p := Attempt.cutShort asset)
          (l := [⟨a.item, a.calls ++ [message]⟩])
        exact Nat.add_le_add hcut hone
      · intro left' hworker
        obtain rfl := Worker.publishing.inj hworker
        exact ⟨before, _, rfl, hleft', hcut⟩

omit [Pydantic] in
/-- A failing call counts. -/
theorem failures_concat (l : List Event) (e : Event) :
    failures (l ++ [e]) = failures l + if e.fails then 1 else 0 := by
  rw [failures, List.countP_append, List.countP_singleton]
  rfl

/-- One step keeps the invariant. -/
theorem WorkerInv.step {l : List Event} {s t : State} {e : Event} {attempts : List Attempt}
    (h : WorkerInv asset l s attempts) (hstep : step asset s e = some t) :
    ∃ attempts, WorkerInv asset (l ++ [e]) t attempts := by
  rcases step_worker hstep with ⟨he, hworker, hsent, htaken⟩ |
    ⟨item, s', he, hworker, hsent, htaken, rfl⟩ | ⟨left, he, hworker, rfl⟩ |
    ⟨left, he, hworker, rfl⟩ | ⟨he, hidle, hidle', hsent, hbacklog⟩
  · refine ⟨attempts, ⟨h.items.trans htaken.symm, hsent.trans h.sent, h.firsts⟩, ?_, ?_⟩
    · rw [failures_concat, he, hworker]
      exact h.cut
    · intro left hleft
      rw [failures_concat, he]
      exact h.atHand left (hworker ▸ hleft)
  · -- a new attempt, with no call yet
    have hcut : attempts.countP (Attempt.cutShort asset) ≤ failures (l ++ [e]) := by
      have hcut := h.cut
      rw [hworker] at hcut
      rw [failures_concat, he]
      exact hcut
    have hattempted : Attempted asset s' (attempts ++ [⟨item, []⟩]) := by
      refine ⟨?_, ?_, ?_⟩
      · rw [htaken, ← h.items, List.map_append, List.map_singleton]
      · rw [hsent, h.sent]
        simp
      · intro a ha
        rcases List.mem_append.mp ha with ha | ha
        · exact h.firsts a ha
        · obtain rfl := List.mem_singleton.mp ha
          exact List.nil_prefix
    exact WorkerInv.callNext hattempted hcut rfl
  · obtain ⟨before, a, rfl, hleft, hcut⟩ := h.atHand left hworker
    refine WorkerInv.callNext h.toAttempted ?_ hleft
    rw [failures_concat, he]
    exact hcut
  · -- what is left of the joint state at hand is dropped
    refine ⟨attempts, ⟨h.items, h.sent, h.firsts⟩, ?_, fun left hleft => by cases hleft⟩
    have hcut := h.cut
    rw [hworker] at hcut
    rw [failures_concat, he]
    exact hcut
  · refine ⟨attempts, ⟨?_, hsent.trans h.sent, h.firsts⟩, ?_, ?_⟩
    · rw [hbacklog]
      exact h.items
    · have hcut := h.cut
      rw [hidle] at hcut
      rw [failures_concat, he, hidle']
      exact hcut
    · intro left hleft
      rw [hleft] at hidle'
      cases hidle'

/-- The invariant holds after every run. -/
theorem exists_workerInv_of_run {maxsize : ℕ} {l : List Event} {s : State}
    (h : Run (Async.step asset) (State.init maxsize) l s) :
    ∃ attempts, WorkerInv asset l s attempts :=
  h.history (I := fun l s => ∃ attempts, WorkerInv asset l s attempts)
    ⟨[], ⟨rfl, rfl, fun a ha => absurd ha List.not_mem_nil⟩, Nat.zero_le _,
      fun left hleft => by cases hleft⟩
    fun _ _ _ _ _ ⟨_, hinv⟩ hstep => hinv.step hstep

omit [Pydantic] in
/-- The joint state that `_on_msg` accepts with an event. -/
def Event.report : Event → Option (JointStateMessage Double)
  | .onMsg msg => validated msg
  | _ => none

omit [Pydantic] in
/-- The joint states that `_on_msg` accepted, oldest first. -/
def reported (l : List Event) : List (JointStateMessage Double) := l.filterMap Event.report

/-- What was accepted is what the node reported. -/
theorem accepted_of_run {maxsize : ℕ} {l : List Event} {s : State}
    (h : Run (Async.step asset) (State.init maxsize) l s) : s.backlog.accepted = reported l := by
  refine h.history (I := fun l s => s.backlog.accepted = reported l) rfl ?_
  intro l s e t _ ih hstep
  rw [reported, List.filterMap_append, ← reported, ← ih]
  rcases step_cases hstep with ⟨msg, rfl, ht⟩ | ⟨rfl, hput⟩ | ⟨rfl, hresume⟩ | ⟨rfl, item, hget⟩ |
    ⟨⟨e', rfl⟩, ht⟩
  · rw [ht]
    rcases hmsg : validated msg with _ | m
    · rw [Backlog.onMsg_of_not_validated hmsg,
        List.filterMap_cons_none (show Event.report (.onMsg msg) = none from hmsg),
        List.filterMap_nil, List.append_nil]
    · rw [Backlog.onMsg_of_validated hmsg,
        List.filterMap_cons_some (show Event.report (.onMsg msg) = some m from hmsg)]
      rfl
  · obtain ⟨item, scheduled, -, ht⟩ := Backlog.startPut_eq_some hput
    rw [ht]
    exact (List.append_nil _).symm
  · obtain ⟨q, -, ht⟩ := Backlog.resumePut_eq_some hresume
    rw [ht]
    exact (List.append_nil _).symm
  · obtain ⟨q, -, ht⟩ := Backlog.get_eq_some hget
    rw [ht]
    exact (List.append_nil _).symm
  · rw [ht]
    exact (List.append_nil _).symm

/-- What was sent is of a joint state that was accepted. -/
theorem exists_reported_of_sent {maxsize : ℕ} {l : List Event} {s : State}
    (h : Run (Async.step asset) (State.init maxsize) l s) {p : String × String}
    (hp : p ∈ s.sent) : ∃ msg ∈ reported l, p ∈ publishJointStates msg asset := by
  obtain ⟨attempts, hinv⟩ := exists_workerInv_of_run h
  rw [hinv.sent] at hp
  obtain ⟨a, ha, hp⟩ := List.mem_flatMap.mp hp
  have htaken : a.item ∈ s.backlog.taken := by
    rw [← hinv.items]
    exact List.mem_map_of_mem ha
  have haccepted := List.mem_zipIdx_iff_getElem?.mp
    ((nothing_lost h).subset (List.mem_append_left _ htaken))
  rw [accepted_of_run h] at haccepted
  exact ⟨a.item.1, List.mem_of_getElem? haccepted, (hinv.firsts a ha).subset hp⟩

/-- What the attempts of a run account for. -/
structure PublishedOnce (asset : String) (l : List Event) (s : State) (attempts : List Attempt) :
    Prop extends Attempted asset s attempts where
  /-- No accepted joint state is attempted twice. -/
  once : (attempts.map fun a => a.item.2).Nodup
  accepted : ∀ a ∈ attempts, s.backlog.accepted[a.item.2]? = some a.item.1
  /-- Each is attempted or still held. -/
  others : attempts.length + s.backlog.held = s.backlog.accepted.length
  /-- Those cut short were cut by a failure, beside the one the worker is at. -/
  cut : attempts.countP (Attempt.cutShort asset) ≤ failures l + s.worker.busy

/-- **Telemetry is published at most once.** In every run of the bridge, over any number of sessions
and in any interleaving, what the worker sent is, joint state by joint state in the order in which
it took them, the first messages of each; no accepted joint state is attempted twice, each is
attempted or still held, and no more of them are cut short than calls of `client.publish` failed,
beside the one the worker is at. Source: `main.py`, `telemetry_worker`, `publish_joint_states` -/
theorem published_at_most_once {maxsize : ℕ} {l : List Event} {s : State}
    (h : Run (step asset) (State.init maxsize) l s) :
    ∃ attempts, PublishedOnce asset l s attempts := by
  obtain ⟨attempts, hinv⟩ := exists_workerInv_of_run h
  have hperm := nothing_lost h
  unfold Backlog.Accounted at hperm
  refine ⟨attempts, hinv.toAttempted, ?_, ?_, ?_, hinv.cut⟩
  · have hnumbers : ((s.backlog.taken ++ s.backlog.line).map Prod.snd).Nodup := by
      rw [(hperm.map Prod.snd).nodup_iff, List.zipIdx_map_snd]
      exact List.nodup_range'
    rw [List.map_append, ← hinv.items, List.map_map] at hnumbers
    exact (List.nodup_append.mp hnumbers).1
  · intro a ha
    have htaken : a.item ∈ s.backlog.taken := by
      rw [← hinv.items]
      exact List.mem_map_of_mem ha
    exact List.mem_zipIdx_iff_getElem?.mp (hperm.subset (List.mem_append_left _ htaken))
  · have hlength := held_add_taken h
    rw [← hinv.items, List.length_map] at hlength
    omega

end publication

/-! ### A joint state that is cut short -/

section platform

attribute [local instance] Pydantic.decimal

/-- The second message of a joint state fails, and the worker goes on with the next joint state. -/
def cutAndGoOn : List Event :=
  [.onMsg (elbow 1), .startPut, .onMsg (elbow 2), .startPut, .worker .connected, .get,
    .worker .publishReturned, .worker .publishFailed, .worker .closed, .worker .woken,
    .worker .connected, .get]

/-- The run that is cut within a report, and goes on with the next one. -/
theorem published_at_most_once_cutAndGoOn :
    ∃ s, Run (step "ur5") mainAsync cutAndGoOn s ∧ s.sent.length = 3 ∧
      ∃ attempts, PublishedOnce "ur5" cutAndGoOn s attempts := by
  have hrun : Run (step "ur5") mainAsync cutAndGoOn _ := .of_exec rfl
  exact ⟨_, hrun, rfl, published_at_most_once hrun⟩

end platform

end TwinServices.Bridge.Async
