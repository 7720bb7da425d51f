import TwinServices.State.Build
import TwinServices.State.Hub

/-!
# The consumer of state-svc

`Consumer` owns the way from MQTT through the window to the hub. Two tasks drive it: `_observe`
folds a message into the window and marks it dirty, and a tick of the broadcast task rebuilds the
state of a dirty window and publishes it. Neither awaits anything inside, so each is one step, and
a run is an interleaving of messages, ticks, broker sessions and subscribers of the hub.

* `checkMessage`, `observe`, `tick`, `step`: the two tasks.
* `tick_cases`: the three outcomes of a tick.
* `ConsumerInv`: what holds of the consumer over its history. Outside the dirty flag, the hub has
  the state of the current window (`UpToDate`).
* `broadcast_loses_nothing`: the broadcast loses no update.
* `no_step_raises_iff`: in a run no message and no tick raises exactly when no tick finds the window
  marked and complete with an infinite position in it.
-/

set_option autoImplicit false

namespace TwinServices.State

open TwinServices.Python TwinServices.Contracts Lib.Transition Lib.Binary64

/-! ## The class -/

/-- The label of the counter `REJECTED`.
Source: `consumer.py`, `REJECTED` -/
inductive Reason
  | topic
  | joint
  | payload
deriving DecidableEq, Repr

/-- The consumer, with the configuration it uses, the hub it publishes to and its counters.
Source: `consumer.py`, `Consumer` -/
structure Consumer where
  assetName : String
  rmsWindowS : Double
  window : RollingWindow Double
  hub : StateHub (TwinState Double)
  mqttConnected : Bool
  dirty : Bool
  messages : ℕ
  rejected : Reason → ℕ
  published : ℕ

/-- The consumer before any session, over a new window and a new hub.
Source: `consumer.py`, `Consumer.__init__` -/
def Consumer.init (assetName : String) (rmsWindowS : Double) (windowNs : ℤ) : Consumer where
  assetName := assetName
  rmsWindowS := rmsWindowS
  window := .new windowNs ur5JointNames
  hub := .new assetName
  mqttConnected := false
  dirty := false
  messages := 0
  rejected _ := 0
  published := 0

section methods

variable [Pydantic]

/-- The checks of `_observe`, in their order: why a message is rejected, or the sample that is
accepted and its channel.
Source: `consumer.py`, `Consumer._observe` -/
def checkMessage (topic : String) (payload : Payload) :
    Except Reason (String × JointField × JointTelemetry Double) :=
  match parseTelemetryTopic topic with
  | .error _ => .error .topic
  | .ok (_, joint, field) =>
      if joint ∉ ur5JointNames then .error .joint
      else
        match payload with
        | .other => .error .payload
        | payload =>
            match JointTelemetry.modelValidateJson payload with
            | .error _ => .error .payload
            | .ok sample => .ok (joint, field, sample)

namespace Consumer

/-- One message: counted, checked, and rejected or folded into the window. Every exception of the
checks is caught. Source: `consumer.py`, `Consumer._consume`, `Consumer._observe` -/
def observe (c : Consumer) (topic : String) (payload : Payload) : Consumer :=
  let c := { c with messages := c.messages + 1 }
  match checkMessage topic payload with
  | .error reason =>
      { c with rejected := Function.update c.rejected reason (c.rejected reason + 1) }
  | .ok (joint, field, sample) =>
      { c with window := c.window.observe joint field sample, dirty := true }

variable [CPython]

/-- One round of the broadcast loop. Source: `consumer.py`, `Consumer._broadcast_forever` -/
def tick (c : Consumer) : Except PyError Consumer :=
  if c.dirty = false then .ok c
  else do
    let c := { c with dirty := false }
    let state ← buildState c.assetName c.window c.rmsWindowS
    match state with
    | none => return c
    | some state =>
        let hub ← c.hub.publish state
        return { c with hub := hub, published := c.published + 1 }

end Consumer

/-! ## The steps -/

/-- What can happen to the consumer and its hub.
Source: `consumer.py`, `Consumer._consume`, `Consumer._broadcast_forever` -/
inductive Event
  /-- A session opens. -/
  | connected
  /-- A session ends in an `MqttError`. -/
  | disconnected
  | message (topic : String) (payload : Payload)
  | tick
  | subscribe (id : QueueId)
  | unsubscribe (id : QueueId)
  | take (id : QueueId)

variable [CPython]

/-- One step; none where it cannot happen, or raises.
Source: `consumer.py`, `Consumer._consume_forever`, `Consumer._observe`,
`Consumer._broadcast_forever` -/
def step (c : Consumer) : Event → Option Consumer
  | .connected => some { c with mqttConnected := true }
  | .disconnected => some { c with mqttConnected := false }
  | .message topic payload => some (c.observe topic payload)
  | .tick =>
      match c.tick with
      | .ok c => some c
      | .error _ => none
  | .subscribe id =>
      if (c.hub.queues id).isNone then some { c with hub := c.hub.subscribe id } else none
  | .unsubscribe id => some { c with hub := c.hub.unsubscribe id }
  | .take id => (c.hub.take id).map fun r => { c with hub := r.2 }

/-! ## One step -/

/-- A message that is accepted. -/
def Accepted (topic : String) (payload : Payload) : Prop :=
  ∃ accepted, checkMessage topic payload = .ok accepted

omit [CPython] in
/-- An accepted sample is the validated payload, of a joint of the arm. -/
theorem checkMessage_ok {topic joint : String} {payload : Payload} {field : JointField}
    {sample : JointTelemetry Double} (h : checkMessage topic payload = .ok (joint, field, sample)) :
    (∃ asset, parseTelemetryTopic topic = .ok (asset, joint, field)) ∧ joint ∈ ur5JointNames ∧
      JointTelemetry.modelValidateJson payload = .ok sample := by
  unfold checkMessage at h
  split at h
  · cases h
  · rename_i asset joint' field' htopic
    split_ifs at h with hjoint
    split at h
    · cases h
    · split at h
      · cases h
      · rename_i sample' hsample
        obtain ⟨rfl, rfl, rfl⟩ : joint' = joint ∧ field' = field ∧ sample' = sample := by
          simpa using h
        exact ⟨⟨asset, htopic⟩, hjoint, hsample⟩

omit [CPython] in
/-- The checks accept what passes each of them. -/
theorem checkMessage_of_ok {topic asset joint : String} {payload : Payload} {field : JointField}
    {sample : JointTelemetry Double}
    (htopic : parseTelemetryTopic topic = .ok (asset, joint, field))
    (hjoint : joint ∈ ur5JointNames)
    (hsample : JointTelemetry.modelValidateJson payload = .ok sample) :
    checkMessage topic payload = .ok (joint, field, sample) := by
  unfold checkMessage
  rw [htopic]
  simp only
  rw [if_neg (not_not.mpr hjoint)]
  cases payload with
  | other => cases hsample
  | bytes b => simp only [hsample]
  | str s => simp only [hsample]

omit [CPython] in
/-- A rejected message changes the counters only. -/
theorem observe_rejected {c : Consumer} {topic : String} {payload : Payload} {reason : Reason}
    (h : checkMessage topic payload = .error reason) :
    c.observe topic payload = { c with
      messages := c.messages + 1
      rejected := Function.update c.rejected reason (c.rejected reason + 1) } := by
  unfold Consumer.observe
  rw [h]

omit [CPython] in
/-- An accepted message is folded into the window and marks it. -/
theorem observe_accepted {c : Consumer} {topic joint : String} {payload : Payload}
    {field : JointField} {sample : JointTelemetry Double}
    (h : checkMessage topic payload = .ok (joint, field, sample)) :
    c.observe topic payload = { c with
      messages := c.messages + 1
      window := c.window.observe joint field sample
      dirty := true } := by
  unfold Consumer.observe
  rw [h]

omit [Pydantic] in
/-- The three outcomes of a tick that returns: nothing to do, a window that is not complete, or a
state that is built and published. -/
theorem tick_cases {c t : Consumer} (h : c.tick = .ok t) :
    (c.dirty = false ∧ t = c) ∨
    (c.dirty = true ∧ buildState c.assetName c.window c.rmsWindowS = .ok none ∧
      t = { c with dirty := false }) ∨
    (∃ state hub, c.dirty = true ∧
      buildState c.assetName c.window c.rmsWindowS = .ok (some state) ∧
      c.hub.publish state = .ok hub ∧
      t = { c with dirty := false, hub := hub, published := c.published + 1 }) := by
  unfold Consumer.tick at h
  split_ifs at h with hdirty
  · exact Or.inl ⟨hdirty, (Except.ok.inj h).symm⟩
  · rw [Bool.not_eq_false] at hdirty
    obtain ⟨state, hbuild, h⟩ := bind_eq_ok_iff.mp h
    rcases state with _ | state
    · exact Or.inr (Or.inl ⟨hdirty, hbuild, (Except.ok.inj h).symm⟩)
    · obtain ⟨hub, hpublish, h⟩ := bind_eq_ok_iff.mp h
      exact Or.inr (Or.inr ⟨state, hub, hdirty, hbuild, hpublish, (Except.ok.inj h).symm⟩)

/-- The observation that an event folds into the window, if any.
Source: `consumer.py`, `Consumer._observe` -/
def folded : Event → Option (RollingWindow.Observation Double)
  | .message topic payload =>
      match checkMessage topic payload with
      | .ok (joint, field, sample) => some ⟨joint, field, sample⟩
      | .error _ => none
  | _ => none

omit [CPython] in
/-- An accepted message is folded as its checked observation. -/
theorem folded_message {topic joint : String} {payload : Payload} {field : JointField}
    {sample : JointTelemetry Double} (h : checkMessage topic payload = .ok (joint, field, sample)) :
    folded (.message topic payload) = some ⟨joint, field, sample⟩ := by
  simp only [folded, h]

omit [CPython] in
/-- What is folded is a sample of a joint of the arm. -/
theorem joint_of_folded {e : Event} {o : RollingWindow.Observation Double}
    (h : folded e = some o) : o.joint ∈ ur5JointNames := by
  cases e with
  | message topic payload =>
      simp only [folded] at h
      split at h
      · rename_i joint field sample hcheck
        obtain rfl := Option.some.inj h
        exact (checkMessage_ok hcheck).2.1
      · cases h
  | _ => cases h

/-- What the broadcast works on is as it was. -/
structure SameBroadcast (c t : Consumer) : Prop where
  assetName : t.assetName = c.assetName
  rmsWindowS : t.rmsWindowS = c.rmsWindowS
  window : t.window = c.window
  dirty : t.dirty = c.dirty
  latest : t.hub.latest = c.hub.latest
  sound : c.hub.Sound → t.hub.Sound

/-- What each event changes: a message is accepted or rejected, a tick returns, and the rest
leaves alone what the broadcast works on. -/
theorem step_cases {c t : Consumer} {e : Event} (h : step c e = some t) :
    (∃ topic payload joint field sample, e = .message topic payload ∧
      checkMessage topic payload = .ok (joint, field, sample) ∧
      t = { c with
        messages := c.messages + 1
        window := c.window.observe joint field sample
        dirty := true }) ∨
    (e = .tick ∧ c.tick = .ok t) ∨
    (e ≠ .tick ∧ folded e = none ∧ SameBroadcast c t) := by
  cases e with
  | connected | disconnected =>
      obtain rfl := Option.some.inj h
      exact Or.inr (Or.inr ⟨by simp, rfl, rfl, rfl, rfl, rfl, rfl, id⟩)
  | message topic payload =>
      obtain rfl := Option.some.inj h
      rcases hcheck : checkMessage topic payload with reason | ⟨joint, field, sample⟩
      · rw [observe_rejected hcheck]
        refine Or.inr (Or.inr ⟨by simp, ?_, rfl, rfl, rfl, rfl, rfl, id⟩)
        simp only [folded, hcheck]
      · rw [observe_accepted hcheck]
        exact Or.inl ⟨topic, payload, joint, field, sample, rfl, hcheck, rfl⟩
  | tick =>
      simp only [step] at h
      split at h
      · rename_i t' htick
        obtain rfl := Option.some.inj h
        exact Or.inr (Or.inl ⟨rfl, htick⟩)
      · cases h
  | subscribe id =>
      simp only [step] at h
      split_ifs at h
      obtain rfl := Option.some.inj h
      exact Or.inr (Or.inr ⟨by simp, rfl, rfl, rfl, rfl, rfl, rfl, fun hs => hs.subscribe id⟩)
  | unsubscribe id =>
      obtain rfl := Option.some.inj h
      exact Or.inr (Or.inr ⟨by simp, rfl, rfl, rfl, rfl, rfl, rfl, fun hs => hs.unsubscribe id⟩)
  | take id =>
      simp only [step, Option.map_eq_some_iff] at h
      obtain ⟨⟨state, hub⟩, htake, rfl⟩ := h
      exact Or.inr (Or.inr ⟨by simp, rfl, rfl, rfl, rfl, rfl, StateHub.take_latest htake,
        fun hs => hs.take htake⟩)

/-- The window after a run, from the messages of the run that were accepted. -/
theorem window_of_run {assetName : String} {rmsWindowS : Double} {windowNs : ℤ}
    {l : List Event} {c : Consumer}
    (h : Run step (Consumer.init assetName rmsWindowS windowNs) l c) :
    c.window = (RollingWindow.new windowNs ur5JointNames).observeAll (l.filterMap folded) := by
  refine h.history (I := fun l c => c.window =
    (RollingWindow.new windowNs ur5JointNames).observeAll (l.filterMap folded)) rfl ?_
  intro l c e t _ ih hstep
  rw [List.filterMap_append]
  rcases step_cases hstep with ⟨topic, payload, joint, field, sample, rfl, hcheck, rfl⟩ |
    ⟨rfl, htick⟩ | ⟨-, hfolded, hsame⟩
  · rw [List.filterMap_cons_some (folded_message hcheck), List.filterMap_nil,
      RollingWindow.observeAll_concat, ← ih]
  · have hwindow : t.window = c.window := by
      rcases tick_cases htick with ⟨-, rfl⟩ | ⟨-, -, rfl⟩ | ⟨-, -, -, -, -, rfl⟩ <;> rfl
    rw [hwindow, ih, List.filterMap_cons_none rfl, List.filterMap_nil, List.append_nil]
  · rw [hsame.window, ih, List.filterMap_cons_none hfolded, List.filterMap_nil, List.append_nil]

/-! ## The invariant -/

/-- Some message was accepted since the last tick. -/
def AcceptedSinceTick (l : List Event) : Prop :=
  ∃ before after topic payload, l = before ++ .message topic payload :: after ∧
    .tick ∉ after ∧ Accepted topic payload

omit [CPython] in
/-- What is no tick leaves the accepted message since the last tick. -/
theorem AcceptedSinceTick.concat {l : List Event} (h : AcceptedSinceTick l) {e : Event}
    (he : e ≠ .tick) : AcceptedSinceTick (l ++ [e]) := by
  obtain ⟨before, after, topic, payload, rfl, htick, haccepted⟩ := h
  refine ⟨before, after ++ [e], topic, payload, by simp, ?_, haccepted⟩
  rw [List.mem_append, List.mem_singleton, not_or]
  exact ⟨htick, he.symm⟩

/-- The hub has the state of the current window. -/
def UpToDate (c : Consumer) : Prop :=
  buildState c.assetName c.window c.rmsWindowS = .ok c.hub.latest

/-- The invariant of the consumer over its history. -/
structure ConsumerInv (l : List Event) (c : Consumer) : Prop where
  joints : c.window.joints = ur5JointNames
  sound : c.hub.Sound
  upToDate : c.dirty = false → UpToDate c
  complete : c.hub.latest.isSome = true → c.window.Complete
  pending : c.dirty = true → AcceptedSinceTick l

omit [Pydantic] [CPython] in
/-- A new window has no value on any channel. -/
theorem not_complete_new (windowNs : ℤ) :
    ¬ (RollingWindow.new windowNs ur5JointNames : RollingWindow Double).Complete := by
  intro h
  have := h "elbow_joint" (show "elbow_joint" ∈ ur5JointNames by decide) .position
  simp [RollingWindow.new] at this

/-- A new consumer has published nothing and marked nothing. -/
theorem consumerInv_init (assetName : String) (rmsWindowS : Double) (windowNs : ℤ) :
    ConsumerInv [] (Consumer.init assetName rmsWindowS windowNs) where
  joints := rfl
  sound id hid := by simp [Consumer.init, StateHub.new] at hid
  upToDate _ := buildState_of_not_complete (not_complete_new windowNs)
  complete h := by simp [Consumer.init, StateHub.new] at h
  pending h := by simp [Consumer.init] at h

/-- **One step keeps the invariant.** A message marks the window, and a tick that finds it marked
leaves the hub with the state that it builds: none only while the window is not complete, and then
it never was. -/
theorem ConsumerInv.step {l : List Event} {c t : Consumer} {e : Event} (h : ConsumerInv l c)
    (hstep : step c e = some t) : ConsumerInv (l ++ [e]) t := by
  rcases step_cases hstep with ⟨topic, payload, joint, field, sample, rfl, hcheck, rfl⟩ |
    ⟨rfl, htick⟩ | ⟨he, -, hsame⟩
  · exact {
      joints := (RollingWindow.observe_joints ..).trans h.joints
      sound := h.sound
      upToDate := fun hd => by simp at hd
      complete := fun hsome => (h.complete hsome).observe joint field sample
      pending := fun _ => ⟨l, [], topic, payload, rfl, List.not_mem_nil, _, hcheck⟩ }
  · rcases tick_cases htick with ⟨hdirty, rfl⟩ | ⟨hdirty, hbuild, rfl⟩ |
      ⟨state, hub, hdirty, hbuild, hpublish, rfl⟩
    · exact {
        joints := h.joints
        sound := h.sound
        upToDate := h.upToDate
        complete := h.complete
        pending := fun hd => by simp [hdirty] at hd }
    · refine ⟨h.joints, h.sound, fun _ => ?_, h.complete, fun hd => by simp at hd⟩
      rcases hlatest : c.hub.latest with _ | state
      · simpa [UpToDate, hlatest] using hbuild
      · have hcomplete := h.complete (by rw [hlatest]; rfl)
        exact absurd ((isSome_buildState_iff hbuild).mpr hcomplete) (by simp)
    · rw [publish_ok h.sound] at hpublish
      obtain rfl := Except.ok.inj hpublish
      exact {
        joints := h.joints
        sound := sound_publish c.hub state
        upToDate := fun _ => hbuild
        complete := fun _ => (isSome_buildState_iff hbuild).mp rfl
        pending := fun hd => by simp at hd }
  · exact {
      joints := by rw [hsame.window, h.joints]
      sound := hsame.sound h.sound
      upToDate := fun hd => by
        unfold UpToDate
        rw [hsame.assetName, hsame.rmsWindowS, hsame.window, hsame.latest]
        exact h.upToDate (by rwa [hsame.dirty] at hd)
      complete := fun hsome => by
        rw [hsame.window]
        exact h.complete (by rwa [hsame.latest] at hsome)
      pending := fun hd => (h.pending (by rwa [hsame.dirty] at hd)).concat he }

/-- The invariant holds after every run. -/
theorem consumerInv_of_run {assetName : String} {rmsWindowS : Double} {windowNs : ℤ}
    {l : List Event} {c : Consumer}
    (h : Run step (Consumer.init assetName rmsWindowS windowNs) l c) : ConsumerInv l c :=
  h.history (consumerInv_init assetName rmsWindowS windowNs)
    fun _ _ _ _ _ hinv hstep => hinv.step hstep

/-! ## The broadcast loses no update -/

/-- **The broadcast loses no update.** After every run, for every order of messages, ticks,
sessions and subscribers: while the window is not marked, `hub.latest` is the state of the current
window (none while it is not complete); no step takes `hub.latest` back to none; and a tick that
publishes was preceded by a message accepted since the tick before it, over a complete window.
Source: `consumer.py`, `Consumer._observe`, `Consumer._broadcast_forever` -/
theorem broadcast_loses_nothing {assetName : String} {rmsWindowS : Double} {windowNs : ℤ}
    {l : List Event} {c : Consumer}
    (h : Run step (Consumer.init assetName rmsWindowS windowNs) l c) :
    (c.dirty = false → buildState c.assetName c.window c.rmsWindowS = .ok c.hub.latest) ∧
      (c.dirty = false → (c.hub.latest = none ↔ ¬ c.window.Complete)) ∧
      (∀ e t, step c e = some t → c.hub.latest ≠ none → t.hub.latest ≠ none) ∧
      (∀ t, step c .tick = some t → t.published ≠ c.published →
        AcceptedSinceTick l ∧ c.window.Complete) := by
  have hinv := consumerInv_of_run h
  refine ⟨hinv.upToDate, ?_, ?_, ?_⟩
  · intro hdirty
    rw [← isSome_buildState_iff (hinv.upToDate hdirty), Bool.not_eq_true,
      Option.isSome_eq_false_iff, Option.isNone_iff_eq_none]
  · intro e t hstep hlatest
    rcases step_cases hstep with ⟨-, -, -, -, -, -, -, rfl⟩ | ⟨-, htick⟩ | ⟨-, -, hsame⟩
    · exact hlatest
    · rcases tick_cases htick with ⟨-, rfl⟩ | ⟨-, -, rfl⟩ | ⟨state, hub, -, -, hpublish, rfl⟩
      · exact hlatest
      · exact hlatest
      · rw [publish_ok hinv.sound] at hpublish
        obtain rfl := Except.ok.inj hpublish
        simp
    · rwa [hsame.latest]
  · intro t hstep hpublished
    rcases step_cases hstep with ⟨_, _, _, _, _, he, -⟩ | ⟨-, htick⟩ | ⟨he, -⟩
    · cases he
    · rcases tick_cases htick with ⟨-, rfl⟩ | ⟨-, -, rfl⟩ | ⟨state, hub, hdirty, hbuild, -, rfl⟩
      · exact absurd rfl hpublished
      · exact absurd rfl hpublished
      · exact ⟨hinv.pending hdirty, (isSome_buildState_iff hbuild).mp rfl⟩
    · exact absurd rfl he

/-! ## What raises -/

/-- Every sample that was accepted has a stamp that fits the message. -/
def StampsFit (l : List Event) : Prop :=
  ∀ topic payload, .message topic payload ∈ l →
    ∀ sample, JointTelemetry.modelValidateJson payload = .ok sample → sample.stampNs < uint64Limit

/-- If every folded stamp fits 64 bits, so does that of the window. -/
theorem stampNs_lt_of_run {assetName : String} {rmsWindowS : Double} {windowNs : ℤ}
    {l : List Event} {c : Consumer}
    (h : Run step (Consumer.init assetName rmsWindowS windowNs) l c) (hstamps : StampsFit l) :
    c.window.stampNs < uint64Limit := by
  refine h.history (I := fun l c => StampsFit l → c.window.stampNs < uint64Limit) ?_ ?_ hstamps
  · intro _
    simp [Consumer.init, RollingWindow.new, uint64Limit]
  · intro l c e t _ ih hstep hstamps
    have hbefore := ih fun topic payload hmem => hstamps topic payload (List.mem_append_left _ hmem)
    rcases step_cases hstep with ⟨topic, payload, joint, field, sample, rfl, hcheck, rfl⟩ |
      ⟨-, htick⟩ | ⟨-, -, hsame⟩
    · have hsample := hstamps topic payload (by simp) sample (checkMessage_ok hcheck).2.2
      by_cases hmem : joint ∈ c.window.joints
      · simp only
        rw [RollingWindow.observe_stampNs _ _ _ hmem]
        exact max_lt hbefore hsample
      · simp only
        rwa [RollingWindow.observe_of_not_mem _ _ _ hmem]
    · rcases tick_cases htick with ⟨-, rfl⟩ | ⟨-, -, rfl⟩ | ⟨-, -, -, -, -, rfl⟩ <;> exact hbefore
    · rwa [hsame.window]

/-- Some position in the window is infinite. -/
def InfinitePosition (w : RollingWindow Double) : Prop :=
  ∃ joint ∈ ur5JointNames, ∃ s, w.latest (joint, .position) = some (.inf s)

omit [Pydantic] [CPython] in
/-- Over the arm's joints the two ways to say that no position is infinite agree. -/
theorem finitePositions_iff_not_infinite {w : RollingWindow Double}
    (h : w.joints = ur5JointNames) : FinitePositions w ↔ ¬ InfinitePosition w := by
  unfold FinitePositions
  rw [h]
  constructor
  · rintro hall ⟨joint, hmem, s, hs⟩
    exact absurd (hall joint hmem _ hs) (by simp [Double.isInf])
  · intro hnone joint hmem x hx
    rcases x with x | s | _
    · rfl
    · exact absurd ⟨joint, hmem, s, hx⟩ hnone
    · rfl

/-- A tick over stamps that fit, by what its window holds. -/
theorem ConsumerInv.tick_returns_iff {l : List Event} {c : Consumer} (hinv : ConsumerInv l c)
    (hstamp : c.window.stampNs < uint64Limit) :
    (∃ t, c.tick = .ok t) ↔
      ¬ (c.dirty = true ∧ c.window.Complete ∧ InfinitePosition c.window) := by
  have hlen : c.window.joints.length = 6 := by
    rw [hinv.joints]
    rfl
  have hbuild : (∃ state, buildState c.assetName c.window c.rmsWindowS = .ok state) ↔ _ :=
    buildState_double_iff hlen
  rw [finitePositions_iff_not_infinite hinv.joints] at hbuild
  constructor
  · rintro ⟨t, htick⟩ ⟨hdirty, hcomplete, hinf⟩
    rcases tick_cases htick with ⟨hclean, -⟩ | ⟨-, hb, -⟩ | ⟨state, -, -, hb, -⟩
    · rw [hdirty] at hclean
      cases hclean
    · exact (hbuild.mp ⟨_, hb⟩ hcomplete).1 hinf
    · exact (hbuild.mp ⟨_, hb⟩ hcomplete).1 hinf
  · intro hnot
    unfold Consumer.tick
    by_cases hdirty : c.dirty = false
    · exact ⟨c, if_pos hdirty⟩
    · rw [if_neg hdirty]
      rw [Bool.not_eq_false] at hdirty
      obtain ⟨state, hstate⟩ := hbuild.mpr fun hcomplete =>
        ⟨fun hinf => hnot ⟨hdirty, hcomplete, hinf⟩, hstamp⟩
      rcases state with _ | state
      · exact ⟨{ c with dirty := false }, bind_eq_ok_iff.mpr ⟨none, hstate, rfl⟩⟩
      · exact ⟨_, bind_eq_ok_iff.mpr ⟨some state, hstate,
          bind_eq_ok_iff.mpr ⟨_, publish_ok hinv.sound state, rfl⟩⟩⟩

/-- A tick over a marked and complete window without an infinite position publishes its state. -/
theorem ConsumerInv.tick_publishes {l : List Event} {c : Consumer} (hinv : ConsumerInv l c)
    (hstamp : c.window.stampNs < uint64Limit) (hdirty : c.dirty = true)
    (hcomplete : c.window.Complete) (hfinite : ¬ InfinitePosition c.window) :
    ∃ t state, State.step c .tick = some t ∧ t.hub.latest = some state ∧ t.window = c.window ∧
      t.dirty = false ∧ t.published = c.published + 1 ∧
      buildState t.assetName t.window t.rmsWindowS = .ok (some state) := by
  obtain ⟨t, htick⟩ := (hinv.tick_returns_iff hstamp).mpr fun hinf => hfinite hinf.2.2
  have hstep : State.step c .tick = some t := by
    simp only [State.step, htick]
  rcases tick_cases htick with ⟨hclean, -⟩ | ⟨-, hbuild, -⟩ | ⟨state, hub, -, hbuild, hpublish, rfl⟩
  · rw [hdirty] at hclean
    cases hclean
  · exact absurd ((isSome_buildState_iff hbuild).mpr hcomplete) (by simp)
  · rw [publish_ok hinv.sound] at hpublish
    obtain rfl := Except.ok.inj hpublish
    exact ⟨_, state, hstep, rfl, rfl, rfl, rfl, hbuild⟩

/-- A message or a tick returns. -/
def Returns (c : Consumer) : Event → Prop
  | .message topic payload => ∃ t, step c (.message topic payload) = some t
  | .tick => ∃ t, step c .tick = some t
  | _ => True

/-- A tick that finds the window marked and complete, with an infinite position. -/
def TicksOverInfinite (c : Consumer) (e : Event) : Prop :=
  e = .tick ∧ c.dirty = true ∧ c.window.Complete ∧ InfinitePosition c.window

/-- A step raises only when a tick builds a state over an infinite position. -/
theorem ConsumerInv.returns_iff {l : List Event} {c : Consumer} (hinv : ConsumerInv l c)
    (hstamp : c.window.stampNs < uint64Limit) (e : Event) :
    Returns c e ↔ ¬ TicksOverInfinite c e := by
  unfold TicksOverInfinite
  cases e with
  | tick =>
      have hstep : (∃ t, State.step c .tick = some t) ↔ ∃ t, c.tick = .ok t := by
        simp only [State.step]
        rcases c.tick with error | t <;> simp
      simp only [Returns, true_and]
      rw [hstep]
      exact hinv.tick_returns_iff hstamp
  | message topic payload =>
      simp only [Returns, reduceCtorEq, false_and, not_false_eq_true, iff_true]
      exact ⟨_, rfl⟩
  | _ => simp [Returns]

/-- **What kills state-svc.** In every sequence of messages, ticks, sessions and subscribers over
telemetry with stamps below `2^64`, every message and every tick returns exactly when no tick finds
the window marked and complete with an infinite position in it. Source: `consumer.py`,
`Consumer._observe`, `Consumer._broadcast_forever`; `kinematics.py`, `forward` -/
theorem no_step_raises_iff {assetName : String} {rmsWindowS : Double} {windowNs : ℤ}
    {l : List Event} (hstamps : StampsFit l) :
    AlongSteps step (Consumer.init assetName rmsWindowS windowNs) Returns l ↔
      AlongSteps step (Consumer.init assetName rmsWindowS windowNs)
        (fun c e => ¬ TicksOverInfinite c e) l := by
  refine alongSteps_congr fun l' c e hp hrun => ?_
  have hfit : StampsFit l' := fun topic payload hmem =>
    hstamps topic payload (hp.subset (List.mem_append_left _ hmem))
  exact (consumerInv_of_run hrun).returns_iff (stampNs_lt_of_run hrun hfit) e

/-! ### Messages that are all accepted -/

/-- Accepted messages, one after the other, fold into the window, and the last one marks it. -/
theorem run_accepted {l : List Event} (h : ∀ e ∈ l, (folded e).isSome = true) (c : Consumer) :
    ∃ t, Run step c l t ∧ (l ≠ [] → t.dirty = true) ∧ t.hub = c.hub ∧
      t.window = c.window.observeAll (l.filterMap folded) := by
  induction l using List.reverseRecOn with
  | nil => exact ⟨c, .nil, fun hne => absurd rfl hne, rfl, rfl⟩
  | append_singleton l e ih =>
      rw [List.forall_mem_append, List.forall_mem_singleton] at h
      obtain ⟨s, hrun, -, hhub, hwindow⟩ := ih h.1
      obtain ⟨o, ho⟩ := Option.isSome_iff_exists.mp h.2
      cases e with
      | message topic payload =>
          simp only [folded] at ho
          split at ho
          · rename_i joint field sample hcheck
            refine ⟨s.observe topic payload, hrun.snoc rfl, ?_⟩
            rw [observe_accepted hcheck, List.filterMap_append, ← hhub,
              List.filterMap_cons_some (folded_message hcheck), List.filterMap_nil,
              RollingWindow.observeAll_concat, hwindow]
            exact ⟨fun _ => rfl, rfl, rfl⟩
          · cases ho
      | _ => cases ho

omit [CPython] in
/-- A sample on the topic of a joint of the arm is accepted. -/
theorem checkMessage_telemetryTopic {asset joint : String} {payload : Payload}
    {sample : JointTelemetry Double} (hasset : IsLevel asset) (hjoint : joint ∈ ur5JointNames)
    (field : JointField) (h : JointTelemetry.modelValidateJson payload = .ok sample) :
    checkMessage (telemetryTopic asset joint field) payload = .ok (joint, field, sample) := by
  have hlevel : ∀ joint ∈ ur5JointNames, IsLevel joint := by decide
  have htopic : parseTelemetryTopic (telemetryTopic asset joint field) =
      .ok (asset, joint, field) :=
    parseTelemetryTopic_ok_iff.mpr ⟨hasset, hlevel joint hjoint, Or.inl rfl⟩
  exact checkMessage_of_ok htopic hjoint h

end methods

/-! ### A full report of the arm -/

section platform

attribute [local instance] CPython.series Pydantic.decimal

open Lib.Json

/-- The value of a channel in the report: all are zero but the position of the first joint. -/
def reportValue (pan : Value) (joint : String) (field : JointField) : Value :=
  if joint = "shoulder_pan_joint" ∧ field = .position then pan else .num (.ofNat 0)

/-- One message for each channel of the arm, as a device of the first version sends it, and the
observation that the consumer makes of it. -/
def report (pan : Value) (x : Double) : List (Event × RollingWindow.Observation Double) :=
  ur5JointNames.flatMap fun joint => JointField.members.map fun field =>
    (.message (telemetryTopic "ur5" joint field)
        (.ofText (dumpJson (JointTelemetry.legacyMembers (reportValue pan joint field) 1))),
      ⟨joint, field, .new (if joint = "shoulder_pan_joint" ∧ field = .position then x
        else .finite Double.zero) 1⟩)

/-- The events of the report. -/
def reportEvents (pan : Value) (x : Double) : List Event := (report pan x).map Prod.fst

/-- The report and a tick after it. -/
def reportTick (pan : Value) (x : Double) : List Event := reportEvents pan x ++ [.tick]

/-- The consumer that the report goes to, and its window after the report. -/
def reportInit : Consumer := .init "ur5" (PyFloat.lit 2) 2000000000

/-- The window after a report. -/
def reportWindow (pan : Value) (x : Double) : RollingWindow Double :=
  reportInit.window.observeAll ((report pan x).map Prod.snd)

/-- The number `0` is read as zero. -/
theorem checkFloat_ofNat_zero : checkFloat (.num (.ofNat 0)) = .ok (.finite Double.zero) := by
  apply congrArg Except.ok
  simp [NumLit.value, NumLit.ofNat]

section report

variable {pan : Value} {x : Double}

/-- The messages of a report have the stamp 1, and all values but the one given are zero. -/
theorem mem_report {d} (hd : d ∈ report pan x) :
    d.2.sample.stampNs = 1 ∧ (d.2.sample.value = x ∨ d.2.sample.value = .finite Double.zero) := by
  unfold report at hd
  simp only [List.mem_flatMap, List.mem_map] at hd
  obtain ⟨joint, -, field, -, rfl⟩ := hd
  refine ⟨rfl, ?_⟩
  simp only [JointTelemetry.new]
  split_ifs
  · exact Or.inl rfl
  · exact Or.inr rfl

/-- The report covers the arm. -/
theorem complete_report : (reportWindow pan x).Complete := by
  intro joint hjoint field
  have hmem : joint ∈ ur5JointNames := by
    unfold reportWindow at hjoint
    rwa [RollingWindow.observeAll_joints] at hjoint
  have hd : ∃ d ∈ report pan x, d.2.joint = joint ∧ d.2.field = field := by
    refine ⟨_, List.mem_flatMap.mpr ⟨joint, hmem, List.mem_map.mpr ⟨field, ?_, rfl⟩⟩, rfl, rfl⟩
    exact JointField.mem_members field
  obtain ⟨d, hd, rfl, rfl⟩ := hd
  unfold reportWindow
  exact RollingWindow.isSome_latest_observeAll (w := reportInit.window) (List.mem_map_of_mem hd)
    hmem

/-- The window shows the given position. -/
theorem latest_report :
    (reportWindow pan x).latest ("shoulder_pan_joint", .position) = some x := by
  have hmem : "shoulder_pan_joint" ∈ reportInit.window.joints := by decide
  unfold reportWindow
  rw [RollingWindow.observeAll_latest hmem]
  simp [report, ur5JointNames, JointField.members, JointTelemetry.new]

/-- A report without an infinity leaves none in the window. -/
theorem not_infinitePosition_report (h : x.isInf = false) :
    ¬ InfinitePosition (reportWindow pan x) := by
  rintro ⟨joint, hjoint, s, hs⟩
  unfold reportWindow at hs
  obtain ⟨o, ho, -, -, hvalue⟩ :=
    RollingWindow.exists_observation_of_latest (w := reportInit.window) hjoint rfl hs
  obtain ⟨d, hd, rfl⟩ := List.mem_map.mp ho
  rcases (mem_report hd).2 with hx | hx
  · rw [← hx, hvalue] at h
    cases h
  · rw [hvalue] at hx
    cases hx

/-- A report has messages. -/
theorem report_ne_nil : reportEvents pan x ≠ [] := by
  simp [reportEvents, report, ur5JointNames, JointField.members]

variable (h : checkFloat pan = .ok x)
include h

/-- Every message of a report is accepted. -/
theorem folded_report (d) (hd : d ∈ report pan x) : folded d.1 = some d.2 := by
  unfold report at hd
  simp only [List.mem_flatMap, List.mem_map] at hd
  obtain ⟨joint, hjoint, field, -, rfl⟩ := hd
  refine folded_message (checkMessage_telemetryTopic (by decide) hjoint field ?_)
  refine JointTelemetry.validate_legacy ?_ 1
  unfold reportValue
  split_ifs
  · exact h
  · exact checkFloat_ofNat_zero

/-- Every event of a report is folded. -/
theorem isSome_folded_report : ∀ e ∈ reportEvents pan x, (folded e).isSome = true := by
  intro e he
  obtain ⟨d, hd, rfl⟩ := List.mem_map.mp he
  rw [folded_report h d hd]
  rfl

/-- A report is folded as its observations. -/
theorem filterMap_folded_report :
    (reportEvents pan x).filterMap folded = (report pan x).map Prod.snd := by
  rw [reportEvents, List.filterMap_map, ← List.filterMap_eq_map]
  exact List.filterMap_congr (folded_report h)

/-- The report is one run, and marks the window. -/
theorem run_report :
    ∃ c, Run step reportInit (reportEvents pan x) c ∧ c.dirty = true ∧
      c.window = reportWindow pan x := by
  obtain ⟨c, hrun, hdirty, -, hwindow⟩ := run_accepted (isSome_folded_report h) reportInit
  rw [filterMap_folded_report h] at hwindow
  exact ⟨c, hrun, hdirty report_ne_nil, hwindow⟩

/-- The stamps of a report fit 64 bits. -/
theorem stampsFit_reportTick : StampsFit (reportTick pan x) := by
  intro topic payload hmem sample hsample
  rcases List.mem_append.mp hmem with hmem | hmem
  · obtain ⟨d, hd, heq⟩ := List.mem_map.mp hmem
    have hfolded := folded_report h d hd
    rw [heq] at hfolded
    simp only [folded] at hfolded
    split at hfolded
    · rename_i joint field sample' hcheck
      obtain ⟨-, -, hvalid⟩ := checkMessage_ok hcheck
      obtain rfl := Except.ok.inj (hsample.symm.trans hvalid)
      have hstamp := (mem_report hd).1
      rw [← Option.some.inj hfolded] at hstamp
      rw [show sample.stampNs = 1 from hstamp]
      decide
    · cases hfolded
  · simp at hmem

/-- The tick after the report returns unless the first joint is infinite. -/
theorem returns_report_iff {c : Consumer} (hrun : Run step reportInit (reportEvents pan x) c) :
    Returns c .tick ↔ x.isInf = false := by
  obtain ⟨t, hrun', hdirty, hwindow⟩ := run_report h
  obtain rfl := hrun.det hrun'
  have hfit : StampsFit (reportEvents pan x) := fun topic payload hmem =>
    stampsFit_reportTick h topic payload (List.mem_append_left _ hmem)
  rw [(consumerInv_of_run hrun).returns_iff (stampNs_lt_of_run hrun hfit)]
  unfold TicksOverInfinite
  rw [hwindow]
  constructor
  · intro hnot
    rw [← Bool.not_eq_true]
    intro hinf
    obtain ⟨s, rfl⟩ : ∃ s, x = .inf s := by
      cases x with
      | inf s => exact ⟨s, rfl⟩
      | _ => cases hinf
    exact hnot ⟨rfl, hdirty, complete_report, "shoulder_pan_joint", by decide, s, latest_report⟩
  · rintro hx ⟨-, -, -, hinf⟩
    exact not_infinitePosition_report hx hinf

end report

/-- With the first joint at infinity the tick raises. -/
theorem infinitePan_kills :
    StampsFit (reportTick (.nonFinite .infinity) (.inf false)) ∧
      ¬ AlongSteps step reportInit Returns (reportTick (.nonFinite .infinity) (.inf false)) := by
  have hpan : checkFloat (.nonFinite .infinity) = .ok (.inf false) := rfl
  refine ⟨stampsFit_reportTick hpan, fun hreturns => ?_⟩
  obtain ⟨c, hrun, -, -⟩ := run_report hpan
  exact absurd ((returns_report_iff hpan hrun).mp (hreturns _ c .tick List.prefix_rfl hrun))
    (by decide)

/-- A report of zeros and its tick: no step raises. -/
theorem no_step_raises_iff_report :
    AlongSteps step reportInit Returns (reportTick (.num (.ofNat 0)) (.finite Double.zero)) := by
  have hzero := checkFloat_ofNat_zero
  apply (no_step_raises_iff (stampsFit_reportTick hzero)).mpr
  rintro l' c e hp hrun ⟨rfl, -, -, hinf⟩
  have htick : .tick ∉ reportEvents (.num (.ofNat 0)) (.finite Double.zero) := by
    intro htick
    obtain ⟨d, hd, heq⟩ := List.mem_map.mp htick
    have hfolded := folded_report hzero d hd
    rw [heq] at hfolded
    cases hfolded
  obtain rfl := eq_of_concat_prefix htick hp
  obtain ⟨t, hrun', -, hwindow⟩ := run_report hzero
  rw [hrun.det hrun', hwindow] at hinf
  exact not_infinitePosition_report rfl hinf

/-- The tick after the report publishes. -/
theorem exists_tick_report {c : Consumer}
    (hrun : Run step reportInit (reportEvents (.num (.ofNat 0)) (.finite Double.zero)) c)
    (hdirty : c.dirty = true) (hwindow : c.window = reportWindow (.num (.ofNat 0))
      (.finite Double.zero)) :
    ∃ t state, step c .tick = some t ∧ t.hub.latest = some state ∧ t.window = c.window ∧
      t.dirty = false ∧ t.published = c.published + 1 := by
  have hzero := checkFloat_ofNat_zero
  have hfit : StampsFit (reportEvents (.num (.ofNat 0)) (.finite Double.zero)) :=
    fun topic payload hmem => stampsFit_reportTick hzero topic payload
      (List.mem_append_left _ hmem)
  obtain ⟨t, state, hstep, hlatest, hsame, hclean, hcount, -⟩ :=
    (consumerInv_of_run hrun).tick_publishes (stampNs_lt_of_run hrun hfit) hdirty
      (hwindow ▸ complete_report) (hwindow ▸ not_infinitePosition_report rfl)
  exact ⟨t, state, hstep, hlatest, hsame, hclean, hcount⟩

/-- The tick after the report publishes, and then the broadcast is up to date with the complete
window and stays so. -/
theorem broadcast_loses_nothing_report :
    ∃ c t, Run step reportInit (reportEvents (.num (.ofNat 0)) (.finite Double.zero)) c ∧
      step c .tick = some t ∧ t.published = c.published + 1 ∧ t.dirty = false ∧
      AcceptedSinceTick (reportEvents (.num (.ofNat 0)) (.finite Double.zero)) ∧
      c.window.Complete ∧ t.hub.latest ≠ none ∧
      buildState t.assetName t.window t.rmsWindowS = .ok t.hub.latest ∧
      ∀ e u, step t e = some u → u.hub.latest ≠ none := by
  obtain ⟨c, hrun, hdirty, hwindow⟩ := run_report checkFloat_ofNat_zero
  obtain ⟨t, state, hstep, -, hsame, hclean, hcount⟩ := exists_tick_report hrun hdirty hwindow
  obtain ⟨-, -, -, hpublishes⟩ := broadcast_loses_nothing hrun
  obtain ⟨hbuilt, hnone, hstays, -⟩ := broadcast_loses_nothing (hrun.snoc hstep)
  obtain ⟨haccepted, hcomplete⟩ := hpublishes t hstep (by omega)
  have hlatest : t.hub.latest ≠ none := by
    rw [Ne, hnone hclean, hsame, not_not]
    exact hcomplete
  exact ⟨c, t, hrun, hstep, hcount, hclean, haccepted, hcomplete, hlatest, hbuilt hclean,
    fun e u hu => hstays e u hu hlatest⟩

end platform

end TwinServices.State
