import TwinServices.State.Consumer
import TwinServices.Telemetry.Ingest

/-!
# Every message is accounted for

The two consumers of telemetry are separate programs with their checks in different orders. Both
count every message once by what became of it, and on the same message state-svc folds a sample
exactly when telemetry-svc attempts a write and the joint is one of the arm.

* `messages_of_run`: the counters of state-svc.
* `folded_iff`: the two services agree on what is valid.
* `messages_accounted`: the counters of both, over all runs.
-/

set_option autoImplicit false

namespace TwinServices.System

open TwinServices.Python TwinServices.Contracts TwinServices.State Lib.Transition Lib.Binary64

section accounting

variable [CPython] [Pydantic]

/-! ## The counters of state-svc -/

/-- Only messages move the counters. -/
theorem counters_of_step {c t : Consumer} {e : Event} (h : step c e = some t)
    (he : ∀ topic payload, e ≠ .message topic payload) :
    t.messages = c.messages ∧ t.rejected = c.rejected := by
  cases e with
  | connected | disconnected | unsubscribe id =>
      obtain rfl := Option.some.inj h
      exact ⟨rfl, rfl⟩
  | message topic payload => exact absurd rfl (he topic payload)
  | tick =>
      simp only [step] at h
      split at h
      · rename_i t' htick
        obtain rfl := Option.some.inj h
        rcases tick_cases htick with ⟨-, rfl⟩ | ⟨-, -, rfl⟩ | ⟨-, -, -, -, -, rfl⟩ <;>
          exact ⟨rfl, rfl⟩
      · cases h
  | subscribe id =>
      simp only [step] at h
      split_ifs at h
      obtain rfl := Option.some.inj h
      exact ⟨rfl, rfl⟩
  | take id =>
      simp only [step, Option.map_eq_some_iff] at h
      obtain ⟨r, -, rfl⟩ := h
      exact ⟨rfl, rfl⟩

/-- The sum of the counter `REJECTED` over its reasons.
Source: `consumer.py`, `REJECTED`; `ingest.py`, `REJECTED` -/
def rejections (rejected : State.Reason → ℕ) : ℕ :=
  rejected .topic + rejected .joint + rejected .payload

omit [CPython] [Pydantic] in
/-- One more rejection of any reason is one more in all. -/
theorem rejections_update (rejected : State.Reason → ℕ) (reason : State.Reason) :
    rejections (Function.update rejected reason (rejected reason + 1)) =
      rejections rejected + 1 := by
  unfold rejections
  cases reason with
  | topic =>
      rw [Function.update_self, Function.update_of_ne (by decide),
        Function.update_of_ne (by decide)]
      omega
  | joint =>
      rw [Function.update_self, Function.update_of_ne (by decide),
        Function.update_of_ne (by decide)]
      omega
  | payload =>
      rw [Function.update_self, Function.update_of_ne (by decide),
        Function.update_of_ne (by decide)]
      omega

/-- The event is a message. -/
def isMessage : Event → Bool
  | .message .. => true
  | _ => false

/-- **state-svc counts every message once**: by its reason, or as a sample that was folded. -/
theorem messages_of_run {assetName : String} {rmsWindowS : Double} {windowNs : ℤ} {l : List Event}
    {c : Consumer} (h : Run step (Consumer.init assetName rmsWindowS windowNs) l c) :
    c.messages = l.countP isMessage ∧
      c.messages = rejections c.rejected + (l.filterMap folded).length := by
  refine h.history (I := fun l c => c.messages = l.countP isMessage ∧
    c.messages = rejections c.rejected + (l.filterMap folded).length) ⟨rfl, rfl⟩ ?_
  rintro l c e t _ ⟨hcount, ih⟩ hstep
  rw [List.filterMap_append, List.length_append, List.countP_append, List.countP_singleton,
    ← hcount]
  by_cases hmessage : ∃ topic payload, e = .message topic payload
  · obtain ⟨topic, payload, rfl⟩ := hmessage
    obtain rfl := Option.some.inj hstep
    rcases hcheck : checkMessage topic payload with reason | ⟨joint, field, sample⟩
    · have hnone : folded (.message topic payload) = none := by simp only [folded, hcheck]
      rw [observe_rejected hcheck, List.filterMap_cons_none hnone, rejections_update]
      simp only [List.filterMap_nil, List.length_nil]
      exact ⟨rfl, by omega⟩
    · rw [observe_accepted hcheck, List.filterMap_cons_some (folded_message hcheck)]
      simp only [List.filterMap_nil, List.length_singleton]
      exact ⟨rfl, by omega⟩
  · have hother : ∀ topic payload, e ≠ .message topic payload := fun topic payload he =>
      hmessage ⟨topic, payload, he⟩
    obtain ⟨hnone, hsilent⟩ : folded e = none ∧ isMessage e = false := by
      cases e with
      | message topic payload => exact absurd rfl (hother topic payload)
      | _ => exact ⟨rfl, rfl⟩
    obtain ⟨hmessages, hrejected⟩ := counters_of_step hstep hother
    rw [hmessages, hrejected, List.filterMap_cons_none hnone, hsilent]
    exact ⟨rfl, ih⟩

/-! ## One message in both services -/

omit [CPython] in
/-- **The services agree on what is valid**: state-svc folds a message exactly if telemetry-svc
writes it and its joint is one of the arm. -/
theorem folded_iff {topic : String} {payload : Payload} :
    (folded (.message topic payload)).isSome = true ↔
      ∃ point, Telemetry.attempt (.message topic payload) = some point ∧
        point.joint ∈ ur5JointNames := by
  constructor
  · intro h
    rcases hcheck : checkMessage topic payload with reason | ⟨joint, field, sample⟩
    · simp only [folded, hcheck] at h
      cases h
    · obtain ⟨⟨asset, htopic⟩, hjoint, hsample⟩ := checkMessage_ok hcheck
      exact ⟨_, Telemetry.attempt_message_iff.mpr
        ⟨asset, joint, field, sample, htopic, hsample, rfl⟩, hjoint⟩
  · rintro ⟨point, hattempt, hjoint⟩
    obtain ⟨asset, joint, field, sample, htopic, hsample, rfl⟩ :=
      Telemetry.attempt_message_iff.mp hattempt
    rw [folded_message (checkMessage_of_ok htopic hjoint hsample)]
    rfl

/-! ## All runs -/

/-- **Every message is accounted for exactly once in both consumers.** After every run of state-svc
the counter of messages is their number and the sum of the rejections and the samples folded into
the window, which are all of its joints, and a message that is not folded leaves the window and its
mark alone. After every run of telemetry-svc it is their number and the sum of the rejections, the
failed writes, the writes that returned and the one under way; the writes attempted are those of the
accepted messages; and `_influx_ok` is the outcome of the last ping or write. On the same message
the two agree.
Source: `consumer.py`, `Consumer._observe`; `ingest.py`, `Ingestor._consume`, `_to_point` -/
theorem messages_accounted {assetName : String} {rmsWindowS : Double} {windowNs : ℤ}
    {l : List Event} {c : Consumer} {l' : List Telemetry.Event} {s : Telemetry.Ingestor}
    (h : Run step (Consumer.init assetName rmsWindowS windowNs) l c)
    (h' : Run Telemetry.step .init l' s) :
    (c.messages = l.countP isMessage ∧
      c.messages = rejections c.rejected + (l.filterMap folded).length ∧
      c.window = (RollingWindow.new windowNs ur5JointNames).observeAll (l.filterMap folded) ∧
      (∀ o ∈ l.filterMap folded, o.joint ∈ ur5JointNames) ∧
      ∀ topic payload t, step c (.message topic payload) = some t →
        folded (.message topic payload) = none → t.window = c.window ∧ t.dirty = c.dirty) ∧
    (s.messages = l'.countP Telemetry.isMessage ∧
      s.messages = s.rejected .topic + s.rejected .payload + s.writeFailures + s.written.length +
        s.inFlight.length ∧
      s.attempted = l'.filterMap Telemetry.attempt ∧
      (s.written ++ s.inFlight).Sublist s.attempted ∧
      ∀ ok ∈ (l'.filterMap Telemetry.outcome).getLast?, s.influxOk = ok) ∧
    ∀ topic payload, (folded (.message topic payload)).isSome = true ↔
      ∃ point, Telemetry.attempt (.message topic payload) = some point ∧
        point.joint ∈ ur5JointNames := by
  have hinv := Telemetry.ingestInv_of_run h'
  obtain ⟨hcount, hmessages⟩ := messages_of_run h
  refine ⟨⟨hcount, hmessages, window_of_run h, fun o ho => ?_, ?_⟩,
    ⟨hinv.messages, hinv.counted, hinv.attempted, hinv.written, hinv.influxOk⟩,
    fun topic payload => folded_iff⟩
  · obtain ⟨e, -, he⟩ := List.mem_filterMap.mp ho
    exact joint_of_folded he
  · intro topic payload t hstep hnone
    obtain rfl := Option.some.inj hstep
    rcases hcheck : checkMessage topic payload with reason | ⟨joint, field, sample⟩
    · rw [observe_rejected hcheck]
      exact ⟨rfl, rfl⟩
    · rw [folded_message hcheck] at hnone
      cases hnone

end accounting

/-! ### Messages of every kind -/

section platform

attribute [local instance] CPython.series Pydantic.decimal

open Lib.Json

/-- A sample of the elbow, as a device of the first version sends it. -/
def elbowPayload : Payload :=
  .ofText (dumpJson (JointTelemetry.legacyMembers (.num (.ofNat 0)) 1))

/-- It is written as the position of whatever joint its topic names. -/
theorem checkRecord_elbowPayload {joint : String} (hjoint : IsLevel joint) :
    Telemetry.checkRecord (telemetryTopic "ur5" joint .position) elbowPayload =
      .ok ⟨"joint_telemetry", "ur5", joint, "position", .finite Double.zero, 1⟩ := by
  apply Telemetry.checkRecord_ok_iff.mpr
  apply Telemetry.toPoint_ok_iff.mpr
  refine ⟨"ur5", joint, .position, .new (.finite Double.zero) 1, ?_, ?_, rfl⟩
  · exact parseTelemetryTopic_telemetryTopic.mpr ⟨by decide, hjoint, rfl⟩
  · exact JointTelemetry.validate_legacy checkFloat_ofNat_zero 1

/-- The sample as a message. -/
def elbowTopic : String := telemetryTopic "ur5" "elbow_joint" .position

/-- The ingestor once the session waits for messages. -/
def consuming : Telemetry.Ingestor :=
  { Telemetry.Ingestor.init with phase := .consuming, mqttConnected := true, influxOk := true }

/-- The session is set up. -/
theorem run_consuming : Run Telemetry.step .init [.connected, .pinged true] consuming :=
  .of_exec rfl

/-- The topic of a joint that the arm does not have. -/
def gripperTopic : String := telemetryTopic "ur5" "gripper_joint" .position

/-- A sample of the elbow, a topic that is none of telemetry, a payload of another type and a sample
of a joint that the arm does not have. -/
def mixedMessages : List Event :=
  [.message elbowTopic elbowPayload, .message "status" elbowPayload, .message elbowTopic .other,
    .message gripperTopic elbowPayload]

/-- The same messages in telemetry-svc: the write of the first one fails. -/
def mixedSession : List Telemetry.Event :=
  [.connected, .pinged true] ++ [.message elbowTopic elbowPayload] ++ [.writeRaised] ++
    [.message "status" elbowPayload] ++ [.message elbowTopic .other] ++
    [.message gripperTopic elbowPayload] ++ [.writeReturned]

/-- state-svc takes the messages in and rejects three. -/
theorem run_mixedMessages :
    ∃ c, Run step reportInit mixedMessages c ∧ rejections c.rejected = 3 := by
  have helbow : checkMessage elbowTopic elbowPayload =
      .ok ("elbow_joint", .position, .new (.finite Double.zero) 1) :=
    checkMessage_telemetryTopic (by decide) (by decide) .position
      (JointTelemetry.validate_legacy checkFloat_ofNat_zero 1)
  have htopic : checkMessage "status" elbowPayload = .error .topic := rfl
  have hpayload : checkMessage elbowTopic .other = .error .payload := rfl
  have hjoint : checkMessage gripperTopic elbowPayload = .error .joint := rfl
  have hrun : Run step reportInit mixedMessages
      ((((reportInit.observe elbowTopic elbowPayload).observe "status" elbowPayload).observe
        elbowTopic .other).observe gripperTopic elbowPayload) :=
    (((Run.nil.snoc rfl).snoc rfl).snoc rfl).snoc rfl
  refine ⟨_, hrun, ?_⟩
  rw [observe_rejected hjoint, rejections_update, observe_rejected hpayload, rejections_update,
    observe_rejected htopic, rejections_update, observe_accepted helbow]
  rfl

/-- telemetry-svc takes them in, and one of its two writes fails. -/
theorem run_mixedSession : ∃ s, Run Telemetry.step .init mixedSession s ∧
    s.rejected .topic = 1 ∧ s.rejected .payload = 1 ∧ s.writeFailures = 1 ∧
    s.written.length = 1 := by
  have helbow : Telemetry.checkRecord elbowTopic elbowPayload = .ok _ :=
    checkRecord_elbowPayload (by decide)
  have hgripper : Telemetry.checkRecord gripperTopic elbowPayload = .ok _ :=
    checkRecord_elbowPayload (by decide)
  have htopic : Telemetry.checkRecord "status" elbowPayload = .error .topic := rfl
  have hpayload : Telemetry.checkRecord elbowTopic .other = .error .payload := rfl
  have hfailed := (run_consuming.snoc (Telemetry.step_accepted rfl helbow)).snoc
    (a := .writeRaised) rfl
  have hrejected := (hfailed.snoc (Telemetry.step_rejected rfl htopic)).snoc
    (Telemetry.step_rejected rfl hpayload)
  have hwritten := (hrejected.snoc (Telemetry.step_accepted rfl hgripper)).snoc
    (a := .writeReturned) rfl
  exact ⟨_, hwritten, rfl, rfl, rfl, rfl⟩

/-- Four messages: state-svc rejects three of them, telemetry-svc two. -/
theorem messages_accounted_mixed :
    ∃ c s, Run step reportInit mixedMessages c ∧ Run Telemetry.step .init mixedSession s ∧
      c.messages = 4 ∧ rejections c.rejected = 3 ∧ (mixedMessages.filterMap folded).length = 1 ∧
      s.messages = 4 ∧ s.rejected .topic = 1 ∧ s.rejected .payload = 1 ∧ s.writeFailures = 1 ∧
      s.written.length = 1 ∧ s.influxOk = true := by
  obtain ⟨c, hstate, hrejections⟩ := run_mixedMessages
  obtain ⟨s, hrun, htopic, hpayload, hfailures, hwritten⟩ := run_mixedSession
  obtain ⟨⟨hcount, hmessages, -⟩, ⟨hcount', -, -, -, hinflux⟩, -⟩ :=
    messages_accounted hstate hrun
  have hfour : mixedMessages.countP isMessage = 4 := rfl
  have hfour' : mixedSession.countP Telemetry.isMessage = 4 := rfl
  have hlast : (mixedSession.filterMap Telemetry.outcome).getLast? = some true := rfl
  exact ⟨c, s, hstate, hrun, hcount.trans hfour, hrejections, by omega, hcount'.trans hfour',
    htopic, hpayload, hfailures, hwritten, hinflux true hlast⟩

end platform

end TwinServices.System
