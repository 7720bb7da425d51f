import TwinServices.Contracts.Models
import TwinServices.Lib.Transition

/-!
# The ingestor of telemetry-svc

`Ingestor` owns the way from MQTT to InfluxDB. It is one task: a session opens, pings the database,
and takes its messages one after the other, and the write of an accepted one returns or raises
before the next message is taken. A run is a sequence of sessions, pings, messages, outcomes of
writes and broker losses.

* `toPoint`, `checkRecord`: when a message becomes a point.
* `step`, `step_cases`: the task.
* `IngestInv`, `ingestInv_of_run`: every message is counted once, by what became of it.
-/

set_option autoImplicit false

namespace TwinServices.Telemetry

open TwinServices.Python TwinServices.Contracts Lib.Transition Lib.Binary64

/-! ## The checks -/

/-- The label of the counter `REJECTED`.
Source: `ingest.py`, `REJECTED` -/
inductive Reason
  | topic
  | payload
deriving DecidableEq, Repr

/-- A record for InfluxDB.
Source: `ingest.py`, `_to_point` -/
structure Point where
  measurement : String
  asset : String
  joint : String
  metric : String
  value : Double
  time : ℕ
deriving DecidableEq

section checks

variable [Pydantic]

/-- One validated message as a point, or why it is rejected. Source: `ingest.py`, `_to_point` -/
def toPoint (topic : String) (payload : Payload) : Except Reason Point :=
  match parseTelemetryTopic topic with
  | .error _ => .error .topic
  | .ok (asset, joint, field) =>
      match JointTelemetry.modelValidateJson payload with
      | .error _ => .error .payload
      | .ok sample =>
          .ok ⟨"joint_telemetry", asset, joint, field.value, sample.value, sample.stampNs⟩

/-- The checks of the loop, in their order: the type of the payload comes first.
Source: `ingest.py`, `Ingestor._consume`, `_to_point` -/
def checkRecord (topic : String) : Payload → Except Reason Point
  | .other => .error .payload
  | payload => toPoint topic payload

/-- A point has the topic and the sample of its message. -/
theorem toPoint_ok_iff {topic : String} {payload : Payload} {point : Point} :
    toPoint topic payload = .ok point ↔ ∃ asset joint field sample,
      parseTelemetryTopic topic = .ok (asset, joint, field) ∧
      JointTelemetry.modelValidateJson payload = .ok sample ∧
      point = ⟨"joint_telemetry", asset, joint, field.value, sample.value, sample.stampNs⟩ := by
  unfold toPoint
  constructor
  · intro h
    split at h
    · cases h
    · rename_i asset joint field htopic
      split at h
      · cases h
      · rename_i sample hsample
        exact ⟨asset, joint, field, sample, htopic, hsample, (Except.ok.inj h).symm⟩
  · rintro ⟨asset, joint, field, sample, htopic, hsample, rfl⟩
    simp only [htopic, hsample]

/-- The order of the checks makes no difference to what is accepted: what is neither bytes nor text
does not validate either. -/
theorem checkRecord_ok_iff {topic : String} {payload : Payload} {point : Point} :
    checkRecord topic payload = .ok point ↔ toPoint topic payload = .ok point := by
  cases payload with
  | other =>
      constructor
      · intro h
        cases h
      · intro h
        obtain ⟨_, _, _, _, -, hsample, -⟩ := toPoint_ok_iff.mp h
        cases hsample
  | bytes b => rfl
  | str s => rfl

end checks

/-! ## The task -/

/-- Where the task is.
Source: `ingest.py`, `Ingestor.run`, `Ingestor._consume` -/
inductive Phase
  /-- Before a session, or waiting to open the next one. -/
  | disconnected
  /-- In `influx.ping()`. -/
  | pinging
  /-- Waiting for a message. -/
  | consuming
  /-- In `write_api.write`, of a point. -/
  | writing (point : Point)
deriving DecidableEq

/-- The ingestor and its counters, with the points that it passed to `write_api.write` and those
whose write returned, oldest first. That a write returned does not say that the point is in the
database. Source: `ingest.py`, `Ingestor` -/
structure Ingestor where
  mqttConnected : Bool
  influxOk : Bool
  phase : Phase
  messages : ℕ
  rejected : Reason → ℕ
  writeFailures : ℕ
  attempted : List Point
  written : List Point

/-- The ingestor before any session.
Source: `ingest.py`, `Ingestor.__init__` -/
def Ingestor.init : Ingestor where
  mqttConnected := false
  influxOk := false
  phase := .disconnected
  messages := 0
  rejected _ := 0
  writeFailures := 0
  attempted := []
  written := []

/-- What can happen to the ingestor.
Source: `ingest.py`, `Ingestor.run`, `Ingestor._consume` -/
inductive Event
  /-- A session opens. -/
  | connected
  /-- `influx.ping()` returns. -/
  | pinged (ok : Bool)
  | message (topic : String) (payload : Payload)
  /-- `write_api.write` returns. -/
  | writeReturned
  /-- `write_api.write` raises an `Exception`. -/
  | writeRaised
  /-- The session ends in an `MqttError`, or can not be opened. -/
  | mqttError

section steps

variable [Pydantic]

/-- One message: counted, and rejected or passed to the database.
Source: `ingest.py`, `Ingestor._consume` -/
def Ingestor.receive (s : Ingestor) (topic : String) (payload : Payload) : Ingestor :=
  let s := { s with messages := s.messages + 1 }
  match checkRecord topic payload with
  | .error reason =>
      { s with rejected := Function.update s.rejected reason (s.rejected reason + 1) }
  | .ok point => { s with phase := .writing point, attempted := s.attempted ++ [point] }

/-- One step; none where it cannot happen. Source: `ingest.py`, `Ingestor.run`,
`Ingestor._consume` -/
def step (s : Ingestor) : Event → Option Ingestor
  | .connected =>
      if s.phase = .disconnected then some { s with phase := .pinging, mqttConnected := true }
      else none
  | .pinged ok =>
      if s.phase = .pinging then some { s with phase := .consuming, influxOk := ok } else none
  | .message topic payload =>
      if s.phase = .consuming then some (s.receive topic payload) else none
  | .writeReturned =>
      match s.phase with
      | .writing point =>
          some { s with phase := .consuming, influxOk := true, written := s.written ++ [point] }
      | _ => none
  | .writeRaised =>
      match s.phase with
      | .writing _ =>
          some { s with
            phase := .consuming
            influxOk := false
            writeFailures := s.writeFailures + 1 }
      | _ => none
  | .mqttError =>
      if s.phase = .disconnected ∨ s.phase = .consuming then
        some { s with phase := .disconnected, mqttConnected := false }
      else none

/-! ## One step -/

/-- What each event changes, where it can happen. -/
theorem step_cases {s t : Ingestor} {e : Event} (h : step s e = some t) :
    (e = .connected ∧ s.phase = .disconnected ∧
      t = { s with phase := .pinging, mqttConnected := true }) ∨
    (∃ ok, e = .pinged ok ∧ s.phase = .pinging ∧
      t = { s with phase := .consuming, influxOk := ok }) ∨
    (∃ topic payload reason, e = .message topic payload ∧ s.phase = .consuming ∧
      checkRecord topic payload = .error reason ∧ t = { s with
        messages := s.messages + 1
        rejected := Function.update s.rejected reason (s.rejected reason + 1) }) ∨
    (∃ topic payload point, e = .message topic payload ∧ s.phase = .consuming ∧
      checkRecord topic payload = .ok point ∧ t = { s with
        messages := s.messages + 1
        phase := .writing point
        attempted := s.attempted ++ [point] }) ∨
    (∃ point, e = .writeReturned ∧ s.phase = .writing point ∧ t = { s with
      phase := .consuming, influxOk := true, written := s.written ++ [point] }) ∨
    (∃ point, e = .writeRaised ∧ s.phase = .writing point ∧ t = { s with
      phase := .consuming, influxOk := false, writeFailures := s.writeFailures + 1 }) ∨
    (e = .mqttError ∧ (s.phase = .disconnected ∨ s.phase = .consuming) ∧
      t = { s with phase := .disconnected, mqttConnected := false }) := by
  cases e with
  | connected =>
      simp only [step] at h
      split_ifs at h with hphase
      exact Or.inl ⟨rfl, hphase, (Option.some.inj h).symm⟩
  | pinged ok =>
      simp only [step] at h
      split_ifs at h with hphase
      exact Or.inr (Or.inl ⟨ok, rfl, hphase, (Option.some.inj h).symm⟩)
  | message topic payload =>
      simp only [step, Ingestor.receive] at h
      split_ifs at h with hphase
      rcases hcheck : checkRecord topic payload with reason | point
      · rw [hcheck] at h
        exact Or.inr (Or.inr (Or.inl ⟨topic, payload, reason, rfl, hphase, hcheck,
          (Option.some.inj h).symm⟩))
      · rw [hcheck] at h
        exact Or.inr (Or.inr (Or.inr (Or.inl ⟨topic, payload, point, rfl, hphase, hcheck,
          (Option.some.inj h).symm⟩)))
  | writeReturned =>
      simp only [step] at h
      split at h
      · rename_i point hphase
        exact Or.inr (Or.inr (Or.inr (Or.inr (Or.inl ⟨point, rfl, hphase,
          (Option.some.inj h).symm⟩))))
      · cases h
  | writeRaised =>
      simp only [step] at h
      split at h
      · rename_i point hphase
        exact Or.inr (Or.inr (Or.inr (Or.inr (Or.inr (Or.inl ⟨point, rfl, hphase,
          (Option.some.inj h).symm⟩)))))
      · cases h
  | mqttError =>
      simp only [step] at h
      split_ifs at h with hphase
      exact Or.inr (Or.inr (Or.inr (Or.inr (Or.inr (Or.inr ⟨rfl, hphase,
        (Option.some.inj h).symm⟩)))))

/-- An accepted message is passed to the database. -/
theorem step_accepted {s : Ingestor} {topic : String} {payload : Payload} {point : Point}
    (hphase : s.phase = .consuming) (hcheck : checkRecord topic payload = .ok point) :
    step s (.message topic payload) = some { s with
      messages := s.messages + 1
      phase := .writing point
      attempted := s.attempted ++ [point] } := by
  simp only [step, if_pos hphase, Ingestor.receive, hcheck]

/-- A message that is not accepted is counted by its reason. -/
theorem step_rejected {s : Ingestor} {topic : String} {payload : Payload} {reason : Reason}
    (hphase : s.phase = .consuming) (hcheck : checkRecord topic payload = .error reason) :
    step s (.message topic payload) = some { s with
      messages := s.messages + 1
      rejected := Function.update s.rejected reason (s.rejected reason + 1) } := by
  simp only [step, if_pos hphase, Ingestor.receive, hcheck]

/-! ## Every message is accounted for -/

/-- The point that a message is written as, if it is accepted. -/
def attempt : Event → Option Point
  | .message topic payload =>
      match checkRecord topic payload with
      | .ok point => some point
      | .error _ => none
  | _ => none

/-- The event is a message. -/
def isMessage : Event → Bool
  | .message .. => true
  | _ => false

/-- What an event says of the database. -/
def outcome : Event → Option Bool
  | .pinged ok => some ok
  | .writeReturned => some true
  | .writeRaised => some false
  | _ => none

/-- The points whose write is under way. -/
def Ingestor.inFlight (s : Ingestor) : List Point :=
  match s.phase with
  | .writing point => [point]
  | _ => []

/-- The ingestor over its history: a message that was counted was rejected, or its write failed,
returned or is under way; a write is attempted for the accepted messages only; and `_influx_ok` is
the last that was heard of the database. -/
structure IngestInv (l : List Event) (s : Ingestor) : Prop where
  messages : s.messages = l.countP isMessage
  counted : s.messages = s.rejected .topic + s.rejected .payload + s.writeFailures +
    s.written.length + s.inFlight.length
  attempted : s.attempted = l.filterMap attempt
  written : (s.written ++ s.inFlight).Sublist s.attempted
  influxOk : ∀ ok ∈ (l.filterMap outcome).getLast?, s.influxOk = ok

/-- An accepted message is a point to be written. -/
theorem attempt_message {topic : String} {payload : Payload} {point : Point}
    (h : checkRecord topic payload = .ok point) :
    attempt (.message topic payload) = some point := by
  simp only [attempt, h]

/-- A rejected one is none. -/
theorem attempt_rejected {topic : String} {payload : Payload} {reason : Reason}
    (h : checkRecord topic payload = .error reason) : attempt (.message topic payload) = none := by
  simp only [attempt, h]

/-- Only messages are written. -/
theorem exists_message_of_attempt {e : Event} {point : Point} (h : attempt e = some point) :
    ∃ topic payload, e = .message topic payload := by
  cases e with
  | message topic payload => exact ⟨topic, payload, rfl⟩
  | _ => cases h

/-- The point of a message has its topic and its sample. -/
theorem attempt_message_iff {topic : String} {payload : Payload} {point : Point} :
    attempt (.message topic payload) = some point ↔ ∃ asset joint field sample,
      parseTelemetryTopic topic = .ok (asset, joint, field) ∧
      JointTelemetry.modelValidateJson payload = .ok sample ∧
      point = ⟨"joint_telemetry", asset, joint, field.value, sample.value, sample.stampNs⟩ := by
  rw [← toPoint_ok_iff, ← checkRecord_ok_iff]
  constructor
  · intro h
    rcases hcheck : checkRecord topic payload with reason | point'
    · rw [attempt_rejected hcheck] at h
      cases h
    · rw [attempt_message hcheck] at h
      rw [Option.some.inj h]
  · exact attempt_message

/-- A new ingestor has counted nothing. -/
theorem ingestInv_init : IngestInv [] Ingestor.init where
  messages := rfl
  counted := rfl
  attempted := rfl
  written := .slnil
  influxOk ok hok := by cases hok

omit [Pydantic] in
/-- What is heard of the database is the last that was heard. -/
theorem influxOk_concat {l : List Event} {e : Event} {ok : Bool} (h : outcome e = some ok) :
    ∀ ok' ∈ ((l ++ [e]).filterMap outcome).getLast?, ok = ok' := by
  rw [List.filterMap_append, List.filterMap_cons_some h, List.filterMap_nil, List.getLast?_concat]
  rintro ok' ⟨⟩
  rfl

/-- A step that says nothing of the database. -/
theorem IngestInv.influxOk_silent {l : List Event} {s : Ingestor} {e : Event} (h : IngestInv l s)
    (he : outcome e = none) : ∀ ok ∈ ((l ++ [e]).filterMap outcome).getLast?, s.influxOk = ok := by
  rw [List.filterMap_append, List.filterMap_cons_none he, List.filterMap_nil, List.append_nil]
  exact h.influxOk

/-- A step that is no message. -/
theorem IngestInv.messages_silent {l : List Event} {s : Ingestor} {e : Event} (h : IngestInv l s)
    (he : isMessage e = false) : s.messages = (l ++ [e]).countP isMessage := by
  rw [List.countP_append, List.countP_singleton, he, h.messages]
  rfl

/-- A step that is a message. -/
theorem IngestInv.messages_message {l : List Event} {s : Ingestor} {e : Event} (h : IngestInv l s)
    (he : isMessage e = true) : s.messages + 1 = (l ++ [e]).countP isMessage := by
  rw [List.countP_append, List.countP_singleton, he, h.messages]
  rfl

/-- A step that attempts no write. -/
theorem IngestInv.attempted_silent {l : List Event} {s : Ingestor} {e : Event} (h : IngestInv l s)
    (he : attempt e = none) : s.attempted = (l ++ [e]).filterMap attempt := by
  rw [List.filterMap_append, List.filterMap_cons_none he, List.filterMap_nil, List.append_nil]
  exact h.attempted

/-- **One step keeps the invariant.** A message adds one to `MESSAGES` and one to what became of
it: a reason, or a write under way; and a write under way becomes a failure or a success. -/
theorem IngestInv.step {l : List Event} {s t : Ingestor} {e : Event} (h : IngestInv l s)
    (hstep : step s e = some t) : IngestInv (l ++ [e]) t := by
  have hcounted := h.counted
  have hwritten := h.written
  rcases step_cases hstep with ⟨rfl, hphase, rfl⟩ | ⟨ok, rfl, hphase, rfl⟩ |
    ⟨topic, payload, reason, rfl, hphase, hcheck, rfl⟩ |
    ⟨topic, payload, point, rfl, hphase, hcheck, rfl⟩ | ⟨point, rfl, hphase, rfl⟩ |
    ⟨point, rfl, hphase, rfl⟩ | ⟨rfl, hphase, rfl⟩
  · rw [Ingestor.inFlight, hphase] at hcounted hwritten
    exact ⟨h.messages_silent rfl, hcounted, h.attempted_silent rfl, hwritten,
      h.influxOk_silent rfl⟩
  · rw [Ingestor.inFlight, hphase] at hcounted hwritten
    exact ⟨h.messages_silent rfl, hcounted, h.attempted_silent rfl, hwritten, influxOk_concat rfl⟩
  · refine ⟨h.messages_message rfl, ?_, h.attempted_silent (attempt_rejected hcheck), hwritten,
      h.influxOk_silent rfl⟩
    have hsum : Function.update s.rejected reason (s.rejected reason + 1) .topic +
        Function.update s.rejected reason (s.rejected reason + 1) .payload =
          s.rejected .topic + s.rejected .payload + 1 := by
      cases reason with
      | topic =>
          rw [Function.update_self, Function.update_of_ne (by decide)]
          omega
      | payload =>
          rw [Function.update_self, Function.update_of_ne (by decide)]
          omega
    simp only [Ingestor.inFlight, hphase] at hcounted ⊢
    omega
  · rw [Ingestor.inFlight, hphase] at hcounted hwritten
    refine ⟨h.messages_message rfl, ?_, ?_, ?_, h.influxOk_silent rfl⟩
    · simp only [Ingestor.inFlight, List.length_nil, List.length_singleton] at hcounted ⊢
      omega
    · rw [List.filterMap_append, List.filterMap_cons_some (attempt_message hcheck),
        List.filterMap_nil, ← h.attempted]
    · rw [List.append_nil] at hwritten
      exact hwritten.append_right [point]
  · rw [Ingestor.inFlight, hphase] at hcounted hwritten
    refine ⟨h.messages_silent rfl, ?_, h.attempted_silent rfl, ?_, influxOk_concat rfl⟩
    · simp only [Ingestor.inFlight, List.length_append] at hcounted ⊢
      omega
    · simpa [Ingestor.inFlight] using hwritten
  · rw [Ingestor.inFlight, hphase] at hcounted hwritten
    refine ⟨h.messages_silent rfl, ?_, h.attempted_silent rfl, ?_, influxOk_concat rfl⟩
    · simp only [Ingestor.inFlight, List.length_nil, List.length_singleton] at hcounted ⊢
      omega
    · simp only [Ingestor.inFlight, List.append_nil]
      exact (List.sublist_append_left ..).trans hwritten
  · have hnone : s.inFlight = [] := by
      rcases hphase with hphase | hphase <;> rw [Ingestor.inFlight, hphase]
    rw [hnone] at hcounted hwritten
    exact ⟨h.messages_silent rfl, hcounted, h.attempted_silent rfl, hwritten,
      h.influxOk_silent rfl⟩

/-- The invariant holds after every run. -/
theorem ingestInv_of_run {l : List Event} {s : Ingestor} (h : Run Telemetry.step .init l s) :
    IngestInv l s :=
  h.history ingestInv_init fun _ _ _ _ _ hinv hstep => hinv.step hstep

end steps

end TwinServices.Telemetry
