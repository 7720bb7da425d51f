import TwinServices.State.Service
import TwinServices.System.Accounting

/-!
# The store and the twin

telemetry-svc writes points, state-svc keeps a window, and neither knows of the other. What they
make of the same messages belongs together: the points say all that the window is made of. The
database holds all that the points say only where their values are finite: for another value the
client sends nothing, and the write returns.

* `observationOf`, `rebuild`: the points, read back in their order; `lines`: those that were sent.
* `observation_attempt`: one message in both services.
* `store_rebuilds_twin`: over all runs, the window and the published state are those of the points.
-/

set_option autoImplicit false

namespace TwinServices.System

open TwinServices.Python TwinServices.Contracts TwinServices.State Lib.Transition Lib.Binary64

/-! ## Reading the store -/

/-- The field that the tag `metric` names. -/
def fieldOfMetric (metric : String) : Option JointField :=
  JointField.members.find? fun field => field.value = metric

/-- The metric of a point tells the field. -/
@[simp] theorem fieldOfMetric_value (field : JointField) :
    fieldOfMetric field.value = some field := by
  cases field <;> rfl

/-- The sample that a point holds, where its joint is one of the arm. -/
def observationOf (point : Telemetry.Point) : Option (RollingWindow.Observation Double) := do
  let field ← fieldOfMetric point.metric
  if point.joint ∈ ur5JointNames then some ⟨point.joint, field, .new point.value point.time⟩
  else none

/-- The points that the client sent to the database in the writes that returned, oldest first. It
leaves out a field whose value is not finite, and a record without fields is no line. -/
def lines (s : Telemetry.Ingestor) : List Telemetry.Point :=
  s.written.filter fun point => point.value.isFinite

/-- The window that the points make, in the order in which they were written. -/
def rebuild (windowNs : ℤ) (points : List Telemetry.Point) : RollingWindow Double :=
  (RollingWindow.new windowNs ur5JointNames).observeAll (points.filterMap observationOf)

/-- The sample without its version, which points do not hold. -/
def unversioned (o : RollingWindow.Observation Double) : RollingWindow.Observation Double :=
  ⟨o.joint, o.field, .new o.sample.value o.sample.stampNs⟩

/-- The window does not hold it either. -/
theorem observeAll_unversioned (w : RollingWindow Double)
    (obs : List (RollingWindow.Observation Double)) :
    w.observeAll (obs.map unversioned) = w.observeAll obs := by
  unfold RollingWindow.observeAll
  rw [List.foldl_map]
  rfl

/-! ## One message in both services -/

section store

variable [Pydantic]

/-- The messages among the events of state-svc and of telemetry-svc. -/
def takenByState : State.Event → Option (String × Payload)
  | .message topic payload => some (topic, payload)
  | _ => none

/-- The message that telemetry-svc takes in with an event. -/
def takenByTelemetry : Telemetry.Event → Option (String × Payload)
  | .message topic payload => some (topic, payload)
  | _ => none

/-- **The point of a message holds the sample that state-svc folds**, and none where it folds
none. -/
theorem observation_attempt (topic : String) (payload : Payload) :
    (Telemetry.attempt (.message topic payload)).bind observationOf =
      (folded (.message topic payload)).map unversioned := by
  rcases hpoint : Telemetry.attempt (.message topic payload) with _ | point
  · have hnone : folded (.message topic payload) = none := by
      rcases hcheck : checkMessage topic payload with reason' | ⟨joint, field, sample⟩
      · simp only [folded, hcheck]
      · obtain ⟨⟨asset, htopic⟩, -, hsample⟩ := checkMessage_ok hcheck
        have hsome := Telemetry.attempt_message_iff.mpr
          ⟨asset, joint, field, sample, htopic, hsample, rfl⟩
        rw [hpoint] at hsome
        cases hsome
    rw [hnone]
    rfl
  · obtain ⟨asset, joint, field, sample, htopic, hsample, rfl⟩ :=
      Telemetry.attempt_message_iff.mp hpoint
    rw [Option.bind_some]
    by_cases hjoint : joint ∈ ur5JointNames
    · rw [folded_message (checkMessage_of_ok htopic hjoint hsample)]
      simp [observationOf, hjoint, unversioned]
    · have hnone : folded (.message topic payload) = none := by
        rcases hcheck : checkMessage topic payload with reason | ⟨joint', field', sample'⟩
        · simp only [folded, hcheck]
        · obtain ⟨⟨asset', htopic'⟩, hjoint', -⟩ := checkMessage_ok hcheck
          obtain ⟨-, rfl, -⟩ : asset = asset' ∧ joint = joint' ∧ field = field' := by
            simpa [htopic] using htopic'
          exact absurd hjoint' hjoint
      rw [hnone]
      simp [observationOf, hjoint]

/-- So the points of the same messages hold the samples that were folded. -/
theorem observations_of_same {l : List State.Event} {l' : List Telemetry.Event}
    (hsame : l.filterMap takenByState = l'.filterMap takenByTelemetry) :
    (l'.filterMap Telemetry.attempt).filterMap observationOf =
      (l.filterMap folded).map unversioned := by
  have hattempt : l'.filterMap Telemetry.attempt = (l'.filterMap takenByTelemetry).filterMap
      fun m => Telemetry.attempt (.message m.1 m.2) := by
    rw [List.filterMap_filterMap]
    refine List.filterMap_congr fun e _ => ?_
    cases e <;> rfl
  have hfolded : l.filterMap folded = (l.filterMap takenByState).filterMap
      fun m => folded (.message m.1 m.2) := by
    rw [List.filterMap_filterMap]
    refine List.filterMap_congr fun e _ => ?_
    cases e <;> rfl
  rw [hattempt, hfolded, hsame, List.filterMap_filterMap, List.map_filterMap]
  exact List.filterMap_congr fun m _ => observation_attempt m.1 m.2

/-! ## All runs -/

/-- Every write that was attempted returned, failed or is under way. -/
theorem attempted_length {l : List Telemetry.Event} {s : Telemetry.Ingestor}
    (h : Run Telemetry.step .init l s) :
    s.attempted.length = s.written.length + s.writeFailures + s.inFlight.length := by
  apply h.invariant (I := fun s =>
    s.attempted.length = s.written.length + s.writeFailures + s.inFlight.length) rfl
  intro s e t ih hstep
  rcases Telemetry.step_cases hstep with ⟨-, hphase, rfl⟩ | ⟨ok, -, hphase, rfl⟩ |
    ⟨topic, payload, reason, -, hphase, -, rfl⟩ | ⟨topic, payload, point, -, hphase, -, rfl⟩ |
    ⟨point, -, hphase, rfl⟩ | ⟨point, -, hphase, rfl⟩ | ⟨-, hphase, rfl⟩
  · rwa [Telemetry.Ingestor.inFlight, hphase] at ih
  · rwa [Telemetry.Ingestor.inFlight, hphase] at ih
  · exact ih
  · rw [Telemetry.Ingestor.inFlight, hphase] at ih
    simp only [Telemetry.Ingestor.inFlight, List.length_append, List.length_singleton,
      List.length_nil] at ih ⊢
    omega
  · rw [Telemetry.Ingestor.inFlight, hphase] at ih
    simp only [Telemetry.Ingestor.inFlight, List.length_append, List.length_singleton,
      List.length_nil] at ih ⊢
    omega
  · rw [Telemetry.Ingestor.inFlight, hphase] at ih
    simp only [Telemetry.Ingestor.inFlight, List.length_singleton, List.length_nil] at ih ⊢
    omega
  · have hidle : s.inFlight = [] := by
      rcases hphase with hphase | hphase <;> rw [Telemetry.Ingestor.inFlight, hphase]
    rwa [hidle] at ih

/-- Where no write failed and none is under way, every point was written. -/
theorem written_of_run {l : List Telemetry.Event} {s : Telemetry.Ingestor}
    (h : Run Telemetry.step .init l s) (hfailures : s.writeFailures = 0) (hidle : s.inFlight = []) :
    s.written = s.attempted := by
  have hsub := (Telemetry.ingestInv_of_run h).written
  have hlen := attempted_length h
  rw [hidle, List.append_nil] at hsub
  rw [hfailures, hidle] at hlen
  exact hsub.eq_of_length hlen.symm

variable [CPython]

/-- **The store rebuilds the twin.** After every run of state-svc and every run of telemetry-svc
that took in the same messages in the same order, among whatever else happened to them: the window
of state-svc is the one that the points of telemetry-svc make, read back in their order; the writes
of these points all returned unless one failed or is under way, and then the database was sent all
of them exactly when all their values are finite, so that what it was sent makes the window; and
while state-svc has nothing left to broadcast, the state that it answers with is the one built of
the points.
Source: `consumer.py`, `Consumer._observe`; `window.py`, `RollingWindow.observe`; `ingest.py`,
`_to_point`, `Ingestor._consume`; `grpc_server.py`, `build_state` -/
theorem store_rebuilds_twin {assetName : String} {rmsWindowS : Double} {windowNs : ℤ}
    {l : List State.Event} {c : Consumer} {l' : List Telemetry.Event} {s : Telemetry.Ingestor}
    (h : Run State.step (Consumer.init assetName rmsWindowS windowNs) l c)
    (h' : Run Telemetry.step .init l' s)
    (hsame : l.filterMap takenByState = l'.filterMap takenByTelemetry) :
    c.window = rebuild windowNs s.attempted ∧
    (s.writeFailures = 0 → s.inFlight = [] → s.written = s.attempted ∧
      (lines s = s.attempted ↔ ∀ point ∈ s.attempted, point.value.isFinite = true) ∧
      ((∀ point ∈ s.attempted, point.value.isFinite = true) →
        c.window = rebuild windowNs (lines s))) ∧
    (c.dirty = false →
      buildState c.assetName (rebuild windowNs s.attempted) c.rmsWindowS = .ok c.hub.latest) := by
  have hwindow : c.window = rebuild windowNs s.attempted := by
    rw [window_of_run h, rebuild, (Telemetry.ingestInv_of_run h').attempted,
      observations_of_same hsame, observeAll_unversioned]
  refine ⟨hwindow, fun hfailures hidle => ?_, fun hclean => ?_⟩
  · have hwritten := written_of_run h' hfailures hidle
    have hlines : lines s = s.attempted ↔ ∀ point ∈ s.attempted, point.value.isFinite = true := by
      rw [lines, hwritten, List.filter_eq_self]
    refine ⟨hwritten, hlines, fun hfinite => ?_⟩
    rw [hlines.mpr hfinite, hwindow]
  · rw [← hwindow]
    exact (consumerInv_of_run h).upToDate hclean

end store

/-! ### The store of a report -/

section platform

attribute [local instance] CPython.series Pydantic.decimal

/-- A message in telemetry-svc, whose write returns. -/
def writes : State.Event → List Telemetry.Event
  | .message topic payload => [.message topic payload, .writeReturned]
  | _ => []

/-- The session takes in what state-svc does. -/
theorem taken_writes (m : List State.Event) :
    (m.flatMap writes).filterMap takenByTelemetry = m.filterMap takenByState := by
  induction m with
  | nil => rfl
  | cons e m ih =>
      rw [List.flatMap_cons, List.filterMap_append, ih]
      cases e <;> rfl

/-- Messages that state-svc accepts are written one after the other. -/
theorem run_writes {m : List State.Event} (hm : ∀ e ∈ m, (folded e).isSome = true)
    {s : Telemetry.Ingestor} (hphase : s.phase = .consuming) :
    ∃ t, Run Telemetry.step s (m.flatMap writes) t ∧ t.phase = .consuming ∧
      t.writeFailures = s.writeFailures ∧ t.written.length = s.written.length + m.length := by
  induction m generalizing s with
  | nil => exact ⟨s, .nil, hphase, rfl, rfl⟩
  | cons e m ih =>
      obtain ⟨hfolded, hrest⟩ := List.forall_mem_cons.mp hm
      cases e with
      | message topic payload =>
          obtain ⟨point, hattempt, -⟩ := folded_iff.mp hfolded
          rcases hcheck : Telemetry.checkRecord topic payload with reason | point'
          · rw [Telemetry.attempt_rejected hcheck] at hattempt
            cases hattempt
          · have hfirst : Run Telemetry.step s [.message topic payload, .writeReturned] _ :=
              (Run.nil.snoc (Telemetry.step_accepted hphase hcheck)).snoc rfl
            obtain ⟨t, hrun, hconsuming, hfailures, hlength⟩ := ih hrest (s := { s with
              messages := s.messages + 1
              phase := .consuming
              influxOk := true
              attempted := s.attempted ++ [point']
              written := s.written ++ [point'] }) rfl
            refine ⟨t, hfirst.append hrun, hconsuming, hfailures, hlength.trans ?_⟩
            simp only [List.length_append, List.length_cons, List.length_nil]
            omega
      | _ => cases hfolded

/-- telemetry-svc writes the report of the arm at zero. -/
def reportWritten : List Telemetry.Event :=
  [.connected, .pinged true] ++ zeroReport.flatMap writes

/-- All points of the session have finite values. -/
theorem finite_reportWritten {point : Telemetry.Point}
    (h : point ∈ reportWritten.filterMap Telemetry.attempt) : point.value.isFinite = true := by
  obtain ⟨e, he, hattempt⟩ := List.mem_filterMap.mp h
  obtain ⟨topic, payload, rfl⟩ := Telemetry.exists_message_of_attempt hattempt
  have hmessage : (topic, payload) ∈ reportWritten.filterMap takenByTelemetry :=
    List.mem_filterMap.mpr ⟨_, he, rfl⟩
  have hreport : (topic, payload) ∈ zeroReport.filterMap takenByState := by
    rw [← taken_writes]
    simpa [reportWritten, takenByTelemetry] using hmessage
  obtain ⟨e', he', htaken⟩ := List.mem_filterMap.mp hreport
  obtain rfl : e' = .message topic payload := by
    cases e' with
    | message topic' payload' =>
        obtain ⟨rfl, rfl⟩ : topic' = topic ∧ payload' = payload := by
          simpa [takenByState] using htaken
        rfl
    | _ => cases htaken
  obtain ⟨d, hd, heq⟩ := List.mem_map.mp he'
  have hsame := observation_attempt topic payload
  rw [hattempt, ← heq, folded_report checkFloat_ofNat_zero d hd] at hsame
  have hvalue : point.value = d.2.sample.value := by
    simp only [Option.bind_some, Option.map_some, observationOf, unversioned] at hsame
    obtain ⟨field, -, hsome⟩ := Option.bind_eq_some_iff.mp hsame
    split_ifs at hsome
    exact congrArg (fun o => o.sample.value) (Option.some.inj hsome)
  rw [hvalue]
  rcases (mem_report hd).2 with hzero | hzero <;> rw [hzero] <;> rfl

/-- The report of the arm, and a tick of state-svc: the state that it then answers with is the one
built of what the database was sent. -/
theorem store_rebuilds_twin_report :
    ∃ c s state, Run State.step reportInit (zeroReport ++ [.tick]) c ∧
      Run Telemetry.step .init reportWritten s ∧ (lines s).length = 18 ∧
      c.window = rebuild 2000000000 (lines s) ∧ c.hub.latest = some state ∧
      buildState c.assetName (rebuild 2000000000 (lines s)) c.rmsWindowS = .ok (some state) := by
  have haccepted := isSome_folded_report checkFloat_ofNat_zero
  obtain ⟨c, hrun, hdirty, hwindow⟩ := run_report checkFloat_ofNat_zero
  obtain ⟨t, state, htick, hlatest, -, hclean, -⟩ := exists_tick_report hrun hdirty hwindow
  obtain ⟨s, hwrites, hphase, hfailures, hlength⟩ :=
    run_writes (s := consuming) haccepted rfl
  have hwritten : Run Telemetry.step .init reportWritten s := run_consuming.append hwrites
  have htaken : (zeroReport ++ [State.Event.tick]).filterMap takenByState =
      reportWritten.filterMap takenByTelemetry := by
    rw [reportWritten, List.filterMap_append, List.filterMap_append, taken_writes]
    exact List.append_nil _
  have hidle : s.inFlight = [] := by rw [Telemetry.Ingestor.inFlight, hphase]
  obtain ⟨-, hreturned, hbuilt⟩ := store_rebuilds_twin (hrun.snoc htick) hwritten htaken
  obtain ⟨hall, hlines, hrebuilt⟩ := hreturned hfailures hidle
  have hfinite : ∀ point ∈ s.attempted, point.value.isFinite = true := by
    rw [(Telemetry.ingestInv_of_run hwritten).attempted]
    exact fun point => finite_reportWritten
  have heighteen : (lines s).length = 18 := by
    rw [hlines.mpr hfinite, ← hall, hlength]
    simp [consuming, Telemetry.Ingestor.init, reportEvents, report, ur5JointNames,
      JointField.members]
  have hstate := hbuilt hclean
  rw [← hlines.mpr hfinite, hlatest] at hstate
  exact ⟨t, s, state, hrun.snoc htick, hwritten, heighteen, hrebuilt hfinite, hlatest, hstate⟩

end platform

end TwinServices.System
