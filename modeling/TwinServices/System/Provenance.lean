import TwinServices.Bridge.Trajectory
import TwinServices.System.Fleet
import TwinServices.System.Shown

/-!
# Where states and motions come from

What the services of an asset hold goes back to what its own robot reported, and what its robot is
told to do goes back to what was posted to its own command-svc, over any run of the fleet.

* `Reports`, `MadeOf`: a value that ROS reported, and a state made of such values.
* `telemetry_provenance`: the samples and states of state-svc, what its clients get and the points
  of telemetry-svc are made of what ROS reported to the bridge of the asset.
* `command_provenance`: the commands that the ROS node gets were posted to the command-svc of the
  asset, and a command that was answered with 202 can be handed over as it was posted.
* `run_bridge`, `run_view`: what a bridge does by itself, and what state-svc and viz-svc do with
  messages that were sent, they do in the fleet.
-/

set_option autoImplicit false

namespace TwinServices.System

open TwinServices.Python TwinServices.Contracts TwinServices.Bridge TwinServices.Viz
open Lib.Transition Lib.Binary64 Lib.TopicFilter Lib.Network

/-! ## Telemetry -/

/-- One of the joint states, with the stamp, gives the field of the joint the value. -/
def Reports (msgs : List (JointStateMessage Double)) (joint : String) (field : JointField)
    (x : Double) (stampNs : ℕ) : Prop :=
  ∃ msg ∈ msgs, msg.stampNs = stampNs ∧ ∃ entry ∈ msg.entries, entry.1 = joint ∧
    entryValue entry field = x

/-- The stamp and every value of the state were reported. -/
def MadeOf (msgs : List (JointStateMessage Double)) (state : State.TwinState Double) : Prop :=
  (∃ msg ∈ msgs, msg.stampNs = state.stampNs) ∧
    ∀ joint ∈ state.joints, ∀ field, ∃ stampNs,
      Reports msgs joint.name field (stateValue joint field) stampNs

section provenance

variable [CPython] [Pydantic] [FloatRepr] {rmsWindowS : Double} {windowNs : ℤ}

omit [FloatRepr] in
/-- A state of state-svc is made of what it accepted. -/
theorem madeOf_of_build {asset : AssetName} {l : List State.ServiceEvent} {s : State.Service}
    (h : Run State.serviceStep (.init asset.val rmsWindowS windowNs) l s)
    {state : State.TwinState Double}
    (hbuild : State.buildState s.consumer.assetName s.consumer.window s.consumer.rmsWindowS =
      .ok (some state)) {msgs : List (JointStateMessage Double)}
    (hmsgs : ∀ o ∈ l.filterMap State.accepted,
      Reports msgs o.joint o.field o.sample.value o.sample.stampNs) : MadeOf msgs state := by
  have hinv := State.serviceInv_of_run h
  obtain ⟨⟨o, ho, hstamp⟩, -⟩ := State.isMaxStamp_of_build hinv hbuild
  constructor
  · obtain ⟨msg, hmsg, heq, -⟩ := hmsgs o ho
    exact ⟨msg, hmsg, heq.trans hstamp⟩
  · obtain ⟨snaps, pose, hsnap, -, -, rfl⟩ := State.buildState_some hbuild
    intro joint hjoint field
    obtain ⟨snap, hsnap', rfl⟩ := List.mem_map.mp hjoint
    obtain ⟨hmem, hentry⟩ := State.RollingWindow.entryOf_of_mem hsnap hsnap'
    have hlatest := latest_of_entryOf hentry field
    rw [hinv.window] at hmem hlatest
    rw [State.RollingWindow.observeAll_joints] at hmem
    obtain ⟨o, ho, hname, rfl, hvalue⟩ :=
      State.RollingWindow.exists_observation_of_latest hmem rfl hlatest
    refine ⟨o.sample.stampNs, ?_⟩
    have hreports := hmsgs o ho
    rwa [hname, hvalue] at hreports

variable {l : List (AssetName × DeploymentEvent)}
  {net : Net AssetName Deployment (String × Payload)}

/-- What the two services that store telemetry take in is a sample of what ROS reported. -/
theorem sample_of_received
    (h : Run (fleet rmsWindowS windowNs).netStep (fleet rmsWindowS windowNs).netInit l net)
    {asset : AssetName} {e : DeploymentEvent} (he : e ∈ l.filterMap (Sites.own asset)) {c : Client}
    {topic : String} {payload : Payload} (hreceives : receives e = some (c, topic, payload))
    (hc : c ≠ .commandWorker) :
    ∃ msg ∈ Async.reported ((l.filterMap (Sites.own asset)).filterMap bridgeEvent),
      ∃ entry ∈ msg.entries, ∃ field, topic = telemetryTopic asset.val entry.1 field ∧
        payload = .ofText
          (JointTelemetry.new (entryValue entry field) msg.stampNs).modelDumpJson := by
  obtain ⟨hsubscribed, sender, hsent⟩ := Sites.sent_of_received h he hreceives
  obtain ⟨rfl, hcommand⟩ := sender_of_subscribed hsubscribed hsent
  rcases sentBy_cases hsent with ⟨msg, hmsg, p, hp, heq⟩ | ⟨n, command, -, heq⟩
  · obtain ⟨q, hq, rfl⟩ := List.mem_map.mp hp
    obtain ⟨-, entry, hentry, field, rfl⟩ := mem_samples.mp hq
    obtain ⟨rfl, rfl⟩ := Prod.mk.inj heq
    exact ⟨msg, hmsg, entry, hentry, field, rfl, rfl⟩
  · obtain ⟨rfl, rfl⟩ := Prod.mk.inj heq
    exact absurd (hcommand.mpr rfl) hc

/-- The steps of the state-svc of an asset in a run of the fleet. -/
def stateEvents (asset : AssetName) (l : List (AssetName × DeploymentEvent)) :
    List State.ServiceEvent :=
  ((l.filterMap (Sites.own asset)).filterMap viewEvent).filterMap (serviceEvent asset.val)

/-- The joint states that ROS reported to the bridge of an asset. -/
def reportedTo (asset : AssetName) (l : List (AssetName × DeploymentEvent)) :
    List (JointStateMessage Double) :=
  Async.reported ((l.filterMap (Sites.own asset)).filterMap bridgeEvent)

/-- The samples that state-svc accepts were reported. -/
theorem reports_of_accepted
    (h : Run (fleet rmsWindowS windowNs).netStep (fleet rmsWindowS windowNs).netInit l net)
    (asset : AssetName) : ∀ o ∈ (stateEvents asset l).filterMap State.accepted,
      Reports (reportedTo asset l) o.joint o.field o.sample.value o.sample.stampNs := by
  intro o ho
  obtain ⟨b, hb, haccepted⟩ := List.mem_filterMap.mp ho
  obtain ⟨v, hv, hservice⟩ := List.mem_filterMap.mp hb
  obtain ⟨e, he, hlabel⟩ := List.mem_filterMap.mp hv
  obtain ⟨topic, payload, rfl⟩ : ∃ topic payload, b = .message topic payload := by
    cases b with
    | message topic payload => exact ⟨topic, payload, rfl⟩
    | _ => cases haccepted
  obtain rfl : v = .service (.message topic payload) := by
    cases v with
    | service v => exact congrArg _ (Option.some.inj hservice)
    | call i id => cases hservice
    | _ => cases hservice
  obtain rfl : e = .view (.service (.message topic payload)) := by
    cases e with
    | view e => exact congrArg _ (Option.some.inj hlabel)
    | _ => cases hlabel
  obtain ⟨msg, hmsg, entry, hentry, field, rfl, rfl⟩ := sample_of_received h he rfl (by simp)
  obtain ⟨-, -, -, rfl⟩ := readBack_telemetryTopic_iff.mp haccepted
  exact ⟨msg, hmsg, rfl, entry, hentry, rfl, rfl⟩

/-- The points that telemetry-svc writes were reported. -/
theorem reports_of_point
    (h : Run (fleet rmsWindowS windowNs).netStep (fleet rmsWindowS windowNs).netInit l net)
    {asset : AssetName} {point : Telemetry.Point}
    (hpoint : point ∈ (net.site asset).telemetry.attempted) : point.asset = asset.val ∧
      ∃ field, point.metric = field.value ∧
        Reports (reportedTo asset l) point.joint field point.value point.time := by
  have hparties := partyRuns_of_run (Sites.run_site h asset)
  rw [(Telemetry.ingestInv_of_run hparties.telemetry).attempted] at hpoint
  obtain ⟨b, hb, hattempt⟩ := List.mem_filterMap.mp hpoint
  obtain ⟨e, he, hlabel⟩ := List.mem_filterMap.mp hb
  obtain ⟨topic, payload, rfl⟩ := Telemetry.exists_message_of_attempt hattempt
  obtain rfl : e = .telemetry (.message topic payload) := by
    cases e with
    | telemetry e => exact congrArg _ (Option.some.inj hlabel)
    | _ => cases hlabel
  obtain ⟨msg, hmsg, entry, hentry, field, rfl, rfl⟩ := sample_of_received h he rfl (by simp)
  obtain ⟨asset', joint, field', sample, hparse, hsample, rfl⟩ :=
    Telemetry.attempt_message_iff.mp hattempt
  obtain ⟨-, -, heq⟩ := parseTelemetryTopic_telemetryTopic.mp hparse
  obtain ⟨rfl, rfl, rfl⟩ : asset' = asset.val ∧ joint = entry.1 ∧ field' = field := by
    simpa using heq
  obtain ⟨rfl, -⟩ := JointTelemetry.eq_of_roundTrip hsample
  exact ⟨rfl, field', rfl, msg, hmsg, rfl, entry, hentry, rfl, rfl⟩

/-- The states that state-svc builds are made of what was reported. -/
theorem madeOf_of_builtIn
    (h : Run (fleet rmsWindowS windowNs).netStep (fleet rmsWindowS windowNs).netInit l net)
    {asset : AssetName} {state : State.TwinState Double}
    (hbuilt : State.BuiltIn (.init asset.val rmsWindowS windowNs) (stateEvents asset l) state) :
    MadeOf (reportedTo asset l) state := by
  obtain ⟨before, s, hp, hrun, hbuild⟩ := hbuilt
  refine madeOf_of_build hrun hbuild fun o ho => reports_of_accepted h asset o ?_
  exact (((List.prefix_append ..).trans hp).filterMap _).subset ho

/-- **Where telemetry comes from.** After every run of any number of deployments, for every asset:
each sample that its state-svc accepted was reported by ROS to its own bridge, for that joint, field
and stamp; the state that `GetState` answers, and every state that a call of `StreamState` yielded,
has a reported stamp and only reported values, for the joints they were reported for; and each point
that its telemetry-svc writes carries its name and a value that was reported for that joint, field
and stamp. Source: `main.py`, `publish_joint_states`; `consumer.py`, `Consumer._observe`;
`grpc_server.py`, `build_state`, `StateServicer`; `ingest.py`, `_to_point` -/
theorem telemetry_provenance
    (h : Run (fleet rmsWindowS windowNs).netStep (fleet rmsWindowS windowNs).netInit l net)
    (asset : AssetName) :
    let msgs := reportedTo asset l
    (∀ o ∈ (stateEvents asset l).filterMap State.accepted,
      Reports msgs o.joint o.field o.sample.value o.sample.stampNs) ∧
    (∀ state, (net.site asset).view.service.consumer.hub.latest = some state → MadeOf msgs state) ∧
    (∀ id handler, (net.site asset).view.service.handlers id = some handler →
      ∀ state ∈ handler.yielded, MadeOf msgs state) ∧
    (∀ point ∈ (net.site asset).telemetry.attempted, point.asset = asset.val ∧
      ∃ field, point.metric = field.value ∧
        Reports msgs point.joint field point.value point.time) := by
  intro msgs
  have hparties := partyRuns_of_run (Sites.run_site h asset)
  obtain ⟨-, sl, hsl, hpub⟩ := State.serviceInv_of_run (serviceRuns_of_run hparties.view).service
  refine ⟨reports_of_accepted h asset, ?_, ?_, fun point hpoint => reports_of_point h hpoint⟩
  · intro state hlatest
    have hlast := (State.hubInv_of_run (State.run_hub hsl)).latest
    exact madeOf_of_builtIn h (hpub.built state (List.mem_of_getLast? (hlast.symm.trans hlatest)))
  · intro id handler hhandler state hstate
    exact madeOf_of_builtIn h
      (hpub.built state ((State.yielded_sublist hsl hhandler).subset hstate))

/-! ## Motions -/

/-- What the command worker handed over is what it read from the messages it took in. -/
theorem exists_command_of_handed {asset : AssetName} {l : List DeploymentEvent} {d : Deployment}
    (h : DeploymentRun asset rmsWindowS windowNs l d) {c : JointCommand Double}
    (hc : c ∈ d.handed) :
    ∃ topic payload, .command topic payload ∈ l ∧ commandWorkerMessage payload = some c := by
  refine h.history (I := fun l d => ∀ c ∈ d.handed, ∃ topic payload,
    .command topic payload ∈ l ∧ commandWorkerMessage payload = some c) ?_ ?_ c hc
  · intro c hc
    cases hc
  · intro l d e t _ ih hstep c hc
    have hold : c ∈ d.handed → ∃ topic payload, .command topic payload ∈ l ++ [e] ∧
        commandWorkerMessage payload = some c := by
      intro hc
      obtain ⟨topic, payload, hmem, heq⟩ := ih c hc
      exact ⟨topic, payload, List.mem_append_left _ hmem, heq⟩
    obtain ⟨⟨t', sent⟩, hsite, rfl⟩ := Option.map_eq_some_iff.mp hstep
    rcases deploymentStep_cases hsite with ⟨_, _, -, -, rfl, -⟩ | ⟨topic, payload, rfl, -, rfl⟩ |
      ⟨_, _, -, -, rfl, -⟩ | ⟨_, _, -, -, -, rfl⟩ | ⟨_, _, -, -, -, rfl⟩
    · exact hold hc
    · rcases List.mem_append.mp hc with hc | hc
      · exact hold hc
      · exact ⟨topic, payload, by simp, Option.mem_toList.mp hc⟩
    · exact hold hc
    · exact hold hc
    · exact hold hc

/-- What the command worker takes in is a command that was posted. -/
theorem post_of_received
    (h : Run (fleet rmsWindowS windowNs).netStep (fleet rmsWindowS windowNs).netInit l net)
    {asset : AssetName} {topic : String} {payload : Payload}
    (he : .command topic payload ∈ l.filterMap (Sites.own asset)) :
    ∃ n c, .post n c ∈ (l.filterMap (Sites.own asset)).filterMap publisherEvent ∧
      payload = .ofText c.modelDumpJson := by
  obtain ⟨hsubscribed, sender, hsent⟩ :=
    Sites.sent_of_received h he (c := .commandWorker) (m := (topic, payload)) rfl
  have hsubscribed : subscribed asset .commandWorker (topic, payload) = true := hsubscribed
  obtain ⟨rfl, hcommand⟩ := sender_of_subscribed hsubscribed hsent
  rcases sentBy_cases hsent with ⟨msg, -, p, hp, heq⟩ | ⟨n, c, hpost, heq⟩
  · -- a sample does not come in here
    obtain ⟨q, hq, rfl⟩ := List.mem_map.mp hp
    obtain ⟨-, entry, -, field, rfl⟩ := mem_samples.mp hq
    have htopic : topic = commandTopic sender.val := hcommand.mp rfl
    have hchannel : topic = telemetryTopic sender.val entry.1 field := (Prod.mk.inj heq).1
    exact absurd (hchannel.symm.trans htopic)
      (telemetryTopic_ne_commandTopic sender.2 sender.2 entry.1 field)
  · exact ⟨n, c, hpost, (Prod.mk.inj heq).2⟩

/-- **Where motions come from.** After every run of any number of deployments, for every asset: each
command that its ROS node gets is finite, was posted to its own command-svc as it is, and
`publish_command` makes of it the trajectory that it stands for; and for each request that its
command-svc answered with 202 there is the posted command of that kind which, if it is finite, the
broker can hand to the command worker from then on, and the ROS node gets that very command.
Source: `publisher.py`, `Publisher.publish`; `api.py`, `command`; `main.py`, `command_worker`,
`BridgeNode.publish_command` -/
theorem command_provenance
    (h : Run (fleet rmsWindowS windowNs).netStep (fleet rmsWindowS windowNs).netInit l net)
    (asset : AssetName) :
    let posts := (l.filterMap (Sites.own asset)).filterMap publisherEvent
    (∀ c ∈ (net.site asset).handed, c.Finite ∧ (∃ n, .post n c ∈ posts) ∧
      ∃ names positions time, publishCommand c = .ok ⟨names, [⟨positions, time⟩]⟩ ∧
        Commands c names positions) ∧
    ∀ n kind topic, (net.site asset).publisher.answers n = some (.accepted kind topic) →
      ∃ c, .post n c ∈ posts ∧ c.kind = kind ∧ (c.Finite → ∀ later net',
        Run (fleet rmsWindowS windowNs).netStep net later net' →
        ∃ net'', (fleet rmsWindowS windowNs).netStep net'
            (asset, .command topic (.ofText c.modelDumpJson)) = some net'' ∧
          (net''.site asset).handed = (net'.site asset).handed ++ [c]) := by
  intro posts
  have hsite := Sites.run_site h asset
  constructor
  · intro c hc
    obtain ⟨topic, payload, he, hworker⟩ := exists_command_of_handed hsite hc
    obtain ⟨n, posted, hpost, rfl⟩ := post_of_received h he
    obtain ⟨hok, hnone⟩ := commandWorkerMessage_modelDumpJson posted
    by_cases hfinite : posted.Finite
    · obtain rfl := Option.some.inj ((hok hfinite).symm.trans hworker)
      obtain ⟨time, htime⟩ := exists_timeFromStart_double posted
      obtain ⟨names, positions, hpublish, hcommands⟩ := publishCommand_of_time posted htime
      exact ⟨hfinite, ⟨n, hpost⟩, names, positions, time, hpublish, hcommands⟩
    · rw [hnone hfinite] at hworker
      cases hworker
  · intro n kind topic hanswer
    obtain ⟨c, hpost, hkind, rfl, entry, hentry, htopic, hpayload⟩ :=
      Command.exists_sent_of_accepted (partyRuns_of_run hsite).publisher hanswer
    refine ⟨c, hpost, hkind, fun hfinite later net' hlater => ?_⟩
    have hsent := sentBy_of_sent hsite hentry
    rw [htopic, hpayload] at hsent
    have hwire := Sites.mem_wire_of_sent (h.append hlater) (hsent.mono (by
      rw [List.filterMap_append]
      exact List.prefix_append ..))
    obtain ⟨net'', hstep, hhanded, -⟩ := netStep_command hfinite hwire
    exact ⟨net'', hstep, hhanded⟩

/-- What the bridge of an asset does by itself, it does in the fleet, and its messages are on the
wire. -/
theorem run_bridge {asset : AssetName} {events : List Async.Event} {b : Async.State}
    (h : Run (Async.step asset.val) (net.site asset).bridge events b) :
    ∃ net', Run (fleet rmsWindowS windowNs).netStep net (events.map fun e => (asset, .bridge e))
        net' ∧ net'.site asset = { net.site asset with bridge := b } ∧
      net'.wire = net.wire ++ (b.sent.drop (net.site asset).bridge.sent.length).map onWire := by
  induction h with
  | nil => exact ⟨net, .nil, rfl, by rw [List.drop_length, List.map_nil, List.append_nil]⟩
  | @snoc events b t e hbefore hstep ih =>
      obtain ⟨net', hrun, hsite, hwire⟩ := ih
      have hown : (fleet rmsWindowS windowNs).step asset (net'.site asset) (.bridge e) =
          some ({ net.site asset with bridge := t },
            (t.sent.drop b.sent.length).map onWire) := by
        rw [hsite]
        exact congrArg (Option.map _) hstep
      have hdeliverable :
          (fleet rmsWindowS windowNs).deliverable net'.wire asset (.bridge e) = true := rfl
      refine ⟨⟨Function.update net'.site asset { net.site asset with bridge := t },
        net'.wire ++ (t.sent.drop b.sent.length).map onWire⟩, ?_, Function.update_self .., ?_⟩
      · rw [List.map_append]
        refine hrun.snoc ?_
        simp only [Sites.netStep, hdeliverable, if_true, hown, Option.map_some]
      · obtain ⟨new, hnew⟩ := Async.prefix_sent_of_run hbefore
        obtain ⟨more, hmore⟩ := Async.prefix_sent_of_step hstep
        rw [hwire, ← hmore, List.drop_left, ← hnew, List.append_assoc, List.append_assoc,
          List.drop_left, List.drop_left, List.map_append]

/-- What state-svc, viz-svc and the browsers of an asset do with messages that were sent to it, they
do in the fleet. -/
theorem run_view {asset : AssetName} {events : List PipelineEvent} {p : Pipeline}
    (h : Run (pipelineStep asset.val) (net.site asset).view events p)
    (hsent : ∀ topic payload, .service (.message topic payload) ∈ events →
      (topic, payload) ∈ net.wire ∧ subscribed asset .stateSvc (topic, payload) = true) :
    ∃ net', Run (fleet rmsWindowS windowNs).netStep net (events.map fun e => (asset, .view e))
        net' ∧ (net'.site asset).view = p ∧ net'.wire = net.wire := by
  induction h with
  | nil => exact ⟨net, .nil, rfl, rfl⟩
  | @snoc events p t e _ hstep ih =>
      obtain ⟨net', hrun, hview, hwire⟩ := ih fun topic payload hmem =>
        hsent topic payload (List.mem_append_left _ hmem)
      have hdeliverable :
          (fleet rmsWindowS windowNs).deliverable net'.wire asset (.view e) = true := by
        unfold Sites.deliverable
        split
        · rfl
        · rename_i c m hreceives
          obtain ⟨topic, payload, rfl, heq⟩ : ∃ topic payload,
              e = .service (.message topic payload) ∧ (c, m) = (.stateSvc, topic, payload) := by
            cases e with
            | service e =>
                cases e with
                | message topic payload =>
                    exact ⟨topic, payload, rfl, (Option.some.inj hreceives).symm⟩
                | _ => cases hreceives
            | _ => cases hreceives
          obtain ⟨rfl, rfl⟩ := Prod.mk.inj heq
          obtain ⟨hmem, hsubscribed⟩ := hsent topic payload (by simp)
          simp only [Bool.and_eq_true, decide_eq_true_eq, hwire]
          exact ⟨hmem, hsubscribed⟩
      have hsite : (fleet rmsWindowS windowNs).step asset (net'.site asset) (.view e) =
          some ({ net'.site asset with view := t }, []) := by
        rw [← hview] at hstep
        exact congrArg (Option.map _) hstep
      refine ⟨⟨Function.update net'.site asset { net'.site asset with view := t }, net'.wire ++ []⟩,
        ?_, ?_, ?_⟩
      · rw [List.map_append]
        refine hrun.snoc ?_
        simp only [Sites.netStep, hdeliverable, if_true, hsite, Option.map_some]
      · simp only [Function.update_self]
      · rw [List.append_nil, hwire]

end provenance

/-! ### An arm that turns -/

section turning

variable [CPython]

attribute [local instance] Pydantic.decimal FloatRepr.whole

/-- What ROS reports of the arm that turns, some nanoseconds after its start. -/
def turningState (nanosec : ℕ) : Async.JointState :=
  ⟨0, nanosec, ur5JointNames, List.replicate 6 (.finite Double.one),
    List.replicate 6 (.finite Double.one), List.replicate 6 (.finite Double.one)⟩

/-- The bridge publishes two joint states of it, one message after the other. -/
def publishedTurning : List Async.Event :=
  [.onMsg (turningState 1), .startPut, .onMsg (turningState 2), .startPut, .worker .connected,
    .get] ++ List.replicate 18 (.worker .publishReturned) ++ [.get] ++
    List.replicate 17 (.worker .publishReturned)

omit [CPython] in
/-- The bridge publishes the reports of an arm that turns. -/
theorem run_publishedTurning :
    ∃ b, Run (Async.step "ur5") Async.mainAsync publishedTurning b ∧
      b.sent = turningSamples.map fun p => (p.1, p.2.modelDumpJson) :=
  ⟨_, .of_exec rfl, rfl⟩

omit [CPython] in
/-- The broker can hand the messages to state-svc. -/
theorem sent_turning {topic : String} {payload : Payload}
    (h : .message topic payload ∈ arrivals turningSamples) :
    (topic, payload) ∈ turningSamples.map (fun p => (p.1, Payload.ofText p.2.modelDumpJson)) ∧
      subscribed ur5 .stateSvc (topic, payload) = true := by
  obtain ⟨p, hp, heq⟩ := List.mem_map.mp h
  obtain ⟨rfl, rfl⟩ : p.1 = topic ∧ Payload.ofText p.2.modelDumpJson = payload := by
    simpa using heq
  refine ⟨List.mem_map_of_mem hp, ?_⟩
  rw [turningSamples_eq] at hp
  obtain ⟨o, ho, rfl⟩ := List.mem_map.mp hp
  obtain ⟨stamp, -, joint, hjoint, field, rfl⟩ := mem_turningObservations.mp ho
  have hlevel : ∀ joint ∈ ur5JointNames, IsName joint := by decide
  exact (topicMatches_telemetryTopic ur5.2 ur5.2 (hlevel joint hjoint) field).mpr rfl

/-- A browser gets what the bridge published. -/
theorem run_shownTurning :
    ∃ l net i c hub state text, Run (fleet (PyFloat.lit 2) 2000000000).netStep
        (fleet (PyFloat.lit 2) 2000000000).netInit l net ∧
      (net.site ur5).view = shownPipeline c hub i state text ∧ toFrameText state = .ok text ∧
      BuiltOfTurning state := by
  obtain ⟨b, hbridge, hsent⟩ := run_publishedTurning
  have hstart : Run (Async.step ur5.val)
      ((fleet (PyFloat.lit 2) 2000000000).netInit.site ur5).bridge publishedTurning b := hbridge
  obtain ⟨net, hpublished, hsite, hwire⟩ := run_bridge hstart
  obtain ⟨events, i, c, hub, state, text, hrun, htakes, -, htext, hbuilt⟩ := run_shownPipeline
  have hview : (net.site ur5).view = .init "ur5" (PyFloat.lit 2) 2000000000 :=
    congrArg Deployment.view hsite
  have hfrom : Run (pipelineStep ur5.val) (net.site ur5).view events _ := hview ▸ hrun
  obtain ⟨net', hshowing, hview', -⟩ := run_view hfrom fun topic payload hmem => by
    obtain ⟨hsample, hsubscribed⟩ := sent_turning (htakes topic payload hmem)
    have hall : net.wire = (turningSamples.map fun p => (p.1, p.2.modelDumpJson)).map onWire := by
      rw [hwire, hsent]
      rfl
    rw [hall, List.map_map]
    exact ⟨hsample, hsubscribed⟩
  exact ⟨_, net', i, c, hub, state, text, hpublished.append hshowing, hview', htext, hbuilt⟩

end turning

/-! ### Two runs -/

section platform

attribute [local instance] CPython.series Pydantic.decimal Viz.FloatRepr.whole

/-- The state that a call yields is made of these reports. -/
theorem telemetry_provenance_turning :
    ∃ l net handler state, Run arms.netStep arms.netInit l net ∧
      (net.site ur5).view.service.handlers 0 = some handler ∧ handler.yielded = [state] ∧
      MadeOf (reportedTo ur5 l) state ∧ ∀ o ∈ (stateEvents ur5 l).filterMap State.accepted,
        Reports (reportedTo ur5 l) o.joint o.field o.sample.value o.sample.stampNs := by
  obtain ⟨l, net, i, c, hub, state, text, hrun, hview, -⟩ := run_shownTurning
  have hhandler := handlers_servedService c hub i state .waiting
  obtain ⟨hsamples, -, hyielded, -⟩ := telemetry_provenance hrun ur5
  have hhandler' : (net.site ur5).view.service.handlers 0 =
      some (servedHandler i state .waiting) := by
    rw [hview]
    exact hhandler
  exact ⟨l, net, _, state, hrun, hhandler', rfl,
    hyielded 0 _ hhandler' state (List.mem_singleton_self state), hsamples⟩

/-- The trajectory of the handed command is that of the posted one. -/
theorem command_provenance_handedHome :
    ∃ net, Run arms.netStep arms.netInit handedHome net ∧
      ∃ names positions time,
        publishCommand Command.goHome = .ok ⟨names, [⟨positions, time⟩]⟩ ∧
          Commands Command.goHome names positions := by
  obtain ⟨net, hrun, hhanded, -⟩ := run_handedHome
  obtain ⟨-, -, htrajectory⟩ := (command_provenance hrun ur5).1 Command.goHome
    (hhanded ▸ List.mem_singleton_self _)
  exact ⟨net, hrun, htrajectory⟩

end platform

end TwinServices.System
