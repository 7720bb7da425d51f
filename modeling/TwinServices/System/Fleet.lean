import TwinServices.Lib.Network
import TwinServices.Bridge.Publication
import TwinServices.Command.Accounting
import TwinServices.System.CommandPath
import TwinServices.System.Isolation
import TwinServices.System.Pipeline
import TwinServices.Telemetry.Ingest

/-!
# Many arms on one broker

The services are deployed once per asset: a bridge with its command worker, command-svc, state-svc,
viz-svc with its browsers and telemetry-svc. All assets share one broker, and what keeps them apart
is the name of the asset in every topic and filter, which is a topic level without wildcards. The
broker hands a client what was sent and matches the client's filter; it may lose, delay and repeat
messages.

* `AssetName`, `Deployment`, `DeploymentEvent`, `fleet`: the deployments as sites on a broker.
* `topic_of_sentBy`: the topics that a deployment sends to.
* `assets_do_not_interfere`: leaving out all steps of the other assets leaves a run, every party of
  an asset in the state in which it was, and the messages of the asset on the wire.
-/

set_option autoImplicit false

namespace TwinServices.System

open TwinServices.Python TwinServices.Contracts TwinServices.Bridge
open Lib.Transition Lib.Binary64 Lib.TopicFilter Lib.Network

/-- Payloads are compared by computing. -/
instance : DecidableEq Payload
  | .bytes a, .bytes b => decidable_of_iff (a.data = b.data) (by simp [ByteArray.ext_iff])
  | .str a, .str b => decidable_of_iff (a = b) (by simp)
  | .other, .other => isTrue rfl
  | .bytes _, .str _ | .bytes _, .other | .str _, .bytes _ | .str _, .other | .other, .bytes _
  | .other, .str _ => isFalse (by simp)

/-! ## What a client gets -/

/-- The levels of the topic of a channel, whatever the name of the joint. -/
theorem levels_telemetryTopic_cons {asset : String} (hasset : '/' ∉ asset.toList) (joint : String)
    (field : JointField) : ∃ rest, levels (telemetryTopic asset joint field).toList =
      "twin".toList :: asset.toList :: "joint".toList :: rest := by
  have hsplit : (telemetryTopic asset joint field).toList =
      "twin".toList ++ '/' :: (asset.toList ++ '/' :: ("joint".toList ++ '/' ::
        (joint.toList ++ '/' :: field.value.toList))) := by
    rw [telemetryTopic_toList]
    simp
  rw [hsplit, levels_cons (by decide), levels_cons hasset, levels_cons (by decide)]
  exact ⟨_, rfl⟩

/-- The telemetry filter of an asset matches the topics of no other one, whatever the joint. -/
theorem eq_of_topicMatches_telemetryTopic {a b : String} (ha : IsName a) (hb : IsName b)
    {joint : String} {field : JointField}
    (h : topicMatches (telemetryWildcard a) (telemetryTopic b joint field) = true) : a = b := by
  obtain ⟨rest, hlevels⟩ := levels_telemetryTopic_cons hb.1.2 joint field
  rw [topicMatches_telemetryWildcard ha, hlevels] at h
  simpa [ha.ne_wildcard.1, String.toList_inj] using (List.forall₂_cons.mp
    (List.forall₂_cons.mp h).2).1

/-- The filter of the setpoints of an asset matches its levels only. -/
theorem topicMatches_commandFilter {a : String} (ha : IsName a) (topic : String) :
    topicMatches (commandTopic a) topic = true ↔
      List.Forall₂ (fun f t => f = ['+'] ∨ f = t)
        ["twin".toList, a.toList, "cmd".toList, "joints".toList] (levels topic.toList) := by
  have hfree : ['#'] ∉ ["twin".toList, a.toList, "cmd".toList, "joints".toList] := by
    simp only [List.mem_cons, List.not_mem_nil, or_false, not_or]
    exact ⟨by decide, ha.ne_wildcard.2.symm, by decide, by decide⟩
  have hpasses : passesOver (commandTopic a).toList topic.toList = false := by
    simp [passesOver, commandTopic, String.toList_append]
  unfold topicMatches
  rw [hpasses, levels_commandTopic ha.1.2, Bool.not_false, Bool.true_and, matchLevels_iff hfree]

/-- It matches the setpoints of no other asset. -/
theorem eq_of_topicMatches_commandTopic {a b : String} (ha : IsName a) (hb : IsName b)
    (h : topicMatches (commandTopic a) (commandTopic b) = true) : a = b := by
  rw [topicMatches_commandFilter ha, levels_commandTopic hb.1.2] at h
  simpa [ha.ne_wildcard.1, String.toList_inj] using (List.forall₂_cons.mp
    (List.forall₂_cons.mp h).2).1

/-- It matches its own. -/
theorem topicMatches_commandTopic_self {a : String} (ha : IsName a) :
    topicMatches (commandTopic a) (commandTopic a) = true := by
  rw [topicMatches_commandFilter ha, levels_commandTopic ha.1.2]
  exact List.forall₂_same.mpr fun _ _ => Or.inr rfl

/-- It matches no topic of a channel. -/
theorem not_topicMatches_commandFilter {a b : String} (ha : IsName a) (hb : IsName b)
    (joint : String) (field : JointField) :
    topicMatches (commandTopic a) (telemetryTopic b joint field) = false := by
  obtain ⟨rest, hlevels⟩ := levels_telemetryTopic_cons hb.1.2 joint field
  rw [Bool.eq_false_iff, Ne, topicMatches_commandFilter ha, hlevels]
  intro h
  have hthird := (List.forall₂_cons.mp (List.forall₂_cons.mp (List.forall₂_cons.mp h).2).2).1
  exact absurd hthird (by decide)

/-- No topic of a channel is that of setpoints, whatever the name of the joint. -/
theorem telemetryTopic_ne_commandTopic {a b : String} (ha : IsName a) (hb : IsName b)
    (joint : String) (field : JointField) : telemetryTopic b joint field ≠ commandTopic a := by
  intro heq
  have hnot := not_topicMatches_commandFilter ha hb joint field
  rw [heq, topicMatches_commandTopic_self ha] at hnot
  cases hnot

/-! ## The deployments -/

section fleet

variable [CPython] [Pydantic] [FloatRepr]

/-- The name of an asset, as a topic and a filter can hold it. -/
abbrev AssetName : Type := {name : String // IsName name}

/-- What is deployed for an asset: the telemetry side of the bridge, what its command worker handed
to `node.publish_command`, and the services; state-svc and viz-svc with the way to the browsers. -/
structure Deployment where
  bridge : Async.State
  handed : List (JointCommand Double)
  publisher : Command.State
  view : Pipeline
  telemetry : Telemetry.Ingestor

/-- The clients that subscribe.
Source: `main.py`, `command_worker`; `consumer.py`, `Consumer._consume`; `ingest.py`,
`Ingestor._consume` -/
inductive Client
  | commandWorker
  | stateSvc
  | telemetrySvc

/-- What can happen in a deployment. -/
inductive DeploymentEvent
  | bridge (e : Async.Event)
  /-- The command worker takes a message in. -/
  | command (topic : String) (payload : Payload)
  | publisher (e : Command.Event)
  | view (e : PipelineEvent)
  | telemetry (e : Telemetry.Event)

/-- A message that was published. -/
def onWire (message : String × String) : String × Payload := (message.1, .ofText message.2)

/-- What a deployment takes in, and through which client.
Source: `main.py`, `command_worker`; `consumer.py`, `Consumer._consume`; `ingest.py`,
`Ingestor._consume` -/
def receives : DeploymentEvent → Option (Client × String × Payload)
  | .command topic payload => some (.commandWorker, topic, payload)
  | .view (.service (.message topic payload)) => some (.stateSvc, topic, payload)
  | .telemetry (.message topic payload) => some (.telemetrySvc, topic, payload)
  | _ => none

/-- The filters: `command_worker` subscribes to the setpoints of its asset, the two services that
store telemetry to its channels.
Source: `main.py`, `command_worker`; `consumer.py`, `Consumer._consume`; `ingest.py`,
`Ingestor._consume` -/
def subscribed (asset : AssetName) : Client → String × Payload → Bool
  | .commandWorker, m => topicMatches (commandTopic asset.val) m.1
  | .stateSvc, m => topicMatches (telemetryWildcard asset.val) m.1
  | .telemetrySvc, m => topicMatches (telemetryWildcard asset.val) m.1

/-- A step of a deployment, with what it publishes. -/
def deploymentStep (asset : AssetName) (d : Deployment) :
    DeploymentEvent → Option (Deployment × List (String × Payload))
  | .bridge e =>
      (Async.step asset.val d.bridge e).map fun t =>
        ({ d with bridge := t }, (t.sent.drop d.bridge.sent.length).map onWire)
  | .command _ payload =>
      some ({ d with handed := d.handed ++ (commandWorkerMessage payload).toList }, [])
  | .publisher e =>
      (Command.step asset.val d.publisher e).map fun t =>
        ({ d with publisher := t }, (t.sent.drop d.publisher.sent.length).map fun entry =>
          onWire (entry.topic, entry.payload))
  | .view e => (pipelineStep asset.val d.view e).map fun t => ({ d with view := t }, [])
  | .telemetry e => (Telemetry.step d.telemetry e).map fun t => ({ d with telemetry := t }, [])

/-- A deployment before its first step. -/
def Deployment.init (asset : AssetName) (rmsWindowS : Double) (windowNs : ℤ) : Deployment :=
  ⟨Async.mainAsync, [], .init, .init asset.val rmsWindowS windowNs, .init⟩

/-- All assets, over one broker. -/
def fleet (rmsWindowS : Double) (windowNs : ℤ) :
    Sites AssetName Client Deployment DeploymentEvent (String × Payload) where
  init asset := .init asset rmsWindowS windowNs
  step := deploymentStep
  receives := receives
  subscribed := subscribed

variable {rmsWindowS : Double} {windowNs : ℤ}

/-! ## The parties of a deployment -/

/-- What a step of a deployment is: one step of one of its parties. -/
theorem deploymentStep_cases {asset : AssetName} {d t : Deployment} {e : DeploymentEvent}
    {sent : List (String × Payload)} (h : deploymentStep asset d e = some (t, sent)) :
    (∃ b bridge, e = .bridge b ∧ Async.step asset.val d.bridge b = some bridge ∧
      t = { d with bridge := bridge } ∧
      sent = (bridge.sent.drop d.bridge.sent.length).map onWire) ∨
    (∃ topic payload, e = .command topic payload ∧ sent = [] ∧
      t = { d with handed := d.handed ++ (commandWorkerMessage payload).toList }) ∨
    (∃ b publisher, e = .publisher b ∧ Command.step asset.val d.publisher b = some publisher ∧
      t = { d with publisher := publisher } ∧
      sent = (publisher.sent.drop d.publisher.sent.length).map fun entry =>
        onWire (entry.topic, entry.payload)) ∨
    (∃ b view, e = .view b ∧ pipelineStep asset.val d.view b = some view ∧ sent = [] ∧
      t = { d with view := view }) ∨
    (∃ b telemetry, e = .telemetry b ∧ Telemetry.step d.telemetry b = some telemetry ∧ sent = [] ∧
      t = { d with telemetry := telemetry }) := by
  cases e with
  | bridge b =>
      obtain ⟨bridge, hbridge, heq⟩ := Option.map_eq_some_iff.mp h
      obtain ⟨rfl, rfl⟩ := Prod.mk.inj heq
      exact Or.inl ⟨b, bridge, rfl, hbridge, rfl, rfl⟩
  | command topic payload =>
      obtain ⟨rfl, rfl⟩ := Prod.mk.inj (Option.some.inj h)
      exact Or.inr (Or.inl ⟨topic, payload, rfl, rfl, rfl⟩)
  | publisher b =>
      obtain ⟨publisher, hpublisher, heq⟩ := Option.map_eq_some_iff.mp h
      obtain ⟨rfl, rfl⟩ := Prod.mk.inj heq
      exact Or.inr (Or.inr (Or.inl ⟨b, publisher, rfl, hpublisher, rfl, rfl⟩))
  | view b =>
      obtain ⟨view, hview, heq⟩ := Option.map_eq_some_iff.mp h
      obtain ⟨rfl, rfl⟩ := Prod.mk.inj heq
      exact Or.inr (Or.inr (Or.inr (Or.inl ⟨b, view, rfl, hview, rfl, rfl⟩)))
  | telemetry b =>
      obtain ⟨telemetry, htelemetry, heq⟩ := Option.map_eq_some_iff.mp h
      obtain ⟨rfl, rfl⟩ := Prod.mk.inj heq
      exact Or.inr (Or.inr (Or.inr (Or.inr ⟨b, telemetry, rfl, htelemetry, rfl, rfl⟩)))

/-- The steps of the bridge in a deployment. -/
def bridgeEvent : DeploymentEvent → Option Async.Event
  | .bridge e => some e
  | _ => none

/-- The steps of command-svc in a deployment. -/
def publisherEvent : DeploymentEvent → Option Command.Event
  | .publisher e => some e
  | _ => none

/-- The steps of state-svc, viz-svc and the browsers in a deployment. -/
def viewEvent : DeploymentEvent → Option PipelineEvent
  | .view e => some e
  | _ => none

/-- The steps of telemetry-svc in a deployment. -/
def telemetryEvent : DeploymentEvent → Option Telemetry.Event
  | .telemetry e => some e
  | _ => none

variable {asset : AssetName} {l : List DeploymentEvent} {d : Deployment}

/-- Each party of a deployment runs as it does by itself. -/
structure PartyRuns (asset : AssetName) (rmsWindowS : Double) (windowNs : ℤ)
    (l : List DeploymentEvent) (d : Deployment) : Prop where
  bridge : Run (Async.step asset.val) Async.mainAsync (l.filterMap bridgeEvent) d.bridge
  publisher : Run (Command.step asset.val) .init (l.filterMap publisherEvent) d.publisher
  view : Run (pipelineStep asset.val) (.init asset.val rmsWindowS windowNs)
    (l.filterMap viewEvent) d.view
  telemetry : Run Telemetry.step .init (l.filterMap telemetryEvent) d.telemetry

/-- A deployment as it runs by itself. -/
abbrev DeploymentRun (asset : AssetName) (rmsWindowS : Double) (windowNs : ℤ) :
    List DeploymentEvent → Deployment → Prop :=
  Run ((fleet rmsWindowS windowNs).siteStep asset) (.init asset rmsWindowS windowNs)

/-- So it is in every run. -/
theorem partyRuns_of_run (h : DeploymentRun asset rmsWindowS windowNs l d) :
    PartyRuns asset rmsWindowS windowNs l d := by
  apply h.history (I := PartyRuns asset rmsWindowS windowNs) ⟨.nil, .nil, .nil, .nil⟩
  intro l d e t _ ih hstep
  obtain ⟨⟨t', sent⟩, hsite, rfl⟩ := Option.map_eq_some_iff.mp hstep
  rcases deploymentStep_cases hsite with ⟨b, _, rfl, hparty, rfl, -⟩ | ⟨_, _, rfl, -, rfl⟩ |
    ⟨b, _, rfl, hparty, rfl, -⟩ | ⟨b, _, rfl, hparty, -, rfl⟩ | ⟨b, _, rfl, hparty, -, rfl⟩
  · exact ⟨ih.bridge.read rfl hparty, ih.publisher.unread rfl, ih.view.unread rfl,
      ih.telemetry.unread rfl⟩
  · exact ⟨ih.bridge.unread rfl, ih.publisher.unread rfl, ih.view.unread rfl,
      ih.telemetry.unread rfl⟩
  · exact ⟨ih.bridge.unread rfl, ih.publisher.read rfl hparty, ih.view.unread rfl,
      ih.telemetry.unread rfl⟩
  · exact ⟨ih.bridge.unread rfl, ih.publisher.unread rfl, ih.view.read rfl hparty,
      ih.telemetry.unread rfl⟩
  · exact ⟨ih.bridge.unread rfl, ih.publisher.unread rfl, ih.view.unread rfl,
      ih.telemetry.read rfl hparty⟩

/-! ## What a deployment sends -/

/-- A deployment sends the samples of the joint states that ROS reported to its bridge and the
commands that were posted to its command-svc. -/
theorem sentBy_cases {m : String × Payload} (h : (fleet rmsWindowS windowNs).SentBy asset l m) :
    (∃ msg ∈ Async.reported (l.filterMap bridgeEvent), ∃ p ∈ publishJointStates msg asset.val,
      m = onWire p) ∨
    ∃ n command, .post n command ∈ l.filterMap publisherEvent ∧
      m = onWire (commandTopic asset.val, command.modelDumpJson) := by
  obtain ⟨before, s, e, t, sent, hbefore, hrun, hstep, hm⟩ := h
  have hstep' : (fleet rmsWindowS windowNs).siteStep asset s e = some t := by
    simp only [Sites.siteStep, hstep, Option.map_some]
  have hparties := partyRuns_of_run (hrun.snoc hstep')
  rcases deploymentStep_cases hstep with ⟨b, bridge, -, -, rfl, rfl⟩ | ⟨_, _, -, rfl, -⟩ |
    ⟨b, publisher, -, -, rfl, rfl⟩ | ⟨_, _, -, -, rfl, -⟩ | ⟨_, _, -, -, rfl, -⟩
  · obtain ⟨p, hp, rfl⟩ := List.mem_map.mp hm
    obtain ⟨msg, hmsg, hp⟩ :=
      Async.exists_reported_of_sent hparties.bridge (List.mem_of_mem_drop hp)
    exact Or.inl ⟨msg, ((hbefore.filterMap _).filterMap _).subset hmsg, p, hp, rfl⟩
  · cases hm
  · obtain ⟨entry, hentry, rfl⟩ := List.mem_map.mp hm
    obtain ⟨command, hpost, htopic, hpayload⟩ :=
      Command.exists_post_of_sent hparties.publisher (List.mem_of_mem_drop hentry)
    rw [htopic, hpayload]
    exact Or.inr ⟨entry.request, command, (hbefore.filterMap _).subset hpost, rfl⟩
  · cases hm
  · cases hm

/-- What its command-svc sent, it sent. -/
theorem sentBy_of_sent (h : DeploymentRun asset rmsWindowS windowNs l d) {entry : Command.Sent}
    (hentry : entry ∈ d.publisher.sent) :
    (fleet rmsWindowS windowNs).SentBy asset l (onWire (entry.topic, entry.payload)) := by
  refine h.history (I := fun l d => ∀ entry ∈ d.publisher.sent,
    (fleet rmsWindowS windowNs).SentBy asset l (onWire (entry.topic, entry.payload)))
    ?_ ?_ entry hentry
  · intro entry hentry
    cases hentry
  · intro l d e t hrun ih hstep entry hentry
    have hold : ∀ entry ∈ d.publisher.sent,
        (fleet rmsWindowS windowNs).SentBy asset (l ++ [e]) (onWire (entry.topic, entry.payload)) :=
      fun entry hentry => (ih entry hentry).mono (List.prefix_append ..)
    obtain ⟨⟨t', sent⟩, hsite, rfl⟩ := Option.map_eq_some_iff.mp hstep
    rcases deploymentStep_cases hsite with ⟨_, _, -, -, rfl, -⟩ | ⟨_, _, -, -, rfl⟩ |
      ⟨b, publisher, -, hparty, rfl, hsent⟩ | ⟨_, _, -, -, -, rfl⟩ | ⟨_, _, -, -, -, rfl⟩
    · exact hold entry hentry
    · exact hold entry hentry
    · rcases (Command.step_client hparty).2.2 with hsame | ⟨new, hnew, -⟩
      · exact hold entry (hsame ▸ hentry)
      · rcases List.mem_append.mp (hnew ▸ hentry) with hmem | hmem
        · exact hold entry hmem
        · rw [hnew, List.drop_left] at hsent
          refine ⟨l, d, e, _, sent, List.prefix_rfl, hrun, hsite, ?_⟩
          rw [hsent]
          exact List.mem_map_of_mem hmem
    · exact hold entry hentry
    · exact hold entry hentry

/-- So the topics that it sends to carry its name. -/
theorem topic_of_sentBy {m : String × Payload} (h : (fleet rmsWindowS windowNs).SentBy asset l m) :
    (∃ joint field, m.1 = telemetryTopic asset.val joint field) ∨
      m.1 = commandTopic asset.val := by
  rcases sentBy_cases h with ⟨msg, -, p, hp, rfl⟩ | ⟨n, command, -, rfl⟩
  · obtain ⟨q, hq, rfl⟩ := List.mem_map.mp hp
    obtain ⟨-, entry, -, field, rfl⟩ := mem_samples.mp hq
    exact Or.inl ⟨entry.1, field, rfl⟩
  · exact Or.inr rfl

/-- What a client gets carries the name of its asset, and is of the kind it subscribed to. -/
theorem sender_of_subscribed {sender : AssetName} {c : Client} {m : String × Payload}
    (hsubscribed : subscribed asset c m = true)
    (h : (fleet rmsWindowS windowNs).SentBy sender l m) :
    sender = asset ∧ (c = .commandWorker ↔ m.1 = commandTopic asset.val) := by
  have htelemetry : ∀ joint field, m.1 = telemetryTopic sender.val joint field →
      sender = asset ∧ c ≠ .commandWorker ∧ m.1 ≠ commandTopic asset.val := by
    intro joint field hm
    have hne := telemetryTopic_ne_commandTopic asset.2 sender.2 joint field
    cases c with
    | commandWorker =>
        simp only [subscribed, hm, not_topicMatches_commandFilter asset.2 sender.2] at hsubscribed
        cases hsubscribed
    | stateSvc | telemetrySvc =>
        simp only [subscribed, hm] at hsubscribed
        have heq := eq_of_topicMatches_telemetryTopic asset.2 sender.2 hsubscribed
        exact ⟨(Subtype.ext heq).symm, by simp, hm ▸ hne⟩
  rcases topic_of_sentBy h with ⟨joint, field, hm⟩ | hm
  · obtain ⟨rfl, hc, hne⟩ := htelemetry joint field hm
    exact ⟨rfl, iff_of_false hc hne⟩
  · cases c with
    | commandWorker =>
        simp only [subscribed, hm] at hsubscribed
        obtain rfl := Subtype.ext (eq_of_topicMatches_commandTopic asset.2 sender.2 hsubscribed)
        exact ⟨rfl, iff_of_true rfl hm⟩
    | stateSvc | telemetrySvc =>
        simp only [subscribed, hm, topicMatches_commandTopic asset.2 sender.2] at hsubscribed
        cases hsubscribed

/-- The broker hands a command that was sent to the command worker of the asset. -/
theorem netStep_command {net : Net AssetName Deployment (String × Payload)}
    {c : JointCommand Double} (hfinite : c.Finite)
    (hwire : onWire (commandTopic asset.val, c.modelDumpJson) ∈ net.wire) :
    ∃ net', (fleet rmsWindowS windowNs).netStep net
        (asset, .command (commandTopic asset.val) (.ofText c.modelDumpJson)) = some net' ∧
      (net'.site asset).handed = (net.site asset).handed ++ [c] ∧ net'.wire = net.wire := by
  have hdeliverable : (fleet rmsWindowS windowNs).deliverable net.wire asset
      (.command (commandTopic asset.val) (.ofText c.modelDumpJson)) = true := by
    simp only [Sites.deliverable, fleet, receives, Bool.and_eq_true, decide_eq_true_eq]
    exact ⟨hwire, topicMatches_commandTopic_self asset.2⟩
  refine ⟨_, by simp only [Sites.netStep, hdeliverable, if_true]; rfl, ?_, List.append_nil _⟩
  simp only [Function.update_self, (commandWorkerMessage_modelDumpJson c).1 hfinite,
    Option.toList_some]

omit [CPython] [Pydantic] [FloatRepr] in
/-- The message is one of the asset: the second level of its topic is the name. -/
def isOf (asset : AssetName) (m : String × Payload) : Bool :=
  (levels m.1.toList)[1]? == some asset.val.toList

/-- What a deployment sends is of its asset, and of no other one. -/
theorem isOf_of_sentBy {sender : AssetName} {m : String × Payload}
    (h : (fleet rmsWindowS windowNs).SentBy sender l m) : isOf asset m = true ↔ sender = asset := by
  have hlevel : (levels m.1.toList)[1]? = some sender.val.toList := by
    rcases topic_of_sentBy h with ⟨joint, field, hm⟩ | hm
    · obtain ⟨rest, hlevels⟩ := levels_telemetryTopic_cons sender.2.1.2 joint field
      rw [hm, hlevels]
      rfl
    · rw [hm, levels_commandTopic sender.2.1.2]
      rfl
  simp only [isOf, hlevel, beq_iff_eq, Option.some.injEq, String.toList_inj, Subtype.ext_iff]

/-- **Assets do not interfere.** In every run of any number of deployments over one broker, leaving
out all steps of the other assets leaves a run, leaves every party of an asset, with its counters,
states, points, commands and browsers, as it was, and the messages of the asset on the wire, in
their order.
Source: `models.py`, `telemetry_topic`, `telemetry_wildcard`, `command_topic`; `main.py`,
`command_worker`; `consumer.py`, `Consumer._consume`; `ingest.py`, `Ingestor._consume` -/
theorem assets_do_not_interfere {l : List (AssetName × DeploymentEvent)}
    {net : Net AssetName Deployment (String × Payload)}
    (h : Run (fleet rmsWindowS windowNs).netStep (fleet rmsWindowS windowNs).netInit l net)
    (asset : AssetName) :
    ∃ net', Run (fleet rmsWindowS windowNs).netStep (fleet rmsWindowS windowNs).netInit
        (l.filter fun a => a.1 = asset) net' ∧
      net'.site asset = net.site asset ∧ net'.wire = net.wire.filter (isOf asset) := by
  refine Sites.run_alone ?_ ?_ ?_ h
  · intro sender hne l m hsent c
    rw [Bool.eq_false_iff]
    exact fun hsubscribed => hne (sender_of_subscribed hsubscribed hsent).1
  · exact fun l m hsent => (isOf_of_sentBy hsent).mpr rfl
  · intro sender hne l m hsent
    rw [Bool.eq_false_iff]
    exact fun hof => hne ((isOf_of_sentBy hsent).mp hof)

end fleet

/-! ### Two arms -/

section platform

attribute [local instance] CPython.series Pydantic.decimal Viz.FloatRepr.whole

/-- The name of the first arm. -/
theorem isName_ur5 : IsName "ur5" := by decide

/-- The name of the other one. -/
theorem isName_spare : IsName "ur5_spare" := by decide

/-- The arm of the lab. -/
def ur5 : AssetName := ⟨"ur5", isName_ur5⟩

/-- Another one. -/
def spare : AssetName := ⟨"ur5_spare", isName_spare⟩

/-- The command-svc of one arm answers a request, while that of the other one does. -/
def answeredHome : List (AssetName × DeploymentEvent) :=
  [(ur5, .publisher .connected), (spare, .publisher .connected),
    (spare, .publisher (.post 0 Command.goHome)), (ur5, .publisher (.post 0 Command.goHome)),
    (spare, .publisher (.publishReturned 0)), (ur5, .publisher (.publishReturned 0))]

/-- The broker hands the command on. -/
def handedHome : List (AssetName × DeploymentEvent) :=
  answeredHome ++
    [(ur5, .command (commandTopic ur5.val) (.ofText Command.goHome.modelDumpJson))]

/-- The two arms, with the default window. -/
def arms : Sites AssetName Client Deployment DeploymentEvent (String × Payload) :=
  fleet (PyFloat.lit 2) 2000000000

/-- Both commands are posted and sent, and that for the first arm is answered. -/
theorem run_answeredHome : ∃ net, Run arms.netStep arms.netInit answeredHome net ∧
      (net.site ur5).publisher.answers 0 = some (.accepted .home (commandTopic ur5.val)) ∧
      (net.site ur5).handed = [] ∧
      net.wire = [onWire (commandTopic spare.val, Command.goHome.modelDumpJson),
        onWire (commandTopic ur5.val, Command.goHome.modelDumpJson)] :=
  ⟨_, .of_exec rfl, rfl, rfl, rfl⟩

/-- The first arm's bridge then hands its own command on. -/
theorem run_handedHome : ∃ net, Run arms.netStep arms.netInit handedHome net ∧
    (net.site ur5).handed = [Command.goHome] ∧
    net.wire = [onWire (commandTopic spare.val, Command.goHome.modelDumpJson),
      onWire (commandTopic ur5.val, Command.goHome.modelDumpJson)] := by
  obtain ⟨net, hrun, -, hhanded, hwire⟩ := run_answeredHome
  have hfinite : Command.goHome.Finite := fun d hd => nomatch hd
  have hmem : onWire (commandTopic ur5.val, Command.goHome.modelDumpJson) ∈ net.wire := by
    rw [hwire]
    exact List.mem_cons_of_mem _ (List.mem_singleton_self _)
  obtain ⟨net', hstep, hnew, hsame⟩ := netStep_command hfinite hmem
  exact ⟨net', hrun.snoc hstep, by rw [hnew, hhanded, List.nil_append], hsame.trans hwire⟩

/-- Without the other arm the first one gets its command all the same, from a wire with this one
alone. -/
theorem assets_do_not_interfere_handedHome :
    ∃ net net', Run arms.netStep arms.netInit handedHome net ∧
      (net.site ur5).handed = [Command.goHome] ∧ net.wire.length = 2 ∧
      Run arms.netStep arms.netInit (handedHome.filter fun a => a.1 = ur5) net' ∧
      net'.site ur5 = net.site ur5 ∧
      net'.wire = [onWire (commandTopic ur5.val, Command.goHome.modelDumpJson)] := by
  obtain ⟨net, hrun, hhanded, hwire⟩ := run_handedHome
  obtain ⟨net', hrun', hsite, hfilter⟩ := assets_do_not_interfere hrun ur5
  refine ⟨net, net', hrun, hhanded, by rw [hwire]; rfl, hrun', hsite, ?_⟩
  have hspare :
      isOf ur5 (onWire (commandTopic spare.val, Command.goHome.modelDumpJson)) = false := by
    decide
  have hown : isOf ur5 (onWire (commandTopic ur5.val, Command.goHome.modelDumpJson)) = true := by
    decide
  rw [hfilter, hwire, List.filter_cons_of_neg (by rw [hspare]; exact Bool.false_ne_true),
    List.filter_cons_of_pos hown, List.filter_nil]

end platform

end TwinServices.System
