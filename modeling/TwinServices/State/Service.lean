import TwinServices.State.ArrivalOrder
import TwinServices.State.Consumer
import TwinServices.State.Rest

/-!
# state-svc as one process

The consumer and the servicer share a hub: what the broadcast loop publishes is what the calls of
`StreamState` yield. Messages, ticks, calls, the steps of their handlers and the clock interleave
freely. A tick that raises ends the broadcast loop; what the other tasks still do before they are
cancelled is part of a run.

* `serviceStep`, `serviceStep_cases`: the process, and what each step does to the window and to the
  servicer.
* `ServiceInv`: the servicer has run as in `streamStep`; each state published in that run was built
  at a tick of the process, and their stamps never go back.
* `yielded_sublist`: what a call yields, it yields in the order of publication.
* `stream_time_forward`: so time does not run backwards for a client.
-/

set_option autoImplicit false

namespace TwinServices.State

open TwinServices.Python TwinServices.Contracts Lib.Transition Lib.Binary64

/-! ## The process -/

/-- The consumer, whether its broadcast loop still runs, and the servicer over the hub of the
consumer: what was taken from each mailbox, the handlers and the clock. Source: `main.py`, `main` -/
structure Service where
  consumer : Consumer
  broadcasting : Bool
  taken : QueueId → List (TwinState Double)
  handlers : QueueId → Option (Handler (TwinState Double))
  clock : Finite64

/-- What can happen to the process.
Source: `main.py`, `main` -/
inductive ServiceEvent
  | connected
  | disconnected
  | message (topic : String) (payload : Payload)
  | tick
  /-- A call of `StreamState` arrives. -/
  | start (id : QueueId) (request : StreamStateRequest)
  | dequeue (id : QueueId)
  | resume (id : QueueId)
  | cancel (id : QueueId)
  | advance (now : Finite64)

namespace Service

/-- A process that has just started.
Source: `main.py`, `main` -/
def init (assetName : String) (rmsWindowS : Double) (windowNs : ℤ) : Service :=
  ⟨.init assetName rmsWindowS windowNs, true, fun _ => [], fun _ => none, Double.zero⟩

/-- The servicer of the process. -/
def stream (s : Service) : StreamSystem (TwinState Double) :=
  ⟨⟨s.consumer.hub, s.taken⟩, s.handlers, s.clock⟩

/-- The process with its servicer replaced. -/
def withStream (s : Service) (t : StreamSystem (TwinState Double)) : Service :=
  { s with
    consumer := { s.consumer with hub := t.hub.hub }
    taken := t.hub.taken
    handlers := t.handlers
    clock := t.clock }

variable [Pydantic] [CPython]

/-- A step of the consumer. -/
def consume (s : Service) (e : Event) : Option Service :=
  (State.step s.consumer e).map fun consumer => { s with consumer := consumer }

/-- A step of the servicer. -/
def serve (s : Service) (e : StreamEvent (TwinState Double)) : Option Service :=
  (streamStep s.stream e).map s.withStream

omit [Pydantic] in
/-- A round of the broadcast loop. An exception of `build_state` comes after the mark is cleared,
and ends the loop.
Source: `consumer.py`, `Consumer._broadcast_forever` -/
def broadcast (s : Service) : Option Service :=
  if s.broadcasting then
    match s.consumer.tick with
    | .ok consumer => some { s with consumer := consumer }
    | .error _ =>
        some { s with consumer := { s.consumer with dirty := false }, broadcasting := false }
  else none

end Service

section process

variable [Pydantic] [CPython]

/-- One step; none where it cannot happen.
Source: `main.py`, `main` -/
def serviceStep (s : Service) : ServiceEvent → Option Service
  | .connected => s.consume .connected
  | .disconnected => s.consume .disconnected
  | .message topic payload => s.consume (.message topic payload)
  | .tick => s.broadcast
  | .start id request => s.serve (.start id request)
  | .dequeue id => s.serve (.dequeue id)
  | .resume id => s.serve (.resume id)
  | .cancel id => s.serve (.cancel id)
  | .advance now => s.serve (.advance now)

/-- The observation of a message that is accepted. -/
def accepted : ServiceEvent → Option (RollingWindow.Observation Double)
  | .message topic payload => folded (.message topic payload)
  | _ => none

/-! ## One step -/

omit [CPython] in
/-- An accepted sample is of a joint of the arm. -/
theorem joint_of_accepted {e : ServiceEvent} {o : RollingWindow.Observation Double}
    (h : accepted e = some o) : o.joint ∈ ur5JointNames := by
  cases e with
  | message topic payload => exact joint_of_folded (e := .message topic payload) h
  | _ => cases h

/-- A step of the consumer in the process. -/
theorem consume_cases {s t : Service} {e : Event} (h : s.consume e = some t) :
    ∃ consumer, State.step s.consumer e = some consumer ∧ t = { s with consumer := consumer } := by
  obtain ⟨consumer, hconsumer, rfl⟩ := Option.map_eq_some_iff.mp h
  exact ⟨consumer, hconsumer, rfl⟩

omit [Pydantic] in
/-- A step of the servicer in the process. -/
theorem serve_cases {s t : Service} {b : StreamEvent (TwinState Double)} (h : s.serve b = some t) :
    streamStep s.stream b = some t.stream ∧ t.consumer.window = s.consumer.window := by
  obtain ⟨t, ht, rfl⟩ := Option.map_eq_some_iff.mp h
  exact ⟨ht, rfl⟩

omit [Pydantic] in
/-- A round of the broadcast loop publishes the state that was built, or changes neither the
window nor the servicer. -/
theorem broadcast_cases {s t : Service} (h : s.broadcast = some t) :
    t.consumer.window = s.consumer.window ∧
      (t.stream = s.stream ∨
        ∃ state, buildState s.consumer.assetName s.consumer.window s.consumer.rmsWindowS =
            .ok (some state) ∧ streamStep s.stream (.publish state) = some t.stream) := by
  unfold Service.broadcast at h
  split_ifs at h
  split at h
  · rename_i c htick
    obtain rfl := Option.some.inj h
    rcases tick_cases htick with ⟨-, rfl⟩ | ⟨-, -, rfl⟩ | ⟨state, hub, -, hbuild, hpublish, rfl⟩
    · exact ⟨rfl, Or.inl rfl⟩
    · exact ⟨rfl, Or.inl rfl⟩
    · refine ⟨rfl, Or.inr ⟨state, hbuild, ?_⟩⟩
      simp only [streamStep, hubStep, Service.stream, hpublish, Option.map_some]
  · obtain rfl := Option.some.inj h
    exact ⟨rfl, Or.inl rfl⟩

/-- What each event does: it folds an accepted sample into the window, publishes the state that a
tick has built, is a step of the servicer other than a publication, or changes neither. -/
theorem serviceStep_cases {s t : Service} {e : ServiceEvent} (h : serviceStep s e = some t) :
    (∃ o, accepted e = some o ∧ t.stream = s.stream ∧
      t.consumer.window = s.consumer.window.observe o.joint o.field o.sample) ∨
    (accepted e = none ∧ t.consumer.window = s.consumer.window ∧
      (t.stream = s.stream ∨
        (∃ state, e = .tick ∧
          buildState s.consumer.assetName s.consumer.window s.consumer.rmsWindowS =
            .ok (some state) ∧ streamStep s.stream (.publish state) = some t.stream) ∨
        ∃ b, (∀ state, b ≠ .publish state) ∧ streamStep s.stream b = some t.stream)) := by
  cases e with
  | connected | disconnected =>
      obtain ⟨c, hc, rfl⟩ := consume_cases h
      obtain rfl := Option.some.inj hc
      exact Or.inr ⟨rfl, rfl, Or.inl rfl⟩
  | message topic payload =>
      obtain ⟨c, hc, rfl⟩ := consume_cases h
      obtain rfl := Option.some.inj hc
      rcases hcheck : checkMessage topic payload with reason | ⟨joint, field, sample⟩
      · rw [observe_rejected hcheck]
        refine Or.inr ⟨?_, rfl, Or.inl rfl⟩
        simp only [accepted, folded, hcheck]
      · rw [observe_accepted hcheck]
        exact Or.inl ⟨_, folded_message hcheck, rfl, rfl⟩
  | tick =>
      obtain ⟨hwindow, hstream | ⟨state, hbuild, hstream⟩⟩ := broadcast_cases h
      · exact Or.inr ⟨rfl, hwindow, Or.inl hstream⟩
      · exact Or.inr ⟨rfl, hwindow, Or.inr (Or.inl ⟨state, rfl, hbuild, hstream⟩)⟩
  | start id request | dequeue id | resume id | cancel id | advance now =>
      obtain ⟨hstream, hwindow⟩ := serve_cases h
      exact Or.inr ⟨rfl, hwindow, Or.inr (Or.inr ⟨_, by simp, hstream⟩)⟩

/-! ## The invariant -/

/-- A state was published at a tick of a run, where `build_state` made it of the window. -/
def BuiltIn (init : Service) (l : List ServiceEvent) (state : TwinState Double) : Prop :=
  ∃ before s, before ++ [.tick] <+: l ∧ Run serviceStep init before s ∧
    buildState s.consumer.assetName s.consumer.window s.consumer.rmsWindowS = .ok (some state)

/-- What was built in a run was built in its continuations. -/
theorem BuiltIn.mono {init : Service} {l l' : List ServiceEvent} {state : TwinState Double}
    (h : BuiltIn init l state) (hp : l <+: l') : BuiltIn init l' state := by
  obtain ⟨before, s, hbefore, hrun, hbuild⟩ := h
  exact ⟨before, s, hbefore.trans hp, hrun, hbuild⟩

/-- The stamps of states never go back. -/
def StampsForward (states : List (TwinState Double)) : Prop :=
  states.Pairwise fun before after => before.stampNs ≤ after.stampNs

omit [Pydantic] [CPython] in
/-- The last state has the newest stamp. -/
theorem StampsForward.le_getLast? {states : List (TwinState Double)} (h : StampsForward states)
    {state : TwinState Double} (hmem : state ∈ states) :
    ∃ latest, states.getLast? = some latest ∧ state.stampNs ≤ latest.stampNs := by
  obtain ⟨latest, hlast⟩ := Option.isSome_iff_exists.mp
    (List.getLast?_isSome.mpr (List.ne_nil_of_mem hmem))
  refine ⟨latest, hlast, ?_⟩
  obtain ⟨before, rfl⟩ := List.getLast?_eq_some_iff.mp hlast
  rcases List.mem_append.mp hmem with hmem | hmem
  · exact (List.pairwise_append.mp h).2.2 state hmem latest (List.mem_singleton_self latest)
  · rw [List.mem_singleton.mp hmem]

/-- What was published: it was built in the run, with stamps that never go back and do not pass
the stamp of the window. -/
structure Published (init : Service) (l : List ServiceEvent) (stampNs : ℕ)
    (states : List (TwinState Double)) : Prop where
  built : ∀ state ∈ states, BuiltIn init l state
  forward : StampsForward states
  le : ∀ state ∈ states, state.stampNs ≤ stampNs

/-- Steps that publish nothing, while the stamp of the window grows. -/
theorem Published.mono {init : Service} {l l' : List ServiceEvent} {stampNs stampNs' : ℕ}
    {states : List (TwinState Double)} (h : Published init l stampNs states) (hp : l <+: l')
    (hle : stampNs ≤ stampNs') : Published init l' stampNs' states where
  built state hmem := (h.built state hmem).mono hp
  forward := h.forward
  le state hmem := (h.le state hmem).trans hle

/-- One more state, with the stamp of the window. -/
theorem Published.concat {init : Service} {l : List ServiceEvent} {states : List (TwinState Double)}
    {state : TwinState Double} (h : Published init l state.stampNs states)
    (hbuilt : BuiltIn init l state) : Published init l state.stampNs (states ++ [state]) where
  built := by
    rw [List.forall_mem_append, List.forall_mem_singleton]
    exact ⟨h.built, hbuilt⟩
  forward := by
    refine List.pairwise_append.mpr ⟨h.forward, List.pairwise_singleton .., ?_⟩
    intro before hbefore after hafter
    rw [List.mem_singleton.mp hafter]
    exact h.le before hbefore
  le := by
    rw [List.forall_mem_append, List.forall_mem_singleton]
    exact ⟨h.le, le_rfl⟩

/-- The invariant of the process over its history: the window is the fold of the samples that were
accepted, and the servicer has a run of its own whose publications are those of the process. -/
structure ServiceInv (init : Service) (assetName : String) (windowNs : ℤ) (l : List ServiceEvent)
    (s : Service) : Prop where
  window : s.consumer.window =
    (RollingWindow.new windowNs ur5JointNames).observeAll (l.filterMap accepted)
  run : ∃ sl, Run streamStep (.init assetName) sl s.stream ∧
    Published init l s.consumer.window.stampNs (publications (hubEvents assetName sl))

omit [Pydantic] [CPython] in
/-- Only a publication is published. -/
theorem publications_hubEvents_concat {assetName : String}
    {sl : List (StreamEvent (TwinState Double))} {b : StreamEvent (TwinState Double)}
    (hb : ∀ state, b ≠ .publish state) :
    publications (hubEvents assetName (sl ++ [b])) = publications (hubEvents assetName sl) := by
  unfold hubEvents
  rw [List.filterMap_append]
  rcases hevent : hubEvent assetName b with _ | e
  · rw [List.filterMap_cons_none hevent, List.filterMap_nil, List.append_nil]
  · rw [List.filterMap_cons_some hevent, List.filterMap_nil]
    apply publications_concat
    rintro state rfl
    cases b with
    | publish state' => exact hb state' rfl
    | start id request =>
        simp only [hubEvent] at hevent
        split at hevent <;> cases hevent
    | _ => cases hevent

/-- The invariant holds after every run. -/
theorem serviceInv_of_run {assetName : String} {rmsWindowS : Double} {windowNs : ℤ}
    {l : List ServiceEvent} {s : Service}
    (h : Run serviceStep (.init assetName rmsWindowS windowNs) l s) :
    ServiceInv (.init assetName rmsWindowS windowNs) assetName windowNs l s := by
  apply h.history (I := ServiceInv (.init assetName rmsWindowS windowNs) assetName windowNs)
  · refine ⟨rfl, [], .nil, ?_, ?_, ?_⟩
    · exact fun state hmem => by cases hmem
    · exact List.Pairwise.nil
    · exact fun state hmem => by cases hmem
  · rintro l s e t hrun ⟨hwindow, sl, hsl, hpub⟩ hstep
    have hp : l <+: l ++ [e] := List.prefix_append ..
    rcases serviceStep_cases hstep with ⟨o, hacc, hstream, hobserve⟩ |
      ⟨hacc, hsame, hstream⟩
    · have hmem : o.joint ∈ s.consumer.window.joints := by
        rw [hwindow, RollingWindow.observeAll_joints]
        exact joint_of_accepted hacc
      refine ⟨?_, sl, hstream ▸ hsl, hpub.mono hp ?_⟩
      · rw [hobserve, List.filterMap_append, List.filterMap_cons_some hacc, List.filterMap_nil,
          RollingWindow.observeAll_concat, ← hwindow]
      · rw [hobserve, RollingWindow.observe_stampNs _ _ _ hmem]
        exact le_max_left ..
    · refine ⟨?_, ?_⟩
      · rw [hsame, hwindow, List.filterMap_append, List.filterMap_cons_none hacc,
          List.filterMap_nil, List.append_nil]
      rw [hsame]
      rcases hstream with hstream | ⟨state, rfl, hbuild, hstream⟩ | ⟨b, hb, hstream⟩
      · exact ⟨sl, hstream ▸ hsl, hpub.mono hp le_rfl⟩
      · refine ⟨sl ++ [.publish state], hsl.snoc hstream, ?_⟩
        have hstamp := stampNs_of_build hbuild
        have hall : publications (hubEvents assetName (sl ++ [.publish state])) =
            publications (hubEvents assetName sl) ++ [state] := by
          simp [hubEvents, hubEvent, publications]
        rw [hall, ← hstamp]
        exact (hpub.mono hp hstamp.ge).concat ⟨l, s, List.prefix_rfl, hrun, hbuild⟩
      · refine ⟨sl ++ [b], hsl.snoc hstream, ?_⟩
        rw [publications_hubEvents_concat hb]
        exact hpub.mono hp le_rfl

/-! ## The clients -/

/-- The maximum of the stamps of the samples. -/
def IsMaxStamp (obs : List (RollingWindow.Observation Double)) (stampNs : ℕ) : Prop :=
  (∃ o ∈ obs, o.sample.stampNs = stampNs) ∧ ∀ o ∈ obs, o.sample.stampNs ≤ stampNs

/-- A state that is built has the maximum of the stamps that were accepted. -/
theorem isMaxStamp_of_build {assetName : String} {rmsWindowS : Double} {windowNs : ℤ}
    {l : List ServiceEvent} {s : Service} {state : TwinState Double}
    (hinv : ServiceInv (.init assetName rmsWindowS windowNs) assetName windowNs l s)
    (hbuild : buildState s.consumer.assetName s.consumer.window s.consumer.rmsWindowS =
      .ok (some state)) : IsMaxStamp (l.filterMap accepted) state.stampNs := by
  have hjoints : ∀ o ∈ l.filterMap accepted, o.joint ∈ ur5JointNames := by
    intro o ho
    obtain ⟨e, -, hacc⟩ := List.mem_filterMap.mp ho
    exact joint_of_accepted hacc
  have hnewest : RollingWindow.IsNewestStamp (l.filterMap accepted)
      ((RollingWindow.new windowNs ur5JointNames).observeAll (l.filterMap accepted)).stampNs :=
    RollingWindow.isNewestStamp_new hjoints
  have hpan : "shoulder_pan_joint" ∈ ur5JointNames := by decide
  have hcomplete : s.consumer.window.Complete := (isSome_buildState_iff hbuild).mp rfl
  rw [hinv.window] at hcomplete
  obtain ⟨x, hx⟩ := Option.isSome_iff_exists.mp
    (hcomplete "shoulder_pan_joint" (by rwa [RollingWindow.observeAll_joints]) .position)
  obtain ⟨o, ho, -⟩ := RollingWindow.exists_observation_of_latest hpan rfl hx
  obtain ⟨snapshots, pose, -, -, -, rfl⟩ := buildState_some hbuild
  simp only
  rw [hinv.window]
  exact ⟨hnewest.exists_observation (List.ne_nil_of_mem ho), hnewest.1⟩

omit [Pydantic] in
/-- What a call yields, it yields in the order of publication. -/
theorem yielded_sublist {assetName : String} {sl : List (StreamEvent (TwinState Double))}
    {s : StreamSystem (TwinState Double)} (hrun : Run streamStep (.init assetName) sl s)
    {id : QueueId} {h : Handler (TwinState Double)} (hh : s.handlers id = some h) :
    h.yielded.Sublist (publications (hubEvents assetName sl)) := by
  obtain ⟨hinv, -⟩ := handlersInv_of_run hrun id h hh
  have hhub := hubInv_of_run (run_hub hrun)
  have htaken : h.yielded.Sublist (s.hub.taken id) := by
    rw [hinv.yielded, ← hinv.dequeued]
    exact List.filter_sublist.map _
  exact (htaken.trans (hhub.taken_sublist id)).trans (publishedTo_sublist id _)

/-- **Time does not run backwards for a client.** After every run of the process, the stamps of
what a call of `StreamState` has yielded never go back, `GetState` answers a state whose stamp none
of them passes, and each is the maximum of the stamps of the telemetry that was accepted before the
state was built. A run that ends with the yield tells this of the moment of the yield.
Source: `grpc_server.py`, `StateServicer`; `consumer.py`, `Consumer._broadcast_forever` -/
theorem stream_time_forward {assetName : String} {rmsWindowS : Double} {windowNs : ℤ}
    {l : List ServiceEvent} {s : Service}
    (hrun : Run serviceStep (.init assetName rmsWindowS windowNs) l s) {id : QueueId}
    {h : Handler (TwinState Double)} (hh : s.handlers id = some h) :
    StampsForward h.yielded ∧
      ∀ state ∈ h.yielded,
        (∃ latest, getState s.consumer.hub assetName = .ok latest ∧
          state.stampNs ≤ latest.stampNs) ∧
        ∃ before s₀, before ++ [.tick] <+: l ∧
          Run serviceStep (.init assetName rmsWindowS windowNs) before s₀ ∧
          buildState s₀.consumer.assetName s₀.consumer.window s₀.consumer.rmsWindowS =
            .ok (some state) ∧
          IsMaxStamp (before.filterMap accepted) state.stampNs := by
  obtain ⟨-, sl, hsl, hpub⟩ := serviceInv_of_run hrun
  have hsub := yielded_sublist hsl hh
  refine ⟨hpub.forward.sublist hsub, ?_⟩
  intro state hmem
  have hstate := hsub.subset hmem
  constructor
  · obtain ⟨latest, hlast, hle⟩ := hpub.forward.le_getLast? hstate
    refine ⟨latest, ?_, hle⟩
    have hlatest : s.consumer.hub.latest = some latest :=
      (hubInv_of_run (run_hub hsl)).latest.trans hlast
    have hasset : s.consumer.hub.asset = assetName := asset_of_run hsl
    unfold getState checkAsset
    rw [hasset, if_neg (fun hne => hne.2 rfl), hlatest]
    rfl
  · obtain ⟨before, s₀, hp, hrun₀, hbuild⟩ := hpub.built state hstate
    exact ⟨before, s₀, hp, hrun₀, hbuild, isMaxStamp_of_build (serviceInv_of_run hrun₀) hbuild⟩

end process

/-! ### A round that reaches a call -/

section round

variable [CPython]

/-- A round of the broadcast loop over a marked window publishes what is built of it. -/
theorem broadcast_of_build {s : Service} (hbroadcasting : s.broadcasting = true)
    (hdirty : s.consumer.dirty = true) (hsound : s.consumer.hub.Sound) {state : TwinState Double}
    (hbuild : buildState s.consumer.assetName s.consumer.window s.consumer.rmsWindowS =
      .ok (some state)) :
    ∃ t, s.broadcast = some t ∧ t.broadcasting = true ∧ t.handlers = s.handlers ∧
      t.clock = s.clock ∧ t.consumer.window = s.consumer.window ∧
      ∀ id ∈ s.consumer.hub.subscribers, t.consumer.hub.queues id = some ⟨1, [state]⟩ := by
  obtain ⟨hub, hpublish, hqueues⟩ : ∃ hub, s.consumer.hub.publish state = .ok hub ∧
      ∀ id ∈ s.consumer.hub.subscribers, hub.queues id = some ⟨1, [state]⟩ :=
    ⟨_, publish_ok hsound state, fun id hid => if_pos hid⟩
  obtain ⟨c, htick, hwindow, rfl⟩ : ∃ c, s.consumer.tick = .ok c ∧
      c.window = s.consumer.window ∧ c.hub = hub := by
    simp [Consumer.tick, hdirty, hbuild, hpublish]
  have hstep : s.broadcast = some { s with consumer := c } := by
    simp only [Service.broadcast, if_pos hbroadcasting, htick]
  exact ⟨_, hstep, hbroadcasting, rfl, rfl, hwindow, hqueues⟩

/-- A call takes the state in its mailbox, yields it where the rate limiter lets it through, and
waits again. -/
theorem exists_pass [Pydantic] {s : Service} {id : QueueId} {h : Handler (TwinState Double)}
    (hh : s.handlers id = some h) (hwaiting : h.phase = .waiting) {state : TwinState Double}
    (hqueue : s.consumer.hub.queues id = some ⟨1, [state]⟩)
    (hpass : ¬ (⟨state, s.clock, h.lastSent⟩ : Dequeue (TwinState Double)).Dropped
      h.minInterval) :
    ∃ t h', Run serviceStep s [.dequeue id, .resume id] t ∧ t.handlers id = some h' ∧
      h'.phase = .waiting ∧ h'.minInterval = h.minInterval ∧ h'.yielded = h.yielded ++ [state] ∧
      t.broadcasting = s.broadcasting ∧ t.consumer.window = s.consumer.window := by
  obtain ⟨hub, htake⟩ : ∃ hub, s.stream.hub.hub.take id = some (state, hub) := by
    simp [Service.stream, StateHub.take, hqueue, Queue.getNowait]
  have hreceive : h.receive state s.clock =
      { h with
        lastSent := .finite s.clock
        phase := .yielding
        dequeued := h.dequeued ++ [⟨state, s.clock, h.lastSent⟩]
        yielded := h.yielded ++ [state] } := if_neg hpass
  have hdequeue : serviceStep s (.dequeue id) = some _ :=
    congrArg (Option.map s.withStream) (streamStep_dequeue hh hwaiting htake)
  have hyielding := Function.update_self id (some (h.receive state s.clock)) s.handlers
  have hresume : ∀ t, t.handlers id = some (h.receive state s.clock) →
      serviceStep t (.resume id) = some { t with
        handlers := Function.update t.handlers id
          (some { h.receive state s.clock with phase := .waiting }) } := by
    intro t ht
    simp only [serviceStep, Service.serve, streamStep, Service.stream, ht]
    rw [hreceive]
    rfl
  refine ⟨_, _, (Run.nil.snoc hdequeue).snoc (hresume _ hyielding), Function.update_self .., rfl,
    ?_, ?_, rfl, rfl⟩
  · rw [hreceive]
  · rw [hreceive]

/-- A call without a rate waits for a state, and the broadcast loop runs. -/
structure Attends (s : Service) (id : QueueId) (h : Handler (TwinState Double)) : Prop where
  broadcasting : s.broadcasting = true
  handler : s.handlers id = some h
  waiting : h.phase = .waiting
  uncapped : h.minInterval = .finite Double.zero

/-- **A round reaches a call.** What is built of a marked window is published, taken from the
mailbox of the call and yielded, and the call waits again. -/
theorem exists_round [Pydantic] {assetName : String} {rmsWindowS : Double} {windowNs : ℤ}
    {l : List ServiceEvent} {s : Service}
    (hrun : Run serviceStep (.init assetName rmsWindowS windowNs) l s) {id : QueueId}
    {h : Handler (TwinState Double)} (hcall : Attends s id h) (hdirty : s.consumer.dirty = true)
    {state : TwinState Double}
    (hbuild : buildState s.consumer.assetName s.consumer.window s.consumer.rmsWindowS =
      .ok (some state)) :
    ∃ t h', Run serviceStep s [.tick, .dequeue id, .resume id] t ∧ Attends t id h' ∧
      h'.yielded = h.yielded ++ [state] ∧ t.consumer.window = s.consumer.window := by
  obtain ⟨-, sl, hsl, -⟩ := serviceInv_of_run hrun
  obtain ⟨hinv, hsubscribed⟩ := handlersInv_of_run hsl id h hcall.handler
  have hid : id ∈ s.consumer.hub.subscribers := hsubscribed (by simp [hcall.waiting])
  obtain ⟨u, htick, hbroadcasting, hhandlers, hclock, hwindow, hqueues⟩ := broadcast_of_build
    hcall.broadcasting hdirty (hubInv_of_run (run_hub hsl)).sound hbuild
  have hpass : ¬ (⟨state, u.clock, h.lastSent⟩ : Dequeue (TwinState Double)).Dropped
      h.minInterval := by
    rw [hcall.uncapped, hclock]
    exact Double.not_sub_lt_zero hinv.past
  obtain ⟨t, h', hpassed, hh', hwaiting, hinterval, hyielded, hstays, hsame⟩ :=
    exists_pass (hhandlers ▸ hcall.handler) hcall.waiting (hqueues id hid) hpass
  have hrounds : Run serviceStep s [.tick] u := Run.nil.snoc htick
  refine ⟨t, h', hrounds.append hpassed, ?_, hyielded, hsame.trans hwindow⟩
  exact ⟨hstays.trans hbroadcasting, hh', hwaiting, hinterval.trans hcall.uncapped⟩

end round

/-! ### A call that yields -/

section lift

variable [Pydantic] [CPython]

/-- A message of the consumer as one of the process. -/
def messageEvent : Event → Option ServiceEvent
  | .message topic payload => some (.message topic payload)
  | _ => none

/-- Messages that the consumer accepts are a run of the process. -/
theorem run_messages {l : List Event} (h : ∀ e ∈ l, (folded e).isSome = true) {s : Service}
    {c : Consumer} (hrun : Run State.step s.consumer l c) :
    Run serviceStep s (l.filterMap messageEvent) { s with consumer := c } := by
  induction l using List.reverseRecOn generalizing c with
  | nil =>
      rw [hrun.nil_inv]
      exact .nil
  | append_singleton l e ih =>
      rw [List.forall_mem_append, List.forall_mem_singleton] at h
      obtain ⟨c', hrun', hstep⟩ := hrun.snoc_inv
      cases e with
      | message topic payload =>
          rw [List.filterMap_append]
          apply (ih h.1 hrun').snoc
          obtain rfl := Option.some.inj hstep
          rfl
      | _ => cases h.2

/-- **Accepted messages and a round reach a call.** -/
theorem exists_served {assetName : String} {rmsWindowS : Double} {windowNs : ℤ}
    {l : List ServiceEvent} {s : Service}
    (hrun : Run serviceStep (.init assetName rmsWindowS windowNs) l s) {id : QueueId}
    {h : Handler (TwinState Double)} (hcall : Attends s id h) {m : List Event} (hne : m ≠ [])
    (hm : ∀ e ∈ m, (folded e).isSome = true) {w : RollingWindow Double}
    (hw : s.consumer.window.observeAll (m.filterMap folded) = w) (hcomplete : w.Complete)
    (hfinite : ¬ InfinitePosition w) (hstamp : w.stampNs < uint64Limit) :
    ∃ t h' state, Run serviceStep s
        (m.filterMap messageEvent ++ [.tick, .dequeue id, .resume id]) t ∧
      Attends t id h' ∧ h'.yielded = h.yielded ++ [state] ∧ state.stampNs = w.stampNs ∧
      t.consumer.window = w := by
  obtain ⟨c, hconsumed, hdirty, -, hwindow⟩ := run_accepted hm s.consumer
  rw [hw] at hwindow
  obtain rfl := hwindow
  have hmessages := hrun.append (run_messages hm hconsumed)
  have hjoints : c.window.joints = ur5JointNames := by
    rw [(serviceInv_of_run hmessages).window, RollingWindow.observeAll_joints]
    rfl
  have hpositions := (finitePositions_iff_not_infinite hjoints).mpr hfinite
  have hbuilds : _ → ∃ state, buildState c.assetName c.window c.rmsWindowS = .ok (some state) :=
    (buildState_of_complete hcomplete (congrArg List.length hjoints)).1
  obtain ⟨state, hbuild⟩ := hbuilds ⟨hpositions, hstamp⟩
  have hattends : Attends { s with consumer := c } id h :=
    ⟨hcall.broadcasting, hcall.handler, hcall.waiting, hcall.uncapped⟩
  obtain ⟨t, h', hround, hattends', hyielded, hsame⟩ :=
    exists_round hmessages hattends (hdirty hne) hbuild
  exact ⟨t, h', state, (run_messages hm hconsumed).append hround, hattends', hyielded,
    stampNs_of_build hbuild, hsame⟩

end lift

section platform

attribute [local instance] CPython.series Pydantic.decimal

open Lib.Json

/-- The report with the arm at zero. -/
def zeroReport : List Event := reportEvents (.num (.ofNat 0)) (.finite Double.zero)

/-- A process with one call, which has no rate. -/
def calledService : Service :=
  { Service.init "ur5" (PyFloat.lit 2) 2000000000 with
    consumer := { reportInit with hub := reportInit.hub.subscribe 0 }
    handlers := Function.update (fun _ => none) 0 (some (.new (.finite Double.zero))) }

/-- A service with one call. -/
theorem run_calledService :
    Run serviceStep (.init "ur5" (PyFloat.lit 2) 2000000000) [.start 0 ⟨"", .finite Double.zero⟩]
      calledService := by
  apply Run.of_exec
  simp only [exec, serviceStep, Service.serve, streamStep, minInterval_zero]
  rfl

/-- The call waits on its empty mailbox, with no rate limit. -/
theorem attends_calledService : Attends calledService 0 (.new (.finite Double.zero)) :=
  ⟨rfl, rfl, rfl, rfl⟩

/-- The window after the report. -/
def zeroWindow : RollingWindow Double := reportWindow (.num (.ofNat 0)) (.finite Double.zero)

/-- The first joint state has the stamp 1. -/
theorem stampNs_zeroWindow : zeroWindow.stampNs = 1 := by
  apply le_antisymm
  · apply RollingWindow.stampNs_observeAll_le
    intro o ho
    obtain ⟨d, hd, rfl⟩ := List.mem_map.mp ho
    exact (mem_report hd).1.le
  · have hfirst : (⟨"shoulder_pan_joint", .position, .new (.finite Double.zero) 1⟩ :
        RollingWindow.Observation Double) ∈
          (report (.num (.ofNat 0)) (.finite Double.zero)).map Prod.snd := by
      simp [report, ur5JointNames, JointField.members]
    have hwindow : reportInit.window = RollingWindow.new 2000000000 ur5JointNames := rfl
    rw [zeroWindow, reportWindow, hwindow]
    exact RollingWindow.le_stampNs_observeAll hfirst (by decide)

/-- The report reaches the call. -/
theorem exists_served_report :
    ∃ l s h first, Run serviceStep (.init "ur5" (PyFloat.lit 2) 2000000000) l s ∧ Attends s 0 h ∧
      h.yielded = [first] ∧ first.stampNs = 1 ∧ s.consumer.window = zeroWindow := by
  have hzero := checkFloat_ofNat_zero
  have hwindow : calledService.consumer.window.observeAll (zeroReport.filterMap folded) =
      zeroWindow := congrArg reportInit.window.observeAll (filterMap_folded_report hzero)
  have hstamp : zeroWindow.stampNs < uint64Limit := by
    rw [stampNs_zeroWindow]
    decide
  obtain ⟨s, h, first, hrun, hattends, hyielded, hfirst, hsame⟩ :=
    exists_served run_calledService attends_calledService report_ne_nil
      (isSome_folded_report hzero) hwindow complete_report (not_infinitePosition_report rfl) hstamp
  exact ⟨_, s, h, first, run_calledService.append hrun, hattends, hyielded,
    hfirst.trans stampNs_zeroWindow, hsame⟩

/-- A newer position of the elbow. -/
def laterElbow : Event :=
  .message (telemetryTopic "ur5" "elbow_joint" .position)
    (.ofText (dumpJson (JointTelemetry.legacyMembers (.num (.ofNat 0)) 2)))

/-- The elbow's later position is accepted. -/
theorem folded_laterElbow :
    folded laterElbow = some ⟨"elbow_joint", .position, .new (.finite Double.zero) 2⟩ :=
  folded_message (checkMessage_telemetryTopic (by decide) (by decide) .position
    (JointTelemetry.validate_legacy checkFloat_ofNat_zero 2))

/-- The window after the report and the newer position. -/
def laterWindow : RollingWindow Double :=
  zeroWindow.observe "elbow_joint" .position (.new (.finite Double.zero) 2)

/-- The later position takes the window to the stamp 2. -/
theorem stampNs_laterWindow : laterWindow.stampNs = 2 := by
  have helbow : "elbow_joint" ∈ zeroWindow.joints := by
    rw [zeroWindow, reportWindow, RollingWindow.observeAll_joints]
    decide
  rw [laterWindow, RollingWindow.observe_stampNs _ _ _ helbow, stampNs_zeroWindow]
  rfl

/-- No position of the later window is infinite. -/
theorem not_infinitePosition_laterWindow : ¬ InfinitePosition laterWindow := by
  rintro ⟨joint, hjoint, sign, hsign⟩
  have helbow : "elbow_joint" ∈ zeroWindow.joints := by
    rw [zeroWindow, reportWindow, RollingWindow.observeAll_joints]
    decide
  rw [laterWindow, RollingWindow.observe_latest _ _ _ helbow, Function.update_apply] at hsign
  split_ifs at hsign
  · cases hsign
  · exact not_infinitePosition_report rfl ⟨joint, hjoint, sign, hsign⟩

/-- The newer position reaches a call that the report has reached. -/
theorem exists_served_later {l : List ServiceEvent} {s : Service}
    (hrun : Run serviceStep (.init "ur5" (PyFloat.lit 2) 2000000000) l s)
    {h : Handler (TwinState Double)} (hattends : Attends s 0 h)
    (hwindow : s.consumer.window = zeroWindow) :
    ∃ l' t h' second, Run serviceStep s l' t ∧ Attends t 0 h' ∧
      h'.yielded = h.yielded ++ [second] ∧ second.stampNs = 2 := by
  have hfolded : [laterElbow].filterMap folded =
      [⟨"elbow_joint", .position, .new (.finite Double.zero) 2⟩] := by
    rw [List.filterMap_cons_some folded_laterElbow, List.filterMap_nil]
  have hsome : ∀ e ∈ [laterElbow], (folded e).isSome = true := by
    intro e he
    rw [List.mem_singleton.mp he, folded_laterElbow]
    rfl
  have hlater : s.consumer.window.observeAll ([laterElbow].filterMap folded) = laterWindow := by
    rw [hfolded, hwindow]
    rfl
  have hcomplete : laterWindow.Complete := RollingWindow.Complete.observe complete_report _ _ _
  have hstamp : laterWindow.stampNs < uint64Limit := by
    rw [stampNs_laterWindow]
    decide
  obtain ⟨t, h', second, hserved, hattends', hyielded, hsecond, -⟩ :=
    exists_served hrun hattends (List.cons_ne_nil _ _) hsome hlater hcomplete
      not_infinitePosition_laterWindow hstamp
  exact ⟨_, t, h', second, hserved, hattends', hyielded, hsecond.trans stampNs_laterWindow⟩

/-- A call yields two states, the second of a newer message. -/
theorem stream_time_forward_report :
    ∃ l s h first second latest,
      Run serviceStep (.init "ur5" (PyFloat.lit 2) 2000000000) l s ∧ s.handlers 0 = some h ∧
      h.yielded = [first, second] ∧ first.stampNs = 1 ∧ second.stampNs = 2 ∧
      StampsForward h.yielded ∧
      getState s.consumer.hub "ur5" = .ok latest ∧ second.stampNs ≤ latest.stampNs ∧
      ∃ before, before ++ [.tick] <+: l ∧
        IsMaxStamp (before.filterMap accepted) second.stampNs := by
  obtain ⟨l, s, h, first, hrun, hattends, hyielded, hfirst, hwindow⟩ := exists_served_report
  obtain ⟨l', t, h', second, hrun', hattends', hyielded', hsecond⟩ :=
    exists_served_later hrun hattends hwindow
  rw [hyielded] at hyielded'
  have hreach := hrun.append hrun'
  obtain ⟨hforward, hstates⟩ := stream_time_forward hreach hattends'.handler
  obtain ⟨⟨latest, hget, hle⟩, before, -, hp, -, -, hmax⟩ :=
    hstates second (hyielded' ▸ List.mem_cons_of_mem _ (List.mem_singleton_self second))
  exact ⟨_, t, h', first, second, latest, hreach, hattends'.handler, hyielded', hfirst, hsecond,
    hforward, hget, hle, before, hp, hmax⟩

end platform

end TwinServices.State
