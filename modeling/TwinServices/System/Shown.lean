import TwinServices.State.Accuracy
import TwinServices.System.Pipeline
import TwinServices.System.TelemetryPath

/-!
# What a browser shows

A browser shows the frames of states that state-svc published, in their order.

* `ShowsArm`: what a frame says of the arm.
* `browser_shows_published`: what a browser shows is what state-svc published, and time does not
  run backwards.
* `run_shownPipeline`: a browser that is served two joint states of an arm that turns.
-/

set_option autoImplicit false

namespace TwinServices.System

open TwinServices.Python TwinServices.Contracts TwinServices.Viz
open Lib.Transition Lib.Binary64

section shown

variable [CPython] [Pydantic] [FloatRepr]
variable {asset assetName : String} {rmsWindowS : Double} {windowNs : ℤ} {l : List PipelineEvent}
  {p : Pipeline}

omit [Pydantic] in
/-- What the browser reads from a text is the frame of the state. -/
theorem toFrame_of_onMessage {state : State.TwinState Double} {text : String}
    {frame : TwinFrame Double} (htext : toFrameText state = .ok text)
    (hread : onMessage text = some frame) : toFrame state = .ok frame := by
  obtain ⟨frame', hframe, heq⟩ := bind_eq_ok_iff.mp htext
  obtain rfl := Except.ok.inj heq
  obtain ⟨-, rfl⟩ := onMessage_dumps_iff.mp hread
  exact hframe

omit [Pydantic] in
/-- The frames that the browser has shown are those of states that were handed over, in order. -/
theorem exists_states_of_shown {received : List (State.TwinState Double)}
    {sent arrived : List String}
    (hsent : List.Forall₂ (fun state text => toFrameText state = .ok text) received sent)
    (harrived : arrived <+: sent) :
    ∃ states, states.Sublist received ∧
      List.Forall₂ (fun frame state => toFrame state = .ok frame)
        (arrived.filterMap onMessage) states := by
  induction hsent generalizing arrived with
  | nil =>
      rw [List.prefix_nil.mp harrived]
      exact ⟨[], List.Sublist.refl _, .nil⟩
  | @cons state text received sent htext hrest ih =>
      rcases List.prefix_cons_iff.mp harrived with rfl | ⟨arrived', rfl, harrived'⟩
      · exact ⟨[], List.nil_sublist _, .nil⟩
      · obtain ⟨states, hsub, hframes⟩ := ih harrived'
        rcases hread : onMessage text with _ | frame
        · rw [List.filterMap_cons_none hread]
          exact ⟨states, hsub.cons state, hframes⟩
        · rw [List.filterMap_cons_some hread]
          exact ⟨state :: states, hsub.cons_cons state,
            .cons (toFrame_of_onMessage htext hread) hframes⟩

omit [Pydantic] [FloatRepr] in
/-- What a frame says, and the stamp of the state in milliseconds. -/
theorem toFrame_eq_ofState {state : State.TwinState Double} {frame : TwinFrame Double}
    (h : toFrame state = .ok frame) :
    frame = .ofState state frame.stampMs ∧
      PyFloat.truediv (PyFloat.lit state.stampNs) (PyFloat.lit 1000000) = .ok frame.stampMs := by
  obtain ⟨stampMs, hstamp, heq⟩ := bind_eq_ok_iff.mp h
  obtain rfl := Except.ok.inj heq
  exact ⟨rfl, hstamp⟩

omit [Pydantic] [FloatRepr] in
/-- A later stamp is not before an earlier one in milliseconds either, although it is rounded. -/
theorem not_stampMs_lt {state state' : State.TwinState Double} {frame frame' : TwinFrame Double}
    (h : toFrame state = .ok frame) (h' : toFrame state' = .ok frame')
    (hle : state.stampNs ≤ state'.stampNs) : ¬ frame'.stampMs < frame.stampMs := by
  obtain ⟨-, hstamp⟩ := toFrame_eq_ofState h
  obtain ⟨-, hstamp'⟩ := toFrame_eq_ofState h'
  have hmillion : (PyFloat.lit 1000000 : Double) = .finite (Double.nat 1000000 (by norm_num)) := by
    exact_mod_cast Double.ofRat_natCast (n := 1000000) (by norm_num)
  rw [hmillion] at hstamp hstamp'
  refine Double.not_div_lt_div ?_ (Double.not_ofRat_lt_ofRat ?_) (div_of_truediv hstamp)
    (div_of_truediv hstamp')
  · simp [Double.nat]
  · exact_mod_cast hle

omit [CPython] [Pydantic] [FloatRepr] in
/-- An entry of one list has its counterpart in the other one. -/
theorem exists_of_mem_forall₂ {α β : Type} {R : α → β → Prop} {xs : List α} {ys : List β}
    (h : List.Forall₂ R xs ys) {x : α} (hx : x ∈ xs) : ∃ y ∈ ys, R x y := by
  induction h with
  | nil => cases hx
  | @cons a b xs ys hab hrest ih =>
      rcases List.mem_cons.mp hx with rfl | hx
      · exact ⟨b, List.mem_cons_self .., hab⟩
      · obtain ⟨y, hy, hxy⟩ := ih hx
        exact ⟨y, List.mem_cons_of_mem _ hy, hxy⟩

omit [Pydantic] [FloatRepr] in
/-- So frames of states whose stamps do not go back do not go back. -/
theorem pairwise_stampMs {frames : List (TwinFrame Double)} {states : List (State.TwinState Double)}
    (h : List.Forall₂ (fun frame state => toFrame state = .ok frame) frames states)
    (hforward : State.StampsForward states) :
    frames.Pairwise fun before after => ¬ after.stampMs < before.stampMs := by
  induction h with
  | nil => exact List.Pairwise.nil
  | @cons frame state frames states hframe hrest ih =>
      obtain ⟨hfirst, hforward⟩ := List.pairwise_cons.mp hforward
      refine List.pairwise_cons.mpr ⟨fun frame' hframe' => ?_, ih hforward⟩
      obtain ⟨state', hstate', hto⟩ := exists_of_mem_forall₂ hrest hframe'
      exact not_stampMs_lt hframe hto (hfirst state' hstate')

/-- What a frame shows: the joints of the arm in their order, the pose where forward kinematics
takes their angles, and angles that were observed. -/
structure ShowsArm (obs : List (State.RollingWindow.Observation Double))
    (frame : TwinFrame Double) : Prop where
  joints : frame.joints.map JointFrame.name = ur5JointNames
  pose : ∃ pose, State.forward (frame.joints.map JointFrame.positionRad) = .ok pose ∧
    frame.ee = ⟨(pose.x, pose.y, pose.z), (pose.qx, pose.qy, pose.qz, pose.qw)⟩
  observed : ∀ joint ∈ frame.joints, ∃ o ∈ obs, o.joint = joint.name ∧ o.field = .position ∧
    o.sample.value = joint.positionRad

omit [FloatRepr] in
/-- The frame of a state that was built shows the arm. -/
theorem showsArm_of_build {sl : List State.ServiceEvent} {s : State.Service}
    (h : Run State.serviceStep (.init assetName rmsWindowS windowNs) sl s)
    {state : State.TwinState Double} {frame : TwinFrame Double}
    (hbuild : State.buildState s.consumer.assetName s.consumer.window s.consumer.rmsWindowS =
      .ok (some state)) (hframe : toFrame state = .ok frame) :
    ShowsArm (sl.filterMap State.accepted) frame := by
  have hwell := State.wellFormed_of_build h hbuild
  obtain ⟨heq, -⟩ := toFrame_eq_ofState hframe
  have hjoints : frame.joints = state.joints.map JointFrame.ofState := congrArg TwinFrame.joints heq
  refine ⟨?_, ⟨state.endEffector, ?_, congrArg TwinFrame.ee heq⟩, ?_⟩
  · rw [hjoints, List.map_map]
    exact hwell.joints
  · rw [hjoints, List.map_map]
    exact hwell.pose
  · intro joint hjoint
    obtain ⟨entry, hentry, rfl⟩ := List.mem_map.mp (hjoints ▸ hjoint)
    obtain ⟨snapshots, pose, hsnap, -, -, rfl⟩ := State.buildState_some hbuild
    obtain ⟨snap, hmem, rfl⟩ := List.mem_map.mp hentry
    obtain ⟨hname, hentryOf⟩ := State.RollingWindow.entryOf_of_mem hsnap hmem
    have hlatest := hentryOf.latest .position
    rw [(State.serviceInv_of_run h).window] at hname hlatest
    rw [State.RollingWindow.observeAll_joints] at hname
    obtain ⟨o, ho, hjoint, hfield, hvalue⟩ :=
      State.RollingWindow.exists_observation_of_latest hname rfl hlatest
    exact ⟨o, ho, hjoint, hfield, hvalue⟩

/-- What a browser has shown are frames of states that state-svc built, in order. -/
theorem exists_built_of_run
    (h : Run (pipelineStep asset) (.init assetName rmsWindowS windowNs) l p) {tab : Tab}
    (htab : tab ∈ p.tabs) :
    ∃ states, List.Forall₂ (fun frame state => toFrame state = .ok frame) tab.shown states ∧
      State.StampsForward states ∧ ∀ state ∈ states,
        State.BuiltIn (.init assetName rmsWindowS windowNs) (l.filterMap (serviceEvent asset))
          state := by
  have hinv := tabInv_of_run h htab
  obtain ⟨-, sl, hsl, hpub⟩ := State.serviceInv_of_run (serviceRuns_of_run h).service
  obtain ⟨states, hsub, hframes⟩ := exists_states_of_shown hinv.sent hinv.arrived
  have hpublished : states.Sublist (State.publications (State.hubEvents assetName sl)) := by
    rcases hcall : tab.call with _ | id
    · rw [hinv.idle hcall] at hsub
      exact hsub.trans (List.nil_sublist _)
    · obtain ⟨handler, hhandler, -, hp⟩ := hinv.call id hcall
      exact hsub.trans (hp.sublist.trans (State.yielded_sublist hsl hhandler))
  exact ⟨states, hframes, hpub.forward.sublist hpublished,
    fun state hstate => hpub.built state (hpublished.subset hstate)⟩

/-- **A browser shows what was published.** After every run of state-svc and viz-svc with any number
of browsers, the frames that a browser has shown are, one by one and in order, those of states that
state-svc built of its telemetry, with stamps that never go back, neither in nanoseconds nor in the
milliseconds of the frame. Each shows the joints of the arm at angles that were observed, and the
marker where forward kinematics takes these angles. Source: `stream.py`, `to_frame`,
`StateStream.frames`; `app.py`, `ws_state`; `useTwinState.ts`; `grpc_server.py`, `StateServicer` -/
theorem browser_shows_published
    (h : Run (pipelineStep asset) (.init assetName rmsWindowS windowNs) l p) {tab : Tab}
    (htab : tab ∈ p.tabs) :
    let events := l.filterMap (serviceEvent asset)
    (∃ states, List.Forall₂ (fun frame state => toFrame state = .ok frame) tab.shown states ∧
      State.StampsForward states ∧
      ∀ state ∈ states, State.BuiltIn (.init assetName rmsWindowS windowNs) events state) ∧
    (tab.shown.Pairwise fun before after => ¬ after.stampMs < before.stampMs) ∧
    ∀ frame ∈ tab.shown, ShowsArm (events.filterMap State.accepted) frame := by
  intro events
  obtain ⟨states, hframes, hforward, hbuilt⟩ := exists_built_of_run h htab
  refine ⟨⟨states, hframes, hforward, hbuilt⟩, pairwise_stampMs hframes hforward, ?_⟩
  intro frame hframe
  obtain ⟨state, hstate, hto⟩ := exists_of_mem_forall₂ hframes hframe
  obtain ⟨before, s, hp, hrun, hbuild⟩ := hbuilt state hstate
  obtain ⟨hjoints, hpose, hobserved⟩ := showsArm_of_build hrun hbuild hto
  refine ⟨hjoints, hpose, fun joint hjoint => ?_⟩
  obtain ⟨o, ho, hrest⟩ := hobserved joint hjoint
  exact ⟨o, (((List.prefix_append ..).trans hp).filterMap _).subset ho, hrest⟩

/-- Every float of a frame that a browser shows is finite. -/
theorem finite_of_shown (h : Run (pipelineStep asset) (.init assetName rmsWindowS windowNs) l p)
    {tab : Tab} (htab : tab ∈ p.tabs) {frame : TwinFrame Double} (hframe : frame ∈ tab.shown) :
    frame.Finite := by
  have hinv := tabInv_of_run h htab
  obtain ⟨text, htext, hread⟩ := List.mem_filterMap.mp hframe
  obtain ⟨state, -, hstate⟩ :=
    exists_of_mem_forall₂ hinv.sent.flip (hinv.arrived.subset htext)
  obtain ⟨frame', -, heq⟩ := bind_eq_ok_iff.mp hstate
  obtain rfl := Except.ok.inj heq
  obtain ⟨hfinite, rfl⟩ := onMessage_dumps_iff.mp hread
  exact hfinite

omit [CPython] [Pydantic] [FloatRepr] in
/-- The last entries of two lists of counterparts. -/
theorem exists_concat_of_forall₂ {α β : Type} {R : α → β → Prop} {xs : List α} {x : α}
    {ys : List β} (h : List.Forall₂ R (xs ++ [x]) ys) : ∃ ys' y, ys = ys' ++ [y] ∧ R x y := by
  induction xs generalizing ys with
  | nil =>
      cases h with
      | cons hxy hrest =>
          cases hrest
          exact ⟨[], _, rfl, hxy⟩
  | cons a xs ih =>
      cases h with
      | cons hab hrest =>
          obtain ⟨ys', y, rfl, hxy⟩ := ih hrest
          exact ⟨_ :: ys', y, rfl, hxy⟩

omit [Pydantic] in
/-- The last state that was handed over is shown, if it is finite. -/
theorem getLast?_shown {received : List (State.TwinState Double)} {sent : List String}
    (h : List.Forall₂ (fun state text => toFrameText state = .ok text) received sent)
    {state : State.TwinState Double} (hlast : received.getLast? = some state)
    (hstamp : state.stampNs < State.uint64Limit) (hfinite : FiniteState state) :
    ∃ frame, toFrame state = .ok frame ∧ (sent.filterMap onMessage).getLast? = some frame := by
  obtain ⟨before, rfl⟩ := List.getLast?_eq_some_iff.mp hlast
  obtain ⟨texts, text, rfl, htext⟩ := exists_concat_of_forall₂ h
  obtain ⟨stampMs, hms, hframe⟩ := toFrame_double hstamp
  obtain ⟨frame, hframe', heq⟩ := bind_eq_ok_iff.mp htext
  obtain rfl := Except.ok.inj (hframe.symm.trans hframe')
  obtain rfl := Except.ok.inj heq
  have hread := onMessage_dumps_iff.mpr ⟨(finite_ofState_iff hms).mpr hfinite, rfl⟩
  refine ⟨_, hframe, ?_⟩
  rw [List.filterMap_append, List.filterMap_cons_some hread]
  simp

end shown

/-! ### Two joint states -/

/-- Two joint states of the arm, a nanosecond apart: every joint at one radian, turning at one
radian per second. -/
def turning : List (Bridge.JointStateMessage Double) :=
  [allEqual Double.one 1, allEqual Double.one 2]

/-- What the bridge sends of them. -/
def turningSamples : List (String × JointTelemetry Double) :=
  turning.flatMap (Bridge.samples "ur5")

/-- What state-svc observes of them. -/
def turningObservations : List (State.RollingWindow.Observation Double) :=
  [1, 2].flatMap fun stamp => ur5JointNames.flatMap fun joint => JointField.members.map fun field =>
    ⟨joint, field, .new (.finite Double.one) stamp⟩

/-- The window before them. -/
def emptyWindow : State.RollingWindow Double := State.RollingWindow.new 2000000000 ur5JointNames

/-- The window after them. -/
def turningWindow : State.RollingWindow Double := emptyWindow.observeAll turningObservations

/-- The state was built of them. -/
def BuiltOfTurning [CPython] (state : State.TwinState Double) : Prop :=
  ∃ name rms, State.buildState name turningWindow rms = .ok (some state)

/-- The observations are one for each channel and each of the two stamps. -/
theorem mem_turningObservations {o : State.RollingWindow.Observation Double} :
    o ∈ turningObservations ↔ ∃ stamp ∈ [1, 2], ∃ joint ∈ ur5JointNames, ∃ field,
      o = ⟨joint, field, .new (.finite Double.one) stamp⟩ := by
  unfold turningObservations
  simp only [List.mem_flatMap, List.mem_map]
  constructor
  · rintro ⟨stamp, hstamp, joint, hjoint, field, -, rfl⟩
    exact ⟨stamp, hstamp, joint, hjoint, field, rfl⟩
  · rintro ⟨stamp, hstamp, joint, hjoint, field, rfl⟩
    exact ⟨stamp, hstamp, joint, hjoint, field, JointField.mem_members field, rfl⟩

/-- The samples are those observations under their topics. -/
theorem turningSamples_eq : turningSamples =
    turningObservations.map fun o => (telemetryTopic "ur5" o.joint o.field, o.sample) := rfl

/-- The joints of the turning window are those of the arm. -/
theorem joints_turningWindow : turningWindow.joints = ur5JointNames := by
  unfold turningWindow
  rw [State.RollingWindow.observeAll_joints]
  rfl

/-- They cover the arm. -/
theorem complete_turningWindow : turningWindow.Complete := by
  intro joint hjoint field
  rw [joints_turningWindow] at hjoint
  obtain ⟨o, ho, rfl, rfl⟩ : ∃ o ∈ turningObservations, o.joint = joint ∧ o.field = field :=
    ⟨_, mem_turningObservations.mpr ⟨1, by simp, joint, hjoint, field, rfl⟩, rfl, rfl⟩
  unfold turningWindow
  exact State.RollingWindow.isSome_latest_observeAll ho hjoint

/-- Every latest value is one. -/
theorem latest_turningWindow {joint : String} (hjoint : joint ∈ ur5JointNames) {field : JointField}
    {x : Double} (hx : turningWindow.latest (joint, field) = some x) : x = .finite Double.one := by
  unfold turningWindow at hx
  obtain ⟨o, ho, -, -, hvalue⟩ := State.RollingWindow.exists_observation_of_latest
    (w := emptyWindow) hjoint rfl hx
  obtain ⟨stamp, -, joint', -, field', rfl⟩ := mem_turningObservations.mp ho
  exact hvalue.symm

/-- No position of the turning window is infinite. -/
theorem not_infinitePosition_turningWindow : ¬ State.InfinitePosition turningWindow := by
  rintro ⟨joint, hjoint, sign, hsign⟩
  cases latest_turningWindow hjoint hsign

/-! ### A browser that is served -/

section served

variable [CPython]

attribute [local instance] Pydantic.decimal FloatRepr.whole

omit [CPython] in
/-- Each of the samples is read back as its observation. -/
theorem readBack_turning {o : State.RollingWindow.Observation Double}
    (ho : o ∈ turningObservations) :
    readBack (telemetryTopic "ur5" o.joint o.field, o.sample) = some o := by
  obtain ⟨stamp, -, joint, hjoint, field, rfl⟩ := mem_turningObservations.mp ho
  exact readBack_allEqual hjoint field

omit [CPython] in
/-- state-svc accepts every message. -/
theorem isSome_folded_turning : ∀ e ∈ arrivals turningSamples, (State.folded e).isSome = true := by
  intro e he
  rw [arrivals, turningSamples_eq, List.map_map] at he
  obtain ⟨o, ho, rfl⟩ := List.mem_map.mp he
  exact Option.isSome_iff_exists.mpr ⟨o, readBack_turning ho⟩

omit [CPython] in
/-- Their arrival folds these observations. -/
theorem filterMap_folded_turning :
    (arrivals turningSamples).filterMap State.folded = turningObservations := by
  rw [arrivals, turningSamples_eq, List.map_map, List.filterMap_map]
  calc turningObservations.filterMap _
      = turningObservations.filterMap some := List.filterMap_congr fun o ho => readBack_turning ho
    _ = turningObservations := List.filterMap_some

/-- A consumer with one subscriber. -/
def calledConsumer : State.Consumer :=
  { State.Consumer.init "ur5" (PyFloat.lit 2) 2000000000 with
    hub := (State.Consumer.init "ur5" (PyFloat.lit 2) 2000000000).hub.subscribe 0 }

/-- The joint states come after the call, and a tick publishes to it. -/
theorem publish_calledConsumer :
    ∃ c t state hub, Run State.step calledConsumer (arrivals turningSamples) c ∧ c.tick = .ok t ∧
      t.hub.take 0 = some (state, hub) ∧ BuiltOfTurning state := by
  obtain ⟨c, hrun, hdirty, hhub, hwindow⟩ :=
    State.run_accepted isSome_folded_turning calledConsumer
  have hall : Run State.step (.init "ur5" (PyFloat.lit 2) 2000000000)
      ([.subscribe 0] ++ arrivals turningSamples) c := (Run.of_exec rfl).append hrun
  have hturning : c.window = turningWindow :=
    hwindow.trans (congrArg calledConsumer.window.observeAll filterMap_folded_turning)
  have hstamp : c.window.stampNs < State.uint64Limit := by
    rw [hturning]
    refine Nat.lt_of_le_of_lt (m := 2) (State.RollingWindow.stampNs_observeAll_le ?_) (by decide)
    intro o ho
    obtain ⟨stamp, hstamp, joint, -, field, rfl⟩ := mem_turningObservations.mp ho
    rcases List.mem_pair.mp hstamp with rfl | rfl
    · exact Nat.le_succ 1
    · exact le_rfl
  have hinv := State.consumerInv_of_run hall
  obtain ⟨t, htick⟩ := (hinv.tick_returns_iff hstamp).mpr fun hinf =>
    not_infinitePosition_turningWindow (hturning ▸ hinf.2.2)
  rcases State.tick_cases htick with ⟨hclean, -⟩ | ⟨-, hbuild, -⟩ |
    ⟨state, hub, -, hbuild, hpub, rfl⟩
  · rw [hdirty (List.cons_ne_nil _ _)] at hclean
    cases hclean
  · have hcomplete : c.window.Complete := hturning ▸ complete_turningWindow
    exact absurd ((State.isSome_buildState_iff hbuild).mpr hcomplete) (by simp)
  · rw [State.publish_ok hinv.sound, hhub] at hpub
    obtain rfl := Except.ok.inj hpub
    exact ⟨c, _, state, _, hrun, htick, rfl, _, _, hturning ▸ hbuild⟩

/-- A browser has opened its socket, and the call of its session has arrived. -/
def calledPipeline (i : Double) : Pipeline where
  service := { State.Service.init "ur5" (PyFloat.lit 2) 2000000000 with
    consumer := calledConsumer
    handlers := Function.update (fun _ => none) 0 (some (.new i)) }
  sessions := ⟨[⟨.waiting, true, 1, 0⟩], 1, 0⟩
  tabs := [{ Tab.new with call := some 0 }]

/-- Its socket is accepted, and its call is under way. -/
def openedPipeline : Pipeline :=
  ⟨.init "ur5" (PyFloat.lit 2) 2000000000, ⟨[⟨.waiting, true, 1, 0⟩], 1, 0⟩, [.new]⟩

/-- A browser connects and is accepted. -/
theorem run_openedPipeline : Run (pipelineStep "ur5") (.init "ur5" (PyFloat.lit 2) 2000000000)
    [.connect, .session 0 .accepted] openedPipeline :=
  .of_exec rfl

/-- Its handler opens the call at the session's rate. -/
theorem call_openedPipeline : ∃ i, State.minInterval browserRateHz = .ok i ∧
    pipelineStep "ur5" openedPipeline (.call 0 0) = some (calledPipeline i) := by
  obtain ⟨i, hi⟩ := State.minInterval_ok browserRateHz
  refine ⟨i, hi, ?_⟩
  have hstart : State.serviceStep openedPipeline.service (.start 0 (browserRequest "ur5")) =
      some (calledPipeline i).service := by
    simp only [State.serviceStep, State.Service.serve, State.streamStep, browserRequest, hi]
    rfl
  exact pipelineStep_call rfl rfl rfl (by decide) hstart (Or.inl ⟨rfl, rfl⟩)

/-- All of it is a run. -/
theorem run_calledPipeline : ∃ i, State.minInterval browserRateHz = .ok i ∧
    Run (pipelineStep "ur5") (.init "ur5" (PyFloat.lit 2) 2000000000)
      [.connect, .session 0 .accepted, .call 0 0] (calledPipeline i) := by
  obtain ⟨i, hi, hcall⟩ := call_openedPipeline
  exact ⟨i, hi, run_openedPipeline.snoc hcall⟩

/-- The handler after its first pass: the phase is `yielding` until the state was sent. -/
def servedHandler (i : Double) (state : State.TwinState Double) (phase : State.Phase) :
    State.Handler (State.TwinState Double) :=
  ⟨i, .finite Double.zero, phase, [⟨state, Double.zero, .inf true⟩], [state]⟩

/-- The first state that a new handler receives is yielded. -/
theorem receive_new (i : Double) (state : State.TwinState Double) :
    (State.Handler.new i).receive state Double.zero = servedHandler i state .yielding := by
  have hnot : ¬ (⟨state, Double.zero, .inf true⟩ : State.Dequeue (State.TwinState Double)).Dropped
      i := by
    have hinf : (Double.finite Double.zero - Double.inf true) = .inf false := rfl
    rw [State.Dequeue.Dropped, hinf]
    exact Double.not_inf_false_lt i
  unfold State.Handler.receive State.Handler.new
  simp only
  rw [if_neg hnot]
  rfl

/-- state-svc when the handler has taken the first state. -/
def servedService (c : State.Consumer) (hub : State.StateHub (State.TwinState Double))
    (i : Double) (state : State.TwinState Double) (phase : State.Phase) : State.Service :=
  { (calledPipeline i).service with
    consumer := { c with hub := hub }
    taken := Function.update (calledPipeline i).service.taken 0
      ((calledPipeline i).service.taken 0 ++ [state])
    handlers := Function.update (calledPipeline i).service.handlers 0
      (some (servedHandler i state phase)) }

/-- The call has the served handler. -/
theorem handlers_servedService (c : State.Consumer)
    (hub : State.StateHub (State.TwinState Double)) (i : Double) (state : State.TwinState Double)
    (phase : State.Phase) :
    (servedService c hub i state phase).handlers 0 = some (servedHandler i state phase) :=
  Function.update_self (0 : State.QueueId) _ (calledPipeline i).service.handlers

/-- The messages in a run are among those of the two joint states. -/
def TakesInTurning (l : List PipelineEvent) : Prop :=
  ∀ topic payload, .service (.message topic payload) ∈ l →
    .message topic payload ∈ arrivals turningSamples

/-- The joint states arrive, a tick publishes a state and the call yields it. -/
theorem run_servedService : ∃ l i c hub state,
    Run (pipelineStep "ur5") (.init "ur5" (PyFloat.lit 2) 2000000000) l
      { calledPipeline i with service := servedService c hub i state .waiting } ∧
    TakesInTurning l ∧ hub.queues 0 = some ⟨1, []⟩ ∧ BuiltOfTurning state := by
  obtain ⟨i, hi, hcalled⟩ := run_calledPipeline
  obtain ⟨c, t, state, hub, hrun, htick, htake, hbuilt⟩ := publish_calledConsumer
  have hmessages : Run State.serviceStep (calledPipeline i).service _
      { (calledPipeline i).service with consumer := c } :=
    State.run_messages isSome_folded_turning hrun
  have hpublished : State.serviceStep { (calledPipeline i).service with consumer := c } .tick =
      some { (calledPipeline i).service with consumer := t } := by
    simp only [State.serviceStep, State.Service.broadcast, htick]
    rfl
  have hdequeue : State.serviceStep { (calledPipeline i).service with consumer := t }
      (.dequeue 0) = some (servedService t hub i state .yielding) := by
    refine (congrArg (Option.map _) (State.streamStep_dequeue rfl rfl htake)).trans ?_
    exact congrArg some (by rw [servedService, ← receive_new]; rfl)
  have hresume : State.serviceStep (servedService t hub i state .yielding) (.resume 0) =
      some (servedService t hub i state .waiting) := by
    have hhandler := handlers_servedService t hub i state .yielding
    simp only [State.serviceStep, State.Service.serve, State.streamStep, State.Service.stream,
      hhandler, servedHandler]
    simp only [if_true, Option.map_some, servedService, State.Service.withStream,
      Function.update_idem]
    rfl
  have hready := (serviceRuns_of_run hcalled).service.append (hmessages.snoc hpublished)
  obtain ⟨sl, hsl⟩ := State.exists_streamRun_of_run hready
  have hsubscribed := (State.handlersInv_of_run hsl 0 (.new i) rfl).2 (by simp [State.Handler.new])
  obtain ⟨queue, hqueue, hmaxsize, hlen⟩ := State.sound_of_run hready 0 hsubscribed
  obtain ⟨maxsize, rest, hfull, rfl⟩ := State.StateHub.take_eq_some htake
  obtain rfl := Option.some.inj (hqueue.symm.trans hfull)
  obtain rfl : maxsize = 1 := hmaxsize
  obtain rfl : rest = [] :=
    List.length_eq_zero_iff.mp (Nat.le_zero.mp (Nat.le_of_succ_le_succ hlen))
  have hserved := ((hmessages.snoc hpublished).snoc hdequeue).snoc hresume
  have hall := hcalled.append (run_of_service (p := calledPipeline i) hserved)
  refine ⟨_, i, t, _, state, hall, ?_, Function.update_self (0 : State.QueueId) _ t.hub.queues,
    hbuilt⟩
  intro topic payload hmem
  simp only [List.map_append, List.map_cons, List.map_nil, List.mem_append, List.mem_map,
    List.mem_filterMap, List.mem_cons, List.not_mem_nil, or_false, reduceCtorEq, false_or,
    PipelineEvent.service.injEq, exists_eq_right] at hmem
  obtain ⟨e, he, heq⟩ := hmem
  cases e with
  | message topic' payload' =>
      obtain ⟨rfl, rfl⟩ : topic' = topic ∧ payload' = payload := by
        simpa [State.messageEvent] using heq
      exact he
  | _ => cases heq

/-- The text of the state has arrived at the browser. -/
def shownPipeline (c : State.Consumer) (hub : State.StateHub (State.TwinState Double)) (i : Double)
    (state : State.TwinState Double) (text : String) : Pipeline where
  service := servedService c hub i state .waiting
  sessions := ⟨[⟨.waiting, true, 1, 0⟩], 1, 1⟩
  tabs := [⟨some 0, [state], [text], [text]⟩]

/-- The state that the served call yielded is handed over. -/
theorem handOver_servedService {l : List PipelineEvent} {i : Double} {c : State.Consumer}
    {hub : State.StateHub (State.TwinState Double)} {state : State.TwinState Double}
    (h : Run (pipelineStep "ur5") (.init "ur5" (PyFloat.lit 2) 2000000000) l
      { calledPipeline i with service := servedService c hub i state .waiting }) :
    ∃ text, toFrameText state = .ok text ∧
      pipelineStep "ur5" { calledPipeline i with service := servedService c hub i state .waiting }
        (.handOver 0) = some ⟨servedService c hub i state .waiting,
          ⟨[⟨.sending, true, 1, 0⟩], 1, 1⟩, [⟨some 0, [state], [text], []⟩]⟩ := by
  have hhandler := handlers_servedService c hub i state .waiting
  have hwell := (State.holds_wellFormed (serviceRuns_of_run h).service).yielded 0 trivial _
    hhandler state (List.mem_singleton_self state)
  obtain ⟨stampMs, -, hframe⟩ := toFrame_double hwell.stampNs
  obtain ⟨text, htext⟩ : ∃ text, toFrameText state = .ok text :=
    ⟨_, bind_eq_ok_iff.mpr ⟨_, hframe, rfl⟩⟩
  refine ⟨text, htext, ?_⟩
  simp [pipelineStep, calledPipeline, Tab.new, hhandler, servedHandler, Viz.step, Session.step,
    htext, SessionEvent.gauge, SessionEvent.frames]

/-- The state goes on to the browser as its frame. -/
theorem run_shownPipeline : ∃ l i c hub state text,
    Run (pipelineStep "ur5") (.init "ur5" (PyFloat.lit 2) 2000000000) l
      (shownPipeline c hub i state text) ∧ TakesInTurning l ∧ hub.queues 0 = some ⟨1, []⟩ ∧
    toFrameText state = .ok text ∧ BuiltOfTurning state := by
  obtain ⟨l, i, c, hub, state, hserved, htakes, hempty, hbuilt⟩ := run_servedService
  obtain ⟨text, htext, hhandOver⟩ := handOver_servedService hserved
  refine ⟨_, i, c, hub, state, text, ((hserved.snoc hhandOver).snoc (a := .session 0 .sent)
    rfl).snoc (a := .arrive 0) rfl, ?_, hempty, htext, hbuilt⟩
  intro topic payload hmem
  simp only [List.mem_append, List.mem_singleton, reduceCtorEq, or_false] at hmem
  exact htakes topic payload hmem

end served

/-! ### Its state -/

/-- The finite positions of the six joints. -/
theorem exists_angles {α : Type} {xs : List α} {name : α → String} {position : α → Double}
    (hnames : xs.map name = ur5JointNames) (h : ∀ x ∈ xs, (position x).isFinite = true) :
    ∃ t1 t2 t3 t4 t5 t6, xs.map position = [t1, t2, t3, t4, t5, t6].map .finite := by
  have hlen : xs.length = 6 := by
    have hlengths := congrArg List.length hnames
    rwa [List.length_map] at hlengths
  obtain ⟨x1, x2, x3, x4, x5, x6, rfl⟩ := State.exists_six hlen
  obtain ⟨t1, h1⟩ := Double.exists_finite (h x1 (by simp))
  obtain ⟨t2, h2⟩ := Double.exists_finite (h x2 (by simp))
  obtain ⟨t3, h3⟩ := Double.exists_finite (h x3 (by simp))
  obtain ⟨t4, h4⟩ := Double.exists_finite (h x4 (by simp))
  obtain ⟨t5, h5⟩ := Double.exists_finite (h x5 (by simp))
  obtain ⟨t6, h6⟩ := Double.exists_finite (h x6 (by simp))
  exact ⟨t1, t2, t3, t4, t5, t6, by simp [h1, h2, h3, h4, h5, h6]⟩

section platform

attribute [local instance] CPython.floored Pydantic.decimal FloatRepr.whole

/-- Each joint has two velocities. -/
theorem velocities_turningWindow {joint : String} (h : joint ∈ ur5JointNames) :
    turningWindow.velocities joint = [(1, .finite Double.one), (2, .finite Double.one)] := by
  simp only [ur5JointNames, List.mem_cons, List.not_mem_nil, or_false] at h
  set_option maxRecDepth 10000 in
  rcases h with rfl | rfl | rfl | rfl | rfl | rfl <;> rfl

/-- Their root mean square is one. -/
theorem velocityRms_turningWindow {joint : String} (h : joint ∈ ur5JointNames) :
    turningWindow.velocityRms joint = .ok (.finite Double.one) := by
  have hone : Double.ofRat 1 = .finite Double.one := Double.ofRat_val Double.one
  have htwo : Double.ofRat 2 = .finite Double.two := Double.ofRat_val Double.two
  have hsquare : (Double.finite Double.one) * .finite Double.one = .finite Double.one := by
    rw [mul_double, Double.mul, Double.one_val, one_mul, hone]
  have hsum : PyFloat.sum [Double.finite Double.one, .finite Double.one] =
      .finite Double.two := by
    change List.foldl Double.add (.finite Double.zero) [_, _] = _
    simp only [List.foldl_cons, List.foldl_nil, Double.add, Double.zero_val, zero_add, hone,
      Double.one_val]
    norm_num [htwo]
  have hmean : PyFloat.truediv (Double.finite Double.two) (PyFloat.lit ((2 : ℕ) : ℚ)) =
      .ok (.finite Double.one) := by
    apply truediv_double
    simp [lit_double, htwo, Double.div, hone]
  have hroot : PyFloat.sqrt (Double.finite Double.one) = .ok (.finite Double.one) := by
    apply sqrt_double
    have happrox : Double.sqrtApprox 1 = 1 := by
      have hne : (Double.rootScale : ℚ) ≠ 0 := by exact_mod_cast Double.rootScale_pos.ne'
      have hfloor : ⌊(1 : ℚ) * (Double.rootScale * Double.rootScale)⌋.toNat =
          Double.rootScale * Double.rootScale := by
        rw [one_mul, ← Nat.cast_mul, Int.floor_natCast, Int.toNat_natCast]
      simp only [Double.sqrtApprox, hfloor, Nat.sqrt_eq, if_true, add_zero, div_self hne]
    rw [Double.sqrt, Double.one_val, if_neg (by norm_num), happrox, hone]
  unfold State.RollingWindow.velocityRms
  rw [velocities_turningWindow h]
  simp only [List.isEmpty_cons, Bool.false_eq_true, if_false, List.map_cons, List.map_nil, hsquare,
    hsum, List.length_cons, List.length_nil, Nat.zero_add, Nat.reduceAdd, hmean, ok_bind, hroot]

/-- The state is finite. -/
theorem finiteState_of_turning {state : State.TwinState Double} (h : BuiltOfTurning state) :
    FiniteState state := by
  obtain ⟨name, rms, hbuild⟩ := h
  obtain ⟨snapshots, pose, hsnap, hpose, -, rfl⟩ := State.buildState_some hbuild
  have hfinite : ∀ snap ∈ snapshots,
      snap.positionRad.isFinite = true ∧ snap.velocityRms.isFinite = true := by
    intro snap hmem
    obtain ⟨hname, hentry⟩ := State.RollingWindow.entryOf_of_mem hsnap hmem
    have hjoint : snap.name ∈ ur5JointNames := joints_turningWindow ▸ hname
    constructor
    · have hone : snap.positionRad = .finite Double.one :=
        latest_turningWindow hjoint (hentry.latest .position)
      rw [hone]
      rfl
    · rw [← Except.ok.inj ((velocityRms_turningWindow hjoint).symm.trans hentry.2.2.2.2)]
      rfl
  have hnames := (State.RollingWindow.snapshot_names hsnap).trans joints_turningWindow
  obtain ⟨t1, t2, t3, t4, t5, t6, hangles⟩ := exists_angles hnames
    fun snap hmem => (hfinite snap hmem).1
  obtain ⟨pose', exact, hpose', -, hnear⟩ :=
    State.forward_near accurate_floored t1 t2 t3 t4 t5 t6
  rw [hangles] at hpose
  obtain rfl := Except.ok.inj (hpose.symm.trans hpose')
  obtain ⟨q, -, -, hq⟩ := hnear.quaternion
  refine ⟨hnear.x.isFinite, hnear.y.isFinite, hnear.z.isFinite, hq.x.isFinite, hq.y.isFinite,
    hq.z.isFinite, hq.w.isFinite, ?_, ?_⟩
  · intro joint hjoint
    obtain ⟨snap, hmem, rfl⟩ := List.mem_map.mp hjoint
    exact (hfinite snap hmem).1
  · intro joint hjoint
    obtain ⟨snap, hmem, rfl⟩ := List.mem_map.mp hjoint
    exact (hfinite snap hmem).2

/-- Its frame shows the root mean square of the velocities. -/
theorem velocityRms_of_turning {state : State.TwinState Double} (h : BuiltOfTurning state)
    {frame : TwinFrame Double} (hframe : toFrame state = .ok frame) :
    ∀ joint ∈ frame.joints, joint.velocityRms = .finite Double.one := by
  intro joint hjoint
  obtain ⟨name, rms, hbuild⟩ := h
  obtain ⟨snapshots, pose, hsnap, -, -, rfl⟩ := State.buildState_some hbuild
  obtain ⟨heq, -⟩ := toFrame_eq_ofState hframe
  rw [heq] at hjoint
  obtain ⟨entry, hentry, rfl⟩ := List.mem_map.mp hjoint
  obtain ⟨snap, hmem, rfl⟩ := List.mem_map.mp hentry
  obtain ⟨hname, hentry⟩ := State.RollingWindow.entryOf_of_mem hsnap hmem
  have hrms := velocityRms_turningWindow (joints_turningWindow ▸ hname)
  exact (Except.ok.inj (hrms.symm.trans hentry.2.2.2.2)).symm

/-- The browser shows the frame of the state. -/
theorem exists_frame_shown {l : List PipelineEvent} {c : State.Consumer}
    {hub : State.StateHub (State.TwinState Double)} {i : Double}
    {state : State.TwinState Double} {text : String}
    (hrun : Run (pipelineStep "ur5") (.init "ur5" (PyFloat.lit 2) 2000000000) l
      (shownPipeline c hub i state text))
    (htext : toFrameText state = .ok text) (hbuilt : BuiltOfTurning state) :
    ∃ frame, toFrame state = .ok frame ∧
      Tab.shown ⟨some 0, [state], [text], [text]⟩ = [frame] := by
  have hstamp := (State.holds_wellFormed (serviceRuns_of_run hrun).service).yielded 0 trivial _
    (handlers_servedService c hub i state .waiting) state (List.mem_singleton_self state)
  obtain ⟨frame, hto, hlast⟩ := getLast?_shown (.cons htext .nil) rfl hstamp.stampNs
    (finiteState_of_turning hbuilt)
  refine ⟨frame, hto, ?_⟩
  unfold Tab.shown
  cases hread : onMessage text with
  | none => simp [hread] at hlast
  | some read => simpa [hread] using hlast

/-- The browser shows that one frame, with the joints at observed angles. -/
theorem browser_shows_published_shown :
    ∃ l p tab frame, Run (pipelineStep "ur5") (.init "ur5" (PyFloat.lit 2) 2000000000) l p ∧
      tab ∈ p.tabs ∧ tab.shown = [frame] ∧
      ShowsArm ((l.filterMap (serviceEvent "ur5")).filterMap State.accepted) frame ∧
      ∃ state, toFrame state = .ok frame ∧ State.BuiltIn (.init "ur5" (PyFloat.lit 2) 2000000000)
        (l.filterMap (serviceEvent "ur5")) state := by
  obtain ⟨l, i, c, hub, state, text, hrun, -, -, htext, hbuilt⟩ :=
    run_shownPipeline
  have hmem : ⟨some 0, [state], [text], [text]⟩ ∈ (shownPipeline c hub i state text).tabs :=
    List.mem_singleton_self _
  obtain ⟨frame, -, hshown⟩ := exists_frame_shown hrun htext hbuilt
  have hframe : frame ∈ Tab.shown ⟨some 0, [state], [text], [text]⟩ := by
    rw [hshown]
    exact List.mem_singleton_self frame
  obtain ⟨⟨states, hframes, -, hstates⟩, -, hshows⟩ := browser_shows_published hrun hmem
  obtain ⟨state', hstate', hto⟩ := exists_of_mem_forall₂ hframes hframe
  exact ⟨l, _, _, frame, hrun, hmem, hshown, hshows frame hframe, state', hto,
    hstates state' hstate'⟩

end platform

end TwinServices.System
