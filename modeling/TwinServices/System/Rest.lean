import TwinServices.System.Shown

/-!
# A browser at rest

When nothing more can happen between a call and its browser, the browser shows the latest state,
unless nothing was published to the call, or the rate limiter or JSON kept the state from it.

* `Resting`: nothing can happen any more between a call and its browser.
* `browser_rests_at_latest`: at rest the browser shows the latest state.
-/

set_option autoImplicit false

namespace TwinServices.System

open TwinServices.Python TwinServices.Contracts TwinServices.Viz
open Lib.Transition Lib.Binary64

section rest

variable [CPython] [Pydantic] [FloatRepr]
variable {asset assetName : String} {rmsWindowS : Double} {windowNs : ℤ} {l : List PipelineEvent}
  {p : Pipeline} {i : ℕ} {id : State.QueueId} {tab : Tab} {session : Session}
  {handler : State.Handler (State.TwinState Double)}

/-- Nothing can happen any more between a call and its browser: the handler neither dequeues nor
goes on, nothing is handed over, nothing arrives, and the session takes no step by itself. -/
structure Resting (asset : String) (p : Pipeline) (i : ℕ) (id : State.QueueId) : Prop where
  dequeue : pipelineStep asset p (.service (.dequeue id)) = none
  resume : pipelineStep asset p (.service (.resume id)) = none
  handOver : pipelineStep asset p (.handOver i) = none
  arrive : pipelineStep asset p (.arrive i) = none
  own : ∀ e, SessionEvent.Own e → pipelineStep asset p (.session i e) = none

omit [CPython] [Pydantic] [FloatRepr] in
/-- A prefix behind which nothing is left. -/
theorem eq_of_prefix_of_getElem? {α : Type} {xs ys : List α} (h : xs <+: ys)
    (hnone : ys[xs.length]? = none) : xs = ys :=
  h.eq_of_length_le (List.getElem?_eq_none_iff.mp hnone)

/-- The session waits for a state while its browser is there. -/
theorem Resting.waiting (hrest : Resting asset p i id)
    (hrun : Run (pipelineStep asset) (.init assetName rmsWindowS windowNs) l p)
    (hsession : p.sessions.sessions[i]? = some session) (hconnected : session.connected = true) :
    session.phase = .waiting := by
  have hsound := (sessionsInv_of_run (serviceRuns_of_run hrun).sessions).sound session
    (List.mem_of_getElem? hsession)
  have hnone : ∀ e : SessionEvent, e.Own → session.step e = none := by
    intro e he
    have hstep := hrest.own e he
    have hne : e ≠ .state := by
      rintro rfl
      cases he
    rw [pipelineStep_session hne, Option.map_eq_none_iff] at hstep
    rcases hy : session.step e with _ | y
    · rfl
    · simp [Viz.step, hsession, hy] at hstep
  rcases Session.rests hnone with hphase | hphase
  · exact hphase
  · simp only [Session.Sound, hphase] at hsound
    rw [hconnected] at hsound
    cases hsound.2.2

/-- Every state that a call yielded was handed over. -/
theorem Resting.received (hrest : Resting asset p i id)
    (hrun : Run (pipelineStep asset) (.init assetName rmsWindowS windowNs) l p)
    (htab : p.tabs[i]? = some tab) (hsession : p.sessions.sessions[i]? = some session)
    (hphase : session.phase = .waiting) (hcall : tab.call = some id)
    (hhandler : p.service.handlers id = some handler) : tab.received = handler.yielded := by
  have hservice := (serviceRuns_of_run hrun).service
  obtain ⟨handler', hhandler', -, hp⟩ :=
    (tabInv_of_run hrun (List.mem_of_getElem? htab)).call id hcall
  obtain rfl := Option.some.inj (hhandler.symm.trans hhandler')
  refine eq_of_prefix_of_getElem? hp ?_
  rcases hstate : handler.yielded[tab.received.length]? with _ | state
  · rfl
  · have hwell := (State.holds_wellFormed hservice).yielded id trivial handler hhandler state
      (List.mem_of_getElem? hstate)
    obtain ⟨stampMs, -, hframe⟩ := toFrame_double hwell.stampNs
    have hhandOver := hrest.handOver
    simp [pipelineStep, htab, hcall, hhandler, hstate, Viz.step, hsession, Session.step, hphase,
      toFrameText, hframe, bind, Except.bind, pure, Except.pure] at hhandOver

/-- Every text arrived. -/
theorem Resting.arrived (hrest : Resting asset p i id)
    (hrun : Run (pipelineStep asset) (.init assetName rmsWindowS windowNs) l p)
    (htab : p.tabs[i]? = some tab) (hsession : p.sessions.sessions[i]? = some session)
    (hconnected : session.connected = true) : tab.arrived = tab.sent := by
  refine eq_of_prefix_of_getElem? (tabInv_of_run hrun (List.mem_of_getElem? htab)).arrived ?_
  rcases htext : tab.sent[tab.arrived.length]? with _ | text
  · rfl
  · have harrive := hrest.arrive
    simp [pipelineStep, htab, hsession, hconnected, htext] at harrive

/-- **A browser rests at the latest state.** Let nothing more happen between the call of a session
and its browser, which is connected, while the call goes on and state-svc has a latest state. Then
everything that the call yielded was handed over: of the states that it dequeued, those that came
after the interval of its request. If a state was published while the call went on, the call has
dequeued the latest state last, and what the browser shows is its frame, unless it came too soon
after the yield before or a float in it is not finite. Else it got nothing and the browser shows
nothing. Source: `stream.py`, `StateStream.frames`; `app.py`, `ws_state`; `grpc_server.py`,
`StateServicer.StreamState` -/
theorem browser_rests_at_latest
    (hrun : Run (pipelineStep asset) (.init assetName rmsWindowS windowNs) l p)
    (htab : p.tabs[i]? = some tab) (hsession : p.sessions.sessions[i]? = some session)
    (hconnected : session.connected = true) (hcall : tab.call = some id)
    (hhandler : p.service.handlers id = some handler) (hgoes : handler.phase ≠ .ended)
    (hrest : Resting asset p i id) {state : State.TwinState Double}
    (hlatest : p.service.consumer.hub.latest = some state) :
    State.minInterval browserRateHz = .ok handler.minInterval ∧
    tab.received =
      (State.yieldsOf handler.minInterval handler.dequeued).map State.Dequeue.state ∧
    (¬ State.PublishedTo (.init assetName rmsWindowS windowNs)
        (l.filterMap (serviceEvent asset)) id ∧
        handler.dequeued = [] ∧ tab.shown = [] ∨
      ∃ before d, handler.dequeued = before ++ [d] ∧ d.state = state ∧
        (¬ State.TooSoon handler.minInterval before d → FiniteState state →
          ∃ frame, toFrame state = .ok frame ∧ tab.shown.getLast? = some frame)) := by
  have hservice := (serviceRuns_of_run hrun).service
  have hinv := tabInv_of_run hrun (List.mem_of_getElem? htab)
  obtain ⟨sl, hsl, hpublished⟩ := State.exists_streamRun_publishedTo hservice id
  have hdequeue : p.service.serve (.dequeue id) = none :=
    Option.map_eq_none_iff.mp hrest.dequeue
  have hresume : p.service.serve (.resume id) = none := Option.map_eq_none_iff.mp hrest.resume
  have hblocked := State.blocked_of_stuck hhandler hgoes hdequeue hresume
  have hreceived := hrest.received hrun htab hsession
    (hrest.waiting hrun hsession hconnected) hcall hhandler
  have hyielded := (State.decimationInv_of_run hsl id handler hhandler).yielded
  have hshown : tab.shown = tab.sent.filterMap onMessage :=
    congrArg (List.filterMap onMessage) (hrest.arrived hrun htab hsession hconnected)
  obtain ⟨handler', hhandler', hrate, -⟩ := hinv.call id hcall
  obtain rfl := Option.some.inj (hhandler.symm.trans hhandler')
  obtain ⟨hnothing, hsomething⟩ := State.last_dequeued_of_blocked hsl hblocked hlatest
  refine ⟨hrate, hreceived.trans hyielded, ?_⟩
  by_cases hnone : State.publishedToHandler assetName id sl = []
  · have hdequeued := hnothing hnone
    refine Or.inl ⟨fun hp => hpublished hp hnone, hdequeued, ?_⟩
    have hsent := hinv.sent
    rw [hreceived, hyielded, hdequeued] at hsent
    rw [hshown, List.forall₂_nil_left_iff.mp hsent]
    rfl
  · obtain ⟨before, d, hdequeued, hstate⟩ := hsomething hnone
    refine Or.inr ⟨before, d, hdequeued, hstate, fun hsoon hfinite => ?_⟩
    have hyields := (State.yielded_of_dequeued hsl hhandler hdequeued).1 hsoon
    have hwell := (State.holds_wellFormed hservice).latest state hlatest
    rw [hshown]
    exact getLast?_shown hinv.sent (hreceived ▸ hstate ▸ hyields) hwell.stampNs hfinite

end rest

/-! ### A browser that rests -/

section platform

attribute [local instance] CPython.floored Pydantic.decimal FloatRepr.whole

/-- The handler of the served call waits with an empty mailbox, and nothing is under way. -/
theorem resting_shownPipeline {c : State.Consumer} {hub : State.StateHub (State.TwinState Double)}
    {i : Double} {state : State.TwinState Double} {text : String}
    (hempty : hub.queues 0 = some ⟨1, []⟩) :
    Resting "ur5" (shownPipeline c hub i state text) 0 0 := by
  have hhandler := handlers_servedService c hub i state .waiting
  refine ⟨?_, ?_, ?_, rfl, ?_⟩
  · have htake : (servedService c hub i state .waiting).stream.hub.hub.take 0 = none :=
      (State.StateHub.take.eq_def hub 0).trans (by rw [hempty]; rfl)
    have hserve : (servedService c hub i state .waiting).serve (.dequeue 0) = none := by
      simp only [State.Service.serve, State.streamStep, htake]
      rfl
    simp only [pipelineStep, shownPipeline, State.serviceStep, hserve, Option.map_none]
  · simp [pipelineStep, shownPipeline, State.serviceStep, State.Service.serve, State.streamStep,
      State.Service.stream, hhandler, servedHandler]
  · simp [pipelineStep, shownPipeline, hhandler, servedHandler]
  · intro e he
    cases e <;> first | rfl | cases he

/-- At rest the browser shows the latest state. -/
theorem browser_rests_at_latest_shown :
    ∃ l p tab handler state frame,
      Run (pipelineStep "ur5") (.init "ur5" (PyFloat.lit 2) 2000000000) l p ∧
      p.tabs[0]? = some tab ∧ tab.call = some 0 ∧ p.service.handlers 0 = some handler ∧
      Resting "ur5" p 0 0 ∧ p.service.consumer.hub.latest = some state ∧
      toFrame state = .ok frame ∧ tab.shown.getLast? = some frame := by
  obtain ⟨l, i, c, hub, state, text, hrun, -, hempty, -, hbuilt⟩ :=
    run_shownPipeline
  have hrest : Resting "ur5" (shownPipeline c hub i state text) 0 0 := resting_shownPipeline hempty
  have hhandler := handlers_servedService c hub i state .waiting
  have hseen : State.Seen (servedService c hub i state .waiting) state :=
    Or.inr ⟨0, _, hhandler, List.mem_singleton_self state⟩
  obtain ⟨-, latest, hlatest, -⟩ := hseen.le (serviceRuns_of_run hrun).service
  obtain ⟨-, -, hshown⟩ := browser_rests_at_latest hrun (i := 0) rfl rfl rfl rfl hhandler
    (by simp [servedHandler]) hrest hlatest
  rcases hshown with ⟨-, hnone, -⟩ | ⟨before, d, hdequeued, rfl, hframe⟩
  · cases hnone
  · obtain ⟨rfl, rfl⟩ :=
      List.append_singleton_inj.mp (hdequeued.symm.trans (List.nil_append _).symm)
    have hnot : ¬ State.TooSoon i [] ⟨state, Double.zero, .inf true⟩ := by
      exact Double.not_inf_false_lt i
    obtain ⟨frame, hto, hlast⟩ := hframe hnot (finiteState_of_turning hbuilt)
    exact ⟨l, _, _, _, state, frame, hrun, rfl, rfl, hhandler, hrest, hlatest, hto, hlast⟩

end platform

end TwinServices.System
