import TwinServices.System.Shown

/-!
# Browsers that leave

viz-svc counts its sessions in the gauge `CLIENTS`, and every session has a call of `StreamState`,
which state-svc serves with a handler and a subscriber of its hub. Nothing cancels a call but the
end of its connection, or the garbage collector when it finds the call object of a closed
`frames()`.

* `Keeps`: a browser has left, and its call still goes on in state-svc.
* `Outlives`: the steps after which a call may outlast its session.
* `gauge_counts_connected`: at rest the gauge is right, and no browser that left keeps a stream,
  exactly when no handler is an orphan and no call outlasted its session; and in a run without a
  step that leads there both hold in every state at rest.
* `departure_unnoticed`: a browser that leaves while nothing is published stays counted; one that
  leaves while a frame is sent to it does not, but its subscriber stays.
-/

set_option autoImplicit false

namespace TwinServices.System

open TwinServices.Python TwinServices.Contracts TwinServices.Viz
open Lib.Transition Lib.Binary64

/-! ## Calls and sessions -/

/-- An entry of a list that one was added to. -/
theorem getElem?_concat_cases {α : Type} {xs : List α} {x y : α} {j : ℕ}
    (h : (xs ++ [x])[j]? = some y) : xs[j]? = some y ∨ y = x := by
  rcases Nat.lt_or_ge j xs.length with hlt | hle
  · rw [List.getElem?_append_left hlt] at h
    exact Or.inl h
  · rw [List.getElem?_append_right hle] at h
    exact Or.inr (List.mem_singleton.mp (List.mem_of_getElem? h))

/-- The mailbox of the call of a session. -/
def Pipeline.call (p : Pipeline) (i : ℕ) : Option State.QueueId := p.tabs[i]?.bind Tab.call

/-- The call of a session goes on in state-svc. -/
def CallGoesOn (p : Pipeline) (i : ℕ) : Prop :=
  ∃ id handler, p.call i = some id ∧ p.service.handlers id = some handler ∧ handler.phase ≠ .ended

/-- The browser of a session has left, and its stream is kept. -/
def Keeps (p : Pipeline) (i : ℕ) : Prop :=
  ∃ session, p.sessions.sessions[i]? = some session ∧ session.connected = false ∧ CallGoesOn p i

/-- The session is over, and its call goes on. -/
def Outlasted (p : Pipeline) (i : ℕ) : Prop :=
  ∃ session, p.sessions.sessions[i]? = some session ∧ session.phase = .ended ∧ CallGoesOn p i

/-- A step after which a call outlasts its session: the session ends before its call, or its call is
accepted by state-svc after the session has ended. -/
def Outlives (asset : String) (p : Pipeline) : PipelineEvent → Prop
  | .session i e => (e = .finalized ∨ e = .closed) ∧ CallGoesOn p i
  | .call i _ => (∃ session, p.sessions.sessions[i]? = some session ∧ session.phase = .ended) ∧
      State.checkAsset p.service.consumer.hub.asset asset = .ok ()
  | _ => False

/-- A step that leaves a handler waiting for a browser that has left, or a call without its
session. -/
def LosesTrack (asset : String) (p : Pipeline) (e : PipelineEvent) : Prop :=
  (∃ b, sessionEvent e = some b ∧ Orphans p.sessions b) ∨ Outlives asset p e

/-- No handler waits for a browser that has left, and no call is left without its session. -/
def InTrack (p : Pipeline) : Prop := NoOrphan p.sessions ∧ ∀ i, ¬ Outlasted p i

/-- The gauge is the number of the connected browsers, and none that left keeps a stream. -/
def GaugeRight (p : Pipeline) : Prop :=
  p.sessions.clients = p.sessions.connected ∧ ∀ i, ¬ Keeps p i

section departures

variable [CPython] [Pydantic] [FloatRepr]
variable {asset assetName : String} {rmsWindowS : Double} {windowNs : ℤ} {l : List PipelineEvent}
  {p t : Pipeline} {e : PipelineEvent}

/-- A call that goes on has its subscriber. -/
theorem CallGoesOn.subscribed {i : ℕ} (h : CallGoesOn p i)
    (hrun : Run (pipelineStep asset) (.init assetName rmsWindowS windowNs) l p) :
    ∃ id, p.call i = some id ∧ id ∈ p.service.consumer.hub.subscribers := by
  obtain ⟨id, handler, hcall, hhandler, hphase⟩ := h
  obtain ⟨sl, hsl⟩ := State.exists_streamRun_of_run (serviceRuns_of_run hrun).service
  exact ⟨id, hcall, (State.handlersInv_of_run hsl id handler hhandler).2 hphase⟩

/-- A call that goes on after a step of state-svc went on before. -/
theorem callGoesOn_of_service {s : State.Service} {b : State.ServiceEvent} {i : ℕ}
    (hrun : Run (pipelineStep asset) (.init assetName rmsWindowS windowNs) l p)
    (hstep : State.serviceStep p.service b = some s)
    (h : CallGoesOn { p with service := s } i) : CallGoesOn p i := by
  obtain ⟨id, handler, hcall, hhandler, hphase⟩ := h
  obtain ⟨tab, htab, hid⟩ := Option.bind_eq_some_iff.mp hcall
  obtain ⟨old, hold, -, -⟩ := (tabInv_of_run hrun (List.mem_of_getElem? htab)).call id hid
  refine ⟨id, old, hcall, hold, fun hended => hphase ?_⟩
  have hsame := State.serviceStep_ended (serviceRuns_of_run hrun).service hstep hold hended
  obtain rfl := Option.some.inj (hsame.symm.trans hhandler)
  exact hended

omit [CPython] [Pydantic] [FloatRepr] in
/-- A session that is over after a step was over before, or took its last step. -/
theorem ended_of_step {s s' : Sessions} {b : Viz.Event} (h : Viz.step s b = some s') {j : ℕ}
    {session' : Session} (hsession' : s'.sessions[j]? = some session')
    (hended : session'.phase = .ended) :
    ∃ session, s.sessions[j]? = some session ∧ (session.phase = .ended ∨
      b = .session j .finalized ∨ b = .session j .closed) := by
  cases b with
  | connect =>
      obtain rfl := Option.some.inj h
      rcases getElem?_concat_cases hsession' with hold | rfl
      · exact ⟨session', hold, Or.inl hended⟩
      · cases hended
  | session i b =>
      obtain ⟨x, y, hx, hy, rfl⟩ := step_session h
      by_cases heq : i = j
      · subst heq
        have hlt := (List.getElem?_eq_some_iff.mp hx).1
        obtain rfl := Option.some.inj ((List.getElem?_set_self hlt).symm.trans hsession')
        refine ⟨x, hx, ?_⟩
        rcases Session.step_cases hy with ⟨-, rfl⟩ | ⟨-, -, rfl⟩ | ⟨-, -, rfl⟩ | ⟨-, -, rfl⟩ |
          ⟨-, -, rfl⟩ | ⟨rfl, -, -⟩ | ⟨-, -, rfl⟩ | ⟨rfl, -, -⟩
        · exact Or.inl hended
        any_goals cases hended
        · exact Or.inr (Or.inl rfl)
        · exact Or.inr (Or.inr rfl)
      · exact ⟨session', (List.getElem?_set_ne heq).symm.trans hsession', Or.inl hended⟩

omit [CPython] [Pydantic] [FloatRepr] in
/-- What else passes through a session does not change its call. -/
theorem call_set {tabs : List Tab} {i : ℕ} {tab tab' : Tab} (htab : tabs[i]? = some tab)
    (hcall : tab'.call = tab.call) (j : ℕ) :
    (tabs.set i tab')[j]?.bind Tab.call = tabs[j]?.bind Tab.call := by
  rw [List.getElem?_set]
  split_ifs with heq hlt
  · rw [← heq, htab]
    exact hcall
  · rw [← heq, List.getElem?_eq_none_iff.mpr (Nat.le_of_not_lt hlt)]
  · rfl

/-- At rest the sessions whose browsers have left are orphans or over. -/
theorem gaugeRight_iff
    (hrun : Run (pipelineStep asset) (.init assetName rmsWindowS windowNs) l p)
    (hquiescent : Quiescent p.sessions) :
    GaugeRight p ↔ InTrack p := by
  have hinv := sessionsInv_of_run (serviceRuns_of_run hrun).sessions
  unfold GaugeRight InTrack
  rw [clients_eq_connected_iff hinv hquiescent]
  refine and_congr_right fun hnone => forall_congr' fun i => not_congr ?_
  constructor
  · rintro ⟨session, hsession, hleft, hgoes⟩
    have hmem := List.mem_of_getElem? hsession
    rcases hquiescent.rests hmem with hphase | hphase
    · exact absurd ⟨hphase, hleft⟩ (hnone session hmem)
    · exact ⟨session, hsession, hphase, hgoes⟩
  · rintro ⟨session, hsession, hphase, hgoes⟩
    have hsound := hinv.sound session (List.mem_of_getElem? hsession)
    simp only [Session.Sound, hphase] at hsound
    exact ⟨session, hsession, hsound.2.2, hgoes⟩

/-- No call outlasts its session before a step that leads there. -/
theorem not_outlasted_step
    (hrun : Run (pipelineStep asset) (.init assetName rmsWindowS windowNs) l p)
    (hnone : ∀ i, ¬ Outlasted p i) (hstep : pipelineStep asset p e = some t)
    (hnot : ¬ Outlives asset p e) : ∀ i, ¬ Outlasted t i := by
  rintro j ⟨session', hsession', hended, id, handler, hcall, hhandler, hphase⟩
  rcases pipelineStep_cases hstep with ⟨b, service, rfl, hservice, rfl⟩ |
    ⟨sessions, rfl, hsessions, rfl⟩ | ⟨i, b, sessions, rfl, -, hsessions, rfl⟩ |
    ⟨i, id', tab, session, service, call, rfl, htab, hnew, hsession, -, hservice, hcase, rfl⟩ |
    ⟨i, tab, id', handler', state, sessions, text, rfl, htab, -, -, -, hsessions, -, rfl⟩ |
    ⟨i, tab, session, text, rfl, htab, -, -, -, rfl⟩
  · exact hnone j ⟨session', hsession', hended,
      callGoesOn_of_service hrun hservice ⟨id, handler, hcall, hhandler, hphase⟩⟩
  · obtain ⟨x, hx, hcase⟩ := ended_of_step hsessions hsession' hended
    have hover : x.phase = .ended := hcase.resolve_right (by simp)
    refine hnone j ⟨x, hx, hover, id, handler, ?_, hhandler, hphase⟩
    obtain ⟨tab, htab, hid⟩ := Option.bind_eq_some_iff.mp hcall
    rcases getElem?_concat_cases htab with hold | rfl
    · exact Option.bind_eq_some_iff.mpr ⟨tab, hold, hid⟩
    · cases hid
  · obtain ⟨x, hx, hcase⟩ := ended_of_step hsessions hsession' hended
    have hgoes : CallGoesOn p j := ⟨id, handler, hcall, hhandler, hphase⟩
    rcases hcase with hover | hlast | hlast
    · exact hnone j ⟨x, hx, hover, hgoes⟩
    · obtain ⟨rfl, rfl⟩ := Viz.Event.session.inj hlast
      exact hnot ⟨Or.inl rfl, hgoes⟩
    · obtain ⟨rfl, rfl⟩ := Viz.Event.session.inj hlast
      exact hnot ⟨Or.inr rfl, hgoes⟩
  · have hne : i ≠ j := by
      rintro rfl
      rcases hcase with ⟨-, hasset⟩ | ⟨rfl, -⟩
      · exact hnot ⟨⟨session', hsession', hended⟩, hasset⟩
      · unfold Pipeline.call at hcall
        rw [List.getElem?_set_self (List.getElem?_eq_some_iff.mp htab).1] at hcall
        cases hcall
    have hold : p.call j = some id := by
      unfold Pipeline.call at hcall ⊢
      rwa [List.getElem?_set_ne hne] at hcall
    exact hnone j ⟨session', hsession', hended,
      callGoesOn_of_service hrun hservice ⟨id, handler, hold, hhandler, hphase⟩⟩
  · obtain ⟨x, hx, hcase⟩ := ended_of_step hsessions hsession' hended
    have hover : x.phase = .ended := hcase.resolve_right (by simp)
    have hold : p.call j = some id := (call_set htab (by rfl) j).symm.trans hcall
    exact hnone j ⟨x, hx, hover, id, handler, hold, hhandler, hphase⟩
  · have hold : p.call j = some id := (call_set htab (by rfl) j).symm.trans hcall
    exact hnone j ⟨session', hsession', hended, id, handler, hold, hhandler, hphase⟩

/-- After such a step a call has outlasted its session. -/
theorem exists_outlasted_of_outlives (hstep : pipelineStep asset p e = some t)
    (h : Outlives asset p e) : ∃ i, Outlasted t i := by
  rcases pipelineStep_cases hstep with ⟨b, service, rfl, -, rfl⟩ | ⟨sessions, rfl, -, rfl⟩ |
    ⟨i, b, sessions, rfl, -, hsessions, rfl⟩ |
    ⟨i, id, tab, session, service, call, rfl, htab, -, -, -, hservice, hcase, rfl⟩ |
    ⟨i, tab, id, handler, state, sessions, text, rfl, -, -, -, -, -, -, rfl⟩ |
    ⟨i, tab, session, text, rfl, -, -, -, -, rfl⟩
  · cases h
  · cases h
  · obtain ⟨hlast, hgoes⟩ := h
    obtain ⟨x, y, hx, hy, rfl⟩ := step_session hsessions
    refine ⟨i, y, List.getElem?_set_self (List.getElem?_eq_some_iff.mp hx).1, ?_, hgoes⟩
    rcases Session.step_cases hy with ⟨rfl, -⟩ | ⟨rfl, -⟩ | ⟨rfl, -⟩ | ⟨rfl, -⟩ | ⟨rfl, -⟩ |
      ⟨-, -, rfl⟩ | ⟨rfl | rfl, -⟩ | ⟨-, -, rfl⟩ <;> first | rfl | simp at hlast
  · obtain ⟨⟨session', hsession', hended⟩, hasset⟩ := h
    rcases hcase with ⟨rfl, -⟩ | ⟨-, error, herror⟩
    · obtain ⟨interval, -, hhandler⟩ := State.handlers_of_start hservice hasset
      refine ⟨i, session', hsession', hended, id, _, ?_, hhandler, by simp [State.Handler.new]⟩
      unfold Pipeline.call
      rw [List.getElem?_set_self (List.getElem?_eq_some_iff.mp htab).1]
      rfl
    · rw [hasset] at herror
      cases herror
  · cases h
  · cases h

/-- A step is one of the sessions, or leaves them as they are. -/
theorem sessions_of_pipelineStep (hstep : pipelineStep asset p e = some t) :
    (sessionEvent e = none ∧ t.sessions = p.sessions) ∨
      ∃ b, sessionEvent e = some b ∧ Viz.step p.sessions b = some t.sessions := by
  rcases pipelineStep_cases hstep with ⟨b, service, rfl, -, rfl⟩ | ⟨sessions, rfl, hsessions, rfl⟩ |
    ⟨i, b, sessions, rfl, -, hsessions, rfl⟩ |
    ⟨i, id, tab, session, service, call, rfl, -, -, -, -, -, -, rfl⟩ |
    ⟨i, tab, id, handler, state, sessions, text, rfl, -, -, -, -, hsessions, -, rfl⟩ |
    ⟨i, tab, session, text, rfl, -, -, -, -, rfl⟩
  · exact Or.inl ⟨rfl, rfl⟩
  · exact Or.inr ⟨_, rfl, hsessions⟩
  · exact Or.inr ⟨_, rfl, hsessions⟩
  · exact Or.inl ⟨rfl, rfl⟩
  · exact Or.inr ⟨_, rfl, hsessions⟩
  · exact Or.inl ⟨rfl, rfl⟩

/-- A step loses track exactly where it is one of those. -/
theorem inTrack_step_iff
    (hrun : Run (pipelineStep asset) (.init assetName rmsWindowS windowNs) l p) (hp : InTrack p)
    (hstep : pipelineStep asset p e = some t) : InTrack t ↔ ¬ LosesTrack asset p e := by
  have horphan : NoOrphan t.sessions ↔ ¬ ∃ b, sessionEvent e = some b ∧ Orphans p.sessions b := by
    rcases sessions_of_pipelineStep hstep with ⟨hnone, hsame⟩ | ⟨b, hb, hsessions⟩
    · rw [hnone, hsame]
      exact iff_of_true hp.1 (by simp)
    · rw [noOrphan_step_iff hp.1 hsessions, hb]
      simp
  have houtlasted : (∀ i, ¬ Outlasted t i) ↔ ¬ Outlives asset p e := by
    constructor
    · intro hnone hlives
      obtain ⟨i, hi⟩ := exists_outlasted_of_outlives hstep hlives
      exact hnone i hi
    · exact not_outlasted_step hrun hp.2 hstep
  unfold InTrack LosesTrack
  rw [horphan, houtlasted, not_or]

/-- **The gauge counts the connected browsers**, and no browser that left keeps a stream, but for
those that viz-svc loses track of. For every interleaving of browsers, states and failures each
session is counted at most once and taken off at most once, and both once it is over; the gauge is
what is counted, and at rest it is right exactly without orphans, so always at rest in a run in
which no handler becomes one. With state-svc behind the sessions, at rest the gauge is right and no
browser that left keeps a stream exactly when moreover no call has outlasted its session. A run is
in track throughout exactly when none of its steps loses track, and then both hold in every state at
rest.
Source: `stream.py`, `StateStream.frames`; `app.py`, `ws_state`; `grpc_server.py`,
`StateServicer.StreamState` -/
theorem gauge_counts_connected :
    (∀ sl s, Run Viz.step .init sl s →
      (∀ x ∈ s.sessions, x.decs ≤ x.incs ∧ x.incs ≤ 1 ∧
        (x.phase = .ended → x.incs = 1 ∧ x.decs = 1 ∧ x.connected = false)) ∧
      s.clients = (s.sessions.map fun x => (x.incs : ℤ) - x.decs).sum ∧
      (Quiescent s → (s.clients = s.connected ↔ NoOrphan s)) ∧
      (AlongSteps Viz.step .init (fun s e => ¬ Orphans s e) sl →
        Throughout Viz.step .init (fun s => Quiescent s → s.clients = s.connected) sl)) ∧
    ∀ l p, Run (pipelineStep asset) (.init assetName rmsWindowS windowNs) l p →
      Run Viz.step .init (l.filterMap sessionEvent) p.sessions ∧
      (Quiescent p.sessions → (GaugeRight p ↔ InTrack p)) ∧
      (Throughout (pipelineStep asset) (.init assetName rmsWindowS windowNs) InTrack l ↔
        AlongSteps (pipelineStep asset) (.init assetName rmsWindowS windowNs)
          (fun p e => ¬ LosesTrack asset p e) l) ∧
      (AlongSteps (pipelineStep asset) (.init assetName rmsWindowS windowNs)
          (fun p e => ¬ LosesTrack asset p e) l →
        Throughout (pipelineStep asset) (.init assetName rmsWindowS windowNs)
          (fun p => Quiescent p.sessions → GaugeRight p) l) := by
  refine ⟨fun sl s hrun => sessions_counted hrun, fun l p hrun => ?_⟩
  have hinit : InTrack (.init assetName rmsWindowS windowNs) := by
    constructor
    · simp [NoOrphan, Pipeline.init, Sessions.init]
    · rintro i ⟨session, hsession, -⟩
      cases hsession
  have hiff := hrun.throughout_iff hinit fun l s e t hrun hs hstep => inTrack_step_iff hrun hs hstep
  refine ⟨(serviceRuns_of_run hrun).sessions, gaugeRight_iff hrun, hiff, ?_⟩
  intro hsteps l' p' hprefix hrun' hquiescent
  exact (gaugeRight_iff hrun' hquiescent).mpr (hiff.mpr hsteps l' p' hprefix hrun')

end departures

/-! ### Browsers that left -/

section platform

attribute [local instance] CPython.series Pydantic.decimal FloatRepr.whole

/-- The connection to state-svc is lost after one browser was served, and another one comes. -/
def lostConnection : List PipelineEvent :=
  [.connect, .session 0 .accepted, .call 0 0, .connect, .service (.cancel 0), .session 0 .rpcFailed,
    .session 0 .closed, .session 1 .accepted]

/-- The pipeline after it. -/
def lostPipeline (i : Double) : Pipeline where
  service := { (calledPipeline i).service with
    consumer := { calledConsumer with hub := calledConsumer.hub.unsubscribe 0 }
    handlers := Function.update (calledPipeline i).service.handlers 0
      (some { State.Handler.new i with phase := .ended }) }
  sessions := ⟨[⟨.ended, false, 1, 1⟩, ⟨.waiting, true, 1, 0⟩], 1, 0⟩
  tabs := [{ Tab.new with call := some 0 }, .new]

/-- The run goes on from the call to there. -/
theorem run_lostPipeline (i : Double) :
    Run (pipelineStep "ur5") (calledPipeline i) [.connect, .service (.cancel 0),
      .session 0 .rpcFailed, .session 0 .closed, .session 1 .accepted] (lostPipeline i) :=
  .of_exec rfl

/-- None of the steps loses track: the browsers are connected while their handlers wait, and the
call is over when its session ends. -/
theorem not_losesTrack_lostConnection :
    AlongSteps (pipelineStep "ur5") (.init "ur5" (PyFloat.lit 2) 2000000000)
      (fun p e => ¬ LosesTrack "ur5" p e) lostConnection := by
  obtain ⟨i, -, hcall⟩ := call_openedPipeline
  refine (alongSteps_cons rfl).mpr ⟨?_, (alongSteps_cons rfl).mpr ⟨?_,
    (alongSteps_cons hcall).mpr ⟨?_, (alongSteps_cons rfl).mpr ⟨?_, (alongSteps_cons rfl).mpr ⟨?_,
    (alongSteps_cons rfl).mpr ⟨?_, (alongSteps_cons rfl).mpr ⟨?_, (alongSteps_cons rfl).mpr ⟨?_,
    alongSteps_nil⟩⟩⟩⟩⟩⟩⟩⟩
  · simp [LosesTrack, sessionEvent, Orphans, Outlives]
  · rintro (⟨b, hb, hb'⟩ | ⟨hlast, -⟩)
    · obtain rfl := Option.some.inj hb
      obtain ⟨x, hx, hcase⟩ := hb'
      obtain rfl := Option.some.inj hx
      simp [Session.new] at hcase
    · simp at hlast
  · rintro (⟨b, hb, -⟩ | ⟨⟨session, hsession, hended⟩, -⟩)
    · cases hb
    · obtain rfl := Option.some.inj hsession
      cases hended
  · simp [LosesTrack, sessionEvent, Orphans, Outlives]
  · simp [LosesTrack, sessionEvent, Outlives]
  · simp [LosesTrack, sessionEvent, Orphans, Outlives]
  · rintro (⟨b, hb, hb'⟩ | ⟨-, id, handler, hid, hhandler, hphase⟩)
    · obtain rfl := Option.some.inj hb
      obtain ⟨x, -, hcase⟩ := hb'
      simp at hcase
    · obtain rfl := Option.some.inj hid
      obtain rfl := Option.some.inj hhandler
      exact hphase rfl
  · rintro (⟨b, hb, hb'⟩ | ⟨hlast, -⟩)
    · obtain rfl := Option.some.inj hb
      obtain ⟨x, hx, hcase⟩ := hb'
      obtain rfl := Option.some.inj hx
      simp [Session.new] at hcase
    · simp at hlast

/-- At rest the gauge counts the one browser that is left. -/
theorem gauge_counts_connected_lostConnection :
    ∃ p, Run (pipelineStep "ur5") (.init "ur5" (PyFloat.lit 2) 2000000000) lostConnection p ∧
      Quiescent p.sessions ∧ p.sessions.clients = 1 ∧ GaugeRight p := by
  obtain ⟨i, -, hcalled⟩ := run_calledPipeline
  have hrun := hcalled.append (run_lostPipeline i)
  have hquiescent : Quiescent (lostPipeline i).sessions :=
    quiescent_of_rests (by simp [lostPipeline])
  obtain ⟨-, hright⟩ := gauge_counts_connected
  obtain ⟨-, -, -, hthroughout⟩ := hright _ _ hrun
  exact ⟨_, hrun, hquiescent, rfl, hthroughout not_losesTrack_lostConnection _ _ List.prefix_rfl
    hrun hquiescent⟩

/-- The browser has left while a frame was sent to it, and its session is over. -/
def leftPipeline (c : State.Consumer) (hub : State.StateHub (State.TwinState Double)) (i : Double)
    (state : State.TwinState Double) (text : String) : Pipeline where
  service := servedService c hub i state .waiting
  sessions := ⟨[⟨.ended, false, 1, 1⟩], 0, 1⟩
  tabs := [⟨some 0, [state], [text], []⟩]

/-- A browser leaves while its handler waits for a state: nothing can happen any more before
state-svc has a new one, and the gauge counts a browser that is not connected. A browser leaves
while a frame is sent to it: the gauge is right, but state-svc keeps its subscriber. -/
theorem departure_unnoticed :
    (∃ l p, Run (pipelineStep "ur5") (.init "ur5" (PyFloat.lit 2) 2000000000) l p ∧
      Quiescent p.sessions ∧ p.sessions.clients = 1 ∧ p.sessions.connected = 0 ∧
      p.call 0 = some 0 ∧ 0 ∈ p.service.consumer.hub.subscribers) ∧
    ∃ l p, Run (pipelineStep "ur5") (.init "ur5" (PyFloat.lit 2) 2000000000) l p ∧
      Quiescent p.sessions ∧ p.sessions.clients = 0 ∧ p.sessions.connected = 0 ∧
      p.call 0 = some 0 ∧ 0 ∈ p.service.consumer.hub.subscribers := by
  constructor
  · obtain ⟨i, -, hcalled⟩ := run_calledPipeline
    have hleft := hcalled.snoc (a := .session 0 .depart) rfl
    refine ⟨_, _, hleft, quiescent_of_rests (by simp [calledPipeline]), rfl, rfl, rfl, ?_⟩
    exact List.mem_singleton_self 0
  · obtain ⟨l, i, c, hub, state, hserved, -⟩ := run_servedService
    obtain ⟨text, -, hhandOver⟩ := handOver_servedService hserved
    have hleft : Run (pipelineStep "ur5") (.init "ur5" (PyFloat.lit 2) 2000000000) _
        (leftPipeline c hub i state text) :=
      (((hserved.snoc hhandOver).snoc (a := .session 0 .depart) rfl).snoc
        (a := .session 0 .raised) rfl).snoc (a := .session 0 .finalized) rfl
    have hgoes : CallGoesOn (leftPipeline c hub i state text) 0 :=
      ⟨0, _, rfl, handlers_servedService c hub i state .waiting, by simp [servedHandler]⟩
    obtain ⟨id, hcall, hsubscribed⟩ := hgoes.subscribed hleft
    obtain rfl := Option.some.inj hcall
    exact ⟨_, _, hleft, quiescent_of_rests (by simp [leftPipeline]), rfl, rfl, rfl, hsubscribed⟩

end platform

end TwinServices.System
