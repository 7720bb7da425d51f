import TwinServices.State.Clients
import TwinServices.Viz.Frame
import TwinServices.Viz.Sessions

/-!
# From state-svc to the browser

Every browser has a session in viz-svc, every session a call of `StreamState`. The RPC hands over
what the call yields, in order and as long as it lasts; the session sends a text for each state; the
socket delivers the texts in order, as long as the browser is there; and the browser shows what it
can read. All of this interleaves with state-svc and its other clients.

* `Tab`, `Pipeline`, `pipelineStep`: the way of a state to a browser.
* `ServiceRuns`, `serviceRuns_of_run`: what a run is for state-svc and for viz-svc.
* `TabInv`: what was handed over is the beginning of what was yielded, and so on to the browser.
-/

set_option autoImplicit false

namespace TwinServices.System

open TwinServices.Python TwinServices.Contracts TwinServices.Viz
open Lib.Transition Lib.Binary64

/-! ## The way to the browser -/

/-- What passes through a session.
Source: `stream.py`, `StateStream.frames`; `app.py`, `ws_state`; `useTwinState.ts`,
`useTwinState` -/
structure Tab where
  /-- The mailbox of its call of `StreamState`, once it has one. -/
  call : Option State.QueueId
  /-- The states that the RPC handed over, oldest first. -/
  received : List (State.TwinState Double)
  /-- The texts that `send_text` was called with. -/
  sent : List String
  /-- The texts that arrived at the browser. -/
  arrived : List String

/-- A browser that has just opened its socket. -/
def Tab.new : Tab := ⟨none, [], [], []⟩

/-- What the browser has shown; a text that it cannot read changes nothing.
Source: `useTwinState.ts`, `onmessage` -/
def Tab.shown (tab : Tab) : List (TwinFrame Double) := tab.arrived.filterMap onMessage

/-- state-svc, the sessions of viz-svc, and what passed through each of them. -/
structure Pipeline where
  service : State.Service
  sessions : Sessions
  tabs : List Tab

/-- Both services as they start, without browsers. -/
def Pipeline.init (assetName : String) (rmsWindowS : Double) (windowNs : ℤ) : Pipeline :=
  ⟨.init assetName rmsWindowS windowNs, .init, []⟩

/-- What can happen on the way. -/
inductive PipelineEvent
  /-- A step of state-svc, with its other clients. -/
  | service (e : State.ServiceEvent)
  /-- A browser opens its socket. -/
  | connect
  /-- A step of a session other than the arrival of a state. -/
  | session (i : ℕ) (e : SessionEvent)
  /-- The call of `StreamState` arrives at state-svc. -/
  | call (i : ℕ) (id : State.QueueId)
  /-- The RPC hands over the next state, and the session sends its frame. -/
  | handOver (i : ℕ)
  /-- The next text arrives at the browser. -/
  | arrive (i : ℕ)

section pipeline

variable [CPython]

/-- Source: `stream.py`, `BROWSER_RATE_HZ` -/
def browserRateHz : Double := PyFloat.lit 30

/-- The request of a session. Source: `stream.py`, `StateStream.frames` -/
def browserRequest (asset : String) : State.StreamStateRequest := ⟨asset, browserRateHz⟩

variable [Pydantic] [FloatRepr]

/-- One step; none where it cannot happen. The asset is the one that viz-svc asks for.
Source: `stream.py`, `StateStream.frames`; `app.py`, `ws_state` -/
def pipelineStep (asset : String) (p : Pipeline) : PipelineEvent → Option Pipeline
  | .service e => (State.serviceStep p.service e).map fun service => { p with service := service }
  | .connect =>
      (Viz.step p.sessions .connect).map fun sessions =>
        { p with sessions := sessions, tabs := p.tabs ++ [.new] }
  | .session _ .state => none
  | .session i e =>
      (Viz.step p.sessions (.session i e)).map fun sessions => { p with sessions := sessions }
  | .call i id => do
      let tab ← p.tabs[i]?
      let session ← p.sessions.sessions[i]?
      if session.phase ≠ .accepting ∧ tab.call = none then
        let service ← State.serviceStep p.service (.start id (browserRequest asset))
        let call := match State.checkAsset p.service.consumer.hub.asset asset with
          | .ok _ => some id
          | .error _ => none
        return { p with service := service, tabs := p.tabs.set i { tab with call := call } }
      else none
  | .handOver i => do
      let tab ← p.tabs[i]?
      let id ← tab.call
      let handler ← p.service.handlers id
      let state ← handler.yielded[tab.received.length]?
      let sessions ← Viz.step p.sessions (.session i .state)
      match toFrameText state with
      | .error _ => none
      | .ok text =>
          return { p with
            sessions := sessions
            tabs := p.tabs.set i
              { tab with received := tab.received ++ [state], sent := tab.sent ++ [text] } }
  | .arrive i => do
      let tab ← p.tabs[i]?
      let session ← p.sessions.sessions[i]?
      if session.connected then
        let text ← tab.sent[tab.arrived.length]?
        return { p with tabs := p.tabs.set i { tab with arrived := tab.arrived ++ [text] } }
      else none

/-- What each event needs, and what it leads to. -/
theorem pipelineStep_cases {asset : String} {p t : Pipeline} {e : PipelineEvent}
    (h : pipelineStep asset p e = some t) :
    (∃ b service, e = .service b ∧ State.serviceStep p.service b = some service ∧
      t = { p with service := service }) ∨
    (∃ sessions, e = .connect ∧ Viz.step p.sessions .connect = some sessions ∧
      t = { p with sessions := sessions, tabs := p.tabs ++ [.new] }) ∨
    (∃ i b sessions, e = .session i b ∧ b ≠ .state ∧
      Viz.step p.sessions (.session i b) = some sessions ∧ t = { p with sessions := sessions }) ∨
    (∃ i id tab session service call, e = .call i id ∧ p.tabs[i]? = some tab ∧ tab.call = none ∧
      p.sessions.sessions[i]? = some session ∧ session.phase ≠ .accepting ∧
      State.serviceStep p.service (.start id (browserRequest asset)) = some service ∧
      (call = some id ∧ State.checkAsset p.service.consumer.hub.asset asset = .ok () ∨
        call = none ∧ ∃ error,
          State.checkAsset p.service.consumer.hub.asset asset = .error error) ∧
      t = { p with service := service, tabs := p.tabs.set i { tab with call := call } }) ∨
    (∃ i tab id handler state sessions text, e = .handOver i ∧ p.tabs[i]? = some tab ∧
      tab.call = some id ∧ p.service.handlers id = some handler ∧
      handler.yielded[tab.received.length]? = some state ∧
      Viz.step p.sessions (.session i .state) = some sessions ∧ toFrameText state = .ok text ∧
      t = { p with
        sessions := sessions
        tabs := p.tabs.set i
          { tab with received := tab.received ++ [state], sent := tab.sent ++ [text] } }) ∨
    (∃ i tab session text, e = .arrive i ∧ p.tabs[i]? = some tab ∧
      p.sessions.sessions[i]? = some session ∧ session.connected = true ∧
      tab.sent[tab.arrived.length]? = some text ∧
      t = { p with tabs := p.tabs.set i { tab with arrived := tab.arrived ++ [text] } }) := by
  cases e with
  | service b =>
      obtain ⟨service, hservice, rfl⟩ := Option.map_eq_some_iff.mp h
      exact Or.inl ⟨b, service, rfl, hservice, rfl⟩
  | connect =>
      simp only [pipelineStep, Option.map_eq_some_iff] at h
      obtain ⟨sessions, hsessions, rfl⟩ := h
      exact Or.inr (Or.inl ⟨sessions, rfl, hsessions, rfl⟩)
  | session i b =>
      refine Or.inr (Or.inr (Or.inl ?_))
      cases b with
      | state => cases h
      | _ =>
          obtain ⟨sessions, hsessions, rfl⟩ := Option.map_eq_some_iff.mp h
          exact ⟨i, _, sessions, rfl, by simp, hsessions, rfl⟩
  | call i id =>
      refine Or.inr (Or.inr (Or.inr (Or.inl ?_)))
      simp only [pipelineStep, Option.bind_eq_bind, Option.bind_eq_some_iff] at h
      obtain ⟨tab, htab, session, hsession, h⟩ := h
      split_ifs at h with hfree
      obtain ⟨service, hservice, h⟩ := Option.bind_eq_some_iff.mp h
      obtain rfl := Option.some.inj h
      refine ⟨i, id, tab, session, service, _, rfl, htab, hfree.2, hsession, hfree.1, hservice, ?_,
        rfl⟩
      split
      · rename_i hcheck
        exact Or.inl ⟨rfl, hcheck⟩
      · rename_i error hcheck
        exact Or.inr ⟨rfl, error, hcheck⟩
  | handOver i =>
      refine Or.inr (Or.inr (Or.inr (Or.inr (Or.inl ?_))))
      simp only [pipelineStep, Option.bind_eq_bind, Option.bind_eq_some_iff] at h
      obtain ⟨tab, htab, id, hid, handler, hhandler, state, hstate, sessions, hsessions, h⟩ := h
      split at h
      · cases h
      · rename_i text htext
        obtain rfl := Option.some.inj h
        exact ⟨i, tab, id, handler, state, sessions, text, rfl, htab, hid, hhandler, hstate,
          hsessions, htext, rfl⟩
  | arrive i =>
      refine Or.inr (Or.inr (Or.inr (Or.inr (Or.inr ?_))))
      simp only [pipelineStep, Option.bind_eq_bind, Option.bind_eq_some_iff] at h
      obtain ⟨tab, htab, session, hsession, h⟩ := h
      split_ifs at h with hconnected
      obtain ⟨text, htext, h⟩ := Option.bind_eq_some_iff.mp h
      obtain rfl := Option.some.inj h
      exact ⟨i, tab, session, text, rfl, htab, hsession, hconnected, htext, rfl⟩

/-- A call that arrives at state-svc. -/
theorem pipelineStep_call {asset : String} {p : Pipeline} {i : ℕ} {id : State.QueueId} {tab : Tab}
    {session : Session} {service : State.Service} {call : Option State.QueueId}
    (htab : p.tabs[i]? = some tab) (hnone : tab.call = none)
    (hsession : p.sessions.sessions[i]? = some session) (hphase : session.phase ≠ .accepting)
    (hservice : State.serviceStep p.service (.start id (browserRequest asset)) = some service)
    (hcall : call = some id ∧ State.checkAsset p.service.consumer.hub.asset asset = .ok () ∨
      call = none ∧ ∃ error, State.checkAsset p.service.consumer.hub.asset asset = .error error) :
    pipelineStep asset p (.call i id) = some { p with
      service := service
      tabs := p.tabs.set i { tab with call := call } } := by
  simp only [pipelineStep, htab, hsession, hservice, Option.bind_eq_bind, Option.bind_some]
  rw [if_pos ⟨hphase, hnone⟩]
  rcases hcall with ⟨rfl, hcheck⟩ | ⟨rfl, error, hcheck⟩
  · rw [hcheck]
    rfl
  · rw [hcheck]
    rfl

/-- A state that is handed over. -/
theorem pipelineStep_handOver {asset : String} {p : Pipeline} {i : ℕ} {id : State.QueueId}
    {tab : Tab} {handler : State.Handler (State.TwinState Double)} {state : State.TwinState Double}
    {sessions : Sessions} {text : String} (htab : p.tabs[i]? = some tab)
    (hcall : tab.call = some id)
    (hhandler : p.service.handlers id = some handler)
    (hstate : handler.yielded[tab.received.length]? = some state)
    (hsessions : Viz.step p.sessions (.session i .state) = some sessions)
    (htext : toFrameText state = .ok text) :
    pipelineStep asset p (.handOver i) = some { p with
      sessions := sessions
      tabs := p.tabs.set i
        { tab with received := tab.received ++ [state], sent := tab.sent ++ [text] } } := by
  simp only [pipelineStep, htab, hcall, hhandler, hstate, hsessions, htext, Option.bind_eq_bind,
    Option.bind_some]
  rfl

/-- A text that arrives. -/
theorem pipelineStep_arrive {asset : String} {p : Pipeline} {i : ℕ} {tab : Tab} {session : Session}
    {text : String} (htab : p.tabs[i]? = some tab)
    (hsession : p.sessions.sessions[i]? = some session) (hconnected : session.connected = true)
    (htext : tab.sent[tab.arrived.length]? = some text) :
    pipelineStep asset p (.arrive i) = some { p with
      tabs := p.tabs.set i { tab with arrived := tab.arrived ++ [text] } } := by
  simp only [pipelineStep, htab, hsession, hconnected, htext, Option.bind_eq_bind,
    Option.bind_some, if_true]
  rfl

/-- A step of a session other than the arrival of a state. -/
theorem pipelineStep_session {asset : String} {p : Pipeline} {i : ℕ} {b : SessionEvent}
    (hb : b ≠ .state) :
    pipelineStep asset p (.session i b) =
      (Viz.step p.sessions (.session i b)).map fun sessions => { p with sessions := sessions } := by
  cases b with
  | state => exact absurd rfl hb
  | _ => simp only [pipelineStep]

/-! ## The two services in the pipeline -/

omit [Pydantic] [FloatRepr] in
/-- What a step is for state-svc. -/
def serviceEvent (asset : String) : PipelineEvent → Option State.ServiceEvent
  | .service e => some e
  | .call _ id => some (.start id (browserRequest asset))
  | _ => none

omit [CPython] [Pydantic] [FloatRepr] in
/-- What a step is for the sessions of viz-svc. -/
def sessionEvent : PipelineEvent → Option Viz.Event
  | .connect => some .connect
  | .session i e => some (.session i e)
  | .handOver i => some (.session i .state)
  | _ => none

variable {asset assetName : String} {rmsWindowS : Double} {windowNs : ℤ} {l : List PipelineEvent}
  {p t : Pipeline} {e : PipelineEvent}

/-- Both services run in the pipeline as they do by themselves. -/
structure ServiceRuns (asset assetName : String) (rmsWindowS : Double) (windowNs : ℤ)
    (l : List PipelineEvent) (p : Pipeline) : Prop where
  service : Run State.serviceStep (.init assetName rmsWindowS windowNs)
    (l.filterMap (serviceEvent asset)) p.service
  sessions : Run Viz.step Sessions.init (l.filterMap sessionEvent) p.sessions

/-- So it is in every run. -/
theorem serviceRuns_of_run
    (h : Run (pipelineStep asset) (.init assetName rmsWindowS windowNs) l p) :
    ServiceRuns asset assetName rmsWindowS windowNs l p := by
  apply h.history (I := ServiceRuns asset assetName rmsWindowS windowNs) ⟨.nil, .nil⟩
  intro l p e t _ ih hstep
  rcases pipelineStep_cases hstep with ⟨b, service, rfl, hservice, rfl⟩ |
    ⟨sessions, rfl, hsessions, rfl⟩ | ⟨i, b, sessions, rfl, -, hsessions, rfl⟩ |
    ⟨i, id, tab, session, service, call, rfl, -, -, -, -, hservice, -, rfl⟩ |
    ⟨i, tab, id, handler, state, sessions, text, rfl, -, -, -, -, hsessions, -, rfl⟩ |
    ⟨i, tab, session, text, rfl, -, -, -, -, rfl⟩
  · exact ⟨ih.service.read rfl hservice, ih.sessions.unread rfl⟩
  · exact ⟨ih.service.unread rfl, ih.sessions.read rfl hsessions⟩
  · exact ⟨ih.service.unread rfl, ih.sessions.read rfl hsessions⟩
  · exact ⟨ih.service.read rfl hservice, ih.sessions.unread rfl⟩
  · exact ⟨ih.service.unread rfl, ih.sessions.read rfl hsessions⟩
  · exact ⟨ih.service.unread rfl, ih.sessions.unread rfl⟩

/-! ## Nothing is reordered, repeated or made up on the way -/

/-- What passed through a session: the states that the RPC handed over are the first ones that its
call yielded, there is a text for each of them, and the first texts arrived. -/
structure TabInv (service : State.Service) (tab : Tab) : Prop where
  call : ∀ id, tab.call = some id → ∃ handler, service.handlers id = some handler ∧
    State.minInterval browserRateHz = .ok handler.minInterval ∧ tab.received <+: handler.yielded
  idle : tab.call = none → tab.received = []
  sent : List.Forall₂ (fun state text => toFrameText state = .ok text) tab.received tab.sent
  arrived : tab.arrived <+: tab.sent

omit [Pydantic] in
/-- A new tab has received and shown nothing. -/
theorem tabInv_new (service : State.Service) : TabInv service .new where
  call id h := by cases h
  idle _ := rfl
  sent := .nil
  arrived := List.prefix_rfl

/-- A step of state-svc leaves what passed through a session as it is. -/
theorem TabInv.service {sl sl' : List State.ServiceEvent} {s s' : State.Service} {tab : Tab}
    (h : TabInv s tab) (hrun : Run State.serviceStep (.init assetName rmsWindowS windowNs) sl s)
    (hmore : Run State.serviceStep s sl' s') : TabInv s' tab where
  call id hid := by
    obtain ⟨handler, hhandler, hrate, hp⟩ := h.call id hid
    obtain ⟨handler', hhandler', hextends⟩ := State.extends_of_run hrun hmore hhandler
    exact ⟨handler', hhandler', hextends.minInterval ▸ hrate, hp.trans hextends.yielded⟩
  idle := h.idle
  sent := h.sent
  arrived := h.arrived

omit [CPython] [Pydantic] [FloatRepr] in
/-- The entry behind a prefix makes it longer. -/
theorem prefix_concat_of_getElem? {α : Type} {xs ys : List α} {x : α} (h : xs <+: ys)
    (hx : ys[xs.length]? = some x) : xs ++ [x] <+: ys := by
  obtain ⟨rest, rfl⟩ := h
  rw [List.getElem?_append_right le_rfl, Nat.sub_self] at hx
  obtain ⟨rest, rfl⟩ : ∃ rest', rest = x :: rest' := by
    cases rest with
    | nil => cases hx
    | cons y rest => exact ⟨rest, by rw [Option.some.inj hx]⟩
  exact ⟨rest, by simp⟩

/-- The invariant holds of every session after every run. -/
theorem tabInv_of_run (h : Run (pipelineStep asset) (.init assetName rmsWindowS windowNs) l p)
    {tab : Tab} (htab : tab ∈ p.tabs) : TabInv p.service tab := by
  refine h.history (I := fun _ p => ∀ tab ∈ p.tabs, TabInv p.service tab) ?_ ?_ tab htab
  · intro tab htab
    cases htab
  · intro l p e t hrun ih hstep tab' htab'
    rcases pipelineStep_cases hstep with ⟨b, service, rfl, hservice, rfl⟩ |
      ⟨sessions, rfl, -, rfl⟩ | ⟨i, b, sessions, rfl, -, -, rfl⟩ |
      ⟨i, id, tab, session, service, call, rfl, htab, hnone, -, -, hservice, hcall, rfl⟩ |
      ⟨i, tab, id, handler, state, sessions, text, rfl, htab, hid, hhandler, hstate, -, htext,
        rfl⟩ |
      ⟨i, tab, session, text, rfl, htab, -, -, htext, rfl⟩
    · exact (ih tab' htab').service (serviceRuns_of_run hrun).service (Run.nil.snoc hservice)
    · rcases List.mem_append.mp htab' with htab' | htab'
      · exact ih tab' htab'
      · rw [List.mem_singleton.mp htab']
        exact tabInv_new p.service
    · exact ih tab' htab'
    · have hmore : Run State.serviceStep p.service [.start id (browserRequest asset)] service :=
        Run.nil.snoc hservice
      rcases List.mem_or_eq_of_mem_set htab' with htab' | rfl
      · exact (ih tab' htab').service (serviceRuns_of_run hrun).service hmore
      · have hold :=
          (ih tab (List.mem_of_getElem? htab)).service (serviceRuns_of_run hrun).service hmore
        have hreceived := hold.idle hnone
        refine ⟨?_, fun _ => hreceived, hold.sent, hold.arrived⟩
        intro id' hid'
        rcases hcall with ⟨rfl, hasset⟩ | ⟨rfl, -⟩
        · obtain rfl := Option.some.inj hid'
          obtain ⟨i, hi, hhandler⟩ := State.handlers_of_start hservice hasset
          exact ⟨_, hhandler, hi, by simp [hreceived]⟩
        · cases hid'
    · rcases List.mem_or_eq_of_mem_set htab' with htab' | rfl
      · exact ih tab' htab'
      · have hold := ih tab (List.mem_of_getElem? htab)
        refine ⟨?_, ?_, ?_, hold.arrived.trans (List.prefix_append ..)⟩
        · intro id' hid'
          obtain rfl := Option.some.inj (hid.symm.trans hid')
          obtain ⟨handler', hhandler', hrate, hp⟩ := hold.call id hid
          obtain rfl := Option.some.inj (hhandler.symm.trans hhandler')
          exact ⟨handler, hhandler, hrate, prefix_concat_of_getElem? hp hstate⟩
        · intro hnone
          rw [hid] at hnone
          cases hnone
        · exact List.rel_append hold.sent (.cons htext .nil)
    · rcases List.mem_or_eq_of_mem_set htab' with htab' | rfl
      · exact ih tab' htab'
      · have hold := ih tab (List.mem_of_getElem? htab)
        exact ⟨hold.call, hold.idle, hold.sent, prefix_concat_of_getElem? hold.arrived htext⟩

/-- Steps of state-svc alone are steps of the pipeline. -/
theorem run_of_service {sl : List State.ServiceEvent} {s : State.Service}
    (h : Run State.serviceStep p.service sl s) :
    Run (pipelineStep asset) p (sl.map .service) { p with service := s } := by
  induction h with
  | nil => exact .nil
  | @snoc sl s t e _ hstep ih =>
      rw [List.map_append]
      exact ih.snoc (congrArg (Option.map _) hstep)

end pipeline

end TwinServices.System
