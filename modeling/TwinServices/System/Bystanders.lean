import TwinServices.State.Erasure
import TwinServices.System.Shown

/-!
# Browsers do not interfere

A browser that is slow, gone or stuck costs the others nothing: leaving out everything that some
browsers and other clients of state-svc did leaves a run, in which the remaining browsers have
received and shown the same, and state-svc holds the same window and the same latest state.

* `stays`: the steps that are left.
* `Left`: what the run without the others ends in.
* `clients_do_not_interfere`: over every run, for any set of clients.
-/

set_option autoImplicit false

namespace TwinServices.System

open TwinServices.Python TwinServices.Contracts TwinServices.Viz
open Lib.Transition Lib.Binary64

/-- The steps that are of none of the browsers and calls that are left out. -/
def stays (tabs : ℕ → Bool) (ids : State.QueueId → Bool) : PipelineEvent → Bool
  | .service e => State.keeps ids e.client
  | .connect => true
  | .session i _ | .call i _ | .handOver i | .arrive i => !tabs i

/-- Browsers are left out together with their calls. -/
def Together (tabs : ℕ → Bool) (ids : State.QueueId → Bool) (p : Pipeline) : Prop :=
  ∀ i tab id, p.tabs[i]? = some tab → tab.call = some id → tabs i = ids id

/-- What remains where some browsers and calls are left out: state-svc without these calls, and the
other browsers as they were. -/
structure Left (tabs : ℕ → Bool) (ids : State.QueueId → Bool) (p p' : Pipeline) : Prop where
  service : p'.service = p.service.without ids
  tabsLength : p'.tabs.length = p.tabs.length
  sessionsLength : p'.sessions.sessions.length = p.sessions.sessions.length
  tab : ∀ i, tabs i = false → p'.tabs[i]? = p.tabs[i]?
  session : ∀ i, tabs i = false → p'.sessions.sessions[i]? = p.sessions.sessions[i]?

/-! ## One step -/

section lists

variable {α : Type} {xs ys : List α} {x y : α} {i j : ℕ}

/-- Entries at the same place of lists that are made longer by the same entry. -/
theorem getElem?_concat_congr (hlen : xs.length = ys.length) (h : xs[j]? = ys[j]?) :
    (xs ++ [x])[j]? = (ys ++ [x])[j]? := by
  rw [List.getElem?_append, List.getElem?_append, hlen, h]

/-- Entries at the same place of lists in which the same place is set. -/
theorem getElem?_set_congr (hlen : xs.length = ys.length) (h : xs[j]? = ys[j]?) :
    (xs.set i x)[j]? = (ys.set i x)[j]? := by
  rw [List.getElem?_set, List.getElem?_set, hlen, h]

end lists

section pipeline

variable [CPython] [Pydantic] [FloatRepr] {asset : String} {tabs : ℕ → Bool}
  {ids : State.QueueId → Bool} {p p' t : Pipeline} {e : PipelineEvent}

/-- A session keeps its call. -/
theorem call_persists (h : pipelineStep asset p e = some t) {i : ℕ} {tab : Tab}
    {id : State.QueueId} (htab : p.tabs[i]? = some tab) (hcall : tab.call = some id) :
    ∃ tab', t.tabs[i]? = some tab' ∧ tab'.call = some id := by
  have hset : ∀ {j : ℕ} {old new : Tab}, p.tabs[j]? = some old →
      (old.call = some id → new.call = some id) →
      ∃ tab', (p.tabs.set j new)[i]? = some tab' ∧ tab'.call = some id := by
    intro j old new hold hnew
    by_cases heq : j = i
    · subst heq
      obtain rfl := Option.some.inj (hold.symm.trans htab)
      have hlt := (List.getElem?_eq_some_iff.mp htab).1
      exact ⟨new, List.getElem?_set_self hlt, hnew hcall⟩
    · exact ⟨tab, (List.getElem?_set_ne heq).trans htab, hcall⟩
  rcases pipelineStep_cases h with ⟨b, service, rfl, -, rfl⟩ | ⟨sessions, rfl, -, rfl⟩ |
    ⟨j, b, sessions, rfl, -, -, rfl⟩ |
    ⟨j, id', old, session, service, call, rfl, hold, hnone, -, -, -, -, rfl⟩ |
    ⟨j, old, id', handler, state, sessions, text, rfl, hold, -, -, -, -, -, rfl⟩ |
    ⟨j, old, session, text, rfl, hold, -, -, -, rfl⟩
  · exact ⟨tab, htab, hcall⟩
  · refine ⟨tab, ?_, hcall⟩
    exact (List.getElem?_append_left (List.getElem?_eq_some_iff.mp htab).1).trans htab
  · exact ⟨tab, htab, hcall⟩
  · exact hset hold fun hsome => by rw [hnone] at hsome; cases hsome
  · exact hset hold fun hsome => hsome
  · exact hset hold fun hsome => hsome

/-- Erased browsers and calls were erased together before a step, too. -/
theorem Together.of_step (h : Together tabs ids t) (hstep : pipelineStep asset p e = some t) :
    Together tabs ids p := by
  intro i tab id htab hcall
  obtain ⟨tab', htab', hcall'⟩ := call_persists hstep htab hcall
  exact h i tab' id htab' hcall'

omit [CPython] [Pydantic] [FloatRepr] in
/-- A browser that has just called is left out or stays with its call. -/
theorem Together.of_set (h : Together tabs ids t) {i : ℕ} {tab tab' : Tab} {id : State.QueueId}
    (hset : t.tabs = p.tabs.set i tab') (htab : p.tabs[i]? = some tab)
    (hcall : tab'.call = some id) : tabs i = ids id := by
  apply h i tab' id ?_ hcall
  rw [hset]
  exact List.getElem?_set_self (List.getElem?_eq_some_iff.mp htab).1

omit [CPython] [Pydantic] [FloatRepr] in
/-- Another browser changes. -/
theorem Left.of_tab_gone (h : Left tabs ids p p') {i : ℕ} (hi : tabs i = true) (tab : Tab) :
    Left tabs ids { p with tabs := p.tabs.set i tab } p' where
  service := h.service
  tabsLength := h.tabsLength.trans (List.length_set ..).symm
  sessionsLength := h.sessionsLength
  tab j hj := by
    have hne : i ≠ j := ne_of_apply_ne tabs (by simp [hi, hj])
    exact (h.tab j hj).trans (List.getElem?_set_ne hne).symm
  session := h.session

omit [CPython] [Pydantic] [FloatRepr] in
/-- The session of another browser takes a step. -/
theorem Left.of_session_gone (h : Left tabs ids p p') {i : ℕ} (hi : tabs i = true)
    {b : SessionEvent} {sessions : Sessions}
    (hstep : Viz.step p.sessions (.session i b) = some sessions) :
    Left tabs ids { p with sessions := sessions } p' := by
  obtain ⟨x, y, -, -, rfl⟩ := step_session hstep
  refine ⟨h.service, h.tabsLength, h.sessionsLength.trans (List.length_set ..).symm, h.tab, ?_⟩
  intro j hj
  have hne : i ≠ j := ne_of_apply_ne tabs (by simp [hi, hj])
  exact (h.session j hj).trans (List.getElem?_set_ne hne).symm

omit [CPython] [Pydantic] [FloatRepr] in
/-- The session of a browser that stays takes the same step. -/
theorem Left.session_kept (h : Left tabs ids p p') {i : ℕ} (hi : tabs i = false)
    {b : SessionEvent} {sessions : Sessions}
    (hstep : Viz.step p.sessions (.session i b) = some sessions) :
    ∃ sessions', Viz.step p'.sessions (.session i b) = some sessions' ∧
      Left tabs ids { p with sessions := sessions } { p' with sessions := sessions' } := by
  obtain ⟨x, y, hx, hy, rfl⟩ := step_session hstep
  have hx' : p'.sessions.sessions[i]? = some x := (h.session i hi).trans hx
  refine ⟨⟨p'.sessions.sessions.set i y, p'.sessions.clients + b.gauge,
    p'.sessions.frames + b.frames⟩, by simp [Viz.step, hx', hy], h.service, h.tabsLength, ?_, h.tab,
    ?_⟩
  · simpa only [List.length_set] using h.sessionsLength
  · exact fun j hj => getElem?_set_congr h.sessionsLength (h.session j hj)

omit [CPython] [Pydantic] [FloatRepr] in
/-- The same is set at a browser that stays. -/
theorem Left.set_tab (h : Left tabs ids p p') (i : ℕ) (tab : Tab) :
    Left tabs ids { p with tabs := p.tabs.set i tab } { p' with tabs := p'.tabs.set i tab } where
  service := h.service
  tabsLength := by simpa only [List.length_set] using h.tabsLength
  sessionsLength := h.sessionsLength
  tab j hj := getElem?_set_congr h.tabsLength (h.tab j hj)
  session := h.session

omit [FloatRepr] in
/-- A call for another asset ends before it subscribes. -/
theorem serviceStep_start_error {s : State.Service} (id : State.QueueId)
    (request : State.StreamStateRequest) {error : State.Abort}
    (h : State.checkAsset s.consumer.hub.asset request.asset = .error error) :
    State.serviceStep s (.start id request) = some s := by
  have hcheck : State.checkAsset s.stream.hub.hub.asset request.asset = .error error := h
  obtain ⟨i, hi⟩ := State.minInterval_ok request.maxRateHz
  simp only [State.serviceStep, State.Service.serve, State.streamStep, hcheck, hi, Option.map_some]
  rfl

/-- **A step that is left out changes nothing of what remains.** -/
theorem Left.step_gone (h : Left tabs ids p p') (hsound : p.service.stream.hub.hub.Sound)
    (htogether : Together tabs ids t) (hstep : pipelineStep asset p e = some t)
    (hgone : stays tabs ids e = false) : Left tabs ids t p' := by
  rcases pipelineStep_cases hstep with ⟨b, service, rfl, hservice, rfl⟩ | ⟨sessions, rfl, -, rfl⟩ |
    ⟨i, b, sessions, rfl, -, hsessions, rfl⟩ |
    ⟨i, id, tab, session, service, call, rfl, htab, -, -, -, hservice, hcall, rfl⟩ |
    ⟨i, tab, id, handler, state, sessions, text, rfl, htab, -, -, -, hsessions, -, rfl⟩ |
    ⟨i, tab, session, text, rfl, htab, -, -, -, rfl⟩
  · have hsame := (State.serviceStep_without ids hsound hservice).1 hgone
    exact ⟨h.service.trans hsame.symm, h.tabsLength, h.sessionsLength, h.tab, h.session⟩
  · cases hgone
  · exact h.of_session_gone (by simpa [stays] using hgone) hsessions
  · have hi : tabs i = true := by simpa [stays] using hgone
    have hleft := h.of_tab_gone hi { tab with call := call }
    refine ⟨h.service.trans ?_, hleft.tabsLength, hleft.sessionsLength, hleft.tab, hleft.session⟩
    rcases hcall with ⟨rfl, -⟩ | ⟨-, error, herror⟩
    · have hid : ids id = true := (htogether.of_set rfl htab rfl).symm.trans hi
      exact ((State.serviceStep_without ids hsound hservice).1
        (by simp [State.keeps, State.ServiceEvent.client, hid])).symm
    · have hsame := serviceStep_start_error id (browserRequest asset) herror
      rw [Option.some.inj (hsame.symm.trans hservice)]
  · have hi : tabs i = true := by simpa [stays] using hgone
    exact (h.of_session_gone hi hsessions).of_tab_gone hi _
  · exact h.of_tab_gone (by simpa [stays] using hgone) _

/-- **A step that stays is a step of what remains.** -/
theorem Left.step_kept (h : Left tabs ids p p') (hsound : p.service.stream.hub.hub.Sound)
    (htogether : Together tabs ids t) (hstep : pipelineStep asset p e = some t)
    (hkept : stays tabs ids e = true) :
    ∃ t', pipelineStep asset p' e = some t' ∧ Left tabs ids t t' := by
  rcases pipelineStep_cases hstep with ⟨b, service, rfl, hservice, rfl⟩ |
    ⟨sessions, rfl, hsessions, rfl⟩ | ⟨i, b, sessions, rfl, hb, hsessions, rfl⟩ |
    ⟨i, id, tab, session, service, call, rfl, htab, hnone, hsession, hphase, hservice, hcall, rfl⟩ |
    ⟨i, tab, id, handler, state, sessions, text, rfl, htab, hid, hhandler, hstate, hsessions, htext,
      rfl⟩ |
    ⟨i, tab, session, text, rfl, htab, hsession, hconnected, htext, rfl⟩
  · have hservice' := (State.serviceStep_without ids hsound hservice).2 hkept
    rw [← h.service] at hservice'
    refine ⟨{ p' with service := service.without ids }, ?_, rfl, h.tabsLength, h.sessionsLength,
      h.tab, h.session⟩
    simp only [pipelineStep, hservice', Option.map_some]
  · obtain rfl := Option.some.inj hsessions
    refine ⟨_, rfl, h.service, ?_, ?_, ?_, ?_⟩
    · rw [List.length_append, List.length_append, h.tabsLength]
    · rw [List.length_append, List.length_append, h.sessionsLength]
    · exact fun j hj => getElem?_concat_congr h.tabsLength (h.tab j hj)
    · exact fun j hj => getElem?_concat_congr h.sessionsLength (h.session j hj)
  · obtain ⟨sessions', hsessions', hleft⟩ := h.session_kept (by simpa [stays] using hkept) hsessions
    refine ⟨{ p' with sessions := sessions' }, ?_, hleft⟩
    rw [pipelineStep_session hb, hsessions', Option.map_some]
  · have hi : tabs i = false := by simpa [stays] using hkept
    have hcall' : call = some id ∧ State.checkAsset p'.service.consumer.hub.asset asset = .ok () ∨
        call = none ∧ ∃ error,
          State.checkAsset p'.service.consumer.hub.asset asset = .error error := by
      rw [h.service]
      exact hcall
    have hservice' : State.serviceStep p'.service (.start id (browserRequest asset)) =
        some (service.without ids) := by
      rw [h.service]
      rcases hcall with ⟨rfl, -⟩ | ⟨-, error, herror⟩
      · have hid : ids id = false := (htogether.of_set rfl htab rfl).symm.trans hi
        exact (State.serviceStep_without ids hsound hservice).2
          (by simp [State.keeps, State.ServiceEvent.client, hid])
      · have hsame := serviceStep_start_error id (browserRequest asset) herror
        obtain rfl := Option.some.inj (hsame.symm.trans hservice)
        exact serviceStep_start_error _ _ herror
    have hleft := h.set_tab i { tab with call := call }
    exact ⟨_, pipelineStep_call ((h.tab i hi).trans htab) hnone ((h.session i hi).trans hsession)
      hphase hservice' hcall', rfl, hleft.tabsLength, hleft.sessionsLength, hleft.tab,
      hleft.session⟩
  · have hi : tabs i = false := by simpa [stays] using hkept
    obtain ⟨sessions', hsessions', hleft⟩ := h.session_kept hi hsessions
    have hkeptId : ids id = false := (htogether.of_step hstep i tab id htab hid).symm.trans hi
    have hhandler' : p'.service.handlers id = some handler := by
      rw [h.service]
      exact (State.masked_kept hkeptId).trans hhandler
    exact ⟨_, pipelineStep_handOver ((h.tab i hi).trans htab) hid hhandler' hstate hsessions' htext,
      hleft.set_tab i _⟩
  · have hi : tabs i = false := by simpa [stays] using hkept
    exact ⟨_, pipelineStep_arrive ((h.tab i hi).trans htab) ((h.session i hi).trans hsession)
      hconnected htext, h.set_tab i _⟩

/-! ## All runs -/

/-- **Browsers and other clients do not interfere.** After every run of state-svc and viz-svc with
any number of browsers and other calls of `StreamState`, for any browsers and calls that one leaves
out (browsers together with their calls): leaving out all their steps leaves a run, which ends with
every other browser, its session and what passed through it as they were, and with the same
state-svc but for these calls: the same window and latest state, and the other calls with their
mailboxes, handlers and what they yielded. Source: `grpc_server.py`, `StateHub.publish`,
`StateServicer.StreamState`; `stream.py`, `StateStream.frames`; `app.py`, `ws_state` -/
theorem clients_do_not_interfere {assetName : String} {rmsWindowS : Double} {windowNs : ℤ}
    {l : List PipelineEvent}
    (h : Run (pipelineStep asset) (.init assetName rmsWindowS windowNs) l p)
    (htogether : Together tabs ids p) :
    ∃ p', Run (pipelineStep asset) (.init assetName rmsWindowS windowNs)
        (l.filter (stays tabs ids)) p' ∧ Left tabs ids p p' := by
  refine h.history (I := fun l p => Together tabs ids p → ∃ p',
    Run (pipelineStep asset) (.init assetName rmsWindowS windowNs) (l.filter (stays tabs ids)) p' ∧
      Left tabs ids p p') ?_ ?_ htogether
  · intro _
    exact ⟨_, .nil, (State.without_init ..).symm, rfl, rfl, fun _ _ => rfl, fun _ _ => rfl⟩
  · intro l p e t hrun ih hstep htogether
    obtain ⟨p', hrun', hleft⟩ := ih (htogether.of_step hstep)
    have hsound := State.sound_of_run (serviceRuns_of_run hrun).service
    rw [List.filter_append]
    cases hstays : stays tabs ids e with
    | true =>
        obtain ⟨t', hstep', hleft'⟩ := hleft.step_kept hsound htogether hstep hstays
        rw [List.filter_cons_of_pos hstays, List.filter_nil]
        exact ⟨t', hrun'.snoc hstep', hleft'⟩
    | false =>
        rw [List.filter_cons_of_neg (by simp [hstays]), List.filter_nil, List.append_nil]
        exact ⟨p', hrun', hleft.step_gone hsound htogether hstep hstays⟩

end pipeline

/-! ### A browser that nobody notices -/

section platform

attribute [local instance] CPython.series Pydantic.decimal FloatRepr.whole

/-- Without the browser and its call the latest state is the same. -/
theorem clients_do_not_interfere_shown :
    ∃ l p p' state, Run (pipelineStep "ur5") (.init "ur5" (PyFloat.lit 2) 2000000000) l p ∧
      (∃ tab, p.tabs = [tab] ∧ tab.received = [state]) ∧
      Run (pipelineStep "ur5") (.init "ur5" (PyFloat.lit 2) 2000000000)
        (l.filter (stays (· = 0) (· = 0))) p' ∧
      p'.service.consumer.hub.latest = p.service.consumer.hub.latest ∧
      p'.service.handlers 0 = none := by
  obtain ⟨l, i, c, hub, state, text, hrun, -⟩ := run_shownPipeline
  have htogether : Together (· = 0) (· = 0) (shownPipeline c hub i state text) := by
    intro j tab id htab hcall
    obtain ⟨hj, rfl⟩ := List.getElem?_eq_some_iff.mp htab
    obtain rfl : j = 0 := Nat.lt_one_iff.mp hj
    obtain rfl : 0 = id := Option.some.inj hcall
    rfl
  obtain ⟨p', hrun', hleft⟩ := clients_do_not_interfere hrun htogether
  refine ⟨l, _, p', state, hrun, ⟨_, rfl, rfl⟩, hrun', ?_, ?_⟩
  · rw [hleft.service]
    rfl
  · rw [hleft.service]
    simp [State.Service.without, State.masked]

end platform

end TwinServices.System
