import TwinServices.Python.Basic
import TwinServices.State.Hub

/-!
# The servicer of state-svc

`StateServicer` answers two calls. `GetState` reads `hub.latest`. A `StreamState` call is a handler
with a mailbox of its own: it waits for a state, drops it if it comes sooner than the rate of the
request allows, and yields it else. A handler is suspended at `queue.get()` or at `yield`, so what
can happen is an interleaving of publications, calls, handler steps and the clock.

* `checkAsset`, `getState`, `minInterval`, `Handler.receive`: the servicer.
* `streamStep`: the handlers over the hub, as a transition system; `hubEvents` reads its labels as
  those of the hub, and `run_hub` says that the hub below runs as in `hubStep`.
* `HandlerInv`, `handlersInv_of_run`: a handler against what was taken from its mailbox.
-/

set_option autoImplicit false

namespace TwinServices.State

open TwinServices.Python Lib.Transition Lib.Binary64

/-! ## The servicer -/

/-- The calls of `context.abort`, both with `NOT_FOUND`.
Source: `grpc_server.py`, `StateServicer` -/
inductive Abort
  /-- `f"unknown asset {requested!r}; this twin is {asset!r}"`. -/
  | unknownAsset (requested asset : String)
  /-- `"no telemetry received yet"`. -/
  | noTelemetry
deriving DecidableEq, Repr

/-- Source: `state.proto`, `StreamStateRequest` -/
structure StreamStateRequest where
  asset : String
  maxRateHz : Double

section servicer

variable {σ : Type}

/-- Source: `grpc_server.py`, `StateServicer._check_asset` -/
def checkAsset (asset requested : String) : Except Abort Unit :=
  if requested ≠ "" ∧ requested ≠ asset then .error (.unknownAsset requested asset) else .ok ()

/-- Source: `grpc_server.py`, `StateServicer.GetState` -/
def getState (hub : StateHub σ) (requested : String) : Except Abort σ := do
  checkAsset hub.asset requested
  match hub.latest with
  | none => .error .noTelemetry
  | some state => .ok state

/-- Where a handler is suspended.
Source: `grpc_server.py`, `StateServicer.StreamState` -/
inductive Phase
  /-- In `queue.get()`. -/
  | waiting
  /-- At `yield`. -/
  | yielding
  /-- The call is over. -/
  | ended
deriving DecidableEq, Repr

/-- A state that a handler took from its mailbox, with the time and the time of the last yield
before.
Source: `grpc_server.py`, `StateServicer.StreamState` -/
structure Dequeue (σ : Type) where
  state : σ
  now : Finite64
  lastSent : Double

/-- The locals of a `StreamState` call, and what it dequeued and yielded, oldest first.
Source: `grpc_server.py`, `StateServicer.StreamState` -/
structure Handler (σ : Type) where
  minInterval : Double
  lastSent : Double
  phase : Phase
  dequeued : List (Dequeue σ)
  yielded : List σ

variable [CPython]

/-- The least time between two yields at a rate. Source: `grpc_server.py`,
`StateServicer.StreamState` -/
def minInterval (maxRateHz : Double) : Except PyError Double :=
  if .finite Double.zero < maxRateHz then PyFloat.truediv (PyFloat.lit 1) maxRateHz
  else .ok (PyFloat.lit 0)

/-- The rate limiter drops the state.
Source: `grpc_server.py`, `StateServicer.StreamState` -/
def Dequeue.Dropped (d : Dequeue σ) (minInterval : Double) : Prop :=
  .finite d.now - d.lastSent < minInterval

/-- Whether a dequeued state is dropped is checked by computing. -/
instance (d : Dequeue σ) (minInterval : Double) : Decidable (d.Dropped minInterval) :=
  inferInstanceAs (Decidable (_ < _))

namespace Handler

/-- A call that has just subscribed.
Source: `grpc_server.py`, `StateServicer.StreamState` -/
def new (minInterval : Double) : Handler σ := ⟨minInterval, .inf true, .waiting, [], []⟩

/-- One pass of the loop, from `queue.get()` to the next suspension.
Source: `grpc_server.py`, `StateServicer.StreamState` -/
def receive (h : Handler σ) (state : σ) (now : Finite64) : Handler σ :=
  let d := ⟨state, now, h.lastSent⟩
  if d.Dropped h.minInterval then { h with dequeued := h.dequeued ++ [d] }
  else
    { h with
      lastSent := .finite now
      phase := .yielding
      dequeued := h.dequeued ++ [d]
      yielded := h.yielded ++ [state] }

end Handler

end servicer

/-! ## The handlers over the hub -/

section system

variable {σ : Type}

/-- What can happen to the servicer.
Source: `grpc_server.py`, `StateServicer` -/
inductive StreamEvent (σ : Type)
  | publish (state : σ)
  /-- A call of `StreamState` arrives. -/
  | start (id : QueueId) (request : StreamStateRequest)
  /-- `queue.get()` returns. -/
  | dequeue (id : QueueId)
  /-- The yielded state was sent. -/
  | resume (id : QueueId)
  /-- The client leaves. -/
  | cancel (id : QueueId)
  /-- The clock of `time.monotonic()` goes on. -/
  | advance (now : Finite64)

/-- The hub, the handlers by their mailbox, and the clock.
Source: `grpc_server.py`, `StateServicer` -/
structure StreamSystem (σ : Type) where
  hub : HubState σ
  handlers : QueueId → Option (Handler σ)
  clock : Finite64

/-- A servicer over a new hub.
Source: `grpc_server.py`, `StateServicer.__init__` -/
def StreamSystem.init (asset : String) : StreamSystem σ := ⟨.init asset, fun _ => none, Double.zero⟩

variable [CPython]

/-- One step; none where it cannot happen. A call for another asset ends before it subscribes.
Source: `grpc_server.py`, `StateServicer.StreamState`, `StateHub` -/
def streamStep (s : StreamSystem σ) : StreamEvent σ → Option (StreamSystem σ)
  | .publish state => (hubStep s.hub (.publish state)).map fun hub => { s with hub := hub }
  | .start id request =>
      match checkAsset s.hub.hub.asset request.asset, minInterval request.maxRateHz with
      | .ok _, .ok minInterval =>
          (hubStep s.hub (.subscribe id)).map fun hub => { s with
            hub := hub
            handlers := Function.update s.handlers id (some (.new minInterval)) }
      | _, _ => some s
  | .dequeue id =>
      match s.handlers id, s.hub.hub.take id with
      | some h, some (state, _) =>
          if h.phase = .waiting then
            (hubStep s.hub (.take id)).map fun hub => { s with
              hub := hub
              handlers := Function.update s.handlers id (some (h.receive state s.clock)) }
          else none
      | _, _ => none
  | .resume id =>
      match s.handlers id with
      | some h =>
          if h.phase = .yielding then
            some { s with
              handlers := Function.update s.handlers id (some { h with phase := .waiting }) }
          else none
      | none => none
  | .cancel id =>
      match s.handlers id with
      | some h =>
          if h.phase = .ended then none
          else
            (hubStep s.hub (.unsubscribe id)).map fun hub => { s with
              hub := hub
              handlers := Function.update s.handlers id (some { h with phase := .ended }) }
      | none => none
  | .advance now => if now.val < s.clock.val then none else some { s with clock := now }

/-- A label of the servicer, as the hub of an asset sees it. -/
def hubEvent (asset : String) : StreamEvent σ → Option (HubEvent σ)
  | .publish state => some (.publish state)
  | .start id request =>
      match checkAsset asset request.asset with
      | .ok _ => some (.subscribe id)
      | .error _ => none
  | .dequeue id => some (.take id)
  | .resume _ => none
  | .cancel id => some (.unsubscribe id)
  | .advance _ => none

/-- A run of the servicer, as the hub of an asset sees it. -/
def hubEvents (asset : String) (l : List (StreamEvent σ)) : List (HubEvent σ) :=
  l.filterMap (hubEvent asset)

/-! ## One step -/

/-- The interval is a value for every rate, NaN and the infinities included. -/
theorem minInterval_ok (maxRateHz : Double) : ∃ i, minInterval maxRateHz = .ok i := by
  unfold minInterval
  split_ifs with hpos
  · have hzero : maxRateHz.isZero = false := by
      rcases maxRateHz with x | _ | _
      · have hx : (0 : ℚ) < x.val := hpos
        simpa [Double.isZero] using hx.ne'
      · rfl
      · rfl
    obtain ⟨i, hi⟩ := Double.exists_div (PyFloat.lit 1) hzero
    exact ⟨i, truediv_double hi⟩
  · exact ⟨_, rfl⟩

/-- What each event leads to, where it can happen. -/
theorem streamStep_cases {s t : StreamSystem σ} {e : StreamEvent σ} (h : streamStep s e = some t) :
    (∃ state hub, e = .publish state ∧ hubStep s.hub (.publish state) = some hub ∧
      t = { s with hub := hub }) ∨
    (∃ id request error, e = .start id request ∧
      checkAsset s.hub.hub.asset request.asset = .error error ∧ t = s) ∨
    (∃ id request i hub, e = .start id request ∧
      checkAsset s.hub.hub.asset request.asset = .ok () ∧ minInterval request.maxRateHz = .ok i ∧
      hubStep s.hub (.subscribe id) = some hub ∧
      t = { s with hub := hub, handlers := Function.update s.handlers id (some (.new i)) }) ∨
    (∃ id handler state rest hub, e = .dequeue id ∧ s.handlers id = some handler ∧
      handler.phase = .waiting ∧ s.hub.hub.take id = some (state, rest) ∧
      hubStep s.hub (.take id) = some hub ∧
      t = { s with
        hub := hub
        handlers := Function.update s.handlers id (some (handler.receive state s.clock)) }) ∨
    (∃ id handler, e = .resume id ∧ s.handlers id = some handler ∧ handler.phase = .yielding ∧
      t = { s with
        handlers := Function.update s.handlers id (some { handler with phase := .waiting }) }) ∨
    (∃ id handler hub, e = .cancel id ∧ s.handlers id = some handler ∧ handler.phase ≠ .ended ∧
      hubStep s.hub (.unsubscribe id) = some hub ∧
      t = { s with
        hub := hub
        handlers := Function.update s.handlers id (some { handler with phase := .ended }) }) ∨
    (∃ now, e = .advance now ∧ s.clock.val ≤ now.val ∧ t = { s with clock := now }) := by
  cases e with
  | publish state =>
      obtain ⟨hub, hhub, rfl⟩ := Option.map_eq_some_iff.mp h
      exact Or.inl ⟨state, hub, rfl, hhub, rfl⟩
  | start id request =>
      right
      obtain ⟨i, hi⟩ := minInterval_ok request.maxRateHz
      simp only [streamStep, hi] at h
      rcases hasset : checkAsset s.hub.hub.asset request.asset with error | _
      · simp only [hasset] at h
        exact Or.inl ⟨id, request, error, rfl, hasset, (Option.some.inj h).symm⟩
      · simp only [hasset] at h
        obtain ⟨hub, hhub, rfl⟩ := Option.map_eq_some_iff.mp h
        exact Or.inr (Or.inl ⟨id, request, i, hub, rfl, hasset, hi, hhub, rfl⟩)
  | dequeue id =>
      refine Or.inr (Or.inr (Or.inr (Or.inl ?_)))
      simp only [streamStep] at h
      split at h
      · rename_i handler state rest hhandler htake
        split_ifs at h with hphase
        obtain ⟨hub, hhub, rfl⟩ := Option.map_eq_some_iff.mp h
        exact ⟨id, handler, state, rest, hub, rfl, hhandler, hphase, htake, hhub, rfl⟩
      · cases h
  | resume id =>
      refine Or.inr (Or.inr (Or.inr (Or.inr (Or.inl ?_))))
      simp only [streamStep] at h
      split at h
      · rename_i handler hhandler
        split_ifs at h with hphase
        exact ⟨id, handler, rfl, hhandler, hphase, (Option.some.inj h).symm⟩
      · cases h
  | cancel id =>
      refine Or.inr (Or.inr (Or.inr (Or.inr (Or.inr (Or.inl ?_)))))
      simp only [streamStep] at h
      split at h
      · rename_i handler hhandler
        split_ifs at h with hphase
        obtain ⟨hub, hhub, rfl⟩ := Option.map_eq_some_iff.mp h
        exact ⟨id, handler, hub, rfl, hhandler, hphase, hhub, rfl⟩
      · cases h
  | advance now =>
      refine Or.inr (Or.inr (Or.inr (Or.inr (Or.inr (Or.inr ?_)))))
      simp only [streamStep] at h
      split_ifs at h with hlt
      exact ⟨now, rfl, not_lt.mp hlt, (Option.some.inj h).symm⟩

/-- A dequeue, by what it takes. -/
theorem streamStep_dequeue {s : StreamSystem σ} {id : QueueId} {h : Handler σ} {state : σ}
    {hub : StateHub σ} (hh : s.handlers id = some h) (hphase : h.phase = .waiting)
    (htake : s.hub.hub.take id = some (state, hub)) :
    streamStep s (.dequeue id) = some { s with
      hub := ⟨hub, Function.update s.hub.taken id (s.hub.taken id ++ [state])⟩
      handlers := Function.update s.handlers id (some (h.receive state s.clock)) } := by
  simp only [streamStep, hh, htake]
  rw [if_pos hphase]
  simp only [hubStep, htake, Option.map_some]

/-- The clock of a run goes forward. -/
theorem streamStep_advance {s : StreamSystem σ} {now : Finite64} (h : s.clock.val ≤ now.val) :
    streamStep s (.advance now) = some { s with clock := now } := if_neg (not_lt.mpr h)

/-- A step is the step of the hub that its label is read as. -/
theorem streamStep_hub {s t : StreamSystem σ} {e : StreamEvent σ} (h : streamStep s e = some t) :
    (hubEvent s.hub.hub.asset e = none ∧ t.hub = s.hub) ∨
      ∃ b, hubEvent s.hub.hub.asset e = some b ∧ hubStep s.hub b = some t.hub := by
  rcases streamStep_cases h with ⟨state, hub, rfl, hhub, rfl⟩ |
    ⟨id, request, error, rfl, hasset, rfl⟩ | ⟨id, request, i, hub, rfl, hasset, -, hhub, rfl⟩ |
    ⟨id, handler, state, rest, hub, rfl, -, -, -, hhub, rfl⟩ | ⟨id, handler, rfl, -, -, rfl⟩ |
    ⟨id, handler, hub, rfl, -, -, hhub, rfl⟩ | ⟨now, rfl, -, rfl⟩
  · exact Or.inr ⟨_, rfl, hhub⟩
  · exact Or.inl ⟨by simp only [hubEvent, hasset], rfl⟩
  · exact Or.inr ⟨_, by simp only [hubEvent, hasset], hhub⟩
  · exact Or.inr ⟨_, rfl, hhub⟩
  · exact Or.inl ⟨rfl, rfl⟩
  · exact Or.inr ⟨_, rfl, hhub⟩
  · exact Or.inl ⟨rfl, rfl⟩

/-- No step changes the asset. -/
theorem asset_of_run {asset : String} {l : List (StreamEvent σ)} {s : StreamSystem σ}
    (h : Run streamStep (.init asset) l s) : s.hub.hub.asset = asset := by
  apply h.invariant (I := fun s => s.hub.hub.asset = asset) rfl
  intro s e t hs hstep
  rcases streamStep_hub hstep with ⟨-, heq⟩ | ⟨b, -, hhub⟩
  · rw [heq, hs]
  · rw [hubStep_asset hhub, hs]

/-- **The hub below the handlers runs as a hub.** -/
theorem run_hub {asset : String} {l : List (StreamEvent σ)} {s : StreamSystem σ}
    (h : Run streamStep (.init asset) l s) :
    Run hubStep (HubState.init asset) (hubEvents asset l) s.hub := by
  refine Run.simulate StreamSystem.hub (hubEvent asset) ?_ ?_ h
  · intro l s e t hs hstep hlabel
    rcases streamStep_hub hstep with ⟨-, heq⟩ | ⟨b, hb, -⟩
    · exact heq
    · rw [asset_of_run hs, hlabel] at hb
      cases hb
  · intro l s e t b hs hstep hlabel
    rcases streamStep_hub hstep with ⟨hnone, -⟩ | ⟨b', hb', hhub⟩
    · rw [asset_of_run hs, hlabel] at hnone
      cases hnone
    · rw [asset_of_run hs, hlabel] at hb'
      obtain rfl := Option.some.inj hb'
      exact hhub

/-! ## The invariant -/

/-- A handler against what was taken from its mailbox: that is what it dequeued, it yielded what
the rate limiter let through, and its last yield is not in the future. -/
structure HandlerInv (taken : List σ) (clock : Finite64) (h : Handler σ) : Prop where
  dequeued : h.dequeued.map Dequeue.state = taken
  yielded : h.yielded = (h.dequeued.filter fun d => ¬ d.Dropped h.minInterval).map Dequeue.state
  past : ¬ .finite clock < h.lastSent
  uncapped : h.minInterval = .finite Double.zero → ∀ d ∈ h.dequeued, ¬ d.Dropped h.minInterval

/-- A new handler has dequeued and yielded nothing. -/
theorem handlerInv_new (clock : Finite64) (i : Double) :
    HandlerInv ([] : List σ) clock (.new i) where
  dequeued := rfl
  yielded := rfl
  past h := by cases h
  uncapped _ d hd := by simp [Handler.new] at hd

/-- The clock only goes on. -/
theorem HandlerInv.advance {taken : List σ} {clock now : Finite64} {h : Handler σ}
    (hinv : HandlerInv taken clock h) (hnow : clock.val ≤ now.val) : HandlerInv taken now h where
  dequeued := hinv.dequeued
  yielded := hinv.yielded
  past := by
    refine Double.not_lt_trans (y := .finite clock) (by simp) ?_ hinv.past
    exact fun hlt => absurd hnow (not_le.mpr hlt)
  uncapped := hinv.uncapped

/-- A pass of the loop dequeues one state, and yields it unless the rate limiter drops it. -/
theorem HandlerInv.receive {taken : List σ} {clock : Finite64} {h : Handler σ}
    (hinv : HandlerInv taken clock h) (state : σ) :
    HandlerInv (taken ++ [state]) clock (h.receive state clock) := by
  have huncapped : h.minInterval = .finite Double.zero →
      ∀ d ∈ h.dequeued ++ [⟨state, clock, h.lastSent⟩], ¬ d.Dropped h.minInterval := by
    intro hzero d hd
    rcases List.mem_append.mp hd with hd | hd
    · exact hinv.uncapped hzero d hd
    · obtain rfl := List.mem_singleton.mp hd
      unfold Dequeue.Dropped
      rw [hzero]
      exact Double.not_sub_lt_zero hinv.past
  unfold Handler.receive
  simp only
  split_ifs with hdrop
  · refine ⟨?_, ?_, hinv.past, huncapped⟩
    · simp [hinv.dequeued]
    · simp [hinv.yielded, hdrop]
  · refine ⟨?_, ?_, ?_, huncapped⟩
    · simp [hinv.dequeued]
    · simp [hinv.yielded, hdrop]
    · exact fun hlt => absurd hlt (lt_irrefl clock.val)

/-- Every handler meets its invariant, and is subscribed until it ends. -/
def HandlersInv (s : StreamSystem σ) : Prop :=
  ∀ id h, s.handlers id = some h →
    HandlerInv (s.hub.taken id) s.clock h ∧ (h.phase ≠ .ended → id ∈ s.hub.hub.subscribers)

/-- A step that changes one handler, its mailbox and its subscription only. -/
theorem HandlersInv.update {s : StreamSystem σ} (hinv : HandlersInv s) {hub : HubState σ}
    {id : QueueId} {h : Handler σ} (htaken : ∀ id', id' ≠ id → hub.taken id' = s.hub.taken id')
    (hsubs : ∀ id', id' ≠ id → id' ∈ s.hub.hub.subscribers → id' ∈ hub.hub.subscribers)
    (hh : HandlerInv (hub.taken id) s.clock h) (hid : h.phase ≠ .ended → id ∈ hub.hub.subscribers) :
    HandlersInv { s with hub := hub, handlers := Function.update s.handlers id (some h) } := by
  intro id' h' hh'
  simp only [Function.update_apply] at hh' ⊢
  split_ifs at hh' with heq
  · obtain rfl := Option.some.inj hh'
    subst heq
    exact ⟨hh, hid⟩
  · obtain ⟨hold, hmem⟩ := hinv id' h' hh'
    rw [htaken id' heq]
    exact ⟨hold, fun hphase => hsubs id' heq (hmem hphase)⟩

/-- **One step keeps the invariant of the handlers.** -/
theorem HandlersInv.step {s t : StreamSystem σ} {e : StreamEvent σ} {hl : List (HubEvent σ)}
    (hinv : HandlersInv s) (hhubInv : HubInv hl s.hub) (hstep : streamStep s e = some t) :
    HandlersInv t := by
  rcases streamStep_cases hstep with ⟨state, hub, rfl, hhub, rfl⟩ |
    ⟨id, request, error, rfl, -, rfl⟩ | ⟨id, request, i, hub, rfl, -, -, hhub, rfl⟩ |
    ⟨id, h, state, rest, hub, rfl, hh, hphase, htake, hhub, rfl⟩ |
    ⟨id, h, rfl, hh, hphase, rfl⟩ | ⟨id, h, hub, rfl, hh, -, hhub, rfl⟩ | ⟨now, rfl, hnow, rfl⟩
  · simp only [hubStep, publish_ok hhubInv.sound] at hhub
    obtain rfl := Option.some.inj hhub
    exact hinv
  · exact hinv
  · simp only [hubStep] at hhub
    split_ifs at hhub with hnone
    obtain rfl := Option.some.inj hhub
    have hempty := (hhubInv.fresh id (by simpa using hnone)).2
    refine hinv.update (fun id' _ => rfl) ?_ ?_ ?_
    · intro id' _ hmem
      exact List.mem_append_left _ hmem
    · simp only
      rw [hempty]
      exact handlerInv_new s.clock i
    · intro _
      exact List.mem_append_right _ (List.mem_singleton_self id)
  · simp only [hubStep, htake] at hhub
    obtain rfl := Option.some.inj hhub
    obtain ⟨hold, hmem⟩ := hinv id h hh
    obtain ⟨maxsize, items, -, rfl⟩ := StateHub.take_eq_some htake
    refine hinv.update ?_ (fun id' _ hmem => hmem) ?_ ?_
    · intro id' hne
      exact Function.update_of_ne hne ..
    · simp only [Function.update_self]
      exact hold.receive state
    · intro _
      exact hmem (by rw [hphase]; decide)
  · obtain ⟨hold, hmem⟩ := hinv id h hh
    apply hinv.update (fun id' _ => rfl) (fun id' _ hmem => hmem)
    · exact ⟨hold.dequeued, hold.yielded, hold.past, hold.uncapped⟩
    · intro _
      exact hmem (by rw [hphase]; decide)
  · simp only [hubStep] at hhub
    split_ifs at hhub
    obtain rfl := Option.some.inj hhub
    obtain ⟨hold, -⟩ := hinv id h hh
    refine hinv.update (fun id' _ => rfl) ?_ ?_ ?_
    · intro id' hne hmem
      exact List.mem_filter.mpr ⟨hmem, by simpa using hne⟩
    · exact ⟨hold.dequeued, hold.yielded, hold.past, hold.uncapped⟩
    · exact fun hphase => absurd rfl hphase
  · intro id h hh
    obtain ⟨hold, hmem⟩ := hinv id h hh
    exact ⟨hold.advance hnow, hmem⟩

/-- The invariant holds after every run. -/
theorem handlersInv_of_run {asset : String} {l : List (StreamEvent σ)} {s : StreamSystem σ}
    (h : Run streamStep (.init asset) l s) : HandlersInv s := by
  apply h.history (I := fun _ s => HandlersInv s)
  · intro id handler hh
    cases hh
  · intro l s e t hrun hinv hstep
    exact hinv.step (hubInv_of_run (run_hub hrun)) hstep

end system

end TwinServices.State
