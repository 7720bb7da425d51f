import TwinServices.Lib.Transition
import Mathlib.Algebra.Order.BigOperators.Group.List
import Mathlib.Data.Int.Order.Basic
import Mathlib.Tactic.Ring

/-!
# The sessions of viz-svc

Every browser has a session: the handler `ws_state`, which iterates over the async generator
`frames()`, which iterates over a `StreamState` RPC. The generator counts the session in the gauge
`CLIENTS` while it is open. The handler learns that its browser has left only where it sends.

* `Session.step`, `step`: one session, and the service.
* `Session.Sound`: what is counted of a session in each phase. In the end it was counted once, and
  taken off once.
* `connected_add_orphans`: at rest the gauge is the number of the connected browsers and of the
  `Orphan`s, handlers that wait for a state although their browser has left.
* `sessions_counted`: so the gauge is right at rest exactly without orphans; and in a run in which
  no handler becomes an orphan it is right in every state at rest.
-/

set_option autoImplicit false

namespace TwinServices.Viz

open Lib.Transition

/-! ## One session -/

/-- Where the handler of a session is.
Source: `app.py`, `ws_state`; `stream.py`, `StateStream.frames` -/
inductive Phase
  /-- In `websocket.accept()`. -/
  | accepting
  /-- In the `async for` over the RPC: it waits for a state. -/
  | waiting
  /-- In `websocket.send_text(frame)`; `frames()` is suspended at its `yield`. -/
  | sending
  /-- The handler has returned after a `WebSocketDisconnect`; the event loop has yet to close
  `frames()`, which nothing refers to any more. -/
  | unwinding
  /-- `frames()` is over, and the socket is being closed. -/
  | closing
  | ended
deriving DecidableEq

/-- A session: its handler, whether its browser is connected, and how often it did `CLIENTS.inc()`
and `CLIENTS.dec()`.
Source: `app.py`, `ws_state`; `stream.py`, `StateStream.frames` -/
structure Session where
  phase : Phase
  connected : Bool
  incs : ℕ
  decs : ℕ
deriving DecidableEq

/-- What happens to a session.
Source: `app.py`, `ws_state`; `stream.py`, `StateStream.frames` -/
inductive SessionEvent
  /-- The browser leaves. -/
  | depart
  /-- `accept()` returns, and `frames()` starts: `CLIENTS.inc()`. -/
  | accepted
  /-- The RPC has a state: `FRAMES.inc()`, and the frame is sent. -/
  | state
  /-- `send_text` returns. -/
  | sent
  /-- `send_text` raises `WebSocketDisconnect`. -/
  | raised
  /-- The event loop closes `frames()`: `CLIENTS.dec()` in its `finally` block. -/
  | finalized
  /-- The RPC raises `AioRpcError`: `CLIENTS.dec()`, and `websocket.close(code=1011)`. -/
  | rpcFailed
  /-- The RPC ends: `CLIENTS.dec()`, and the server closes the socket of a handler that returns. -/
  | rpcEnded
  /-- The socket is closed. -/
  | closed
deriving DecidableEq

namespace Session

/-- A browser has opened its socket.
Source: `app.py`, `ws_state` -/
def new : Session := ⟨.accepting, true, 0, 0⟩

/-- One event of a session, where it can happen. Source: `stream.py`, `StateStream.frames`;
`app.py`, `ws_state` -/
def step (x : Session) : SessionEvent → Option Session
  | .depart => if x.connected then some { x with connected := false } else none
  | .accepted =>
      if x.phase = .accepting then some { x with phase := .waiting, incs := x.incs + 1 } else none
  | .state => if x.phase = .waiting then some { x with phase := .sending } else none
  | .sent => if x.phase = .sending then some { x with phase := .waiting } else none
  | .raised =>
      if x.phase = .sending ∧ x.connected = false then some { x with phase := .unwinding } else none
  | .finalized =>
      if x.phase = .unwinding then some { x with phase := .ended, decs := x.decs + 1 } else none
  | .rpcFailed | .rpcEnded =>
      if x.phase = .waiting then some { x with phase := .closing, decs := x.decs + 1 } else none
  | .closed =>
      if x.phase = .closing then some { x with phase := .ended, connected := false } else none

/-- How much of the gauge is for a session. -/
def balance (x : Session) : ℤ := x.incs - x.decs

/-- A handler that waits for a state, although its browser has left. -/
def Orphan (x : Session) : Prop := x.phase = .waiting ∧ x.connected = false

/-- Whether a session is an orphan is checked by computing. -/
instance (x : Session) : Decidable x.Orphan := inferInstanceAs (Decidable (_ ∧ _))

/-- What is counted of a session in each phase, and which browsers have left for sure. -/
def Sound (x : Session) : Prop :=
  match x.phase with
  | .accepting => x.incs = 0 ∧ x.decs = 0
  | .waiting | .sending => x.incs = 1 ∧ x.decs = 0
  | .unwinding => x.incs = 1 ∧ x.decs = 0 ∧ x.connected = false
  | .closing => x.incs = 1 ∧ x.decs = 1
  | .ended => x.incs = 1 ∧ x.decs = 1 ∧ x.connected = false

end Session

/-- What an event does to the gauge `CLIENTS`.
Source: `stream.py`, `StateStream.frames` -/
def SessionEvent.gauge : SessionEvent → ℤ
  | .accepted => 1
  | .finalized | .rpcFailed | .rpcEnded => -1
  | _ => 0

/-- What an event does to the counter `FRAMES`.
Source: `stream.py`, `StateStream.frames` -/
def SessionEvent.frames : SessionEvent → ℕ
  | .state => 1
  | _ => 0

/-- The handler takes this step by itself: no browser and no state-svc has to do anything. -/
def SessionEvent.Own : SessionEvent → Prop
  | .accepted | .sent | .raised | .finalized | .closed => True
  | .depart | .state | .rpcFailed | .rpcEnded => False

/-! ## The service -/

/-- The sessions, oldest first, the gauge `CLIENTS` and the counter `FRAMES`.
Source: `app.py`, `build_app`; `stream.py`, `CLIENTS`, `FRAMES` -/
structure Sessions where
  sessions : List Session
  clients : ℤ
  frames : ℕ

/-- A service that has just started.
Source: `app.py`, `build_app` -/
def Sessions.init : Sessions := ⟨[], 0, 0⟩

/-- What can happen. -/
inductive Event
  /-- A browser opens a socket. -/
  | connect
  | session (i : ℕ) (e : SessionEvent)

/-- One event, where it can happen.
Source: `app.py`, `build_app` -/
def step (s : Sessions) : Event → Option Sessions
  | .connect => some { s with sessions := s.sessions ++ [.new] }
  | .session i e => do
      let x ← s.sessions[i]?
      let y ← x.step e
      return ⟨s.sessions.set i y, s.clients + e.gauge, s.frames + e.frames⟩

/-- How many browsers are connected. -/
def Sessions.connected (s : Sessions) : ℕ := s.sessions.countP Session.connected

/-- No handler can take a step without new input from state-svc. -/
def Quiescent (s : Sessions) : Prop := ∀ i e, e.Own → step s (.session i e) = none

/-- A step by which a handler becomes an orphan: its browser leaves while it waits for a state, or
has left when `accept()` or `send_text` returns. -/
def Orphans (s : Sessions) : Event → Prop
  | .connect => False
  | .session i e => ∃ x, s.sessions[i]? = some x ∧
      (e = .depart ∧ x.phase = .waiting ∨ (e = .accepted ∨ e = .sent) ∧ x.connected = false)

/-! ## One step -/

/-- A step of a session is one of that session, and adds to the gauge and the frames.
Source: `app.py`, `build_app.ws_state` -/
theorem step_session {s t : Sessions} {i : ℕ} {e : SessionEvent}
    (h : step s (.session i e) = some t) :
    ∃ x y, s.sessions[i]? = some x ∧ x.step e = some y ∧
      t = ⟨s.sessions.set i y, s.clients + e.gauge, s.frames + e.frames⟩ := by
  simp only [step, Option.bind_eq_bind, Option.bind_eq_some_iff] at h
  obtain ⟨x, hx, y, hy, ht⟩ := h
  exact ⟨x, y, hx, hy, (Option.some.inj ht).symm⟩

namespace Session

variable {x y : Session} {e : SessionEvent}

/-- What each event needs, and what it changes. -/
theorem step_cases (h : x.step e = some y) :
    (e = .depart ∧ y = { x with connected := false }) ∨
    (e = .accepted ∧ x.phase = .accepting ∧ y = { x with phase := .waiting, incs := x.incs + 1 }) ∨
    (e = .state ∧ x.phase = .waiting ∧ y = { x with phase := .sending }) ∨
    (e = .sent ∧ x.phase = .sending ∧ y = { x with phase := .waiting }) ∨
    (e = .raised ∧ (x.phase = .sending ∧ x.connected = false) ∧
      y = { x with phase := .unwinding }) ∨
    (e = .finalized ∧ x.phase = .unwinding ∧
      y = { x with phase := .ended, decs := x.decs + 1 }) ∨
    ((e = .rpcFailed ∨ e = .rpcEnded) ∧ x.phase = .waiting ∧
      y = { x with phase := .closing, decs := x.decs + 1 }) ∨
    (e = .closed ∧ x.phase = .closing ∧ y = { x with phase := .ended, connected := false }) := by
  unfold step at h
  cases e <;> simp only at h <;> split_ifs at h with hphase <;>
    obtain rfl := Option.some.inj h <;> simp [hphase]

/-- The gauge changes as the counts of the session do. -/
theorem balance_step (h : x.step e = some y) : y.balance = x.balance + e.gauge := by
  rcases step_cases h with ⟨rfl, rfl⟩ | ⟨rfl, -, rfl⟩ | ⟨rfl, -, rfl⟩ | ⟨rfl, -, rfl⟩ |
    ⟨rfl, -, rfl⟩ | ⟨rfl, -, rfl⟩ | ⟨rfl | rfl, -, rfl⟩ | ⟨rfl, -, rfl⟩ <;>
    simp only [balance, SessionEvent.gauge] <;> push_cast <;> ring

/-- What is counted of a session does not depend on its browser while it is not over. -/
theorem Sound.depart (hx : x.Sound) : Sound { x with connected := false } := by
  unfold Sound at hx ⊢
  cases hphase : x.phase with
  | unwinding => simp only [hphase] at hx ⊢; exact ⟨hx.1, hx.2.1, trivial⟩
  | ended => simp only [hphase] at hx ⊢; exact ⟨hx.1, hx.2.1, trivial⟩
  | _ => simpa only [hphase] using hx

/-- A step keeps the counts right. -/
theorem Sound.step (hx : x.Sound) (h : x.step e = some y) : y.Sound := by
  rcases step_cases h with ⟨-, rfl⟩ | ⟨-, hphase, rfl⟩ | ⟨-, hphase, rfl⟩ | ⟨-, hphase, rfl⟩ |
    ⟨-, ⟨hphase, hleft⟩, rfl⟩ | ⟨-, hphase, rfl⟩ | ⟨-, hphase, rfl⟩ | ⟨-, hphase, rfl⟩
  · exact hx.depart
  all_goals simp only [Sound, hphase] at hx ⊢
  · exact ⟨by rw [hx.1], hx.2⟩
  · exact hx
  · exact hx
  · exact ⟨hx.1, hx.2, hleft⟩
  · exact ⟨hx.1, by rw [hx.2.1], hx.2.2⟩
  · exact ⟨hx.1, by rw [hx.2]⟩
  · exact ⟨hx.1, hx.2, trivial⟩

/-- A step makes an orphan exactly where it is one of those. -/
theorem orphan_step_iff (h : x.step e = some y) :
    y.Orphan ↔ e = .depart ∧ x.phase = .waiting ∨ (e = .accepted ∨ e = .sent) ∧
      x.connected = false := by
  unfold Orphan
  rcases step_cases h with ⟨rfl, rfl⟩ | ⟨rfl, hphase, rfl⟩ | ⟨rfl, hphase, rfl⟩ |
    ⟨rfl, hphase, rfl⟩ | ⟨rfl, ⟨hphase, hleft⟩, rfl⟩ | ⟨rfl, hphase, rfl⟩ |
    ⟨rfl | rfl, hphase, rfl⟩ | ⟨rfl, hphase, rfl⟩ <;> simp

/-- A handler that cannot take a step by itself waits for a state or is over. -/
theorem rests (h : ∀ e : SessionEvent, e.Own → x.step e = none) :
    x.phase = .waiting ∨ x.phase = .ended := by
  cases hphase : x.phase with
  | waiting => exact Or.inl rfl
  | ended => exact Or.inr rfl
  | accepting => exact absurd (h .accepted trivial) (by simp [step, hphase])
  | sending => exact absurd (h .sent trivial) (by simp [step, hphase])
  | unwinding => exact absurd (h .finalized trivial) (by simp [step, hphase])
  | closing => exact absurd (h .closed trivial) (by simp [step, hphase])

/-- Such a handler takes no step by itself. -/
theorem step_eq_none_of_rests (h : x.phase = .waiting ∨ x.phase = .ended) (he : e.Own) :
    x.step e = none := by
  cases e with
  | depart | state | rpcFailed | rpcEnded => cases he
  | _ => rcases h with h | h <;> simp [step, h]

/-- At rest a session is counted when its browser is connected or its handler is an orphan. -/
theorem balance_of_rests (hx : x.Sound) (h : x.phase = .waiting ∨ x.phase = .ended) :
    x.balance = (if x.connected then 1 else 0) + (if x.Orphan then 1 else 0) := by
  rcases h with hphase | hphase
  · simp only [Sound, hphase] at hx
    cases hconnected : x.connected <;> simp [balance, Orphan, hx, hphase, hconnected]
  · simp only [Sound, hphase] at hx
    simp [balance, Orphan, hx, hphase]

end Session

/-! ## The accounts -/

/-- Every session is counted right, and the gauge is the sum of what is counted. -/
structure SessionsInv (s : Sessions) : Prop where
  sound : ∀ x ∈ s.sessions, x.Sound
  clients : s.clients = (s.sessions.map Session.balance).sum

/-- One session is replaced in the sum. -/
theorem sum_balance_set {sessions : List Session} {i : ℕ} {x : Session}
    (hx : sessions[i]? = some x) (y : Session) :
    ((sessions.set i y).map Session.balance).sum =
      (sessions.map Session.balance).sum - x.balance + y.balance := by
  obtain ⟨hi, rfl⟩ := List.getElem?_eq_some_iff.mp hx
  rw [List.map_set, List.sum_set', dif_pos (by simpa using hi), List.getElem_map]
  ring

/-- The accounts are right after every run. -/
theorem sessionsInv_of_run {l : List Event} {s : Sessions} (h : Run step .init l s) :
    SessionsInv s := by
  apply h.invariant (I := SessionsInv)
  · exact ⟨by simp [Sessions.init], rfl⟩
  · intro s e t hs hstep
    cases e with
    | connect =>
        obtain rfl := Option.some.inj hstep
        refine ⟨?_, ?_⟩
        · simp only
          rw [List.forall_mem_append, List.forall_mem_singleton]
          exact ⟨hs.sound, rfl, rfl⟩
        · rw [hs.clients]
          simp [Session.balance, Session.new]
    | session i e =>
        obtain ⟨x, y, hx, hy, rfl⟩ := step_session hstep
        refine ⟨?_, ?_⟩
        · intro z hz
          rcases List.mem_or_eq_of_mem_set hz with hz | rfl
          · exact hs.sound z hz
          · exact (hs.sound x (List.mem_of_getElem? hx)).step hy
        · simp only
          rw [sum_balance_set hx, Session.balance_step hy, hs.clients]
          ring

/-- At rest every handler waits for a state or is over. -/
theorem Quiescent.rests {s : Sessions} (h : Quiescent s) {x : Session} (hx : x ∈ s.sessions) :
    x.phase = .waiting ∨ x.phase = .ended := by
  obtain ⟨i, hi⟩ := List.mem_iff_getElem?.mp hx
  apply Session.rests
  intro e he
  have hnone := h i e he
  simp only [step, hi, Option.bind_eq_bind, Option.bind_some, Option.bind_eq_none_iff] at hnone
  rw [Option.eq_none_iff_forall_ne_some]
  intro y hy
  exact absurd (hnone y hy) (by simp)

/-- Sessions that wait or are over have no step of their own. -/
theorem quiescent_of_rests {s : Sessions}
    (h : ∀ x ∈ s.sessions, x.phase = .waiting ∨ x.phase = .ended) : Quiescent s := by
  intro i e he
  rcases hx : s.sessions[i]? with _ | x
  · simp [step, hx]
  · have hnone := Session.step_eq_none_of_rests (h x (List.mem_of_getElem? hx)) he
    simp [step, hx, hnone]

/-- **The gauge at rest** counts the connected browsers and the orphans. -/
theorem connected_add_orphans {s : Sessions} (hinv : SessionsInv s) (h : Quiescent s) :
    s.clients = s.connected + s.sessions.countP fun x => x.Orphan := by
  have hrests : ∀ x ∈ s.sessions, x.Sound ∧ (x.phase = .waiting ∨ x.phase = .ended) :=
    fun x hx => ⟨hinv.sound x hx, h.rests hx⟩
  rw [hinv.clients, Sessions.connected]
  clear hinv h
  generalize s.sessions = sessions at hrests ⊢
  induction sessions with
  | nil => rfl
  | cons x sessions ih =>
      rw [List.forall_mem_cons] at hrests
      obtain ⟨⟨hsound, hphase⟩, hrests⟩ := hrests
      rw [List.map_cons, List.sum_cons, ih hrests, Session.balance_of_rests hsound hphase,
        List.countP_cons, List.countP_cons]
      push_cast
      simp only [decide_eq_true_eq]
      ring

/-- No handler is an orphan. -/
def NoOrphan (s : Sessions) : Prop := ∀ x ∈ s.sessions, ¬ x.Orphan

/-- At rest the gauge is right exactly without orphans. -/
theorem clients_eq_connected_iff {s : Sessions} (hinv : SessionsInv s) (h : Quiescent s) :
    s.clients = s.connected ↔ NoOrphan s := by
  rw [connected_add_orphans hinv h]
  unfold NoOrphan
  have hcount : s.sessions.countP (fun x => x.Orphan) = 0 ↔ ∀ x ∈ s.sessions, ¬ x.Orphan := by
    rw [List.countP_eq_zero]
    simp
  rw [← hcount]
  omega

/-- A step makes an orphan where none was exactly where it is one of those. -/
theorem noOrphan_step_iff {s t : Sessions} {e : Event} (hs : NoOrphan s) (h : step s e = some t) :
    NoOrphan t ↔ ¬ Orphans s e := by
  cases e with
  | connect =>
      obtain rfl := Option.some.inj h
      refine iff_of_true ?_ id
      unfold NoOrphan
      rw [List.forall_mem_append, List.forall_mem_singleton]
      exact ⟨hs, by decide⟩
  | session i e =>
      obtain ⟨x, y, hx, hy, rfl⟩ := step_session h
      have horphans : Orphans s (.session i e) ↔ y.Orphan := by
        rw [Session.orphan_step_iff hy]
        constructor
        · rintro ⟨x', hx', hcase⟩
          obtain rfl := Option.some.inj (hx'.symm.trans hx)
          exact hcase
        · exact fun hcase => ⟨x, hx, hcase⟩
      rw [horphans]
      constructor
      · intro hnone
        exact hnone y (List.mem_set (List.getElem?_eq_some_iff.mp hx).1 y)
      · intro hy z hz
        rcases List.mem_or_eq_of_mem_set hz with hz | rfl
        · exact hs z hz
        · exact hy

/-- **What is counted of the sessions.** After every run each session has been counted at most once
and taken off at most once, and both once it is over; the gauge is what is counted. At rest it is
the number of the connected browsers exactly when there is no orphan. So in a run without a step
that makes one it is that number in every state at rest.
Source: `stream.py`, `StateStream.frames`; `app.py`, `ws_state` -/
theorem sessions_counted {l : List Event} {s : Sessions} (hrun : Run step .init l s) :
    (∀ x ∈ s.sessions, x.decs ≤ x.incs ∧ x.incs ≤ 1 ∧
      (x.phase = .ended → x.incs = 1 ∧ x.decs = 1 ∧ x.connected = false)) ∧
    s.clients = (s.sessions.map fun x => (x.incs : ℤ) - x.decs).sum ∧
    (Quiescent s → (s.clients = s.connected ↔ NoOrphan s)) ∧
    (AlongSteps step .init (fun s e => ¬ Orphans s e) l →
      Throughout step .init (fun s => Quiescent s → s.clients = s.connected) l) := by
  have hinv := sessionsInv_of_run hrun
  refine ⟨?_, hinv.clients, clients_eq_connected_iff hinv, ?_⟩
  · intro x hx
    have hsound := hinv.sound x hx
    unfold Session.Sound at hsound
    cases hphase : x.phase <;> simp only [hphase] at hsound <;> simp [hsound]
  · intro hsteps l' s' hp hrun' hquiescent
    have hnone : NoOrphan Sessions.init := by simp [NoOrphan, Sessions.init]
    have hthroughout := (hrun.throughout_iff hnone fun l s e t _ hs hstep =>
      noOrphan_step_iff hs hstep).mpr hsteps
    exact (clients_eq_connected_iff (sessionsInv_of_run hrun') hquiescent).mpr
      (hthroughout l' s' hp hrun')

end TwinServices.Viz
