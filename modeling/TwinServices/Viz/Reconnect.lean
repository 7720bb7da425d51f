import TwinServices.Lib.Transition
import TwinServices.Viz.Frame

/-!
# The reconnect machine of the viewer

The effect of `useTwinState` keeps a WebSocket to viz-svc: when one closes, a timer connects the
next. Its callbacks share three variables, `socket`, `timer` and `disposed`, and the browser fires
them in any order that sockets and timers allow; a run is one such order.

* `connect`, `onOpen`, `onClose`, `dispose`, `step`: the effect.
* `ReconnectInv`, `ReconnectInv.step`: one socket or one timer, and never both.
* `reconnect_never_stuck`: the machine over all runs, before and after it is disposed.
-/

set_option autoImplicit false

namespace TwinServices.Viz

open TwinServices.Python Lib.Transition Lib.Binary64

/-! ## The effect -/

/-- Source: `useTwinState.ts`, `ConnectionStatus` -/
inductive ConnectionStatus
  | connecting
  | live
  | reconnecting
deriving DecidableEq, Repr

/-- What a WebSocket has fired.
Source: `useTwinState.ts`, `connect` -/
inductive SocketPhase
  /-- Neither `onopen` nor `onclose`. -/
  | connecting
  /-- `onopen`, and not `onclose`. -/
  | opened
  /-- `onclose`. -/
  | closed
deriving DecidableEq, Repr

/-- The variables of the effect and the state of the hook, with the sockets that were created,
oldest first, the timers that are armed, and the number of those set so far.
Source: `useTwinState.ts`, `useTwinState` -/
structure Viewer where
  socket : Option ℕ
  timer : Option ℕ
  disposed : Bool
  status : ConnectionStatus
  frame : Option (TwinFrame Double)
  sockets : List SocketPhase
  armed : List ℕ
  timers : ℕ

namespace Viewer

/-- A socket, unless the effect is disposed. Source: `useTwinState.ts`, `connect` -/
def connect (v : Viewer) : Viewer :=
  if v.disposed then v
  else { v with socket := some v.sockets.length, sockets := v.sockets ++ [.connecting] }

/-- Source: `useTwinState.ts`, `onopen` -/
def onOpen (v : Viewer) : Viewer := { v with status := .live }

/-- A message that does not parse raises in the handler and changes nothing. The hook shows whatever
else `JSON.parse` returns; what is no `TwinFrame` is left out here, as `to_frame` writes nothing of
the kind.
Source: `useTwinState.ts`, `onmessage` -/
def onMessage (v : Viewer) (data : String) : Viewer :=
  match Viz.onMessage data with
  | some frame => { v with frame := some frame }
  | none => v

/-- Source: `useTwinState.ts`, `onclose` -/
def onClose (v : Viewer) : Viewer :=
  if v.disposed then v
  else { v with
    status := .reconnecting
    timer := some v.timers
    armed := v.armed ++ [v.timers]
    timers := v.timers + 1 }

/-- The cleanup of the effect. That it closes the socket is heard of by `onclose`.
Source: `useTwinState.ts`, `useTwinState` -/
def dispose (v : Viewer) : Viewer :=
  { v with disposed := true, armed := v.armed.filter fun id => some id ≠ v.timer }

/-- The hook before its effect.
Source: `useTwinState.ts`, `useTwinState` -/
def mounted : Viewer where
  socket := none
  timer := none
  disposed := false
  status := .connecting
  frame := none
  sockets := []
  armed := []
  timers := 0

/-- The effect has started.
Source: `useTwinState.ts`, `useTwinState` -/
def init : Viewer := mounted.connect

end Viewer

/-- What the browser can fire.
Source: `useTwinState.ts`, `connect` -/
inductive ViewerEvent
  | opened (socket : ℕ)
  | message (socket : ℕ) (data : String)
  | closed (socket : ℕ)
  /-- A timer that is armed goes off. -/
  | fired (timer : ℕ)
  | dispose

/-- A socket whose `onclose` has not fired. -/
def Viewer.Unclosed (v : Viewer) (i : ℕ) : Prop :=
  v.sockets[i]? = some .connecting ∨ v.sockets[i]? = some .opened

/-- Whether a socket is not closed is checked by computing. -/
instance (v : Viewer) (i : ℕ) : Decidable (v.Unclosed i) := inferInstanceAs (Decidable (_ ∨ _))

/-- One step; none where it cannot happen. A socket fires `onclose` once, and `onopen` not after
it.
Source: `useTwinState.ts`, `useTwinState` -/
def viewerStep (v : Viewer) : ViewerEvent → Option Viewer
  | .opened i =>
      if v.Unclosed i then some { v with sockets := v.sockets.set i .opened }.onOpen else none
  | .message i data => if i < v.sockets.length then some (v.onMessage data) else none
  | .closed i =>
      if v.Unclosed i then some { v with sockets := v.sockets.set i .closed }.onClose else none
  | .fired id =>
      if id ∈ v.armed then some { v with armed := v.armed.erase id }.connect else none
  | .dispose => if v.disposed then none else some v.dispose

/-- What each event leads to, where it can happen. -/
theorem viewerStep_cases {v t : Viewer} {e : ViewerEvent} (h : viewerStep v e = some t) :
    (∃ i, e = .opened i ∧ v.Unclosed i ∧
      t = { v with sockets := v.sockets.set i .opened, status := .live }) ∨
    (∃ i data frame, e = .message i data ∧ t = { v with frame := frame }) ∨
    (∃ i, e = .closed i ∧ v.Unclosed i ∧
      t = { v with sockets := v.sockets.set i .closed }.onClose) ∨
    (∃ id, e = .fired id ∧ id ∈ v.armed ∧ t = { v with armed := v.armed.erase id }.connect) ∨
    (e = .dispose ∧ v.disposed = false ∧ t = v.dispose) := by
  cases e with
  | opened i =>
      simp only [viewerStep] at h
      split_ifs at h with hi
      exact Or.inl ⟨i, rfl, hi, (Option.some.inj h).symm⟩
  | message i data =>
      simp only [viewerStep, Viewer.onMessage] at h
      split_ifs at h
      split at h
      · rename_i frame _
        exact Or.inr (Or.inl ⟨i, data, some frame, rfl, (Option.some.inj h).symm⟩)
      · exact Or.inr (Or.inl ⟨i, data, v.frame, rfl, (Option.some.inj h).symm⟩)
  | closed i =>
      simp only [viewerStep] at h
      split_ifs at h with hi
      exact Or.inr (Or.inr (Or.inl ⟨i, rfl, hi, (Option.some.inj h).symm⟩))
  | fired id =>
      simp only [viewerStep] at h
      split_ifs at h with hid
      exact Or.inr (Or.inr (Or.inr (Or.inl ⟨id, rfl, hid, (Option.some.inj h).symm⟩)))
  | dispose =>
      simp only [viewerStep] at h
      split_ifs at h with hdisposed
      exact Or.inr (Or.inr (Or.inr (Or.inr ⟨rfl, by simpa using hdisposed,
        (Option.some.inj h).symm⟩)))

/-! ## The invariant -/

/-- All sockets but the current one, `last`, are closed. Until the effect is disposed either that
one is not and no timer is armed, or it is and the timer is; the viewer is live while it is open.
Once the effect is disposed, no timer is armed. -/
structure ReconnectInv (v : Viewer) (older : List SocketPhase) (last : SocketPhase) : Prop where
  sockets : v.sockets = older ++ [last]
  olderClosed : ∀ p ∈ older, p = .closed
  socket : v.socket = some older.length
  connected : v.disposed = false → last ≠ .closed → v.armed = []
  waiting : v.disposed = false → last = .closed → ∃ id, v.armed = [id] ∧ v.timer = some id
  live : v.disposed = false → (v.status = .live ↔ last = .opened)
  disposed : v.disposed = true → v.armed = []

/-- The mounted hook has one socket that connects, and no timer. -/
theorem reconnectInv_init : ReconnectInv .init [] .connecting where
  sockets := rfl
  olderClosed p hp := by cases hp
  socket := rfl
  connected _ _ := rfl
  waiting _ hlast := by cases hlast
  live _ := by decide
  disposed h := by cases h

/-- A socket that is not closed is the current one. -/
theorem ReconnectInv.current {v : Viewer} {older : List SocketPhase} {last : SocketPhase}
    (h : ReconnectInv v older last) {i : ℕ} (hi : v.Unclosed i) :
    last ≠ .closed ∧ ∀ p, v.sockets.set i p = older ++ [p] := by
  obtain ⟨p, hp, hclosed⟩ : ∃ p, v.sockets[i]? = some p ∧ p ≠ .closed := by
    rcases hi with hi | hi <;> exact ⟨_, hi, by decide⟩
  rw [h.sockets] at hp
  have hlen : older.length ≤ i := by
    by_contra hlt
    rw [List.getElem?_append_left (not_le.mp hlt)] at hp
    exact hclosed (h.olderClosed p (List.mem_of_getElem? hp))
  obtain ⟨hbound, -⟩ := List.getElem?_eq_some_iff.mp hp
  have heq : i = older.length := by
    rw [List.length_append, List.length_singleton] at hbound
    omega
  subst heq
  rw [List.getElem?_concat_length] at hp
  refine ⟨Option.some.inj hp ▸ hclosed, fun q => ?_⟩
  rw [h.sockets, List.set_append_right _ _ le_rfl, Nat.sub_self]
  rfl

/-- **One step keeps the invariant.** Only the current socket can open or close, the timer that goes
off is the only one, and it connects the next socket behind the closed ones. -/
theorem ReconnectInv.step {v t : Viewer} {older : List SocketPhase} {last : SocketPhase}
    {e : ViewerEvent} (h : ReconnectInv v older last) (hstep : viewerStep v e = some t) :
    ∃ older' last', ReconnectInv t older' last' := by
  rcases viewerStep_cases hstep with ⟨i, rfl, hi, rfl⟩ | ⟨i, data, frame, rfl, rfl⟩ |
    ⟨i, rfl, hi, rfl⟩ | ⟨id, rfl, hid, rfl⟩ | ⟨rfl, hdisposed, rfl⟩
  · obtain ⟨hlast, hset⟩ := h.current hi
    refine ⟨older, .opened, hset .opened, h.olderClosed, h.socket, ?_, ?_, ?_, h.disposed⟩
    · exact fun hdisposed _ => h.connected hdisposed hlast
    · exact fun _ hopened => by cases hopened
    · exact fun _ => iff_of_true rfl rfl
  · exact ⟨older, last, h.sockets, h.olderClosed, h.socket, h.connected, h.waiting, h.live,
      h.disposed⟩
  · obtain ⟨hlast, hset⟩ := h.current hi
    unfold Viewer.onClose
    split_ifs with hdisposed
    · have habsurd : v.disposed = false → False := fun hnot => by rw [hdisposed] at hnot; cases hnot
      exact ⟨older, .closed, hset .closed, h.olderClosed, h.socket, fun hnot => (habsurd hnot).elim,
        fun hnot => (habsurd hnot).elim, fun hnot => (habsurd hnot).elim, h.disposed⟩
    · have hnot : v.disposed = false := by simpa using hdisposed
      have harmed := h.connected hnot hlast
      refine ⟨older, .closed, hset .closed, h.olderClosed, h.socket, ?_, ?_, ?_, ?_⟩
      · exact fun _ hne => absurd rfl hne
      · intro _ _
        refine ⟨v.timers, ?_, rfl⟩
        simp only [harmed, List.nil_append]
      · exact fun _ => iff_of_false (by simp) (by simp)
      · exact fun htrue => absurd htrue (by simp [hnot])
  · have hnot : v.disposed = false := by
      by_contra hdisposed
      rw [h.disposed (by simpa using hdisposed)] at hid
      cases hid
    have hlast : last = .closed := by
      by_contra hne
      rw [h.connected hnot hne] at hid
      cases hid
    obtain ⟨id', harmed, -⟩ := h.waiting hnot hlast
    have herase : v.armed.erase id = [] := by
      rw [harmed] at hid ⊢
      rw [List.mem_singleton.mp hid, List.erase_cons_head]
    have hlive := h.live hnot
    unfold Viewer.connect
    rw [if_neg (by simp [hnot])]
    refine ⟨older ++ [last], .connecting, ?_, ?_, ?_, fun _ _ => herase, ?_, ?_, fun _ => herase⟩
    · rw [h.sockets]
    · rw [List.forall_mem_append, List.forall_mem_singleton]
      exact ⟨h.olderClosed, hlast⟩
    · rw [h.sockets]
    · exact fun _ hconnecting => by cases hconnecting
    · -- the socket that closed took the viewer out of its live state
      intro _
      refine iff_of_false (fun hstatus => ?_) (by decide)
      rw [hlast] at hlive
      exact absurd (hlive.mp hstatus) (by decide)
  · refine ⟨older, last, h.sockets, h.olderClosed, h.socket, fun hnot => ?_, fun hnot => ?_,
      fun hnot => ?_, fun _ => ?_⟩
    · cases hnot
    · cases hnot
    · cases hnot
    · unfold Viewer.dispose
      by_cases hlast : last = .closed
      · obtain ⟨id, harmed, htimer⟩ := h.waiting hdisposed hlast
        simp [harmed, htimer]
      · simp [h.connected hdisposed hlast]

/-- The invariant holds after every run. -/
theorem reconnectInv_of_run {l : List ViewerEvent} {v : Viewer} (h : Run viewerStep .init l v) :
    ∃ older last, ReconnectInv v older last := by
  apply h.invariant (I := fun v => ∃ older last, ReconnectInv v older last)
  · exact ⟨[], .connecting, reconnectInv_init⟩
  · rintro v e t ⟨older, last, hinv⟩ hstep
    exact hinv.step hstep

/-! ## The machine over all runs -/

/-- The sockets whose `onclose` has not fired. -/
def Viewer.unclosed (v : Viewer) : List SocketPhase := v.sockets.filter fun p => p ≠ .closed

/-- The current socket has fired `onopen`, and not `onclose`. -/
def Viewer.Open (v : Viewer) : Prop := ∃ i, v.socket = some i ∧ v.sockets[i]? = some .opened

/-- A socket is open exactly if the current one is. -/
theorem ReconnectInv.open_iff {v : Viewer} {older : List SocketPhase} {last : SocketPhase}
    (h : ReconnectInv v older last) : v.Open ↔ last = .opened := by
  unfold Viewer.Open
  rw [h.socket, h.sockets]
  simp

/-- At most the current socket is not closed. -/
theorem ReconnectInv.unclosed {v : Viewer} {older : List SocketPhase} {last : SocketPhase}
    (h : ReconnectInv v older last) : v.unclosed = if last = .closed then [] else [last] := by
  have hnone : older.filter (fun p => p ≠ .closed) = [] := by
    rw [List.filter_eq_nil_iff]
    exact fun p hp => by simp [h.olderClosed p hp]
  rw [Viewer.unclosed, h.sockets, List.filter_append, hnone]
  split_ifs with hlast
  · simp [hlast]
  · simp [hlast]

/-- Once the effect is disposed nothing connects again. -/
theorem step_disposed {v t : Viewer} {e : ViewerEvent} (h : viewerStep v e = some t)
    (hdisposed : v.disposed = true) (harmed : v.armed = []) :
    t.disposed = true ∧ t.sockets.length = v.sockets.length ∧ t.armed = [] ∧
      (t.status = .reconnecting → v.status = .reconnecting) := by
  rcases viewerStep_cases h with ⟨i, rfl, hi, rfl⟩ | ⟨i, data, frame, rfl, rfl⟩ |
    ⟨i, rfl, hi, rfl⟩ | ⟨id, rfl, hid, rfl⟩ | ⟨rfl, hnot, rfl⟩
  · exact ⟨hdisposed, List.length_set, harmed, fun hstatus => by cases hstatus⟩
  · exact ⟨hdisposed, rfl, harmed, id⟩
  · unfold Viewer.onClose
    rw [if_pos hdisposed]
    exact ⟨hdisposed, List.length_set, harmed, id⟩
  · rw [harmed] at hid
    cases hid
  · rw [hdisposed] at hnot
    cases hnot

/-- **The viewer is never stuck and never doubled.** After every sequence of events, until the
effect is disposed: either one socket has not fired `onclose` and no timer is armed, or none has not
and one timer is; and the status is live exactly while the current socket is open. After that no
timer is armed and no step creates a socket, arms a timer or sets the status to reconnecting.
Source: `useTwinState.ts`, `useTwinState` -/
theorem reconnect_never_stuck {l : List ViewerEvent} {v : Viewer} (h : Run viewerStep .init l v) :
    (v.disposed = false →
      (v.unclosed.length = 1 ∧ v.armed.length = 0 ∨ v.unclosed.length = 0 ∧ v.armed.length = 1) ∧
        (v.status = .live ↔ v.Open)) ∧
    (v.disposed = true → v.armed = [] ∧ ∀ e t, viewerStep v e = some t →
      t.disposed = true ∧ t.sockets.length = v.sockets.length ∧ t.armed = [] ∧
        (t.status = .reconnecting → v.status = .reconnecting)) := by
  obtain ⟨older, last, hinv⟩ := reconnectInv_of_run h
  constructor
  · intro hnot
    rw [hinv.unclosed, hinv.open_iff]
    refine ⟨?_, hinv.live hnot⟩
    by_cases hlast : last = .closed
    · obtain ⟨id, harmed, -⟩ := hinv.waiting hnot hlast
      rw [if_pos hlast, harmed]
      exact Or.inr ⟨rfl, rfl⟩
    · rw [if_neg hlast, hinv.connected hnot hlast]
      exact Or.inl ⟨rfl, rfl⟩
  · intro hdisposed
    have harmed := hinv.disposed hdisposed
    exact ⟨harmed, fun e t hstep => step_disposed hstep hdisposed harmed⟩

/-- viz-svc goes away and comes back, and the tab is closed. -/
def outage : List ViewerEvent := [.opened 0, .closed 0, .fired 0, .opened 1, .dispose, .closed 1]

/-- After an outage and the unmount every socket is closed and no step opens another one. -/
theorem reconnect_never_stuck_outage : ∃ v, Run viewerStep .init outage v ∧ v.armed = [] ∧
    v.sockets = [.closed, .closed] ∧
    ∀ e t, viewerStep v e = some t → t.sockets.length = v.sockets.length := by
  have hexec : exec viewerStep .init outage = some ?_ := by
    simp only [outage, exec, viewerStep]
    rfl
  obtain ⟨-, hafter⟩ := reconnect_never_stuck (.of_exec hexec)
  obtain ⟨harmed, hsteps⟩ := hafter rfl
  exact ⟨_, .of_exec hexec, harmed, rfl, fun e t hstep => (hsteps e t hstep).2.1⟩

end TwinServices.Viz
