import TwinServices.State.Clients

/-!
# state-svc without some of its clients

Each call of `StreamState` has a mailbox of its own, and nobody waits for a call: `publish` evicts
what a slow client has not taken. So a step of one call changes nothing of what is left without that
call, and the steps of the others are the same without it.

* `masked`: a table with some of its keys left out.
* `StateHub.without`, `StreamSystem.without`, `Service.without`: what is left.
* `hubStep_without`, `streamStep_without`, `serviceStep_without`: a step of a call that is left out
  changes nothing, every other step stays one.
-/

set_option autoImplicit false

namespace TwinServices.State

open TwinServices.Python TwinServices.Contracts Lib.Transition Lib.Binary64

/-! ## Tables -/

section masked

variable {α : Type} {gone : QueueId → Bool} {d : α} {f : QueueId → α} {id : QueueId} {x : α}

/-- The table with a default in place of the entries that are left out. -/
def masked (gone : QueueId → Bool) (d : α) (f : QueueId → α) : QueueId → α := fun id =>
  if gone id then d else f id

/-- What is erased has the default. -/
theorem masked_gone (h : gone id = true) : masked gone d f id = d := if_pos h

/-- What is kept is as it was. -/
theorem masked_kept (h : gone id = false) : masked gone d f id = f id := by
  unfold masked
  rw [h]
  rfl

/-- An entry that is left out may change. -/
theorem masked_update_gone (h : gone id = true) :
    masked gone d (Function.update f id x) = masked gone d f := by
  funext id'
  by_cases heq : id' = id
  · subst heq
    rw [masked_gone h, masked_gone h]
  · unfold masked
    rw [Function.update_of_ne heq]

/-- An update of what is kept is one of the rest. -/
theorem masked_update_kept (h : gone id = false) :
    masked gone d (Function.update f id x) = Function.update (masked gone d f) id x := by
  funext id'
  by_cases heq : id' = id
  · subst heq
    rw [masked_kept h, Function.update_self, Function.update_self]
  · unfold masked
    rw [Function.update_of_ne heq, Function.update_of_ne heq]

end masked

/-! ## What is left -/

section without

variable {σ : Type}

/-- The hub without some of its subscribers and their mailboxes. -/
def StateHub.without (hub : StateHub σ) (gone : QueueId → Bool) : StateHub σ :=
  { hub with
    subscribers := hub.subscribers.filter fun id => !gone id
    queues := masked gone none hub.queues }

/-- The hub and what was taken, without some of the mailboxes. -/
def HubState.without (s : HubState σ) (gone : QueueId → Bool) : HubState σ :=
  ⟨s.hub.without gone, masked gone [] s.taken⟩

/-- The servicer without some of its calls. -/
def StreamSystem.without (s : StreamSystem σ) (gone : QueueId → Bool) : StreamSystem σ where
  hub := s.hub.without gone
  handlers := masked gone none s.handlers
  clock := s.clock

/-- The consumer, which publishes to the hub. -/
def Consumer.without (c : Consumer) (gone : QueueId → Bool) : Consumer :=
  { c with hub := c.hub.without gone }

/-- The process without some of its calls. -/
def Service.without (s : Service) (gone : QueueId → Bool) : Service :=
  { s with
    consumer := s.consumer.without gone
    taken := masked gone [] s.taken
    handlers := masked gone none s.handlers }

/-- The call that a step is of. -/
def StreamEvent.client : StreamEvent σ → Option QueueId
  | .start id _ | .dequeue id | .resume id | .cancel id => some id
  | .publish _ | .advance _ => none

/-- The call that a step is of. -/
def ServiceEvent.client : ServiceEvent → Option QueueId
  | .start id _ | .dequeue id | .resume id | .cancel id => some id
  | .connected | .disconnected | .message _ _ | .tick | .advance _ => none

/-- A step of nobody, or of a call that stays. -/
def keeps (gone : QueueId → Bool) : Option QueueId → Bool
  | none => true
  | some id => !gone id

variable {gone : QueueId → Bool} {hub : StateHub σ}

/-- A step of a client, by whether it is left out. -/
theorem erased_or_kept {P Q : Prop} {id : QueueId} (hgone : gone id = true → P)
    (hkept : gone id = false → Q) :
    (keeps gone (some id) = false → P) ∧ (keeps gone (some id) = true → Q) := by
  simpa only [keeps, Bool.not_eq_false', Bool.not_eq_true'] using ⟨hgone, hkept⟩

/-- A step of nobody stays. -/
theorem kept_of_nobody {P Q : Prop} (h : Q) :
    (keeps gone none = false → P) ∧ (keeps gone none = true → Q) :=
  ⟨fun hnone => absurd hnone (by simp [keeps]), fun _ => h⟩

/-- A sound hub stays sound without some of its queues. -/
theorem StateHub.Sound.without (h : hub.Sound) (gone : QueueId → Bool) :
    (hub.without gone).Sound := by
  intro id hid
  obtain ⟨hmem, hkept⟩ := List.mem_filter.mp hid
  have hkept' : gone id = false := by simpa using hkept
  simp only [StateHub.without, masked_kept hkept']
  exact h id hmem

/-! ## One step -/

/-- A publication reaches the mailboxes that are left as it did before. -/
theorem publish_without (h : hub.Sound) (state : σ) {hub' : StateHub σ}
    (hpublish : hub.publish state = .ok hub') :
    (hub.without gone).publish state = .ok (hub'.without gone) := by
  rw [publish_ok h] at hpublish
  obtain rfl := Except.ok.inj hpublish
  rw [publish_ok (h.without gone)]
  simp only [StateHub.without, Except.ok.injEq, StateHub.mk.injEq, true_and]
  funext id
  cases hid : gone id with
  | true => simp [masked_gone hid, hid]
  | false => simp [masked_kept hid, hid]

/-- What is taken from a mailbox that stays. -/
theorem take_without {id : QueueId} (hid : gone id = false) {state : σ} {hub' : StateHub σ}
    (h : hub.take id = some (state, hub')) :
    (hub.without gone).take id = some (state, hub'.without gone) := by
  obtain ⟨maxsize, rest, hqueue, rfl⟩ := StateHub.take_eq_some h
  have hqueue' : (hub.without gone).queues id = some ⟨maxsize, state :: rest⟩ := by
    simpa only [StateHub.without, masked_kept hid] using hqueue
  unfold StateHub.take
  rw [hqueue']
  simp only [Queue.getNowait, StateHub.without, masked_update_kept hid]

/-- A subscription ends alike without the other queues. -/
theorem unsubscribe_without (hub : StateHub σ) (id : QueueId) :
    (hub.without gone).unsubscribe id = (hub.unsubscribe id).without gone := by
  unfold StateHub.without StateHub.unsubscribe
  simp only [List.filter_filter, Bool.and_comm]

/-- The mailbox that a step of the hub is of. -/
def HubEvent.client : HubEvent σ → Option QueueId
  | .subscribe id | .unsubscribe id | .take id => some id
  | .publish _ => none

/-- **A step of the hub** at a mailbox that is left out changes nothing of what is left; every other
step stays one. -/
theorem hubStep_without (gone : QueueId → Bool) {s t : HubState σ} {e : HubEvent σ}
    (hsound : s.hub.Sound) (h : hubStep s e = some t) :
    (keeps gone e.client = false → t.without gone = s.without gone) ∧
      (keeps gone e.client = true → hubStep (s.without gone) e = some (t.without gone)) := by
  cases e with
  | subscribe id =>
      simp only [hubStep] at h
      split_ifs at h with hnew
      obtain rfl := Option.some.inj h
      refine erased_or_kept (fun hid => ?_) (fun hid => ?_)
      · simp [HubState.without, StateHub.without, StateHub.subscribe, masked_update_gone hid,
          List.filter_append, hid]
      · have hnew' : ((s.without gone).hub.queues id).isNone = true := by
          simpa only [HubState.without, StateHub.without, masked_kept hid] using hnew
        rw [hubStep, if_pos hnew']
        simp [HubState.without, StateHub.without, StateHub.subscribe, masked_update_kept hid,
          List.filter_append, hid]
  | unsubscribe id =>
      simp only [hubStep] at h
      split_ifs at h with hmem
      obtain rfl := Option.some.inj h
      refine erased_or_kept (fun hid => ?_) (fun hid => ?_)
      · simp only [HubState.without, StateHub.without, StateHub.unsubscribe, List.filter_filter,
          HubState.mk.injEq, StateHub.mk.injEq, and_true, true_and]
        refine List.filter_congr fun id' _ => ?_
        by_cases heq : id' = id
        · simp [heq, hid]
        · simp [heq]
      · have hmem' : id ∈ (s.without gone).hub.subscribers :=
          List.mem_filter.mpr ⟨hmem, by simp [hid]⟩
        rw [hubStep, if_pos hmem']
        simp only [HubState.without, unsubscribe_without]
  | publish state =>
      simp only [hubStep] at h
      split at h
      · rename_i hub hpublish
        obtain rfl := Option.some.inj h
        refine kept_of_nobody ?_
        simp only [hubStep, HubState.without, publish_without hsound state hpublish]
      · cases h
  | take id =>
      simp only [hubStep] at h
      split at h
      · rename_i state hub htake
        obtain rfl := Option.some.inj h
        refine erased_or_kept (fun hid => ?_) (fun hid => ?_)
        · obtain ⟨maxsize, rest, -, rfl⟩ := StateHub.take_eq_some htake
          simp only [HubState.without, StateHub.without, masked_update_gone hid]
        · simp only [hubStep, HubState.without, take_without hid htake, masked_update_kept hid,
            masked_kept hid]
      · cases h

/-- A call takes a step of the hub and gets a new handler. -/
theorem withHandler_without {s : StreamSystem σ} (gone : QueueId → Bool)
    (hsound : s.hub.hub.Sound) {b : HubEvent σ} {id : QueueId} (hclient : b.client = some id)
    {hub : HubState σ} (hhub : hubStep s.hub b = some hub) (handler : Handler σ) :
    (gone id = true →
      StreamSystem.without { s with
        hub := hub
        handlers := Function.update s.handlers id (some handler) } gone = s.without gone) ∧
      (gone id = false → (hubStep (s.without gone).hub b).map (fun hub => { s.without gone with
          hub := hub
          handlers := Function.update (s.without gone).handlers id (some handler) }) =
        some (StreamSystem.without { s with
          hub := hub
          handlers := Function.update s.handlers id (some handler) } gone)) := by
  obtain ⟨hgone, hkept⟩ := hubStep_without gone hsound hhub
  rw [hclient] at hgone hkept
  constructor
  · intro hid
    simp only [StreamSystem.without, masked_update_gone hid]
    rw [hgone (by simp [keeps, hid])]
  · intro hid
    exact (congrArg (Option.map _) (hkept (by simp [keeps, hid]))).trans
      (by simp only [Option.map_some, StreamSystem.without, masked_update_kept hid])

variable [CPython] {s t : StreamSystem σ} {e : StreamEvent σ}

/-- **A step of the servicer** of a call that is left out changes nothing of what is left; every
other step stays one. -/
theorem streamStep_without (gone : QueueId → Bool) (hsound : s.hub.hub.Sound)
    (h : streamStep s e = some t) :
    (keeps gone e.client = false → t.without gone = s.without gone) ∧
      (keeps gone e.client = true → streamStep (s.without gone) e = some (t.without gone)) := by
  rcases streamStep_cases h with ⟨state, hub, rfl, hhub, rfl⟩ |
    ⟨id, request, error, rfl, hasset, rfl⟩ | ⟨id, request, i, hub, rfl, hasset, hi, hhub, rfl⟩ |
    ⟨id, handler, state, rest, hub, rfl, hhandler, hphase, htake, hhub, rfl⟩ |
    ⟨id, handler, rfl, hhandler, hphase, rfl⟩ |
    ⟨id, handler, hub, rfl, hhandler, hphase, hhub, rfl⟩ | ⟨now, rfl, hle, rfl⟩
  · have hstep := (hubStep_without gone hsound hhub).2 rfl
    exact kept_of_nobody (congrArg (Option.map _) hstep)
  · refine ⟨fun _ => rfl, fun _ => ?_⟩
    have hasset' : checkAsset (t.without gone).hub.hub.asset request.asset = .error error := hasset
    obtain ⟨i, hi⟩ := minInterval_ok request.maxRateHz
    simp only [streamStep, hasset', hi]
  · obtain ⟨hgone, hkept⟩ := withHandler_without gone hsound rfl hhub (.new i)
    refine erased_or_kept hgone fun hid => ?_
    have hasset' : checkAsset (s.without gone).hub.hub.asset request.asset = .ok () := hasset
    simp only [streamStep, hasset', hi]
    exact hkept hid
  · obtain ⟨hgone, hkept⟩ :=
      withHandler_without gone hsound rfl hhub (handler.receive state s.clock)
    refine erased_or_kept hgone fun hid => ?_
    have hhandler' : (s.without gone).handlers id = some handler := (masked_kept hid).trans hhandler
    have htake' : (s.without gone).hub.hub.take id = some (state, rest.without gone) :=
      take_without hid htake
    simp only [streamStep, hhandler', htake']
    rw [if_pos hphase]
    exact hkept hid
  · refine erased_or_kept (fun hid => ?_) (fun hid => ?_)
    · simp only [StreamSystem.without, masked_update_gone hid]
    · have hhandler' : (s.without gone).handlers id = some handler :=
        (masked_kept hid).trans hhandler
      simp only [streamStep, hhandler']
      rw [if_pos hphase]
      simp only [StreamSystem.without, masked_update_kept hid]
  · obtain ⟨hgone, hkept⟩ :=
      withHandler_without gone hsound rfl hhub { handler with phase := .ended }
    refine erased_or_kept hgone fun hid => ?_
    have hhandler' : (s.without gone).handlers id = some handler := (masked_kept hid).trans hhandler
    simp only [streamStep, hhandler']
    rw [if_neg hphase]
    exact hkept hid
  · exact kept_of_nobody (streamStep_advance hle)

end without

/-! ## The process -/

section process

variable [CPython] {gone : QueueId → Bool} {c : Consumer} {s t : Service} {e : ServiceEvent}

/-- A round of the broadcast loop returns or raises as it did before. -/
theorem tick_without (hsound : c.hub.Sound) :
    (c.without gone).tick = c.tick.map fun t => t.without gone := by
  unfold Consumer.tick
  rw [show (c.without gone).dirty = c.dirty from rfl]
  by_cases hdirty : c.dirty = false
  · rw [if_pos hdirty, if_pos hdirty]
    rfl
  · rw [if_neg hdirty, if_neg hdirty]
    simp only [Consumer.without]
    rcases hbuild : buildState c.assetName c.window c.rmsWindowS with error | _ | state
    · rfl
    · rfl
    · have hpublish := publish_ok hsound state
      simp only [ok_bind, hpublish, publish_without hsound state hpublish]
      rfl

variable [Pydantic]

omit [CPython] in
/-- A message does not reach the hub. -/
theorem observe_without (c : Consumer) (topic : String) (payload : Payload) :
    (c.without gone).observe topic payload = (c.observe topic payload).without gone := by
  unfold Consumer.observe
  split <;> rfl

/-- **A step of the process** that is of a call that is left out changes nothing of what is left;
every other step stays one. -/
theorem serviceStep_without (gone : QueueId → Bool) (hsound : s.stream.hub.hub.Sound)
    (h : serviceStep s e = some t) :
    (keeps gone e.client = false → t.without gone = s.without gone) ∧
      (keeps gone e.client = true → serviceStep (s.without gone) e = some (t.without gone)) := by
  have hserve : ∀ {b : StreamEvent (TwinState Double)} {u : Service}, s.serve b = some u →
      (keeps gone b.client = false → u.without gone = s.without gone) ∧
        (keeps gone b.client = true → (s.without gone).serve b = some (u.without gone)) := by
    intro b u hu
    obtain ⟨stream, hstream, rfl⟩ := Option.map_eq_some_iff.mp hu
    obtain ⟨hgone, hkept⟩ := streamStep_without gone hsound hstream
    exact ⟨fun hid => congrArg (s.without gone).withStream (hgone hid),
      fun hid => congrArg (Option.map (s.without gone).withStream) (hkept hid)⟩
  cases e with
  | connected | disconnected =>
      obtain ⟨c, hc, rfl⟩ := consume_cases h
      obtain rfl := Option.some.inj hc
      exact kept_of_nobody rfl
  | message topic payload =>
      obtain ⟨c, hc, rfl⟩ := consume_cases h
      obtain rfl := Option.some.inj hc
      refine kept_of_nobody ?_
      simp only [serviceStep, Service.consume, State.step, Option.map_some, Service.without,
        observe_without]
  | tick =>
      refine kept_of_nobody ?_
      have htick : (s.consumer.without gone).tick = _ := tick_without hsound
      simp only [serviceStep, Service.broadcast] at h ⊢
      split_ifs at h with hbroadcasting
      rw [if_pos (show (s.without gone).broadcasting = true from hbroadcasting)]
      simp only [Service.without, htick]
      split at h
      · rename_i c hc
        obtain rfl := Option.some.inj h
        rw [hc]
        rfl
      · rename_i error herror
        obtain rfl := Option.some.inj h
        rw [herror]
        rfl
  | start id request | dequeue id | resume id | cancel id | advance now => exact hserve h

omit [CPython] [Pydantic] in
/-- A process that has just started has no calls. -/
theorem without_init (assetName : String) (rmsWindowS : Double) (windowNs : ℤ)
    (gone : QueueId → Bool) : (Service.init assetName rmsWindowS windowNs).without gone =
      .init assetName rmsWindowS windowNs := by
  have hnone : ∀ {α : Type} (d : α), masked gone d (fun _ => d) = fun _ => d := by
    intro α d
    funext id
    exact ite_self d
  simp only [Service.without, Service.init, Consumer.without, Consumer.init, StateHub.without,
    StateHub.new, hnone, List.filter_nil]

end process

end TwinServices.State
