import TwinServices.State.Service

/-!
# The clients of state-svc

What the clients of one process get, all together: any number of calls of `GetState` and
`StreamState`, before, between and after each other.

* `streamStep_effect`: what a step does to the mailboxes and to what the handlers have yielded.
* `extends_of_run`: what a handler has yielded stays yielded.
* `Holds`, `Holds.step`: what holds of every published state holds of what a client gets.
* `answers_well_formed`: every state that a client gets is one of the asset that it asked for.
* `monotonic_reads`: no client gets an older state than one that any client had before.
* `exists_streamRun_publishedTo`: what the process publishes, it publishes to every call.
-/

set_option autoImplicit false

namespace TwinServices.State

open TwinServices.Python TwinServices.Contracts Lib.Transition Lib.Binary64

/-! ## Mailboxes and handlers -/

section handlers

variable {σ : Type}

/-- What the client of a handler sees of it: the interval and the states. -/
def Handler.answers (h : Handler σ) : Double × List σ := (h.minInterval, h.yielded)

/-- A handler later: the same interval, and more states. -/
structure Handler.Extends (h h' : Handler σ) : Prop where
  minInterval : h'.minInterval = h.minInterval
  yielded : h.yielded <+: h'.yielded

variable [CPython]

/-- A handler that receives a state keeps what it had yielded. -/
theorem Handler.extends_receive (h : Handler σ) (state : σ) (now : Finite64) :
    h.Extends (h.receive state now) := by
  unfold Handler.receive
  simp only
  split_ifs
  · exact ⟨rfl, List.prefix_rfl⟩
  · exact ⟨rfl, List.prefix_append ..⟩

/-- What a handler yields in a pass is what it took. -/
theorem Handler.mem_yielded_receive {h : Handler σ} {state x : σ} {now : Finite64} {skip : ℕ}
    (hx : x ∈ (h.receive state now).yielded.drop skip) : x ∈ h.yielded.drop skip ∨ x = state := by
  unfold Handler.receive at hx
  simp only at hx
  split_ifs at hx
  · exact Or.inl hx
  · simp only [List.drop_append, List.mem_append] at hx
    exact hx.imp_right fun hx => List.mem_singleton.mp (List.mem_of_mem_drop hx)

/-- What a step does: it publishes a state to the subscribers, opens a mailbox with a handler, hands
a state from a mailbox to its handler, or changes neither a mailbox nor what a client sees. -/
theorem streamStep_effect {s t : StreamSystem σ} {e : StreamEvent σ} (hs : s.hub.hub.Sound)
    (h : streamStep s e = some t) :
    (∃ state, e = .publish state ∧ t.handlers = s.handlers ∧ t.hub.hub.latest = some state ∧
      t.hub.hub.queues = fun id =>
        if id ∈ s.hub.hub.subscribers then some ⟨1, [state]⟩ else s.hub.hub.queues id) ∨
    (∃ id request i, e = .start id request ∧
      checkAsset s.hub.hub.asset request.asset = .ok () ∧ minInterval request.maxRateHz = .ok i ∧
      s.hub.hub.queues id = none ∧ t.hub.hub.latest = s.hub.hub.latest ∧
      t.hub.hub.queues = Function.update s.hub.hub.queues id (some (Queue.new 1)) ∧
      t.handlers = Function.update s.handlers id (some (.new i))) ∨
    (∃ id handler maxsize state rest, e = .dequeue id ∧ s.handlers id = some handler ∧
      s.hub.hub.queues id = some ⟨maxsize, state :: rest⟩ ∧
      t.hub.hub.latest = s.hub.hub.latest ∧
      t.hub.hub.queues = Function.update s.hub.hub.queues id (some ⟨maxsize, rest⟩) ∧
      t.handlers = Function.update s.handlers id (some (handler.receive state s.clock))) ∨
    (t.hub.hub.latest = s.hub.hub.latest ∧ t.hub.hub.queues = s.hub.hub.queues ∧
      ∀ id, (t.handlers id).map Handler.answers = (s.handlers id).map Handler.answers) := by
  rcases streamStep_cases h with ⟨state, hub, rfl, hhub, rfl⟩ | ⟨id, request, error, rfl, -, rfl⟩ |
    ⟨id, request, i, hub, rfl, hasset, hi, hhub, rfl⟩ |
    ⟨id, handler, state, rest, hub, rfl, hh, -, htake, hhub, rfl⟩ |
    ⟨id, handler, rfl, hh, -, rfl⟩ | ⟨id, handler, hub, rfl, hh, -, hhub, rfl⟩ | ⟨now, rfl, -, rfl⟩
  · simp only [hubStep, publish_ok hs] at hhub
    obtain rfl := Option.some.inj hhub
    exact Or.inl ⟨state, rfl, rfl, rfl, rfl⟩
  · exact Or.inr (Or.inr (Or.inr ⟨rfl, rfl, fun _ => rfl⟩))
  · simp only [hubStep] at hhub
    split_ifs at hhub with hnone
    obtain rfl := Option.some.inj hhub
    exact Or.inr (Or.inl ⟨id, request, i, rfl, hasset, hi, by simpa using hnone, rfl, rfl, rfl⟩)
  · simp only [hubStep, htake] at hhub
    obtain rfl := Option.some.inj hhub
    obtain ⟨maxsize, items, hqueue, rfl⟩ := StateHub.take_eq_some htake
    exact Or.inr (Or.inr (Or.inl
      ⟨id, handler, maxsize, state, items, rfl, hh, hqueue, rfl, rfl, rfl⟩))
  · refine Or.inr (Or.inr (Or.inr ⟨rfl, rfl, fun id' => ?_⟩))
    simp only [Function.update_apply]
    split_ifs with heq
    · rw [heq, hh]
      rfl
    · rfl
  · simp only [hubStep] at hhub
    split_ifs at hhub
    obtain rfl := Option.some.inj hhub
    refine Or.inr (Or.inr (Or.inr ⟨rfl, rfl, fun id' => ?_⟩))
    simp only [Function.update_apply]
    split_ifs with heq
    · rw [heq, hh]
      rfl
    · rfl
  · exact Or.inr (Or.inr (Or.inr ⟨rfl, rfl, fun _ => rfl⟩))

omit [CPython] in
/-- Handlers that show the same answers. -/
theorem exists_handler_of_answers {a b : Option (Handler σ)}
    (h : a.map Handler.answers = b.map Handler.answers) {handler : Handler σ}
    (hb : b = some handler) :
    ∃ handler', a = some handler' ∧ handler'.answers = handler.answers := by
  rw [hb] at h
  exact Option.map_eq_some_iff.mp h

/-- Every handler has its mailbox, and every mailbox its handler. -/
theorem isSome_queue_iff_of_run {asset : String} {l : List (StreamEvent σ)} {s : StreamSystem σ}
    (h : Run streamStep (.init asset) l s) (id : QueueId) :
    (s.hub.hub.queues id).isSome = true ↔ (s.handlers id).isSome = true := by
  refine h.history (I := fun _ s => ∀ id,
    (s.hub.hub.queues id).isSome = true ↔ (s.handlers id).isSome = true) ?_ ?_ id
  · exact fun id => Iff.rfl
  · intro l s e t hrun ih hstep id
    have hhub := hubInv_of_run (run_hub hrun)
    rcases streamStep_effect hhub.sound hstep with ⟨state, -, hhandlers, -, hqueues⟩ |
      ⟨id', request, i, -, -, -, -, -, hqueues, hhandlers⟩ |
      ⟨id', handler, maxsize, state, rest, -, hh, hqueue, -, hqueues, hhandlers⟩ |
      ⟨-, hqueues, hanswers⟩
    · rw [hqueues, hhandlers, ← ih id]
      simp only
      split_ifs with hid
      · exact iff_of_true rfl (hhub.allocated id hid)
      · exact Iff.rfl
    · rw [hqueues, hhandlers]
      simp only [Function.update_apply]
      split_ifs
      · exact iff_of_true rfl rfl
      · exact ih id
    · rw [hqueues, hhandlers]
      simp only [Function.update_apply]
      split_ifs
      · exact iff_of_true rfl rfl
      · exact ih id
    · have hsome : (t.handlers id).isSome = (s.handlers id).isSome := by
        rw [← Option.isSome_map, hanswers id, Option.isSome_map]
      rw [hqueues, hsome]
      exact ih id

/-- **What a handler has yielded stays yielded.** -/
theorem streamStep_extends {asset : String} {l : List (StreamEvent σ)} {s t : StreamSystem σ}
    {e : StreamEvent σ} (hrun : Run streamStep (.init asset) l s) (hstep : streamStep s e = some t)
    {id : QueueId} {h : Handler σ} (hh : s.handlers id = some h) :
    ∃ h', t.handlers id = some h' ∧ h.Extends h' := by
  rcases streamStep_effect (hubInv_of_run (run_hub hrun)).sound hstep with
    ⟨state, -, hhandlers, -, -⟩ | ⟨id', request, i, -, -, -, hnone, -, -, hhandlers⟩ |
    ⟨id', handler, maxsize, state, rest, -, hh', -, -, -, hhandlers⟩ | ⟨-, -, hanswers⟩
  · rw [hhandlers]
    exact ⟨h, hh, rfl, List.prefix_rfl⟩
  · have hne : id ≠ id' := by
      rintro rfl
      have hsome := (isSome_queue_iff_of_run hrun id).mpr (Option.isSome_iff_exists.mpr ⟨h, hh⟩)
      rw [hnone] at hsome
      cases hsome
    rw [hhandlers, Function.update_of_ne hne]
    exact ⟨h, hh, rfl, List.prefix_rfl⟩
  · rw [hhandlers]
    simp only [Function.update_apply]
    split_ifs with heq
    · subst heq
      obtain rfl := Option.some.inj (hh.symm.trans hh')
      exact ⟨_, rfl, h.extends_receive state s.clock⟩
    · exact ⟨h, hh, rfl, List.prefix_rfl⟩
  · obtain ⟨h', hh', heq⟩ := exists_handler_of_answers (hanswers id) hh
    obtain ⟨hinterval, hyielded⟩ := Prod.mk.inj heq
    exact ⟨h', hh', hinterval, hyielded ▸ List.prefix_rfl⟩

/-- A call that is over stays over. -/
theorem streamStep_ended {asset : String} {l : List (StreamEvent σ)} {s t : StreamSystem σ}
    {e : StreamEvent σ} (hrun : Run streamStep (.init asset) l s) (hstep : streamStep s e = some t)
    {id : QueueId} {h : Handler σ} (hh : s.handlers id = some h) (hended : h.phase = .ended) :
    t.handlers id = some h := by
  -- every step that changes a handler finds it in another phase
  have hother : ∀ id' h', s.handlers id' = some h' → h'.phase ≠ .ended → id ≠ id' := by
    rintro id' h' hh' hphase rfl
    obtain rfl := Option.some.inj (hh.symm.trans hh')
    exact hphase hended
  rcases streamStep_cases hstep with ⟨state, hub, -, -, rfl⟩ | ⟨id', request, error, -, -, rfl⟩ |
    ⟨id', request, i, hub, -, -, -, hhub, rfl⟩ |
    ⟨id', h', state, rest, hub, -, hh', hphase, -, -, rfl⟩ | ⟨id', h', -, hh', hphase, rfl⟩ |
    ⟨id', h', hub, -, hh', hphase, -, rfl⟩ | ⟨now, -, -, rfl⟩
  · exact hh
  · exact hh
  · simp only [hubStep] at hhub
    split_ifs at hhub with hnone
    have hne : id ≠ id' := by
      rintro rfl
      have hsome := (isSome_queue_iff_of_run hrun id).mpr (Option.isSome_iff_exists.mpr ⟨h, hh⟩)
      rw [Option.isNone_iff_eq_none.mp hnone] at hsome
      cases hsome
    simp only [Function.update_of_ne hne]
    exact hh
  · simp only [Function.update_of_ne (hother id' h' hh' (by rw [hphase]; decide))]
    exact hh
  · simp only [Function.update_of_ne (hother id' h' hh' (by rw [hphase]; decide))]
    exact hh
  · simp only [Function.update_of_ne (hother id' h' hh' hphase)]
    exact hh
  · exact hh

/-- A handler that is new was started by a request for this asset, and has its rate. -/
theorem exists_start_of_new {s t : StreamSystem σ} {e : StreamEvent σ} (hs : s.hub.hub.Sound)
    (hstep : streamStep s e = some t) {id : QueueId} (hnone : s.handlers id = none)
    {h : Handler σ} (hh : t.handlers id = some h) :
    ∃ request, e = .start id request ∧ checkAsset s.hub.hub.asset request.asset = .ok () ∧
      minInterval request.maxRateHz = .ok h.minInterval := by
  rcases streamStep_effect hs hstep with ⟨state, -, hhandlers, -, -⟩ |
    ⟨id', request, i, rfl, hasset, hi, -, -, -, hhandlers⟩ |
    ⟨id', handler, maxsize, state, rest, -, hold, -, -, -, hhandlers⟩ | ⟨-, -, hanswers⟩
  · rw [hhandlers, hnone] at hh
    cases hh
  · rw [hhandlers, Function.update_apply] at hh
    split_ifs at hh with heq
    · obtain rfl := Option.some.inj hh
      exact ⟨request, heq ▸ rfl, hasset, hi⟩
    · rw [hnone] at hh
      cases hh
  · have hne : id ≠ id' := by
      rintro rfl
      rw [hnone] at hold
      cases hold
    rw [hhandlers, Function.update_of_ne hne, hnone] at hh
    cases hh
  · obtain ⟨h', hh', -⟩ := exists_handler_of_answers (hanswers id).symm hh
    rw [hnone] at hh'
    cases hh'

/-- A property of the latest state and, for some of the mailboxes, of the states in them and of
those that their handlers yielded after a number of others. -/
structure Holds (P : σ → Prop) (D : QueueId → Prop) (skip : QueueId → ℕ) (s : StreamSystem σ) :
    Prop where
  latest : ∀ x, s.hub.hub.latest = some x → P x
  mailbox : ∀ id, D id → ∀ queue, s.hub.hub.queues id = some queue → ∀ x ∈ queue.items, P x
  yielded : ∀ id, D id → ∀ h, s.handlers id = some h → ∀ x ∈ h.yielded.drop (skip id), P x

/-- **It goes on to hold if it holds of what is published.** -/
theorem Holds.step {P : σ → Prop} {D : QueueId → Prop} {skip : QueueId → ℕ} {s t : StreamSystem σ}
    {e : StreamEvent σ} (h : Holds P D skip s) (hs : s.hub.hub.Sound)
    (hstep : streamStep s e = some t) (hpublish : ∀ x, e = .publish x → P x) :
    Holds P D skip t := by
  rcases streamStep_effect hs hstep with ⟨state, rfl, hhandlers, hlatest, hqueues⟩ |
    ⟨id', request, i, -, -, -, -, hlatest, hqueues, hhandlers⟩ |
    ⟨id', handler, maxsize, state, rest, -, hh, hqueue, hlatest, hqueues, hhandlers⟩ |
    ⟨hlatest, hqueues, hanswers⟩
  · have hstate := hpublish state rfl
    refine ⟨?_, ?_, hhandlers ▸ h.yielded⟩
    · intro x hx
      obtain rfl := Option.some.inj (hlatest.symm.trans hx)
      exact hstate
    · intro id hid queue hq x hx
      rw [hqueues] at hq
      simp only at hq
      split_ifs at hq
      · obtain rfl := Option.some.inj hq
        rwa [List.mem_singleton.mp hx]
      · exact h.mailbox id hid queue hq x hx
  · refine ⟨hlatest ▸ h.latest, ?_, ?_⟩
    · intro id hid queue hq x hx
      rw [hqueues, Function.update_apply] at hq
      split_ifs at hq
      · obtain rfl := Option.some.inj hq
        cases hx
      · exact h.mailbox id hid queue hq x hx
    · intro id hid handler hh x hx
      rw [hhandlers, Function.update_apply] at hh
      split_ifs at hh
      · obtain rfl := Option.some.inj hh
        rw [Handler.new, List.drop_nil] at hx
        cases hx
      · exact h.yielded id hid handler hh x hx
  · refine ⟨hlatest ▸ h.latest, ?_, ?_⟩
    · intro id hid queue hq x hx
      rw [hqueues, Function.update_apply] at hq
      split_ifs at hq with heq
      · obtain rfl := Option.some.inj hq
        exact h.mailbox id' (heq ▸ hid) _ hqueue x (List.mem_cons_of_mem _ hx)
      · exact h.mailbox id hid queue hq x hx
    · intro id hid handler' hh' x hx
      rw [hhandlers, Function.update_apply] at hh'
      split_ifs at hh' with heq
      · subst heq
        obtain rfl := Option.some.inj hh'
        rcases Handler.mem_yielded_receive hx with hx | rfl
        · exact h.yielded id hid handler hh x hx
        · exact h.mailbox id hid _ hqueue x (List.mem_cons_self ..)
      · exact h.yielded id hid handler' hh' x hx
  · refine ⟨hlatest ▸ h.latest, hqueues ▸ h.mailbox, ?_⟩
    intro id hid handler hh x hx
    obtain ⟨handler', hh', heq⟩ := exists_handler_of_answers (hanswers id).symm hh
    obtain ⟨-, hyielded⟩ := Prod.mk.inj heq
    exact h.yielded id hid handler' hh' x (hyielded ▸ hx)

end handlers

/-! ## The process -/

section process

variable [Pydantic] [CPython] {assetName : String} {rmsWindowS : Double} {windowNs : ℤ}
  {l : List ServiceEvent} {s t : Service} {e : ServiceEvent}

/-- A run of the process, as its servicer sees it. -/
theorem exists_streamRun_of_run (h : Run serviceStep (.init assetName rmsWindowS windowNs) l s) :
    ∃ sl, Run streamStep (.init assetName) sl s.stream := by
  obtain ⟨-, sl, hsl, -⟩ := serviceInv_of_run h
  exact ⟨sl, hsl⟩

/-- The hub of the process is sound. -/
theorem sound_of_run (h : Run serviceStep (.init assetName rmsWindowS windowNs) l s) :
    s.stream.hub.hub.Sound := by
  obtain ⟨sl, hsl⟩ := exists_streamRun_of_run h
  exact (hubInv_of_run (run_hub hsl)).sound

omit [Pydantic] [CPython] in
/-- The steps of the servicer in the process. -/
def servicerEvent : ServiceEvent → Option (StreamEvent (TwinState Double))
  | .start id request => some (.start id request)
  | .dequeue id => some (.dequeue id)
  | .resume id => some (.resume id)
  | .cancel id => some (.cancel id)
  | .advance now => some (.advance now)
  | _ => none

omit [CPython] in
/-- A message leaves the hub and the configuration alone. -/
theorem observe_config (c : Consumer) (topic : String) (payload : Payload) :
    (c.observe topic payload).hub = c.hub ∧
      (c.observe topic payload).assetName = c.assetName ∧
      (c.observe topic payload).rmsWindowS = c.rmsWindowS := by
  rcases hcheck : checkMessage topic payload with reason | ⟨joint, field, sample⟩
  · rw [observe_rejected hcheck]
    exact ⟨rfl, rfl, rfl⟩
  · rw [observe_accepted hcheck]
    exact ⟨rfl, rfl, rfl⟩

/-- What a step of the process is for its servicer; and no step changes the configuration. -/
theorem serviceStep_servicer (h : serviceStep s e = some t) :
    (t.consumer.assetName = s.consumer.assetName ∧ t.consumer.rmsWindowS = s.consumer.rmsWindowS) ∧
    (t.stream = s.stream ∨
    (∃ state, buildState s.consumer.assetName s.consumer.window s.consumer.rmsWindowS =
        .ok (some state) ∧ streamStep s.stream (.publish state) = some t.stream) ∨
    ∃ b, servicerEvent e = some b ∧ (∀ state, b ≠ .publish state) ∧
      streamStep s.stream b = some t.stream) := by
  cases e with
  | connected | disconnected =>
      obtain ⟨c, hc, rfl⟩ := consume_cases h
      obtain rfl := Option.some.inj hc
      exact ⟨⟨rfl, rfl⟩, Or.inl rfl⟩
  | message topic payload =>
      obtain ⟨c, hc, rfl⟩ := consume_cases h
      obtain rfl := Option.some.inj hc
      obtain ⟨hhub, hasset, hrms⟩ := observe_config s.consumer topic payload
      refine ⟨⟨hasset, hrms⟩, Or.inl ?_⟩
      simp only [Service.stream, hhub]
  | tick =>
      obtain ⟨-, hstream⟩ := broadcast_cases h
      refine ⟨?_, ?_⟩
      · simp only [serviceStep, Service.broadcast] at h
        split_ifs at h
        split at h
        · rename_i c htick
          obtain rfl := Option.some.inj h
          rcases tick_cases htick with ⟨-, rfl⟩ | ⟨-, -, rfl⟩ | ⟨state, hub, -, -, -, rfl⟩ <;>
            exact ⟨rfl, rfl⟩
        · obtain rfl := Option.some.inj h
          exact ⟨rfl, rfl⟩
      · rcases hstream with hstream | hstream
        · exact Or.inl hstream
        · exact Or.inr (Or.inl hstream)
  | start id request | dequeue id | resume id | cancel id | advance now =>
      obtain ⟨t, ht, rfl⟩ := Option.map_eq_some_iff.mp h
      exact ⟨⟨rfl, rfl⟩, Or.inr (Or.inr ⟨_, rfl, by simp, ht⟩)⟩

omit [Pydantic] in
/-- A call for the asset gets a handler with the interval of its rate. -/
theorem handlers_of_start {s t : Service} {id : QueueId} {request : StreamStateRequest}
    (h : s.serve (.start id request) = some t)
    (hasset : checkAsset s.consumer.hub.asset request.asset = .ok ()) :
    ∃ i, minInterval request.maxRateHz = .ok i ∧ t.handlers id = some (.new i) := by
  obtain ⟨i, hi⟩ := minInterval_ok request.maxRateHz
  obtain ⟨t', ht', rfl⟩ := Option.map_eq_some_iff.mp h
  simp only [streamStep, Service.stream, hasset, hi] at ht'
  obtain ⟨hub, -, rfl⟩ := Option.map_eq_some_iff.mp ht'
  exact ⟨i, hi, Function.update_self ..⟩

/-- The configuration is the one that the process started with. -/
theorem config_of_run (h : Run serviceStep (.init assetName rmsWindowS windowNs) l s) :
    s.consumer.assetName = assetName ∧ s.consumer.rmsWindowS = rmsWindowS := by
  apply h.invariant
    (I := fun s => s.consumer.assetName = assetName ∧ s.consumer.rmsWindowS = rmsWindowS) ⟨rfl, rfl⟩
  intro s e t ih hstep
  obtain ⟨⟨hasset, hrms⟩, -⟩ := serviceStep_servicer hstep
  exact ⟨hasset.trans ih.1, hrms.trans ih.2⟩

/-- The stamp of the window never goes back. -/
theorem stampNs_le_of_step (h : serviceStep s e = some t) :
    s.consumer.window.stampNs ≤ t.consumer.window.stampNs := by
  rcases serviceStep_cases h with ⟨o, -, -, hwindow⟩ | ⟨-, hwindow, -⟩
  · rw [hwindow]
    by_cases hjoint : o.joint ∈ s.consumer.window.joints
    · rw [RollingWindow.observe_stampNs _ _ _ hjoint]
      exact le_max_left ..
    · rw [RollingWindow.observe_of_not_mem _ _ _ hjoint]
  · rw [hwindow]

/-- What a handler has yielded stays yielded. -/
theorem extends_of_run {l' : List ServiceEvent}
    (h : Run serviceStep (.init assetName rmsWindowS windowNs) l s) (h' : Run serviceStep s l' t)
    {id : QueueId} {handler : Handler (TwinState Double)} (hh : s.handlers id = some handler) :
    ∃ handler', t.handlers id = some handler' ∧ handler.Extends handler' := by
  apply h'.history
    (I := fun _ t => ∃ handler', t.handlers id = some handler' ∧ handler.Extends handler')
  · exact ⟨handler, hh, rfl, List.prefix_rfl⟩
  · rintro l' t e u hrun ⟨handler', hh', hextends⟩ hstep
    obtain ⟨sl, hsl⟩ := exists_streamRun_of_run (h.append hrun)
    rcases (serviceStep_servicer hstep).2 with hstream | ⟨state, -, hstream⟩ | ⟨b, -, -, hstream⟩
    · have hhandlers : u.handlers = t.handlers := congrArg StreamSystem.handlers hstream
      exact ⟨handler', hhandlers ▸ hh', hextends⟩
    · obtain ⟨handler'', hh'', hmore⟩ := streamStep_extends hsl hstream hh'
      exact ⟨handler'', hh'', hmore.minInterval.trans hextends.minInterval,
        hextends.yielded.trans hmore.yielded⟩
    · obtain ⟨handler'', hh'', hmore⟩ := streamStep_extends hsl hstream hh'
      exact ⟨handler'', hh'', hmore.minInterval.trans hextends.minInterval,
        hextends.yielded.trans hmore.yielded⟩

/-- A call that is over stays over in the process. -/
theorem serviceStep_ended (h : Run serviceStep (.init assetName rmsWindowS windowNs) l s)
    (hstep : serviceStep s e = some t) {id : QueueId} {handler : Handler (TwinState Double)}
    (hh : s.handlers id = some handler) (hended : handler.phase = .ended) :
    t.handlers id = some handler := by
  obtain ⟨sl, hsl⟩ := exists_streamRun_of_run h
  rcases (serviceStep_servicer hstep).2 with hstream | ⟨state, -, hstream⟩ | ⟨b, -, -, hstream⟩
  · have hhandlers : t.handlers = s.handlers := congrArg StreamSystem.handlers hstream
    rwa [hhandlers]
  · exact streamStep_ended hsl hstream hh hended
  · exact streamStep_ended hsl hstream hh hended

/-- What holds of every state that is built holds of what a client gets. -/
theorem holds_of_run {P : TwinState Double → Prop} {D : QueueId → Prop} {skip : QueueId → ℕ}
    {l' : List ServiceEvent} (h : Run serviceStep (.init assetName rmsWindowS windowNs) l s)
    (h' : Run serviceStep s l' t) (h0 : Holds P D skip s.stream)
    (hbuild : ∀ l'' u state, Run serviceStep s l'' u →
      buildState u.consumer.assetName u.consumer.window u.consumer.rmsWindowS =
        .ok (some state) → P state) : Holds P D skip t.stream := by
  apply h'.history (I := fun _ t => Holds P D skip t.stream) h0
  intro l'' u e v hrun ih hstep
  have hsound := sound_of_run (h.append hrun)
  rcases (serviceStep_servicer hstep).2 with hstream | ⟨state, hstate, hstream⟩ |
    ⟨b, -, hb, hstream⟩
  · rwa [hstream]
  · refine ih.step hsound hstream fun x hx => ?_
    obtain rfl := StreamEvent.publish.inj hx
    exact hbuild l'' u _ hrun hstate
  · exact ih.step hsound hstream fun x hx => absurd hx (hb x)

omit [Pydantic] in
/-- A handler that can neither dequeue nor go on is blocked, while its call is not over. -/
theorem blocked_of_stuck {id : QueueId} {handler : Handler (TwinState Double)}
    (hh : s.handlers id = some handler) (hcall : handler.phase ≠ .ended)
    (hdequeue : s.serve (.dequeue id) = none) (hresume : s.serve (.resume id) = none) :
    Blocked s.stream id handler := by
  have hh' : s.stream.handlers id = some handler := hh
  have hphase : handler.phase = .waiting := by
    rcases hphase : handler.phase
    · rfl
    · simp [Service.serve, streamStep, hh', hphase] at hresume
    · exact absurd hphase hcall
  refine ⟨hh, hphase, fun queue hqueue => ?_⟩
  obtain ⟨maxsize, items⟩ := queue
  cases items with
  | nil => rfl
  | cons state items =>
      have htake : s.stream.hub.hub.take id = some (state,
          { s.stream.hub.hub with
            queues := Function.update s.stream.hub.hub.queues id (some ⟨maxsize, items⟩) }) := by
        simp only [StateHub.take, hqueue, Queue.getNowait]
      simp [Service.serve, streamStep_dequeue hh' hphase htake] at hdequeue

/-! ## Well-formed answers -/

/-- A state of the asset: its name and the configuration, the joints of the arm in their order, and
the pose where forward kinematics takes them. -/
structure WellFormed (assetName : String) (rmsWindowS : Double) (state : TwinState Double) :
    Prop where
  schemaVersion : state.schemaVersion = schemaVersion
  asset : state.asset = assetName
  rmsWindowS : state.rmsWindowS = rmsWindowS
  stampNs : state.stampNs < uint64Limit
  joints : state.joints.map JointState.name = ur5JointNames
  pose : forward (state.joints.map JointState.positionRad) = .ok state.endEffector

/-- Every state that is built is one. -/
theorem wellFormed_of_build (h : Run serviceStep (.init assetName rmsWindowS windowNs) l s)
    {state : TwinState Double}
    (hbuild : buildState s.consumer.assetName s.consumer.window s.consumer.rmsWindowS =
      .ok (some state)) : WellFormed assetName rmsWindowS state := by
  obtain ⟨hasset, hrms⟩ := config_of_run h
  obtain ⟨snapshots, pose, hsnap, hpose, hstamp, rfl⟩ := buildState_some hbuild
  refine ⟨rfl, hasset, hrms, hstamp, ?_, ?_⟩
  · have hnames := RollingWindow.snapshot_names hsnap
    rw [(serviceInv_of_run h).window, RollingWindow.observeAll_joints] at hnames
    rw [List.map_map]
    exact hnames
  · rw [List.map_map]
    exact hpose

omit [Pydantic] [CPython] in
/-- A request passes the check of the asset if it names this one, or none. -/
theorem checkAsset_ok_iff {asset requested : String} :
    checkAsset asset requested = .ok () ↔ requested = "" ∨ requested = asset := by
  unfold checkAsset
  split_ifs with hne
  · exact iff_of_false (by simp) fun h => h.elim hne.1 hne.2
  · exact iff_of_true rfl (by tauto)

omit [Pydantic] [CPython] in
/-- What `GetState` answers. -/
theorem getState_ok_iff {σ : Type} {hub : StateHub σ} {requested : String} {state : σ} :
    getState hub requested = .ok state ↔
      (requested = "" ∨ requested = hub.asset) ∧ hub.latest = some state := by
  rw [← checkAsset_ok_iff]
  unfold getState
  rcases checkAsset hub.asset requested with error | _
  · exact iff_of_false (by simp [bind, Except.bind]) (by simp)
  · rcases hub.latest with _ | latest
    · exact iff_of_false (by simp [bind, Except.bind]) (by simp)
    · simp [bind, Except.bind]

/-- A handler was started by a request for this asset, and has its rate. -/
theorem exists_start_of_handler (h : Run serviceStep (.init assetName rmsWindowS windowNs) l s)
    {id : QueueId} {handler : Handler (TwinState Double)} (hh : s.handlers id = some handler) :
    ∃ request, .start id request ∈ l ∧ (request.asset = "" ∨ request.asset = assetName) ∧
      minInterval request.maxRateHz = .ok handler.minInterval := by
  refine h.history (I := fun l s => ∀ handler, s.handlers id = some handler →
    ∃ request, .start id request ∈ l ∧ (request.asset = "" ∨ request.asset = assetName) ∧
      minInterval request.maxRateHz = .ok handler.minInterval) ?_ ?_ handler hh
  · intro handler hh
    cases hh
  · intro l s e t hrun ih hstep handler' hh'
    rcases hs : s.handlers id with _ | handler
    · -- the handler is new
      obtain ⟨sl, hsl⟩ := exists_streamRun_of_run hrun
      have hsound := sound_of_run hrun
      rcases (serviceStep_servicer hstep).2 with hstream | ⟨state, -, hstream⟩ | ⟨b, hb, -, hstream⟩
      · have hhandlers : t.handlers = s.handlers := congrArg StreamSystem.handlers hstream
        rw [hhandlers, hs] at hh'
        cases hh'
      · obtain ⟨request, hevent, -⟩ := exists_start_of_new hsound hstream hs hh'
        cases hevent
      · obtain ⟨request, rfl, hcheck, hrate⟩ := exists_start_of_new hsound hstream hs hh'
        rw [asset_of_run hsl] at hcheck
        have he : e = .start id request := by
          cases e with
          | start id' request' =>
              obtain ⟨rfl, rfl⟩ := StreamEvent.start.inj (Option.some.inj hb)
              rfl
          | _ => cases hb
        exact ⟨request, he ▸ List.mem_append_right _ (List.mem_singleton_self e),
          checkAsset_ok_iff.mp hcheck, hrate⟩
    · obtain ⟨handler'', hh'', hextends⟩ := extends_of_run hrun (Run.nil.snoc hstep) hs
      obtain rfl := Option.some.inj (hh''.symm.trans hh')
      obtain ⟨request, hmem, hasset, hrate⟩ := ih handler hs
      exact ⟨request, List.mem_append_left _ hmem, hasset, hextends.minInterval ▸ hrate⟩

/-- Every state that a client gets is one. -/
theorem holds_wellFormed (h : Run serviceStep (.init assetName rmsWindowS windowNs) l s) :
    Holds (WellFormed assetName rmsWindowS) (fun _ => True) (fun _ => 0) s.stream := by
  refine holds_of_run .nil h ⟨?_, ?_, ?_⟩ fun _ _ _ hrun => wellFormed_of_build hrun
  · intro x hx
    cases hx
  · intro id _ queue hqueue
    cases hqueue
  · intro id _ handler hh
    cases hh

/-- **What a client can get.** After every run of the process, `GetState` answers and every call of
`StreamState` has yielded only whole states of the asset: its name, its joints in their order, its
window, and the pose where forward kinematics takes the reported positions. A client gets them only
by a request that names this asset or none, at the rate of its request. Source: `grpc_server.py`,
`build_state`, `StateServicer` -/
theorem answers_well_formed (h : Run serviceStep (.init assetName rmsWindowS windowNs) l s) :
    (∀ requested state, getState s.consumer.hub requested = .ok state →
      (requested = "" ∨ requested = assetName) ∧ WellFormed assetName rmsWindowS state) ∧
    ∀ id handler, s.handlers id = some handler →
      (∃ request, .start id request ∈ l ∧ (request.asset = "" ∨ request.asset = assetName) ∧
        minInterval request.maxRateHz = .ok handler.minInterval) ∧
      ∀ state ∈ handler.yielded, WellFormed assetName rmsWindowS state := by
  obtain ⟨sl, hsl⟩ := exists_streamRun_of_run h
  have hasset : s.consumer.hub.asset = assetName := asset_of_run hsl
  have hholds := holds_wellFormed h
  constructor
  · intro requested state hget
    obtain ⟨hrequested, hlatest⟩ := getState_ok_iff.mp hget
    exact ⟨hasset ▸ hrequested, hholds.latest state hlatest⟩
  · intro id handler hh
    exact ⟨exists_start_of_handler h hh, hholds.yielded id trivial handler hh⟩

/-! ## Monotonic reads -/

/-- A client has got the state. -/
def Seen (s : Service) (state : TwinState Double) : Prop :=
  (∃ requested, getState s.consumer.hub requested = .ok state) ∨
    ∃ id handler, s.handlers id = some handler ∧ state ∈ handler.yielded

/-- A state that a client has got is not newer than the latest one, nor than the window. -/
theorem Seen.le {state : TwinState Double} (hseen : Seen s state)
    (h : Run serviceStep (.init assetName rmsWindowS windowNs) l s) :
    state.stampNs ≤ s.consumer.window.stampNs ∧
      ∃ latest, s.consumer.hub.latest = some latest ∧ state.stampNs ≤ latest.stampNs := by
  obtain ⟨-, sl, hsl, hpub⟩ := serviceInv_of_run h
  have hlatest := (hubInv_of_run (run_hub hsl)).latest
  have hmem : state ∈ publications (hubEvents assetName sl) := by
    rcases hseen with ⟨requested, hget⟩ | ⟨id, handler, hh, hstate⟩
    · exact List.mem_of_getLast? (hlatest.symm.trans (getState_ok_iff.mp hget).2)
    · exact (yielded_sublist hsl hh).subset hstate
  obtain ⟨latest, hlast, hle⟩ := hpub.forward.le_getLast? hmem
  exact ⟨hpub.le state hmem, latest, hlatest.trans hlast, hle⟩

/-- What is in the mailbox of a call that goes on is the latest state. -/
theorem mailbox_of_goes_on (h : Run serviceStep (.init assetName rmsWindowS windowNs) l s)
    {id : QueueId} {handler : Handler (TwinState Double)} (hh : s.handlers id = some handler)
    (hgoes : handler.phase ≠ .ended) {queue : Queue (TwinState Double)}
    (hqueue : s.consumer.hub.queues id = some queue) {state : TwinState Double}
    (hstate : state ∈ queue.items) : s.consumer.hub.latest = some state := by
  obtain ⟨sl, hsl⟩ := exists_streamRun_of_run h
  have hhub := hubInv_of_run (run_hub hsl)
  have hid := (handlersInv_of_run hsl id handler hh).2 hgoes
  obtain ⟨⟨-, hlength⟩, -, hlast⟩ := hhub.faithful id queue hqueue
  have hitems : queue.items = [state] := by
    rcases hcases : queue.items with _ | ⟨x, _ | ⟨y, rest⟩⟩
    · rw [hcases] at hstate
      cases hstate
    · rw [hcases] at hstate
      rw [List.mem_singleton.mp hstate]
    · rw [hcases] at hlength
      simp at hlength
  rw [hitems, List.getLast?_concat] at hlast
  rcases hhub.current id hid with hnone | hcurrent
  · rw [hnone] at hlast
    cases hlast
  · exact (hhub.latest.trans hcurrent.symm).trans hlast.symm

/-- **Monotonic reads.** Let any client have got a state at some moment of a run. From then on
`GetState` answers no older state to any client, no call of `StreamState` that arrives from then on
yields an older one, and neither does any call that is going on then, in what it yields from then
on, whatever telemetry, ticks, calls, losses of the session and delays come in between.
Source: `grpc_server.py`, `StateHub`, `StateServicer`; `consumer.py`, `Consumer._broadcast_forever`
-/
theorem monotonic_reads {l' : List ServiceEvent} {seen : TwinState Double}
    (h : Run serviceStep (.init assetName rmsWindowS windowNs) l s) (hseen : Seen s seen)
    (h' : Run serviceStep s l' t) :
    (∀ requested state, getState t.consumer.hub requested = .ok state →
      seen.stampNs ≤ state.stampNs) ∧
    (∀ id handler, s.handlers id = none → t.handlers id = some handler →
      ∀ state ∈ handler.yielded, seen.stampNs ≤ state.stampNs) ∧
    ∀ id handler, s.handlers id = some handler → handler.phase ≠ .ended →
      ∃ more handler', t.handlers id = some handler' ∧
        handler'.yielded = handler.yielded ++ more ∧
        ∀ state ∈ more, seen.stampNs ≤ state.stampNs := by
  obtain ⟨hwindow, latest, hlatest, hle⟩ := hseen.le h
  obtain ⟨sl, hsl⟩ := exists_streamRun_of_run h
  have hold : ∀ state, s.consumer.hub.latest = some state → seen.stampNs ≤ state.stampNs := by
    intro state hstate
    obtain rfl := Option.some.inj (hlatest.symm.trans hstate)
    exact hle
  -- what a handler that has not ended has yielded so far is left out
  have hholds : Holds (fun state => seen.stampNs ≤ state.stampNs)
      (fun id => ∀ handler, s.handlers id = some handler → handler.phase ≠ .ended)
      (fun id => ((s.handlers id).map fun handler => handler.yielded.length).getD 0) t.stream := by
    refine holds_of_run h h' ⟨hold, ?_, ?_⟩ ?_
    · intro id hgoes queue hqueue state hstate
      have hsome :=
        (isSome_queue_iff_of_run hsl id).mp (Option.isSome_iff_exists.mpr ⟨queue, hqueue⟩)
      obtain ⟨handler, hh⟩ := Option.isSome_iff_exists.mp hsome
      exact hold state (mailbox_of_goes_on h hh (hgoes handler hh) hqueue hstate)
    · intro id _ handler hh state hstate
      have hskip : ((s.handlers id).map fun handler => handler.yielded.length).getD 0 =
          handler.yielded.length := by
        rw [show s.handlers id = some handler from hh]
        rfl
      rw [hskip, List.drop_length] at hstate
      cases hstate
    · intro l'' u state hrun hbuild
      have hle : s.consumer.window.stampNs ≤ u.consumer.window.stampNs := by
        refine hrun.invariant (I := fun u => s.consumer.window.stampNs ≤ u.consumer.window.stampNs)
          le_rfl fun u e v ih hstep => ih.trans (stampNs_le_of_step hstep)
      exact (hwindow.trans hle).trans_eq (stampNs_of_build hbuild).symm
  refine ⟨?_, ?_, ?_⟩
  · intro requested state hget
    exact hholds.latest state (getState_ok_iff.mp hget).2
  · intro id handler hnone hh state hstate
    apply hholds.yielded id (by simp [hnone]) handler hh
    rwa [hnone]
  · intro id handler hh hgoes
    obtain ⟨handler', hh', hextends⟩ := extends_of_run h h' hh
    obtain ⟨more, hmore⟩ := hextends.yielded
    refine ⟨more, handler', hh', hmore.symm, fun state hstate => ?_⟩
    have hsame : ∀ handler'', s.handlers id = some handler'' → handler''.phase ≠ .ended := by
      intro handler'' hh''
      rwa [← Option.some.inj (hh.symm.trans hh'')]
    apply hholds.yielded id hsame handler' hh'
    rwa [hh, ← hmore, Option.map_some, Option.getD_some, List.drop_left]

/-! ## What is published to a call -/

/-- A round of the broadcast loop publishes a state. -/
def Publishes (s : Service) : Prop :=
  s.broadcasting = true ∧ s.consumer.dirty = true ∧ ∃ state,
    buildState s.consumer.assetName s.consumer.window s.consumer.rmsWindowS = .ok (some state)

/-- A state was published in a run while the call with a mailbox went on. -/
def PublishedTo (init : Service) (l : List ServiceEvent) (id : QueueId) : Prop :=
  ∃ before s handler, before ++ [.tick] <+: l ∧ Run serviceStep init before s ∧ Publishes s ∧
    s.handlers id = some handler ∧ handler.phase ≠ .ended

/-- A round that publishes is a publication of the servicer. -/
theorem Publishes.stream (h : Publishes s) (hsound : s.stream.hub.hub.Sound)
    (hstep : serviceStep s .tick = some t) :
    ∃ state, streamStep s.stream (.publish state) = some t.stream := by
  obtain ⟨hbroadcasting, hdirty, state, hbuild⟩ := h
  have hpublish : s.consumer.hub.publish state = .ok _ := publish_ok hsound state
  simp only [serviceStep, Service.broadcast, if_pos hbroadcasting, Consumer.tick, hdirty,
    Bool.true_eq_false, if_false, hbuild, hpublish, ok_bind, pure_eq_ok] at hstep
  obtain rfl := Option.some.inj hstep
  refine ⟨state, ?_⟩
  simp only [streamStep, hubStep, Service.stream, hpublish, Option.map_some]

/-- **The run of the servicer has every publication to a call.** -/
theorem exists_streamRun_publishedTo
    (h : Run serviceStep (.init assetName rmsWindowS windowNs) l s) (id : QueueId) :
    ∃ sl, Run streamStep (.init assetName) sl s.stream ∧
      (PublishedTo (.init assetName rmsWindowS windowNs) l id →
        publishedToHandler assetName id sl ≠ []) := by
  apply h.history (I := fun l s => ∃ sl, Run streamStep (.init assetName) sl s.stream ∧
    (PublishedTo (.init assetName rmsWindowS windowNs) l id →
      publishedToHandler assetName id sl ≠ []))
  · refine ⟨[], .nil, ?_⟩
    rintro ⟨before, s, handler, hp, -⟩
    exact absurd (List.prefix_nil.mp hp) (by simp)
  · rintro l s e t hrun ⟨sl, hsl, ih⟩ hstep
    have hkeeps : ∀ b, publishedToHandler assetName id sl ≠ [] →
        publishedToHandler assetName id (sl ++ [b]) ≠ [] := by
      intro b hsome
      unfold publishedToHandler hubEvents at hsome ⊢
      rw [List.filterMap_append]
      rcases hb : hubEvent assetName b with _ | e
      · rwa [List.filterMap_cons_none hb, List.filterMap_nil, List.append_nil]
      · rw [List.filterMap_cons_some hb, List.filterMap_nil]
        exact publishedTo_concat_ne_nil hsome e
    have hearlier : PublishedTo (.init assetName rmsWindowS windowNs) (l ++ [e]) id →
        PublishedTo (.init assetName rmsWindowS windowNs) l id ∨
          e = .tick ∧ Publishes s ∧ ∃ handler, s.handlers id = some handler ∧
            handler.phase ≠ .ended := by
      rintro ⟨before, s', handler, hp, hrun', hpublishes, hh, hgoes⟩
      rcases List.prefix_concat_iff.mp hp with heq | hp
      · obtain ⟨rfl, he⟩ := List.append_inj' heq rfl
        obtain rfl := hrun.det hrun'
        exact Or.inr ⟨(List.singleton_inj.mp he).symm, hpublishes, handler, hh, hgoes⟩
      · exact Or.inl ⟨before, s', handler, hp, hrun', hpublishes, hh, hgoes⟩
    by_cases hnow : e = .tick ∧ Publishes s ∧ ∃ handler, s.handlers id = some handler ∧
        handler.phase ≠ .ended
    · obtain ⟨rfl, hpublishes, handler, hh, hgoes⟩ := hnow
      obtain ⟨state, hstream⟩ := hpublishes.stream (sound_of_run hrun) hstep
      refine ⟨sl ++ [.publish state], hsl.snoc hstream, fun _ => ?_⟩
      have hid := (handlersInv_of_run hsl id handler hh).2 hgoes
      have hsubscribed := ((hubInv_of_run (run_hub hsl)).subscribed id).mp hid
      have hevents : hubEvents assetName (sl ++ [.publish state]) =
          hubEvents assetName sl ++ [.publish state] := by
        simp [hubEvents, hubEvent, List.filterMap_append]
      rw [publishedToHandler, hevents, publishedTo, recordOf_concat, record, if_pos hsubscribed]
      simp
    · rcases (serviceStep_servicer hstep).2 with hstream | ⟨state, -, hstream⟩ | ⟨b, -, -, hstream⟩
      · exact ⟨sl, hstream ▸ hsl, fun hp => ih ((hearlier hp).resolve_right hnow)⟩
      · exact ⟨_, hsl.snoc hstream, fun hp => hkeeps _ (ih ((hearlier hp).resolve_right hnow))⟩
      · exact ⟨_, hsl.snoc hstream, fun hp => hkeeps _ (ih ((hearlier hp).resolve_right hnow))⟩

end process

/-! ### A call that was served twice -/

section platform

attribute [local instance] CPython.series Pydantic.decimal

/-- A call that was served twice: both of its states are well formed. -/
theorem answers_well_formed_served :
    ∃ l s handler first second, Run serviceStep (.init "ur5" (PyFloat.lit 2) 2000000000) l s ∧
      s.handlers 0 = some handler ∧ handler.yielded = [first, second] ∧
      WellFormed "ur5" (PyFloat.lit 2) first ∧ WellFormed "ur5" (PyFloat.lit 2) second := by
  obtain ⟨l, s, h, first, hrun, hattends, hyielded, -, hwindow⟩ := exists_served_report
  obtain ⟨l', t, h', second, hrun', hattends', hyielded', -⟩ :=
    exists_served_later hrun hattends hwindow
  rw [hyielded] at hyielded'
  have hreach := hrun.append hrun'
  obtain ⟨-, hwell⟩ := (answers_well_formed hreach).2 0 h' hattends'.handler
  rw [hyielded'] at hwell
  exact ⟨_, t, h', first, second, hreach, hattends'.handler, hyielded', hwell first (by simp),
    hwell second (by simp)⟩

/-- The session is lost and comes back after a call was served: neither `GetState` nor the call,
which goes on, answers an older state. -/
theorem monotonic_reads_served :
    ∃ l s l' t handler handler' first second latest,
      Run serviceStep (.init "ur5" (PyFloat.lit 2) 2000000000) l s ∧ Seen s first ∧
      s.handlers 0 = some handler ∧ handler.phase ≠ .ended ∧ handler.yielded = [first] ∧
      Run serviceStep s (.disconnected :: .connected :: l') t ∧
      getState t.consumer.hub "ur5" = .ok latest ∧ first.stampNs ≤ latest.stampNs ∧
      t.handlers 0 = some handler' ∧ handler'.yielded = [first, second] ∧
      first.stampNs ≤ second.stampNs := by
  obtain ⟨l, s, handler, first, hrun, hattends, hyielded, -, hwindow⟩ := exists_served_report
  have hseen : Seen s first :=
    Or.inr ⟨0, handler, hattends.handler, hyielded ▸ List.mem_singleton_self first⟩
  have hgoes : handler.phase ≠ .ended := by simp [hattends.waiting]
  have hlost : Run serviceStep s [.disconnected, .connected]
      { s with consumer := { s.consumer with mqttConnected := true } } := .of_exec rfl
  have hback : Attends { s with consumer := { s.consumer with mqttConnected := true } } 0 handler :=
    ⟨hattends.broadcasting, hattends.handler, hattends.waiting, hattends.uncapped⟩
  obtain ⟨l', t, handler', second, hrun', hattends', hyielded', -⟩ :=
    exists_served_later (hrun.append hlost) hback hwindow
  have hlater : Run serviceStep s (.disconnected :: .connected :: l') t := hlost.append hrun'
  obtain ⟨hget, -, hcalls⟩ := monotonic_reads hrun hseen hlater
  obtain ⟨more, handler'', hh'', hmore, hle⟩ := hcalls 0 handler hattends.handler hgoes
  obtain rfl := Option.some.inj (hattends'.handler.symm.trans hh'')
  have hsecond : second ∈ more := by
    rw [List.append_cancel_left (hmore.symm.trans hyielded')]
    exact List.mem_singleton_self second
  obtain ⟨sl, hsl⟩ := exists_streamRun_of_run (hrun.append hlater)
  have hseen' : Seen t second := Or.inr ⟨0, handler', hattends'.handler, by simp [hyielded']⟩
  obtain ⟨-, latest, hlatest, -⟩ := hseen'.le (hrun.append hlater)
  have hanswer := getState_ok_iff.mpr ⟨Or.inr (asset_of_run hsl).symm, hlatest⟩
  rw [hyielded] at hyielded'
  exact ⟨l, s, l', t, handler, handler', first, second, latest, hrun, hseen, hattends.handler,
    hgoes, hyielded, hlater, hanswer, hget "ur5" latest hanswer, hattends'.handler, hyielded',
    hle second hsecond⟩

end platform

end TwinServices.State
