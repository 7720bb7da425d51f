import TwinServices.Lib.Transition
import TwinServices.Python.Containers

/-!
# The state hub

`StateHub` fans states out to any number of stream subscribers, each with a mailbox of size one.
A mailbox is an object: the handler that subscribed keeps it after the hub has forgotten it, so
the hub's set of subscribers and the mailboxes are separate. The hub does not look into the
states, and is generic in their type.

* `StateHub`, `publish`, `subscribe`, `unsubscribe`, `take`: the class and what happens to it.
* `hubStep`: any order of those by any number of subscribers, as a transition system.
* `publish_ok`: over mailboxes of size one, evicting before putting always makes room.
* `hub_faithful`: every mailbox is a faithful latest-wins mailbox of its subscriber.
-/

set_option autoImplicit false

namespace TwinServices.State

open TwinServices.Python Lib.Transition

/-! ## The class -/

/-- The identity of a mailbox.
Source: `grpc_server.py`, `StateHub.subscribe` -/
abbrev QueueId : Type := ℕ

/-- The hub, with every mailbox that was ever made. Source: `grpc_server.py`, `StateHub` -/
structure StateHub (σ : Type) where
  asset : String
  latest : Option σ
  /-- The set `_subscribers`. -/
  subscribers : List QueueId
  /-- The queue objects. -/
  queues : QueueId → Option (Queue σ)

namespace StateHub

variable {σ : Type}

/-- Source: `grpc_server.py`, `StateHub.__init__` -/
def new (asset : String) : StateHub σ := ⟨asset, none, [], fun _ => none⟩

/-- Evict the stale state of a full mailbox and put the new one.
Source: `grpc_server.py`, `StateHub.publish` -/
def evictPut (state : σ) (queue : Queue σ) : Except PyError (Queue σ) := do
  let queue ←
    if queue.full then do
      let (_, queue) ← queue.getNowait
      pure queue
    else pure queue
  queue.putNowait state

/-- The loop of `publish` over the subscribers that are left.
Source: `grpc_server.py`, `StateHub.publish` -/
def publishTo (state : σ) :
    List QueueId → (QueueId → Option (Queue σ)) → Except PyError (QueueId → Option (Queue σ))
  | [], queues => .ok queues
  | id :: ids, queues =>
      match queues id with
      | none => publishTo state ids queues
      | some queue => do
          let queue ← evictPut state queue
          publishTo state ids (Function.update queues id (some queue))

/-- Source: `grpc_server.py`, `StateHub.publish` -/
def publish (hub : StateHub σ) (state : σ) : Except PyError (StateHub σ) := do
  let queues ← publishTo state hub.subscribers hub.queues
  return { hub with latest := some state, queues := queues }

/-- Entering the context of `subscribe`: a new mailbox of size one.
Source: `grpc_server.py`, `StateHub.subscribe` -/
def subscribe (hub : StateHub σ) (id : QueueId) : StateHub σ :=
  { hub with
    subscribers := hub.subscribers ++ [id]
    queues := Function.update hub.queues id (some (Queue.new 1)) }

/-- Leaving the context of `subscribe`: the hub forgets the mailbox.
Source: `grpc_server.py`, `StateHub.subscribe` -/
def unsubscribe (hub : StateHub σ) (id : QueueId) : StateHub σ :=
  { hub with subscribers := hub.subscribers.filter (· ≠ id) }

/-- What `await queue.get()` returns, where it need not wait, and the hub after it.
Source: `grpc_server.py`, `StateServicer.StreamState` -/
def take (hub : StateHub σ) (id : QueueId) : Option (σ × StateHub σ) :=
  match hub.queues id with
  | none => none
  | some queue =>
      match queue.getNowait with
      | .error _ => none
      | .ok (state, queue) =>
          some (state, { hub with queues := Function.update hub.queues id (some queue) })

/-- What is taken is the oldest state of the mailbox. -/
theorem take_eq_some {hub hub' : StateHub σ} {id : QueueId} {state : σ}
    (h : hub.take id = some (state, hub')) :
    ∃ maxsize rest, hub.queues id = some ⟨maxsize, state :: rest⟩ ∧
      hub' = { hub with queues := Function.update hub.queues id (some ⟨maxsize, rest⟩) } := by
  unfold take at h
  rcases hqueue : hub.queues id with _ | ⟨maxsize, _ | ⟨state', rest⟩⟩
  · simp [hqueue] at h
  · simp [hqueue, Queue.getNowait] at h
  · simp only [hqueue, Queue.getNowait] at h
    obtain ⟨rfl, rfl⟩ := Prod.mk.inj (Option.some.inj h)
    exact ⟨maxsize, rest, rfl, rfl⟩

/-- Taking a state from a mailbox leaves the latest one. -/
theorem take_latest {hub hub' : StateHub σ} {id : QueueId} {state : σ}
    (h : hub.take id = some (state, hub')) : hub'.latest = hub.latest := by
  obtain ⟨maxsize, rest, -, rfl⟩ := take_eq_some h
  rfl

end StateHub

/-! ## Mailboxes of size one -/

section mailbox

variable {σ : Type}

/-- A mailbox as `subscribe` makes it, with at most one state in it. -/
def IsMailbox (queue : Queue σ) : Prop := queue.maxsize = 1 ∧ queue.items.length ≤ 1

/-- A new queue of size one is a mailbox. -/
theorem isMailbox_new : IsMailbox (Queue.new 1 : Queue σ) := ⟨rfl, Nat.zero_le _⟩

/-- Evicting before putting leaves the new state alone in the mailbox. -/
theorem evictPut_ok {queue : Queue σ} (h : IsMailbox queue) (state : σ) :
    StateHub.evictPut state queue = .ok ⟨1, [state]⟩ := by
  obtain ⟨maxsize, items⟩ := queue
  obtain ⟨rfl, hlen⟩ := h
  match items, hlen with
  | [], _ => rfl
  | [x], _ => rfl

/-- The loop reaches every subscriber's mailbox and no other one. -/
theorem publishTo_ok {state : σ} {ids : List QueueId} {queues : QueueId → Option (Queue σ)}
    (h : ∀ id ∈ ids, ∃ queue, queues id = some queue ∧ IsMailbox queue) :
    StateHub.publishTo state ids queues =
      .ok fun id => if id ∈ ids then some ⟨1, [state]⟩ else queues id := by
  induction ids generalizing queues with
  | nil => simp [StateHub.publishTo]
  | cons id ids ih =>
      obtain ⟨queue, hqueue, hmailbox⟩ := h id (List.mem_cons_self ..)
      simp only [StateHub.publishTo, hqueue, evictPut_ok hmailbox]
      refine (ih ?_).trans ?_
      · intro id' hid'
        by_cases heq : id' = id
        · subst heq
          exact ⟨⟨1, [state]⟩, Function.update_self .., rfl, le_rfl⟩
        · rw [Function.update_of_ne heq]
          exact h id' (List.mem_cons_of_mem _ hid')
      · congr 1
        funext id'
        by_cases heq : id' = id
        · subst heq
          simp
        · simp [heq]

/-- The mailboxes of the subscribers are mailboxes. -/
def StateHub.Sound (hub : StateHub σ) : Prop :=
  ∀ id ∈ hub.subscribers, ∃ queue, hub.queues id = some queue ∧ IsMailbox queue

/-- **`publish` never raises**, and every subscriber then has the new state and nothing else. -/
theorem publish_ok {hub : StateHub σ} (h : hub.Sound) (state : σ) :
    hub.publish state = .ok { hub with
      latest := some state
      queues := fun id => if id ∈ hub.subscribers then some ⟨1, [state]⟩ else hub.queues id } := by
  rw [StateHub.publish, publishTo_ok h]
  rfl

/-- Every subscriber of the hub after a publication has a mailbox. -/
theorem sound_publish (hub : StateHub σ) (state : σ) :
    ({ hub with
      latest := some state
      queues := fun id => if id ∈ hub.subscribers then some ⟨1, [state]⟩ else hub.queues id } :
        StateHub σ).Sound := by
  intro id hid
  exact ⟨⟨1, [state]⟩, if_pos hid, rfl, le_rfl⟩

namespace StateHub.Sound

variable {hub : StateHub σ}

/-- A new subscriber has a mailbox too. -/
theorem subscribe (h : hub.Sound) (id : QueueId) : (hub.subscribe id).Sound := by
  intro id' hid'
  simp only [StateHub.subscribe, List.mem_append, List.mem_singleton] at hid' ⊢
  by_cases heq : id' = id
  · exact ⟨Queue.new 1, by rw [heq, Function.update_self], isMailbox_new⟩
  · rw [Function.update_of_ne heq]
    exact h id' (hid'.resolve_right heq)

/-- The remaining subscribers keep their mailboxes. -/
theorem unsubscribe (h : hub.Sound) (id : QueueId) : (hub.unsubscribe id).Sound :=
  fun id' hid' => h id' (List.mem_filter.mp hid').1

/-- What is left after a state was taken is still a mailbox. -/
theorem take (h : hub.Sound) {id : QueueId} {state : σ} {hub' : StateHub σ}
    (htake : hub.take id = some (state, hub')) : hub'.Sound := by
  obtain ⟨maxsize, rest, hqueue, rfl⟩ := StateHub.take_eq_some htake
  intro id' hid'
  by_cases heq : id' = id
  · subst heq
    obtain ⟨queue, hq, hmax, hlen⟩ := h id' hid'
    obtain rfl : ⟨maxsize, state :: rest⟩ = queue := by simpa [hqueue] using hq
    exact ⟨⟨maxsize, rest⟩, Function.update_self .., hmax, Nat.le_of_succ_le hlen⟩
  · obtain ⟨queue, hq, hmailbox⟩ := h id' hid'
    exact ⟨queue, by rw [← hq]; exact Function.update_of_ne heq .., hmailbox⟩

end StateHub.Sound

end mailbox

/-! ## Any order of steps -/

section runs

variable {σ : Type}

/-- What can happen to the hub.
Source: `grpc_server.py`, `StateHub` -/
inductive HubEvent (σ : Type)
  | subscribe (id : QueueId)
  | unsubscribe (id : QueueId)
  | publish (state : σ)
  | take (id : QueueId)

/-- The hub and what was taken from each mailbox, oldest first. -/
structure HubState (σ : Type) where
  hub : StateHub σ
  taken : QueueId → List σ

/-- A new hub.
Source: `grpc_server.py`, `StateHub.__init__` -/
def HubState.init (asset : String) : HubState σ := ⟨.new asset, fun _ => []⟩

/-- One step: a subscriber enters with a mailbox of its own, leaves, takes a state that is there,
or a state is published.
Source: `grpc_server.py`, `StateHub` -/
def hubStep (s : HubState σ) : HubEvent σ → Option (HubState σ)
  | .subscribe id =>
      if (s.hub.queues id).isNone then some { s with hub := s.hub.subscribe id } else none
  | .unsubscribe id =>
      if id ∈ s.hub.subscribers then some { s with hub := s.hub.unsubscribe id } else none
  | .publish state =>
      match s.hub.publish state with
      | .ok hub => some { s with hub := hub }
      | .error _ => none
  | .take id =>
      match s.hub.take id with
      | some (state, hub) =>
          some ⟨hub, Function.update s.taken id (s.taken id ++ [state])⟩
      | none => none

/-! ### What a subscriber should see -/

/-- One step of the record of a subscriber: whether it is subscribed, and what was published while
it was. -/
def record (id : QueueId) : Bool × List σ → HubEvent σ → Bool × List σ
  | (subscribed, published), .subscribe id' => (subscribed || id = id', published)
  | (subscribed, published), .unsubscribe id' => (subscribed && id ≠ id', published)
  | (subscribed, published), .publish state =>
      (subscribed, if subscribed then published ++ [state] else published)
  | r, .take _ => r

/-- The record of a subscriber after a run. -/
def recordOf (id : QueueId) (l : List (HubEvent σ)) : Bool × List σ :=
  l.foldl (record id) (false, [])

/-- What was published while a subscriber was subscribed, oldest first. -/
def publishedTo (id : QueueId) (l : List (HubEvent σ)) : List σ := (recordOf id l).2

/-- Everything that was published, oldest first. -/
def publications (l : List (HubEvent σ)) : List σ :=
  l.filterMap fun e => match e with
    | .publish state => some state
    | _ => none

/-- The record of a queue after one more event. -/
theorem recordOf_concat (id : QueueId) (l : List (HubEvent σ)) (e : HubEvent σ) :
    recordOf id (l ++ [e]) = record id (recordOf id l) e := by
  simp [recordOf]

/-- Only a publication publishes to a subscriber. -/
theorem publishedTo_concat {l : List (HubEvent σ)} {e : HubEvent σ}
    (he : ∀ state, e ≠ .publish state) (id : QueueId) :
    publishedTo id (l ++ [e]) = publishedTo id l := by
  rw [publishedTo, recordOf_concat]
  cases e with
  | publish state => exact absurd rfl (he state)
  | _ => rfl

/-- What was published to a subscriber stays published. -/
theorem publishedTo_concat_ne_nil {l : List (HubEvent σ)} {id : QueueId} (h : publishedTo id l ≠ [])
    (e : HubEvent σ) : publishedTo id (l ++ [e]) ≠ [] := by
  cases e with
  | publish state =>
      rw [publishedTo, recordOf_concat]
      simp only [record]
      split_ifs
      · simp
      · exact h
  | _ => rwa [publishedTo_concat (by simp)]

/-- Only a publication adds to the publications. -/
theorem publications_concat {l : List (HubEvent σ)} {e : HubEvent σ}
    (he : ∀ state, e ≠ .publish state) : publications (l ++ [e]) = publications l := by
  rw [publications, List.filterMap_append]
  cases e with
  | publish state => exact absurd rfl (he state)
  | _ => exact List.append_nil _

/-- A subscriber sees a part of what is published, in the same order. -/
theorem publishedTo_sublist (id : QueueId) (l : List (HubEvent σ)) :
    (publishedTo id l).Sublist (publications l) := by
  induction l using List.reverseRecOn with
  | nil => exact List.Sublist.refl _
  | append_singleton l e ih =>
      cases e with
      | publish state =>
          have hall : publications (l ++ [.publish state]) = publications l ++ [state] := by
            simp [publications]
          rw [publishedTo, recordOf_concat, hall]
          simp only [record]
          split_ifs
          · exact ih.append_right _
          · exact ih.trans (List.sublist_append_left _ _)
      | _ =>
          rw [publishedTo_concat (by simp), publications_concat (by simp)]
          exact ih

/-- A mailbox and what was taken from it, against what it should have got: nothing is out of order
or twice, and the last one is not missing. -/
structure Faithful (published taken : List σ) (queue : Queue σ) : Prop where
  mailbox : IsMailbox queue
  sublist : (taken ++ queue.items).Sublist published
  last : (taken ++ queue.items).getLast? = published.getLast?

/-- The invariant of the hub over its history. -/
structure HubInv (l : List (HubEvent σ)) (s : HubState σ) : Prop where
  subscribed : ∀ id, id ∈ s.hub.subscribers ↔ (recordOf id l).1 = true
  allocated : ∀ id ∈ s.hub.subscribers, (s.hub.queues id).isSome = true
  fresh : ∀ id, s.hub.queues id = none → publishedTo id l = [] ∧ s.taken id = []
  faithful : ∀ id queue, s.hub.queues id = some queue →
    Faithful (publishedTo id l) (s.taken id) queue
  current : ∀ id ∈ s.hub.subscribers,
    publishedTo id l = [] ∨ (publishedTo id l).getLast? = (publications l).getLast?
  latest : s.hub.latest = (publications l).getLast?

/-- Every subscriber of a run has a mailbox. -/
theorem HubInv.sound {l : List (HubEvent σ)} {s : HubState σ} (h : HubInv l s) : s.hub.Sound := by
  intro id hid
  obtain ⟨queue, hqueue⟩ := Option.isSome_iff_exists.mp (h.allocated id hid)
  exact ⟨queue, hqueue, (h.faithful id queue hqueue).mailbox⟩

/-- What was taken from a mailbox is a part of what was published to it. -/
theorem HubInv.taken_sublist {l : List (HubEvent σ)} {s : HubState σ} (h : HubInv l s)
    (id : QueueId) : (s.taken id).Sublist (publishedTo id l) := by
  rcases hqueue : s.hub.queues id with _ | queue
  · rw [(h.fresh id hqueue).2]
    exact List.nil_sublist _
  · exact (List.sublist_append_left _ _).trans (h.faithful id queue hqueue).sublist

/-- A new hub has no mailboxes and no publications. -/
theorem hubInv_init (asset : String) : HubInv [] (HubState.init asset : HubState σ) where
  subscribed id := by simp [HubState.init, StateHub.new, recordOf]
  allocated id hid := by simp [HubState.init, StateHub.new] at hid
  fresh id _ := ⟨rfl, rfl⟩
  faithful id queue h := by simp [HubState.init, StateHub.new] at h
  current id hid := by simp [HubState.init, StateHub.new] at hid
  latest := rfl

/-- What each event leads to, where it can happen. -/
theorem hubStep_cases {s t : HubState σ} {e : HubEvent σ} (hs : s.hub.Sound)
    (h : hubStep s e = some t) :
    (∃ id, e = .subscribe id ∧ s.hub.queues id = none ∧
      t = { s with hub := s.hub.subscribe id }) ∨
    (∃ id, e = .unsubscribe id ∧ t = { s with hub := s.hub.unsubscribe id }) ∨
    (∃ state, e = .publish state ∧ t.taken = s.taken ∧
      t.hub.subscribers = s.hub.subscribers ∧ t.hub.latest = some state ∧
      t.hub.queues = fun id =>
        if id ∈ s.hub.subscribers then some ⟨1, [state]⟩ else s.hub.queues id) ∨
    (∃ id maxsize state rest, e = .take id ∧ s.hub.queues id = some ⟨maxsize, state :: rest⟩ ∧
      t.taken = Function.update s.taken id (s.taken id ++ [state]) ∧
      t.hub = { s.hub with queues := Function.update s.hub.queues id (some ⟨maxsize, rest⟩) }) := by
  cases e with
  | subscribe id =>
      simp only [hubStep] at h
      split_ifs at h with hnone
      exact Or.inl ⟨id, rfl, by simpa using hnone, (Option.some.inj h).symm⟩
  | unsubscribe id =>
      simp only [hubStep] at h
      split_ifs at h
      exact Or.inr (Or.inl ⟨id, rfl, (Option.some.inj h).symm⟩)
  | publish state =>
      simp only [hubStep, publish_ok hs] at h
      obtain rfl := Option.some.inj h
      exact Or.inr (Or.inr (Or.inl ⟨state, rfl, rfl, rfl, rfl, rfl⟩))
  | take id =>
      simp only [hubStep] at h
      split at h
      · rename_i state hub htake
        obtain rfl := Option.some.inj h
        obtain ⟨maxsize, rest, hqueue, rfl⟩ := StateHub.take_eq_some htake
        exact Or.inr (Or.inr (Or.inr ⟨id, maxsize, state, rest, rfl, hqueue, rfl, rfl⟩))
      · cases h

/-- No step changes the asset of the hub. -/
theorem hubStep_asset {s t : HubState σ} {e : HubEvent σ} (h : hubStep s e = some t) :
    t.hub.asset = s.hub.asset := by
  cases e with
  | subscribe id =>
      simp only [hubStep] at h
      split_ifs at h
      obtain rfl := Option.some.inj h
      rfl
  | unsubscribe id =>
      simp only [hubStep] at h
      split_ifs at h
      obtain rfl := Option.some.inj h
      rfl
  | publish state =>
      simp only [hubStep] at h
      split at h
      · rename_i hub hpublish
        obtain rfl := Option.some.inj h
        obtain ⟨queues, -, hpublish⟩ := bind_eq_ok_iff.mp hpublish
        obtain rfl := Except.ok.inj hpublish
        rfl
      · cases h
  | take id =>
      simp only [hubStep] at h
      split at h
      · rename_i state hub htake
        obtain rfl := Option.some.inj h
        obtain ⟨maxsize, rest, -, rfl⟩ := StateHub.take_eq_some htake
        rfl
      · cases h

/-- A new mailbox, of a subscriber that nothing was published to. -/
theorem faithful_new : Faithful ([] : List σ) [] (Queue.new 1) :=
  ⟨isMailbox_new, by simp [Queue.new], by simp [Queue.new]⟩

/-- A state that is published evicts one that was not taken. -/
theorem Faithful.publish {published taken : List σ} {queue : Queue σ}
    (h : Faithful published taken queue) (state : σ) :
    Faithful (published ++ [state]) taken ⟨1, [state]⟩ where
  mailbox := ⟨rfl, le_rfl⟩
  sublist := ((List.sublist_append_left taken queue.items).trans h.sublist).append_right [state]
  last := by simp

/-- Taking moves the state from the mailbox to the end of what was taken. -/
theorem Faithful.take {published taken : List σ} {maxsize : ℕ} {state : σ} {rest : List σ}
    (h : Faithful published taken ⟨maxsize, state :: rest⟩) :
    Faithful published (taken ++ [state]) ⟨maxsize, rest⟩ where
  mailbox := ⟨h.mailbox.1, Nat.le_of_succ_le h.mailbox.2⟩
  sublist := by simpa using h.sublist
  last := by simpa using h.last

namespace HubInv

variable {l : List (HubEvent σ)} {s : HubState σ}

/-- A new subscriber has an empty mailbox, and nothing was published to it. -/
theorem subscribe (h : HubInv l s) {id : QueueId} (hnone : s.hub.queues id = none) :
    HubInv (l ++ [.subscribe id]) { s with hub := s.hub.subscribe id } := by
  have hpub : ∀ id', publishedTo id' (l ++ [.subscribe id]) = publishedTo id' l :=
    publishedTo_concat (by simp)
  have hall : publications (l ++ [.subscribe id]) = publications l := publications_concat (by simp)
  refine ⟨?_, ?_, ?_, ?_, ?_, ?_⟩
  · intro id'
    simp [StateHub.subscribe, recordOf_concat, record, h.subscribed id']
  · intro id' hid'
    simp only [StateHub.subscribe, List.mem_append, List.mem_singleton] at hid' ⊢
    rw [Function.update_apply]
    split_ifs with heq
    · rfl
    · exact h.allocated id' (hid'.resolve_right heq)
  · intro id' hid'
    rw [hpub]
    apply h.fresh id'
    simp only [StateHub.subscribe, Function.update_apply] at hid'
    split_ifs at hid'
    exact hid'
  · intro id' queue hqueue
    rw [hpub]
    simp only [StateHub.subscribe, Function.update_apply] at hqueue
    split_ifs at hqueue with heq
    · obtain rfl := Option.some.inj hqueue
      obtain ⟨hp, ht⟩ := h.fresh id' (heq ▸ hnone)
      rw [hp, ht]
      exact faithful_new
    · exact h.faithful id' queue hqueue
  · intro id' hid'
    rw [hpub, hall]
    simp only [StateHub.subscribe, List.mem_append, List.mem_singleton] at hid'
    by_cases heq : id' = id
    · exact Or.inl (h.fresh id' (heq ▸ hnone)).1
    · exact h.current id' (hid'.resolve_right heq)
  · rw [hall]
    exact h.latest

/-- A subscriber that leaves keeps its mailbox. -/
theorem unsubscribe (h : HubInv l s) (id : QueueId) :
    HubInv (l ++ [.unsubscribe id]) { s with hub := s.hub.unsubscribe id } := by
  have hpub : ∀ id', publishedTo id' (l ++ [.unsubscribe id]) = publishedTo id' l :=
    publishedTo_concat (by simp)
  have hall : publications (l ++ [.unsubscribe id]) = publications l :=
    publications_concat (by simp)
  have hmem : ∀ id' ∈ (s.hub.unsubscribe id).subscribers, id' ∈ s.hub.subscribers :=
    fun id' hid' => (List.mem_filter.mp hid').1
  refine ⟨?_, ?_, ?_, ?_, ?_, ?_⟩
  · intro id'
    simp [StateHub.unsubscribe, recordOf_concat, record, h.subscribed id']
  · intro id' hid'
    exact h.allocated id' (hmem id' hid')
  · intro id' hid'
    rw [hpub]
    exact h.fresh id' hid'
  · intro id' queue hqueue
    rw [hpub]
    exact h.faithful id' queue hqueue
  · intro id' hid'
    rw [hpub, hall]
    exact h.current id' (hmem id' hid')
  · rw [hall]
    exact h.latest

/-- A publication reaches the mailbox of every subscriber and no other one. -/
theorem publish {t : HubState σ} {state : σ} (h : HubInv l s) (htaken : t.taken = s.taken)
    (hsubs : t.hub.subscribers = s.hub.subscribers) (hlatest : t.hub.latest = some state)
    (hqueues : t.hub.queues = fun id =>
      if id ∈ s.hub.subscribers then some ⟨1, [state]⟩ else s.hub.queues id) :
    HubInv (l ++ [.publish state]) t := by
  have hpub : ∀ id', publishedTo id' (l ++ [.publish state]) =
      if id' ∈ s.hub.subscribers then publishedTo id' l ++ [state] else publishedTo id' l := by
    intro id'
    simp [publishedTo, recordOf_concat, record, h.subscribed id']
  have hall : publications (l ++ [.publish state]) = publications l ++ [state] := by
    simp [publications, List.filterMap_append]
  refine ⟨?_, ?_, ?_, ?_, ?_, ?_⟩
  · intro id'
    simp [hsubs, recordOf_concat, record, h.subscribed id']
  · intro id' hid'
    rw [hsubs] at hid'
    simp [hqueues, hid']
  · intro id' hid'
    simp only [hqueues] at hid'
    split_ifs at hid' with hmem
    rw [hpub, if_neg hmem, htaken]
    exact h.fresh id' hid'
  · intro id' queue hqueue
    simp only [hqueues] at hqueue
    rw [hpub, htaken]
    split_ifs at hqueue with hmem
    · obtain rfl := Option.some.inj hqueue
      obtain ⟨old, hold⟩ := Option.isSome_iff_exists.mp (h.allocated id' hmem)
      rw [if_pos hmem]
      exact (h.faithful id' old hold).publish state
    · rw [if_neg hmem]
      exact h.faithful id' queue hqueue
  · intro id' hid'
    rw [hsubs] at hid'
    rw [hpub, if_pos hid', hall]
    exact Or.inr (by simp)
  · rw [hlatest, hall, List.getLast?_concat]

/-- A state that is taken leaves its mailbox only. -/
theorem take {t : HubState σ} {id : QueueId} {maxsize : ℕ} {state : σ} {rest : List σ}
    (h : HubInv l s) (hqueue : s.hub.queues id = some ⟨maxsize, state :: rest⟩)
    (htaken : t.taken = Function.update s.taken id (s.taken id ++ [state]))
    (hhub : t.hub =
      { s.hub with queues := Function.update s.hub.queues id (some ⟨maxsize, rest⟩) }) :
    HubInv (l ++ [.take id]) t := by
  have hpub : ∀ id', publishedTo id' (l ++ [.take id]) = publishedTo id' l :=
    publishedTo_concat (by simp)
  have hall : publications (l ++ [.take id]) = publications l := publications_concat (by simp)
  refine ⟨?_, ?_, ?_, ?_, ?_, ?_⟩
  · intro id'
    simp [hhub, recordOf_concat, record, h.subscribed id']
  · intro id' hid'
    rw [hhub] at hid' ⊢
    simp only [Function.update_apply]
    split_ifs
    · rfl
    · exact h.allocated id' hid'
  · intro id' hid'
    simp only [hhub, Function.update_apply] at hid'
    split_ifs at hid' with heq
    rw [hpub, htaken, Function.update_of_ne heq]
    exact h.fresh id' hid'
  · intro id' queue hq
    rw [hpub]
    simp only [hhub, Function.update_apply] at hq
    rw [htaken]
    split_ifs at hq with heq
    · obtain rfl := Option.some.inj hq
      subst heq
      rw [Function.update_self]
      exact (h.faithful id' _ hqueue).take
    · rw [Function.update_of_ne heq]
      exact h.faithful id' queue hq
  · intro id' hid'
    rw [hhub] at hid'
    rw [hpub, hall]
    exact h.current id' hid'
  · rw [hhub, hall]
    exact h.latest

/-- **One step keeps the invariant.** -/
theorem step {t : HubState σ} {e : HubEvent σ} (h : HubInv l s) (hstep : hubStep s e = some t) :
    HubInv (l ++ [e]) t := by
  rcases hubStep_cases h.sound hstep with ⟨id, rfl, hnone, rfl⟩ | ⟨id, rfl, rfl⟩ |
    ⟨state, rfl, htaken, hsubs, hlatest, hqueues⟩ |
    ⟨id, maxsize, state, rest, rfl, hqueue, htaken, hhub⟩
  · exact h.subscribe hnone
  · exact h.unsubscribe id
  · exact h.publish htaken hsubs hlatest hqueues
  · exact h.take hqueue htaken hhub

end HubInv

/-- The invariant holds after every run. -/
theorem hubInv_of_run {asset : String} {l : List (HubEvent σ)} {s : HubState σ}
    (h : Run hubStep (HubState.init asset) l s) : HubInv l s :=
  h.history (hubInv_init asset) fun _ _ _ _ _ hinv hstep => hinv.step hstep

/-- **The hub is a faithful latest-wins mailbox per subscriber.** After every sequence of steps by
any number of subscribers: a mailbox holds at most one state; `publish` does not raise, whatever
is published next, and changes no mailbox of a subscriber that has left; what a subscriber has
taken is a subsequence of what was published while it was subscribed; the last state published to
it is in its mailbox or is the last it took; and `latest` is the last published state.
Source: `grpc_server.py`, `StateHub` -/
theorem hub_faithful {asset : String} {l : List (HubEvent σ)} {s : HubState σ}
    (h : Run hubStep (HubState.init asset) l s) :
    (∀ id queue, s.hub.queues id = some queue → queue.items.length ≤ 1) ∧
      (∀ state, ∃ hub, s.hub.publish state = .ok hub ∧
        ∀ id, id ∉ s.hub.subscribers → hub.queues id = s.hub.queues id) ∧
      (∀ id, (s.taken id).Sublist (publishedTo id l)) ∧
      (∀ id queue last, s.hub.queues id = some queue → (publishedTo id l).getLast? = some last →
        queue.items = [last] ∨ queue.items = [] ∧ (s.taken id).getLast? = some last) ∧
      s.hub.latest = (publications l).getLast? := by
  have hinv := hubInv_of_run h
  refine ⟨?_, ?_, ?_, ?_, hinv.latest⟩
  · intro id queue hqueue
    exact (hinv.faithful id queue hqueue).mailbox.2
  · intro state
    refine ⟨_, publish_ok hinv.sound state, ?_⟩
    intro id hid
    exact if_neg hid
  · exact hinv.taken_sublist
  · intro id queue last hqueue hlast
    obtain ⟨hmailbox, -, hget⟩ := hinv.faithful id queue hqueue
    rw [hlast] at hget
    rcases hitems : queue.items with _ | ⟨x, _ | ⟨y, rest⟩⟩
    · rw [hitems, List.append_nil] at hget
      exact Or.inr ⟨rfl, hget⟩
    · rw [hitems] at hget
      left
      simpa using hget
    · have := hmailbox.2
      simp [hitems] at this

/-- Two publications, the first evicted. -/
theorem hub_faithful_two :
    ∃ s : HubState ℕ, Run hubStep (HubState.init "ur5")
        [.subscribe 0, .publish 5, .publish 7, .take 0] s ∧ s.taken 0 = [7] ∧
      (s.taken 0).Sublist (publishedTo 0 [.subscribe 0, .publish 5, .publish 7, .take 0]) :=
  ⟨_, .of_exec rfl, rfl, (hub_faithful (.of_exec rfl)).2.2.1 0⟩

end runs

end TwinServices.State
