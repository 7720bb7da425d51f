import TwinServices.State.Decimation

/-!
# A stream at rest

Where a handler of `StreamState` waits at an empty mailbox, the last state it dequeued is
`hub.latest`, unless nothing was published since it subscribed; and it yielded that state, unless
the rate limiter dropped it because it came too soon after the yield before.

* `lastYield`, `TooSoon`: what the rate limiter drops, by the times of the dequeues alone.
* `last_dequeued_of_blocked`: what a handler that waits has dequeued last.
* `stream_rests_at_latest`: what it has yielded, and what `GetState` answers.
* `stream_not_converged`: both exceptions happen.
-/

set_option autoImplicit false

namespace TwinServices.State

open TwinServices.Python Lib.Transition Lib.Binary64 Lib.RateLimit

section rest

variable [CPython] {σ : Type}

/-! ## What is dropped -/

/-- The time of the last yield of the states that were dequeued, minus infinity before the first
one. -/
def lastYield (minInterval : Double) (dequeued : List (Dequeue σ)) : Double :=
  ((yieldsOf minInterval dequeued).getLast?.map Dequeue.time).getD (.inf true)

/-- A state that is dequeued after others comes sooner after the last yield than the interval. -/
def TooSoon (minInterval : Double) (before : List (Dequeue σ)) (d : Dequeue σ) : Prop :=
  d.time - lastYield minInterval before < minInterval

/-- Whether a state was dequeued too soon is checked by computing. -/
instance (minInterval : Double) (before : List (Dequeue σ)) (d : Dequeue σ) :
    Decidable (TooSoon minInterval before d) := inferInstanceAs (Decidable (_ < _))

/-- One more state is yielded unless it comes too soon. -/
theorem yieldsOf_concat (minInterval : Double) (before : List (Dequeue σ)) (d : Dequeue σ) :
    yieldsOf minInterval (before ++ [d]) =
      yieldsOf minInterval before ++ if TooSoon minInterval before d then [] else [d] := by
  unfold yieldsOf decimate
  rw [spaced_concat, lastTime_eq_getLast?]
  rfl

/-! ## At rest -/

/-- A handler blocked in `queue.get()` on an empty mailbox. -/
def Blocked (s : StreamSystem σ) (id : QueueId) (h : Handler σ) : Prop :=
  s.handlers id = some h ∧ h.phase = .waiting ∧ ∀ queue, s.hub.hub.queues id = some queue →
    queue.items = []

/-- What was published while a handler was subscribed. -/
def publishedToHandler (asset : String) (id : QueueId) (l : List (StreamEvent σ)) : List σ :=
  publishedTo id (hubEvents asset l)

/-- At least the interval has passed since the last yield. -/
def IntervalPassed (s : StreamSystem σ) (h : Handler σ) : Prop :=
  ¬ .finite s.clock - h.lastSent < h.minInterval

variable {asset : String} {l : List (StreamEvent σ)} {s : StreamSystem σ} {id : QueueId}
  {h : Handler σ} {state : σ}

/-- **A handler that is blocked has dequeued the latest state last**, if anything was published
since it subscribed, and nothing else. -/
theorem last_dequeued_of_blocked (hrun : Run streamStep (.init asset) l s)
    (hblocked : Blocked s id h) (hlatest : s.hub.hub.latest = some state) :
    (publishedToHandler asset id l = [] → h.dequeued = []) ∧
      (publishedToHandler asset id l ≠ [] → ∃ before d, h.dequeued = before ++ [d] ∧
        d.state = state) := by
  obtain ⟨hh, hphase, hempty⟩ := hblocked
  obtain ⟨hinv, hmem⟩ := handlersInv_of_run hrun id h hh
  have hhub := hubInv_of_run (run_hub hrun)
  have hid := hmem (by rw [hphase]; decide)
  obtain ⟨queue, hqueue⟩ := Option.isSome_iff_exists.mp (hhub.allocated id hid)
  obtain ⟨-, hsublist, hlast⟩ := hhub.faithful id queue hqueue
  rw [hempty queue hqueue, List.append_nil, ← hinv.dequeued] at hsublist hlast
  unfold publishedToHandler
  constructor
  · intro hnone
    rw [hnone] at hsublist
    exact List.map_eq_nil_iff.mp (List.sublist_nil.mp hsublist)
  · intro hsome
    have hget := (hhub.current id hid).resolve_left hsome
    rw [← hlast, ← hhub.latest, hlatest, List.getLast?_map, Option.map_eq_some_iff] at hget
    obtain ⟨d, hd, hstate⟩ := hget
    obtain ⟨before, hbefore⟩ := List.getLast?_eq_some_iff.mp hd
    exact ⟨before, d, hbefore, hstate⟩

/-- What a handler has yielded, by its last dequeue. -/
theorem yielded_of_dequeued (hrun : Run streamStep (.init asset) l s)
    (hh : s.handlers id = some h) {before : List (Dequeue σ)} {d : Dequeue σ}
    (hdequeued : h.dequeued = before ++ [d]) :
    (¬ TooSoon h.minInterval before d → h.yielded.getLast? = some d.state) ∧
      (TooSoon h.minInterval before d →
        h.yielded = (yieldsOf h.minInterval before).map Dequeue.state) := by
  have hyielded := (decimationInv_of_run hrun id h hh).yielded
  rw [hdequeued, yieldsOf_concat, List.map_append] at hyielded
  constructor
  · intro hnot
    rw [hyielded, if_neg hnot]
    simp
  · intro hsoon
    rw [hyielded, if_pos hsoon, List.map_nil, List.append_nil]

/-- **A stream rests at the latest state.** After every run of publications, calls, handler steps
and the clock, let a handler be blocked on an empty mailbox while `hub.latest` is a state, which
`GetState` answers. It has the interval of its request. If nothing was published since it subscribed
it yielded nothing. Else the last state it dequeued is `hub.latest`, and it yielded that state last,
unless less than the interval had passed since the yield before: then it yielded what it had yielded
before. Without a rate no state is dropped. Source: `grpc_server.py`, `StateServicer.StreamState`,
`StateServicer.GetState` -/
theorem stream_rests_at_latest (hrun : Run streamStep (.init asset) l s)
    (hblocked : Blocked s id h) (hlatest : s.hub.hub.latest = some state) :
    getState s.hub.hub asset = .ok state ∧
      (∃ request, .start id request ∈ l ∧ checkAsset asset request.asset = .ok () ∧
        h.minInterval = Double.ofRat (exactInterval request.maxRateHz)) ∧
      h.yielded = (yieldsOf h.minInterval h.dequeued).map Dequeue.state ∧
      (publishedToHandler asset id l = [] → h.dequeued = [] ∧ h.yielded = []) ∧
      (publishedToHandler asset id l ≠ [] → ∃ before d, h.dequeued = before ++ [d] ∧
        d.state = state ∧ (¬ TooSoon h.minInterval before d → h.yielded.getLast? = some state) ∧
        (TooSoon h.minInterval before d →
          h.yielded = (yieldsOf h.minInterval before).map Dequeue.state)) ∧
      (h.minInterval = .finite Double.zero → h.yielded = h.dequeued.map Dequeue.state) := by
  have hh := hblocked.1
  have hyielded := (decimationInv_of_run hrun id h hh).yielded
  obtain ⟨hnone, hsome⟩ := last_dequeued_of_blocked hrun hblocked hlatest
  refine ⟨?_, exists_request_of_handler hrun hh, hyielded, ?_, ?_, ?_⟩
  · unfold getState checkAsset
    rw [asset_of_run hrun, if_neg (fun hne => hne.2 rfl), hlatest]
    rfl
  · intro hempty
    have hdequeued := hnone hempty
    rw [hyielded, hdequeued]
    exact ⟨rfl, rfl⟩
  · intro hpublished
    obtain ⟨before, d, hdequeued, hstate⟩ := hsome hpublished
    obtain ⟨hyields, hdrops⟩ := yielded_of_dequeued hrun hh hdequeued
    exact ⟨before, d, hdequeued, hstate, hstate ▸ hyields, hdrops⟩
  · intro hzero
    obtain ⟨hinv, -⟩ := handlersInv_of_run hrun id h hh
    rw [hinv.yielded, List.filter_eq_self.mpr fun d hd => by simpa using hinv.uncapped hzero d hd]

end rest

/-! ### Streams that do not converge -/

section platform

attribute [local instance] CPython.series

/-- A rate of zero asks for no interval. -/
theorem minInterval_zero : minInterval (.finite Double.zero) = .ok (.finite Double.zero) := by
  have hzero : exactInterval (.finite Double.zero) = 0 := by simp [exactInterval]
  rw [minInterval_eq, hzero, Double.ofRat_zero]

/-- A call without a rate after the only publication. -/
def lateCall : List (StreamEvent ℕ) := [.publish 5, .start 0 ⟨"", .finite Double.zero⟩]

/-- A call without a rate before the only publication. -/
def earlyCall : List (StreamEvent ℕ) :=
  [.start 0 ⟨"", .finite Double.zero⟩, .publish 5, .dequeue 0, .resume 0]

/-- A call after the last publication has yielded nothing at rest; a call whose last state was
dropped has yielded an older one. -/
theorem stream_not_converged :
    (∃ s h, Run streamStep (.init "ur5") lateCall s ∧ Blocked s 0 h ∧ IntervalPassed s h ∧
      s.hub.hub.latest = some 5 ∧ h.yielded.getLast? = none) ∧
    ∃ s h,
      Run streamStep (.init "ur5") (twoPublications ++ [.dequeue 0] ++ [.advance Double.two]) s ∧
      Blocked s 0 h ∧ IntervalPassed s h ∧ s.hub.hub.latest = some 7 ∧
      h.yielded.getLast? = some 5 := by
  constructor
  · have hexec : exec streamStep (.init "ur5") lateCall = some ?_ := by
      simp only [lateCall, exec, streamStep, minInterval_zero]
      rfl
    refine ⟨_, _, .of_exec hexec, ⟨rfl, rfl, ?_⟩, ?_, rfl, rfl⟩
    · intro queue hqueue
      obtain rfl := Option.some.inj hqueue
      rfl
    · exact fun hlt => by cases hlt
  · have hexec : exec streamStep (.init "ur5") twoPublications = some ?_ := by
      simp only [twoPublications, exec, streamStep, minInterval_one]
      rfl
    have hadvance : Double.zero.val ≤ Double.two.val := by
      rw [Double.two_val, Double.zero_val]
      norm_num
    refine ⟨_, _, ((Run.of_exec hexec).snoc (streamStep_dequeue rfl rfl rfl)).snoc
      (streamStep_advance hadvance), ⟨rfl, ?_, ?_⟩, ?_, rfl, ?_⟩
    · exact congrArg Handler.phase receive_afterFirst
    · intro queue hqueue
      obtain rfl := Option.some.inj hqueue
      rfl
    · show ¬ (.finite Double.two - (afterFirst.receive 7 Double.zero).lastSent : Double) <
        (afterFirst.receive 7 Double.zero).minInterval
      rw [receive_afterFirst]
      simp [afterFirst, sub_double]
    · show (afterFirst.receive 7 Double.zero).yielded.getLast? = some 5
      rw [receive_afterFirst]
      rfl

/-- The early call waits, with the latest state dequeued last. -/
theorem blocked_earlyCall :
    ∃ s h, Run streamStep (.init "ur5") earlyCall s ∧ Blocked s 0 h ∧
      s.hub.hub.latest = some 5 ∧ h.dequeued.map Dequeue.state = [5] ∧
      h.minInterval = .finite Double.zero := by
  have hexec : exec streamStep (.init "ur5") earlyCall = some ?_ := by
    simp only [earlyCall, exec, streamStep, minInterval_zero]
    rfl
  refine ⟨_, _, .of_exec hexec, ⟨rfl, rfl, ?_⟩, rfl, ?_, rfl⟩
  · intro queue hqueue
    obtain rfl := Option.some.inj hqueue
    rfl
  · simp only [Handler.receive]
    split_ifs <;> rfl

/-- It has yielded what `GetState` answers. -/
theorem stream_rests_at_latest_earlyCall :
    ∃ s h, Run streamStep (.init "ur5") earlyCall s ∧ Blocked s 0 h ∧
      getState s.hub.hub "ur5" = .ok 5 ∧ h.yielded = [5] := by
  obtain ⟨s, h, hrun, hblocked, hlatest, hdequeued, hzero⟩ := blocked_earlyCall
  obtain ⟨hget, -, -, -, -, huncapped⟩ := stream_rests_at_latest hrun hblocked hlatest
  refine ⟨s, h, hrun, hblocked, hget, ?_⟩
  rw [huncapped hzero, hdequeued]

end platform

end TwinServices.State
