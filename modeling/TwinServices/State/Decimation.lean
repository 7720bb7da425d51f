import TwinServices.Lib.RateLimit
import TwinServices.State.Stream
import Mathlib.Data.EReal.Operations

/-!
# Decimation

What a `StreamState` call yields of the states it dequeues. Over doubles it is what `decimate`
keeps, with the interval of the request rounded once; the yields honour the rate and no client waits
longer than the interval and the gap between two dequeues.

* `exactInterval`, `minInterval_eq`: the interval of a rate, and what the code computes.
* `decimate`, `decimationInv_of_run`: the loop over the dequeued states, and that every handler of a
  servicer runs it.
* `HonoursRate`, `honoursRate_decimate`: the bounds, over any type of times.
* `decimation_honours_rate`: they hold in exact arithmetic and of every handler of a servicer.
-/

set_option autoImplicit false

namespace TwinServices.State

open TwinServices.Python Lib.Transition Lib.Binary64 Lib.RateLimit

/-! ## The interval -/

/-- `1.0 / max_rate_hz` if that is positive, and zero else.
Source: `grpc_server.py`, `StateServicer.StreamState` -/
def exactInterval : Double → ℚ
  | .finite x => if 0 < x.val then 1 / x.val else 0
  | .inf _ => 0
  | .nan => 0

/-- The exact interval is not negative. -/
theorem exactInterval_nonneg (maxRateHz : Double) : 0 ≤ exactInterval maxRateHz := by
  cases maxRateHz with
  | finite x =>
      rw [exactInterval]
      split_ifs with hpos
      · exact (one_div_pos.mpr hpos).le
      · exact le_rfl
  | inf s => exact le_rfl
  | nan => exact le_rfl

/-- **The code rounds the interval once**, for every rate. -/
theorem minInterval_eq [CPython] (maxRateHz : Double) :
    minInterval maxRateHz = .ok (Double.ofRat (exactInterval maxRateHz)) := by
  unfold minInterval
  rw [lit_double, Double.ofRat_one]
  cases maxRateHz with
  | finite x =>
      by_cases hpos : Double.finite Double.zero < .finite x
      · have hx : 0 < x.val := hpos
        rw [if_pos hpos, exactInterval, if_pos hx]
        apply truediv_double
        simp [Double.div, hx.ne']
      · rw [if_neg hpos, exactInterval, if_neg (show ¬ 0 < x.val from hpos), lit_double]
  | inf s =>
      cases s with
      | false =>
          rw [if_pos (by simp)]
          exact truediv_double rfl
      | true =>
          rw [if_neg (by simp)]
          rfl
  | nan => rfl

/-! ## The loop -/

/-- The states that the loop of `StreamState` yields of those that it dequeues, over any type of
times. Source: `grpc_server.py`, `StateServicer.StreamState` -/
def decimate {α T : Type} [Sub T] [LT T] [DecidableLT T] (now : α → T) (minInterval lastSent : T)
    (dequeued : List α) : List α := spaced now minInterval lastSent dequeued

section handlers

variable [CPython] {σ : Type}

/-- The time of a dequeue. -/
def Dequeue.time (d : Dequeue σ) : Double := .finite d.now

/-- What a call yields of the states that it dequeued, with their times. -/
def yieldsOf (minInterval : Double) (dequeued : List (Dequeue σ)) : List (Dequeue σ) :=
  decimate Dequeue.time minInterval (.inf true) dequeued

/-- A handler against its loop: it yielded what `decimate` keeps of the states it dequeued, which
are in the order of time. -/
structure DecimationInv (clock : Finite64) (h : Handler σ) : Prop where
  yielded : h.yielded = (yieldsOf h.minInterval h.dequeued).map Dequeue.state
  lastSent : h.lastSent = lastTime Dequeue.time h.minInterval (.inf true) h.dequeued
  ordered : h.dequeued.Pairwise fun d d' => d.now.val ≤ d'.now.val
  past : ∀ d ∈ h.dequeued, d.now.val ≤ clock.val

/-- A new handler has dequeued nothing. -/
theorem decimationInv_new (clock : Finite64) (i : Double) :
    DecimationInv clock (.new i : Handler σ) where
  yielded := rfl
  lastSent := rfl
  ordered := .nil
  past d hd := by simp [Handler.new] at hd

/-- One pass of the loop keeps or drops one more state. -/
theorem DecimationInv.receive {clock : Finite64} {h : Handler σ} (hinv : DecimationInv clock h)
    (state : σ) : DecimationInv clock (h.receive state clock) := by
  have hordered : (h.dequeued ++ [(⟨state, clock, h.lastSent⟩ : Dequeue σ)]).Pairwise
      fun d d' => d.now.val ≤ d'.now.val := by
    rw [List.pairwise_append]
    refine ⟨hinv.ordered, List.pairwise_singleton .., fun d hd d' hd' => ?_⟩
    obtain rfl := List.mem_singleton.mp hd'
    exact hinv.past d hd
  have hpast : ∀ d ∈ h.dequeued ++ [(⟨state, clock, h.lastSent⟩ : Dequeue σ)],
      d.now.val ≤ clock.val := by
    rw [List.forall_mem_append, List.forall_mem_singleton]
    exact ⟨hinv.past, le_rfl⟩
  have hyielded := spaced_concat Dequeue.time h.minInterval (.inf true) h.dequeued
    ⟨state, clock, h.lastSent⟩
  have hlastSent := lastTime_concat Dequeue.time h.minInterval (.inf true) h.dequeued
    ⟨state, clock, h.lastSent⟩
  rw [← hinv.lastSent] at hyielded hlastSent
  unfold Handler.receive
  by_cases hdrop : .finite clock - h.lastSent < h.minInterval
  · rw [Dequeue.time, if_pos hdrop] at hyielded hlastSent
    rw [if_pos (show (⟨state, clock, h.lastSent⟩ : Dequeue σ).Dropped h.minInterval from hdrop)]
    refine ⟨?_, hlastSent.symm, hordered, hpast⟩
    rw [yieldsOf, decimate, hyielded, List.append_nil]
    exact hinv.yielded
  · rw [Dequeue.time, if_neg hdrop] at hyielded hlastSent
    rw [if_neg (show ¬ (⟨state, clock, h.lastSent⟩ : Dequeue σ).Dropped h.minInterval from hdrop)]
    refine ⟨?_, hlastSent.symm, hordered, hpast⟩
    rw [yieldsOf, decimate, hyielded, List.map_append]
    exact congrArg (· ++ [state]) hinv.yielded

/-- The clock only goes on. -/
theorem DecimationInv.advance {clock now : Finite64} {h : Handler σ} (hinv : DecimationInv clock h)
    (hnow : clock.val ≤ now.val) : DecimationInv now h where
  yielded := hinv.yielded
  lastSent := hinv.lastSent
  ordered := hinv.ordered
  past d hd := (hinv.past d hd).trans hnow

/-- **Every handler decimates**, after every run: it yielded what the loop keeps of the states that
it dequeued, in the order of time. -/
theorem decimationInv_of_run {asset : String} {l : List (StreamEvent σ)} {s : StreamSystem σ}
    (hrun : Run streamStep (.init asset) l s) :
    ∀ id h, s.handlers id = some h → DecimationInv s.clock h := by
  refine hrun.invariant (I := fun s => ∀ id h, s.handlers id = some h → DecimationInv s.clock h)
    (fun id h hh => by cases hh) ?_
  intro s e t hinv hstep
  -- a step that puts one handler in the place of another
  have hupdate : ∀ {id : QueueId} {h : Handler σ}, DecimationInv s.clock h → ∀ id' h',
      Function.update s.handlers id (some h) id' = some h' → DecimationInv s.clock h' := by
    intro id h hh id' h' heq
    rw [Function.update_apply] at heq
    split_ifs at heq
    · exact Option.some.inj heq ▸ hh
    · exact hinv id' h' heq
  rcases streamStep_cases hstep with ⟨_, _, -, -, rfl⟩ | ⟨_, _, _, -, -, rfl⟩ |
    ⟨_, _, i, _, -, -, -, -, rfl⟩ | ⟨id, h, state, _, _, -, hh, -, -, -, rfl⟩ |
    ⟨id, h, -, hh, -, rfl⟩ | ⟨id, h, _, -, hh, -, -, rfl⟩ | ⟨now, -, hnow, rfl⟩
  · exact hinv
  · exact hinv
  · exact hupdate (decimationInv_new s.clock i)
  · exact hupdate ((hinv id h hh).receive state)
  · have hh := hinv id h hh
    exact hupdate ⟨hh.yielded, hh.lastSent, hh.ordered, hh.past⟩
  · have hh := hinv id h hh
    exact hupdate ⟨hh.yielded, hh.lastSent, hh.ordered, hh.past⟩
  · exact fun id h hh => (hinv id h hh).advance hnow

/-- **Every handler has the interval of its request.** -/
theorem exists_request_of_handler {asset : String} {l : List (StreamEvent σ)} {s : StreamSystem σ}
    (hrun : Run streamStep (.init asset) l s) {id : QueueId} {h : Handler σ}
    (hh : s.handlers id = some h) :
    ∃ request, .start id request ∈ l ∧ checkAsset asset request.asset = .ok () ∧
      h.minInterval = Double.ofRat (exactInterval request.maxRateHz) := by
  refine hrun.history (I := fun l s => ∀ id h, s.handlers id = some h → ∃ request,
    .start id request ∈ l ∧ checkAsset asset request.asset = .ok () ∧
      h.minInterval = Double.ofRat (exactInterval request.maxRateHz)) ?_ ?_ id h hh
  · intro id h hh
    cases hh
  · intro l s e t hs ih hstep
    have hold : ∀ id h, s.handlers id = some h → ∃ request, .start id request ∈ l ++ [e] ∧
        checkAsset asset request.asset = .ok () ∧
          h.minInterval = Double.ofRat (exactInterval request.maxRateHz) := by
      intro id h hh
      obtain ⟨request, hmem, hrest⟩ := ih id h hh
      exact ⟨request, List.mem_append_left _ hmem, hrest⟩
    -- a step that puts a handler in the place of one with the same interval
    have hupdate : ∀ {id : QueueId} {h h' : Handler σ}, s.handlers id = some h →
        h'.minInterval = h.minInterval → ∀ id' h'',
        Function.update s.handlers id (some h') id' = some h'' → ∃ request,
          .start id' request ∈ l ++ [e] ∧ checkAsset asset request.asset = .ok () ∧
            h''.minInterval = Double.ofRat (exactInterval request.maxRateHz) := by
      intro id h h' hh hsame id' h'' heq
      rw [Function.update_apply] at heq
      split_ifs at heq with hid
      · obtain rfl := Option.some.inj heq
        rw [hid, hsame]
        exact hold id h hh
      · exact hold id' h'' heq
    rcases streamStep_cases hstep with ⟨_, _, -, -, rfl⟩ | ⟨_, _, _, -, -, rfl⟩ |
      ⟨id, request, i, _, rfl, hasset, hi, -, rfl⟩ | ⟨id, h, state, _, _, -, hh, -, -, -, rfl⟩ |
      ⟨id, h, -, hh, -, rfl⟩ | ⟨id, h, _, -, hh, -, -, rfl⟩ | ⟨now, -, -, rfl⟩
    · exact hold
    · exact hold
    · intro id' h' heq
      simp only [Function.update_apply] at heq
      split_ifs at heq with hid
      · obtain rfl := Option.some.inj heq
        rw [asset_of_run hs] at hasset
        refine ⟨request, by simp [hid], hasset, ?_⟩
        exact Except.ok.inj (hi.symm.trans (minInterval_eq request.maxRateHz))
      · exact hold id' h' heq
    · refine hupdate hh ?_
      unfold Handler.receive
      simp only
      split_ifs <;> rfl
    · exact hupdate hh rfl
    · exact hupdate hh rfl
    · exact hold

end handlers

/-! ## The bounds -/

/-- What a limiter keeps honours the rate: it keeps the first item, only items that there are and in
their order, and all of them without an interval; what it keeps is apart; and where the items are
never more than a period apart, what it keeps is never more than the interval and the period apart,
and the last item comes no more after the last one that is kept. -/
structure HonoursRate {α : Type} (apart : α → α → Prop) (time : α → ℝ) (interval : ℝ)
    (items kept : List α) : Prop where
  first : kept.head? = items.head?
  sublist : kept.Sublist items
  all : interval = 0 → kept = items
  apart : kept.IsChain apart
  close : ∀ period : ℝ, 0 ≤ period → items.IsChain (fun a b => time b - time a ≤ period) →
    kept.IsChain (fun a b => time b - time a ≤ interval + period) ∧
      ∀ a ∈ items.getLast?, ∀ b ∈ kept.getLast?, time a - time b ≤ interval + period

/-- **The loop honours the rate**, where its test says of the times what it should say: it passes
from the beginning, and an item that it drops comes no later than the interval after another one. -/
theorem honoursRate_decimate {α T : Type} [Sub T] [LT T] [DecidableLT T] {now : α → T}
    {minInterval lastSent : T} {apart : α → α → Prop} {time : α → ℝ} {interval : ℝ} {items : List α}
    (hfirst : ∀ a, ¬ now a - lastSent < minInterval)
    (htest : ∀ a b, now b - now a < minInterval → time b - time a ≤ interval)
    (hall : interval = 0 → items.Pairwise fun a b => ¬ now b - now a < minInterval)
    (hinterval : 0 ≤ interval) (hapart : ∀ a b, ¬ now b - now a < minInterval → apart a b) :
    HonoursRate apart time interval items (decimate now minInterval lastSent items) := by
  unfold decimate
  rcases items with _ | ⟨a, items⟩
  · refine ⟨rfl, .slnil, fun _ => rfl, List.isChain_nil, fun period _ _ => ⟨List.isChain_nil, ?_⟩⟩
    rintro b ⟨⟩
  · rw [spaced_cons_of_not now minInterval (hfirst a)]
    refine ⟨rfl, (spaced_sublist ..).cons_cons a, fun hzero => ?_, ?_,
      fun period hperiod hgap => ?_⟩
    · rw [spaced_eq_self now minInterval (hall hzero)]
    · exact (isChain_not_lt_spaced now minInterval a items).imp fun _ _ => hapart _ _
    · exact isChain_spaced_of_gap time htest hinterval hperiod (by rwa [sub_self]) hgap

/-- What a call at a rate yields of states that it dequeues at real times. -/
noncomputable def yields {σ : Type} (maxRateHz : Double) (dequeued : List (σ × ℝ)) : List (σ × ℝ) :=
  decimate (fun d => (d.2 : EReal)) ((exactInterval maxRateHz : ℝ) : EReal) ⊥ dequeued

/-- The exact interval is not negative as a real number either. -/
theorem exactInterval_cast_nonneg (maxRateHz : Double) : (0 : ℝ) ≤ exactInterval maxRateHz := by
  exact_mod_cast exactInterval_nonneg maxRateHz

/-- The bounds in exact arithmetic. -/
theorem honoursRate_yields {σ : Type} (maxRateHz : Double) {dequeued : List (σ × ℝ)}
    (hordered : dequeued.Pairwise fun d e => d.2 ≤ e.2) :
    HonoursRate (fun d e => (exactInterval maxRateHz : ℝ) ≤ e.2 - d.2) Prod.snd
      (exactInterval maxRateHz) dequeued (yields maxRateHz dequeued) := by
  have htest : ∀ d e : σ × ℝ,
      (e.2 : EReal) - d.2 < ((exactInterval maxRateHz : ℝ) : EReal) ↔
        e.2 - d.2 < exactInterval maxRateHz := by
    intro d e
    rw [← EReal.coe_sub, EReal.coe_lt_coe_iff]
  apply honoursRate_decimate
  · intro d
    rw [EReal.coe_sub_bot]
    exact not_top_lt
  · exact fun d e hlt => ((htest d e).mp hlt).le
  · intro hzero
    refine hordered.imp fun {d e} hle => ?_
    rw [htest, hzero, not_lt]
    exact sub_nonneg.mpr hle
  · exact exactInterval_cast_nonneg maxRateHz
  · exact fun d e hnot => not_lt.mp (mt (htest d e).mpr hnot)

/-- The bounds over doubles, where the differences and the interval are rounded. -/
theorem honoursRate_yieldsOf [CPython] {σ : Type} (maxRateHz : Double) {dequeued : List (Dequeue σ)}
    (hordered : dequeued.Pairwise fun d e => d.now.val ≤ e.now.val) :
    HonoursRate
      (fun d e => ¬ Double.ofRat (e.now.val - d.now.val) < Double.ofRat (exactInterval maxRateHz))
      (fun d => (d.now.val : ℝ)) (exactInterval maxRateHz) dequeued
      (yieldsOf (Double.ofRat (exactInterval maxRateHz)) dequeued) := by
  have hsub : ∀ d e : Dequeue σ, e.time - d.time = Double.ofRat (e.now.val - d.now.val) :=
    fun d e => Double.sub_finite_finite e.now d.now
  apply honoursRate_decimate
  · exact fun d => Double.not_inf_false_lt _
  · -- a difference that is rounded below the interval is not above it
    intro d e hlt
    rw [hsub] at hlt
    have hle : e.now.val - d.now.val ≤ exactInterval maxRateHz := by
      by_contra hgt
      exact Double.not_ofRat_lt_ofRat (not_le.mp hgt).le hlt
    exact_mod_cast hle
  · intro hzero
    refine hordered.imp fun {d e} hle => ?_
    rw [hsub, Rat.cast_eq_zero.mp hzero]
    exact Double.not_ofRat_lt_ofRat (sub_nonneg.mpr hle)
  · exact exactInterval_cast_nonneg maxRateHz
  · exact fun d e hnot => hsub d e ▸ hnot

/-- **Decimation honours the rate and wastes at most one period.** The interval of a rate is one by
the rate where that is positive, and zero else. In exact arithmetic, at every rate and for every
sequence of states dequeued in the order of time: the first is yielded; the yields are a subsequence
of the states, and all of them without an interval; they are an interval apart; and where the
dequeues are never more than a period apart, the yields are never more than an interval and a period
apart, and the last dequeue comes no more after the last yield. And after every run of a servicer
every handler has the interval of its request, rounded once, and yielded of what it dequeued what
the same loop keeps over doubles, with the same bounds: only that yields are apart is up to the
rounding of the interval and of the difference. Source: `grpc_server.py`,
`StateServicer.StreamState` -/
theorem decimation_honours_rate :
    (∀ maxRateHz : Double,
      (∀ x, maxRateHz = .finite x → 0 < x.val → exactInterval maxRateHz = 1 / x.val) ∧
      (¬ .finite Double.zero < maxRateHz → exactInterval maxRateHz = 0) ∧
      (maxRateHz = .inf false → exactInterval maxRateHz = 0)) ∧
    (∀ {σ : Type} (maxRateHz : Double) (dequeued : List (σ × ℝ)),
      dequeued.Pairwise (fun d e => d.2 ≤ e.2) →
      HonoursRate (fun d e => (exactInterval maxRateHz : ℝ) ≤ e.2 - d.2) Prod.snd
        (exactInterval maxRateHz) dequeued (yields maxRateHz dequeued)) ∧
    ∀ [CPython] {σ : Type} {asset : String} {l : List (StreamEvent σ)} {s : StreamSystem σ},
      Run streamStep (.init asset) l s → ∀ id h, s.handlers id = some h →
      ∃ request, .start id request ∈ l ∧ checkAsset asset request.asset = .ok () ∧
        h.minInterval = Double.ofRat (exactInterval request.maxRateHz) ∧
        h.yielded = (yieldsOf h.minInterval h.dequeued).map Dequeue.state ∧
        HonoursRate (fun d e => ¬ Double.ofRat (e.now.val - d.now.val) < h.minInterval)
          (fun d => (d.now.val : ℝ)) (exactInterval request.maxRateHz) h.dequeued
          (yieldsOf h.minInterval h.dequeued) := by
  refine ⟨fun maxRateHz => ⟨?_, ?_, ?_⟩, fun maxRateHz dequeued => honoursRate_yields maxRateHz, ?_⟩
  · rintro x rfl hpos
    exact if_pos hpos
  · intro hnot
    cases maxRateHz with
    | finite x => exact if_neg hnot
    | inf s => rfl
    | nan => rfl
  · rintro rfl
    rfl
  · intro _ σ asset l s hrun id h hh
    obtain ⟨request, hmem, hasset, hrate⟩ := exists_request_of_handler hrun hh
    have hinv := decimationInv_of_run hrun id h hh
    refine ⟨request, hmem, hasset, hrate, hinv.yielded, ?_⟩
    rw [hrate]
    exact honoursRate_yieldsOf request.maxRateHz hinv.ordered

/-! ### Calls at 1 Hz -/

section platform

attribute [local instance] CPython.series

/-- One state a second is an interval of one second. -/
theorem exactInterval_one : exactInterval (.finite Double.one) = 1 := by
  simp [exactInterval]

/-- `StreamState` computes this interval exactly. -/
theorem minInterval_one : minInterval (.finite Double.one) = .ok (.finite Double.one) := by
  rw [minInterval_eq, exactInterval_one, Double.ofRat_one]

/-- Two publications to a call at 1 Hz, without the dequeue of the second. -/
def twoPublications : List (StreamEvent ℕ) :=
  [.start 0 ⟨"", .finite Double.one⟩, .publish 5, .dequeue 0, .resume 0, .publish 7]

/-- Its handler after the first one. -/
def afterFirst : Handler ℕ :=
  ⟨.finite Double.one, .finite Double.zero, .waiting, [⟨5, Double.zero, .inf true⟩], [5]⟩

/-- The second one comes at the time of the first yield, and is dropped. -/
theorem receive_afterFirst : afterFirst.receive 7 Double.zero = { afterFirst with
    dequeued := afterFirst.dequeued ++ [⟨7, Double.zero, .finite Double.zero⟩] } := by
  have hdrop :
      (⟨7, Double.zero, .finite Double.zero⟩ : Dequeue ℕ).Dropped (.finite Double.one) := by
    unfold Dequeue.Dropped
    simp [sub_double]
  exact if_pos hdrop

/-- A third one two seconds later is yielded. -/
theorem receive_afterSecond : ((afterFirst.receive 7 Double.zero).receive 9 Double.two).yielded =
    [5, 9] := by
  have hnot :
      ¬ (⟨9, Double.two, .finite Double.zero⟩ : Dequeue ℕ).Dropped (.finite Double.one) := by
    unfold Dequeue.Dropped
    simp [sub_double]
  rw [receive_afterFirst]
  exact congrArg Handler.yielded (if_neg hnot)

/-- The three publications, with the dequeues. -/
def threePublications : List (StreamEvent ℕ) :=
  twoPublications ++ [.dequeue 0] ++ [.advance Double.two] ++ [.publish 9] ++ [.dequeue 0]

/-- The run goes through, with this handler. -/
theorem run_threePublications : ∃ s, Run streamStep (.init "ur5") threePublications s ∧
    s.handlers 0 = some ((afterFirst.receive 7 Double.zero).receive 9 Double.two) := by
  have hexec : exec streamStep (.init "ur5") twoPublications = some ?_ := by
    simp only [twoPublications, exec, streamStep, minInterval_one]
    rfl
  have hadvance : Double.zero.val ≤ Double.two.val := by
    rw [Double.two_val, Double.zero_val]
    norm_num
  have hwaiting : (afterFirst.receive 7 Double.zero).phase = .waiting :=
    congrArg Handler.phase receive_afterFirst
  refine ⟨_, ((((Run.of_exec hexec).snoc (streamStep_dequeue rfl rfl rfl)).snoc
    (streamStep_advance hadvance)).snoc rfl).snoc (streamStep_dequeue rfl hwaiting rfl), rfl⟩

/-- Of states at 0, 1/2 and 1 seconds the second one is dropped. -/
theorem yields_seconds : yields (.finite Double.one) [((5 : ℕ), (0 : ℝ)), (7, 1 / 2), (9, 1)] =
    [(5, 0), (9, 1)] := by
  have htest : ∀ s t : ℝ, (t : EReal) - s < (((1 : ℚ) : ℝ) : EReal) ↔ t - s < 1 := by
    intro s t
    rw [← EReal.coe_sub, EReal.coe_lt_coe_iff, Rat.cast_one]
  have hfirst : ¬ ((0 : ℝ) : EReal) - ⊥ < (((1 : ℚ) : ℝ) : EReal) := by
    rw [EReal.coe_sub_bot]
    exact not_top_lt
  have hsecond : ((1 / 2 : ℝ) : EReal) - (0 : ℝ) < (((1 : ℚ) : ℝ) : EReal) :=
    (htest 0 (1 / 2)).mpr (by norm_num)
  have hthird : ¬ ((1 : ℝ) : EReal) - (0 : ℝ) < (((1 : ℚ) : ℝ) : EReal) :=
    mt (htest 0 1).mp (by norm_num)
  unfold yields decimate
  rw [exactInterval_one]
  simp only [spaced, if_neg hfirst, if_pos hsecond, if_neg hthird]

/-- At one state a second the middle one of three is skipped, in exact time and by the handler of a
run. -/
theorem decimation_honours_rate_seconds :
    (yields (.finite Double.one) [((5 : ℕ), (0 : ℝ)), (7, 1 / 2), (9, 1)] = [(5, 0), (9, 1)] ∧
      HonoursRate (fun d e => (exactInterval (.finite Double.one) : ℝ) ≤ e.2 - d.2) Prod.snd
        (exactInterval (.finite Double.one)) [((5 : ℕ), (0 : ℝ)), (7, 1 / 2), (9, 1)]
        [(5, 0), (9, 1)]) ∧
    ∃ s h, Run streamStep (.init "ur5") threePublications s ∧ s.handlers 0 = some h ∧
      h.yielded = [5, 9] ∧ ∃ request, .start 0 request ∈ threePublications ∧
        HonoursRate (fun d e => ¬ Double.ofRat (e.now.val - d.now.val) < h.minInterval)
          (fun d => (d.now.val : ℝ)) (exactInterval request.maxRateHz) h.dequeued
          (yieldsOf h.minInterval h.dequeued) := by
  obtain ⟨-, hexact, hhandlers⟩ := decimation_honours_rate
  have hordered : [((5 : ℕ), (0 : ℝ)), (7, 1 / 2), (9, 1)].Pairwise fun d e => d.2 ≤ e.2 := by
    simp
    norm_num
  have hhonours := hexact (.finite Double.one) _ hordered
  rw [yields_seconds] at hhonours
  obtain ⟨s, hrun, hh⟩ := run_threePublications
  obtain ⟨request, hmem, -, -, -, hbounds⟩ := hhandlers hrun 0 _ hh
  exact ⟨⟨yields_seconds, hhonours⟩, s, _, hrun, hh, receive_afterSecond, request, hmem, hbounds⟩

end platform

end TwinServices.State
