import TwinServices.Lib.Transition
import Mathlib.Logic.Function.Basic

/-!
# Sites on a broker

Any number of sites, each a transition system of its own that sends messages to one broker. A site
takes a message in through one of its clients, and the broker hands a client only what was sent and
what the client subscribed to. It may lose messages, delay them and hand them over again: nothing
else is asked of it.

* `Sites`, `Net`, `Sites.netStep`: the sites, the broker with what was sent, and one step of both.
* `Sites.run_site`: what a run of the network is for one site.
* `Sites.sent_of_mem_wire`, `Sites.mem_wire_of_sent`, `Sites.sent_of_received`: what is on the wire
  is what the sites sent, and what is handed over was sent by some site.
* `Sites.run_alone`: a site that the others send nothing to runs as it would alone, and sends the
  same.
-/

set_option autoImplicit false

namespace Lib.Network

open Lib.Transition

variable {ι γ σ ε μ : Type*}

/-- The sites by their names: states `σ`, labels `ε`, messages `μ`, and the clients `γ` through
which a site takes messages in. -/
structure Sites (ι γ σ ε μ : Type*) where
  init : ι → σ
  /-- One step of a site, with the messages that it sends. -/
  step : ι → σ → ε → Option (σ × List μ)
  /-- The message that a label takes in, and the client it comes through. -/
  receives : ε → Option (γ × μ)
  subscribed : ι → γ → μ → Bool

/-- The sites and what was sent, oldest first. -/
structure Net (ι σ μ : Type*) where
  site : ι → σ
  wire : List μ

namespace Sites

variable (S : Sites ι γ σ ε μ)

/-- One step of a site by itself. -/
def siteStep (i : ι) (s : σ) (e : ε) : Option σ := (S.step i s e).map Prod.fst

/-- The broker can hand over what the label takes in. -/
def deliverable [DecidableEq μ] (wire : List μ) (i : ι) (e : ε) : Bool :=
  match S.receives e with
  | none => true
  | some (c, m) => decide (m ∈ wire) && S.subscribed i c m

/-- The sites at their start, before anything is sent. -/
def netInit : Net ι σ μ := ⟨S.init, []⟩

/-- One step of one site in the network. -/
def netStep [DecidableEq ι] [DecidableEq μ] (net : Net ι σ μ) (a : ι × ε) : Option (Net ι σ μ) :=
  if S.deliverable net.wire a.1 a.2 then
    (S.step a.1 (net.site a.1) a.2).map fun r =>
      ⟨Function.update net.site a.1 r.1, net.wire ++ r.2⟩
  else none

/-- The label of a step of one site. -/
def own [DecidableEq ι] (i : ι) (a : ι × ε) : Option ε := if a.1 = i then some a.2 else none

/-- A site sends the message at some step of its run over the labels. -/
def SentBy (i : ι) (l : List ε) (m : μ) : Prop :=
  ∃ before s e t sent, before ++ [e] <+: l ∧ Run (S.siteStep i) (S.init i) before s ∧
    S.step i s e = some (t, sent) ∧ m ∈ sent

variable {S}

/-- What was sent stays sent. -/
theorem SentBy.mono {i : ι} {l l' : List ε} {m : μ} (h : S.SentBy i l m) (hp : l <+: l') :
    S.SentBy i l' m := by
  obtain ⟨before, s, e, t, sent, hbefore, hrun, hstep, hmem⟩ := h
  exact ⟨before, s, e, t, sent, hbefore.trans hp, hrun, hstep, hmem⟩

/-- A step that sends nothing or takes nothing in is a step whatever was sent. -/
theorem deliverable_of_wire [DecidableEq μ] {wire wire' : List μ} {i : ι} {e : ε}
    (h : S.deliverable wire i e = true)
    (hwire : ∀ c m, S.receives e = some (c, m) → m ∈ wire → S.subscribed i c m = true →
      m ∈ wire') : S.deliverable wire' i e = true := by
  unfold deliverable at h ⊢
  rcases hreceives : S.receives e with _ | ⟨c, m⟩
  · rfl
  · simp only [hreceives, Bool.and_eq_true, decide_eq_true_eq] at h ⊢
    exact ⟨hwire c m hreceives h.1 h.2, h.2⟩

/-- A message that can be delivered is on the wire and subscribed to. -/
theorem mem_of_deliverable [DecidableEq μ] {wire : List μ} {i : ι} {e : ε}
    (h : S.deliverable wire i e = true) {c : γ} {m : μ} (hreceives : S.receives e = some (c, m)) :
    m ∈ wire ∧ S.subscribed i c m = true := by
  simpa only [deliverable, hreceives, Bool.and_eq_true, decide_eq_true_eq] using h

variable [DecidableEq ι] [DecidableEq μ]

/-- What a step of the network is. -/
theorem netStep_eq_some {net net' : Net ι σ μ} {a : ι × ε} (h : S.netStep net a = some net') :
    ∃ t sent, S.deliverable net.wire a.1 a.2 = true ∧
      S.step a.1 (net.site a.1) a.2 = some (t, sent) ∧
      net' = ⟨Function.update net.site a.1 t, net.wire ++ sent⟩ := by
  unfold netStep at h
  split_ifs at h with hdeliverable
  obtain ⟨⟨t, sent⟩, hstep, rfl⟩ := Option.map_eq_some_iff.mp h
  exact ⟨t, sent, hdeliverable, hstep, rfl⟩

/-- **A run of the network is a run of each site.** -/
theorem run_site {l : List (ι × ε)} {net : Net ι σ μ} (h : Run S.netStep S.netInit l net) (i : ι) :
    Run (S.siteStep i) (S.init i) (l.filterMap (own i)) (net.site i) := by
  apply h.simulate (fun net : Net ι σ μ => net.site i) (own i)
  · rintro _ net ⟨j, e⟩ net' - hstep hown
    obtain ⟨t, sent, -, -, rfl⟩ := netStep_eq_some hstep
    have hne : i ≠ j := by
      rintro rfl
      simp [own] at hown
    exact Function.update_of_ne hne t net.site
  · rintro _ net ⟨j, e⟩ net' b - hstep hown
    obtain ⟨t, sent, -, hsite, rfl⟩ := netStep_eq_some hstep
    obtain ⟨rfl, rfl⟩ : j = i ∧ e = b := by
      simpa [own] using hown
    simp only [siteStep, hsite, Option.map_some, Function.update_self]

/-- The labels of a site in a longer run. -/
theorem own_prefix_concat (l : List (ι × ε)) (a : ι × ε) (i : ι) :
    l.filterMap (own i) <+: (l ++ [a]).filterMap (own i) := by
  rw [List.filterMap_append]
  exact List.prefix_append ..

/-- **What is on the wire was sent by a site**, at a step of its run. -/
theorem sent_of_mem_wire {l : List (ι × ε)} {net : Net ι σ μ}
    (h : Run S.netStep S.netInit l net) {m : μ} (hm : m ∈ net.wire) :
    ∃ i, S.SentBy i (l.filterMap (own i)) m := by
  refine h.history (I := fun l net => ∀ m ∈ net.wire,
    ∃ i, S.SentBy i (l.filterMap (own i)) m) ?_ ?_ m hm
  · intro m hm
    cases hm
  · rintro l net ⟨j, e⟩ net' hrun ih hstep m hm
    obtain ⟨t, sent, -, hsite, rfl⟩ := netStep_eq_some hstep
    rcases List.mem_append.mp hm with hm | hm
    · obtain ⟨i, hsent⟩ := ih m hm
      exact ⟨i, hsent.mono (own_prefix_concat l (j, e) i)⟩
    · refine ⟨j, l.filterMap (own j), net.site j, e, t, sent, ?_, run_site hrun j, hsite, hm⟩
      rw [List.filterMap_append, List.filterMap_cons_some (b := e) (by simp [own]),
        List.filterMap_nil]

/-- **What a site sends is on the wire.** -/
theorem mem_wire_of_sent {l : List (ι × ε)} {net : Net ι σ μ}
    (h : Run S.netStep S.netInit l net) {i : ι} {m : μ}
    (hsent : S.SentBy i (l.filterMap (own i)) m) : m ∈ net.wire := by
  refine h.history (I := fun l net => S.SentBy i (l.filterMap (own i)) m → m ∈ net.wire) ?_ ?_ hsent
  · rintro ⟨before, s, e, t, sent, hbefore, -⟩
    exact absurd (List.prefix_nil.mp hbefore) (by simp)
  · rintro l net ⟨j, e⟩ net' hrun ih hstep ⟨before, s, b, t, sent, hbefore, hs, hsite, hm⟩
    obtain ⟨t', sent', -, hsite', rfl⟩ := netStep_eq_some hstep
    by_cases hj : j = i
    · subst hj
      rw [List.filterMap_append, List.filterMap_cons_some (b := e) (by simp [own]),
        List.filterMap_nil] at hbefore
      rcases List.prefix_concat_iff.mp hbefore with heq | hp
      · -- the message of this very step
        obtain ⟨rfl, rfl⟩ := List.append_singleton_inj.mp heq
        obtain rfl := hs.det (run_site hrun j)
        obtain ⟨rfl, rfl⟩ := Prod.mk.inj (Option.some.inj (hsite'.symm.trans hsite))
        exact List.mem_append_right _ hm
      · exact List.mem_append_left _ (ih ⟨before, s, b, t, sent, hp, hs, hsite, hm⟩)
    · rw [List.filterMap_append, List.filterMap_cons_none (by simp [own, hj]), List.filterMap_nil,
        List.append_nil] at hbefore
      exact List.mem_append_left _ (ih ⟨before, s, b, t, sent, hbefore, hs, hsite, hm⟩)

/-- **What a site takes in was sent by a site**, and the client subscribed to it. -/
theorem sent_of_received {l : List (ι × ε)} {net : Net ι σ μ}
    (h : Run S.netStep S.netInit l net) {i : ι} {e : ε} (he : e ∈ l.filterMap (own i)) {c : γ}
    {m : μ} (hreceives : S.receives e = some (c, m)) :
    S.subscribed i c m = true ∧ ∃ j, S.SentBy j (l.filterMap (own j)) m := by
  refine h.history (I := fun l _ => ∀ e ∈ l.filterMap (own i), S.receives e = some (c, m) →
    S.subscribed i c m = true ∧ ∃ j, S.SentBy j (l.filterMap (own j)) m) ?_ ?_ e he hreceives
  · intro e he
    cases he
  · rintro l net ⟨j, b⟩ net' hrun ih hstep e he hreceives
    rw [List.filterMap_append] at he
    rcases List.mem_append.mp he with he | he
    · obtain ⟨hsubscribed, k, hsent⟩ := ih e he hreceives
      exact ⟨hsubscribed, k, hsent.mono (own_prefix_concat l (j, b) k)⟩
    · obtain ⟨a, ha, hown⟩ := List.mem_filterMap.mp he
      obtain rfl := List.mem_singleton.mp ha
      obtain ⟨rfl, rfl⟩ : j = i ∧ b = e := by
        simpa [own] using hown
      obtain ⟨t, sent, hdeliverable, -, -⟩ := netStep_eq_some hstep
      obtain ⟨hm, hsubscribed⟩ := mem_of_deliverable hdeliverable hreceives
      obtain ⟨k, hsent⟩ := sent_of_mem_wire hrun hm
      exact ⟨hsubscribed, k, hsent.mono (own_prefix_concat l (j, b) k)⟩

/-- The other sites send nothing that a client of this one subscribed to. -/
def Apart (S : Sites ι γ σ ε μ) (i : ι) : Prop :=
  ∀ j, j ≠ i → ∀ l m, S.SentBy j l m → ∀ c, S.subscribed i c m = false

/-- **A site that is apart runs as it would alone.** Leaving out the steps of all other sites leaves
a run of the network, this site in the state in which it was, and on the wire the messages that are
its own, in their order. -/
theorem run_alone {i : ι} (hapart : S.Apart i) {P : μ → Bool}
    (hmine : ∀ l m, S.SentBy i l m → P m = true)
    (hothers : ∀ j, j ≠ i → ∀ l m, S.SentBy j l m → P m = false) {l : List (ι × ε)}
    {net : Net ι σ μ} (h : Run S.netStep S.netInit l net) :
    ∃ net', Run S.netStep S.netInit (l.filter fun a => a.1 = i) net' ∧
      net'.site i = net.site i ∧ net'.wire = net.wire.filter P := by
  refine h.history (I := fun l net => ∃ net',
    Run S.netStep S.netInit (l.filter fun a => a.1 = i) net' ∧ net'.site i = net.site i ∧
    net'.wire = net.wire.filter P) ?_ ?_
  · exact ⟨S.netInit, .nil, rfl, rfl⟩
  · rintro l net ⟨j, e⟩ net₁ hrun ⟨net', hrun', hsite, hwire⟩ hstep
    obtain ⟨t, sent, hdeliverable, hown, rfl⟩ := netStep_eq_some hstep
    have hsent : ∀ m ∈ sent, S.SentBy j (l.filterMap (own j) ++ [e]) m := fun m hm =>
      ⟨_, _, e, t, sent, List.prefix_rfl, run_site hrun j, hown, hm⟩
    rw [List.filter_append]
    by_cases hj : j = i
    · -- a step of this site: the broker can hand over the same message
      subst hj
      rw [List.filter_cons_of_pos (by simp), List.filter_nil]
      refine ⟨⟨Function.update net'.site j t, net'.wire ++ sent⟩, hrun'.snoc ?_, ?_, ?_⟩
      · have hdeliverable' : S.deliverable net'.wire j e = true := by
          refine deliverable_of_wire hdeliverable fun c m _ hm hsubscribed => ?_
          obtain ⟨k, hk⟩ := sent_of_mem_wire hrun hm
          by_cases heq : k = j
          · rw [hwire]
            exact List.mem_filter.mpr ⟨hm, hmine _ m (heq ▸ hk)⟩
          · rw [hapart k heq _ m hk c] at hsubscribed
            cases hsubscribed
        simp only [netStep, hdeliverable', if_true, hsite, hown, Option.map_some]
      · simp only [Function.update_self]
      · rw [List.filter_append, hwire, List.filter_eq_self.mpr fun m hm => hmine _ m (hsent m hm)]
    · -- a step of another site sends nothing that is of this one
      rw [List.filter_cons_of_neg (by simpa using hj), List.filter_nil, List.append_nil]
      refine ⟨net', hrun', ?_, ?_⟩
      · rw [hsite]
        exact (Function.update_of_ne (Ne.symm hj) t net.site).symm
      · have hnone : sent.filter P = [] := by
          rw [List.filter_eq_nil_iff]
          intro m hm
          rw [hothers j hj _ m (hsent m hm)]
          exact Bool.false_ne_true
        rw [List.filter_append, hnone, List.append_nil, hwire]

end Sites

end Lib.Network
