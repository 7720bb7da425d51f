import Mathlib.Data.List.DropRight
import Mathlib.Data.List.Infix
import Mathlib.Data.List.ReduceOption

/-!
# Runs of a labelled transition system

A component is a state type `σ`, a label type `α` and a partial step function
`step : σ → α → Option σ`: a label that is not enabled in a state gives `none`. Concurrency is
modelled by labels, one per atomic step of one party, so a theorem about every `Run` is a theorem
about every interleaving.

* `Run step init l s`: the labels `l`, taken in order from `init`, end in `s`; `exec` computes it.
* `Run.history`: the invariant rule. The invariant may read the labels taken so far, which is how
  a state is related to its history.
* `Throughout`, `AlongSteps`: a property of every state a run passes through, a condition on
  every step it takes.
* `Run.throughout_iff`: where one step keeps `P` exactly when it meets `C`, a run keeps `P`
  throughout exactly when all its steps meet `C`; `Run.throughout_iff_of_inv` where that takes an
  invariant which `C` keeps as well.
* `restartable`, `Run.sinceRestart`: a component that may stop and start again at any time is where
  a run over the labels since its last start leads.
-/

set_option autoImplicit false

namespace Lib.Transition

variable {σ α : Type*} {step : σ → α → Option σ} {init : σ}

/-- `Run step init l s`: taking the labels `l` in order from `init` ends in `s`. The run grows at
its end, so an induction on it sees the last step. -/
inductive Run (step : σ → α → Option σ) (init : σ) : List α → σ → Prop
  | nil : Run step init [] init
  | snoc {l : List α} {s t : σ} {a : α} :
      Run step init l s → step s a = some t → Run step init (l ++ [a]) t

/-- The state that labels taken in order lead to. -/
def exec (step : σ → α → Option σ) : σ → List α → Option σ
  | s, [] => some s
  | s, a :: l => (step s a).bind fun t => exec step t l

namespace Run

/-- Executing the labels is a run over them. -/
theorem of_exec {l : List α} {t : σ} (h : exec step init l = some t) : Run step init l t := by
  have hfrom : ∀ (l₀ : List α) (s : σ), Run step init l₀ s → exec step s l = some t →
      Run step init (l₀ ++ l) t := by
    clear h
    induction l with
    | nil =>
        intro l₀ s hs h
        obtain rfl := Option.some.inj h
        rwa [List.append_nil]
    | cons a l ih =>
        intro l₀ s hs h
        obtain ⟨s', hs', h⟩ := Option.bind_eq_some_iff.mp h
        rw [← List.singleton_append, ← List.append_assoc]
        exact ih _ s' (hs.snoc hs') h
  exact hfrom [] init .nil h

/-- The only run over no labels stays at the start. -/
theorem nil_inv {s : σ} (h : Run step init [] s) : s = init := by
  generalize hl : ([] : List α) = l at h
  cases h with
  | nil => rfl
  | snoc _ _ => exact absurd hl (by simp)

/-- The last step of a run. -/
theorem snoc_inv {l : List α} {a : α} {t : σ} (h : Run step init (l ++ [a]) t) :
    ∃ s, Run step init l s ∧ step s a = some t := by
  generalize hl : l ++ [a] = l' at h
  cases h with
  | nil => exact absurd hl (by simp)
  | snoc hr hs =>
      obtain ⟨rfl, rfl⟩ := List.append_singleton_inj.mp hl
      exact ⟨_, hr, hs⟩

/-- The labels determine the state a run ends in. -/
theorem det {l : List α} {s t : σ} (hs : Run step init l s) (ht : Run step init l t) : s = t := by
  induction hs generalizing t with
  | nil => exact ht.nil_inv.symm
  | snoc _ hstep ih =>
      obtain ⟨s', hs', hstep'⟩ := ht.snoc_inv
      rw [ih hs', hstep'] at hstep
      exact (Option.some.inj hstep).symm

/-- A run may start where another one ended. -/
theorem append {l l' : List α} {s t : σ} (h : Run step init l s) (h' : Run step s l' t) :
    Run step init (l ++ l') t := by
  induction h' with
  | nil => rwa [List.append_nil]
  | snoc _ hs ih =>
      rw [← List.append_assoc]
      exact ih.snoc hs

/-- A run over two lists of labels, one after the other. -/
theorem append_inv {l l' : List α} {t : σ} (h : Run step init (l ++ l') t) :
    ∃ s, Run step init l s ∧ Run step s l' t := by
  induction l' using List.reverseRecOn generalizing t with
  | nil =>
      rw [List.append_nil] at h
      exact ⟨t, h, .nil⟩
  | append_singleton l' a ih =>
      rw [← List.append_assoc] at h
      obtain ⟨t', ht', hstep⟩ := h.snoc_inv
      obtain ⟨s, hs, hrest⟩ := ih ht'
      exact ⟨s, hs, hrest.snoc hstep⟩

/-- **The invariant rule.** A property of the labels taken so far and of the state reached holds
after every run if it holds at the start and every step keeps it. -/
theorem history {I : List α → σ → Prop} (h0 : I [] init)
    (hstep : ∀ l s a t, Run step init l s → I l s → step s a = some t → I (l ++ [a]) t)
    {l : List α} {s : σ} (h : Run step init l s) : I l s := by
  induction h with
  | nil => exact h0
  | snoc hr hs ih => exact hstep _ _ _ _ hr ih hs

/-- The invariant rule for a property of the state alone. -/
theorem invariant {I : σ → Prop} (h0 : I init)
    (hstep : ∀ s a t, I s → step s a = some t → I t)
    {l : List α} {s : σ} (h : Run step init l s) : I s :=
  h.history (I := fun _ s => I s) h0 fun _ s a t _ => hstep s a t

/-- **The simulation rule.** If under an abstraction of the states and a reading of the labels every
step is one step of another system, or none and changes nothing there, then a run is a run of the
other system over the labels as they are read. -/
theorem simulate {σ' α' : Type*} {step' : σ' → α' → Option σ'} (abs : σ → σ')
    (label : α → Option α')
    (hnone : ∀ l s a t, Run step init l s → step s a = some t → label a = none → abs t = abs s)
    (hsome : ∀ l s a t b, Run step init l s → step s a = some t → label a = some b →
      step' (abs s) b = some (abs t))
    {l : List α} {s : σ} (h : Run step init l s) :
    Run step' (abs init) (l.filterMap label) (abs s) := by
  induction h with
  | nil => exact .nil
  | @snoc l s t a hr hs ih =>
      rw [List.filterMap_append]
      rcases hlabel : label a with _ | b
      · rw [List.filterMap_cons_none hlabel, List.filterMap_nil, List.append_nil,
          hnone l s a t hr hs hlabel]
        exact ih
      · rw [List.filterMap_cons_some hlabel, List.filterMap_nil]
        exact ih.snoc (hsome l s a t b hr hs hlabel)

/-- Labels that stand for the same steps may stand for each other. -/
theorem relabel {R : α → α → Prop} {l l' : List α} {s : σ} (h : Run step init l s)
    (hl : List.Forall₂ R l l') (hstep : ∀ s a b, R a b → step s b = step s a) :
    Run step init l' s := by
  induction hl generalizing init with
  | nil => exact h
  | @cons a b l l' hab _ ih =>
      obtain ⟨t, hfirst, hrest⟩ := h.append_inv (l := [a])
      obtain ⟨s', hs', ha⟩ := hfirst.snoc_inv (l := [])
      obtain rfl := hs'.nil_inv
      have hb : Run step s' [b] t := Run.nil.snoc ((hstep s' a b hab).trans ha)
      exact hb.append (ih hrest)

/-- A label that is not read leaves a run over the read labels as it is. -/
theorem unread {α' : Type*} {l : List α'} {label : α' → Option α} {b : α'} {s : σ}
    (h : Run step init (l.filterMap label) s) (hb : label b = none) :
    Run step init ((l ++ [b]).filterMap label) s := by
  rwa [List.filterMap_append, List.filterMap_cons_none hb, List.filterMap_nil, List.append_nil]

/-- A label that is read makes a run over the read labels longer by one step. -/
theorem read {α' : Type*} {l : List α'} {label : α' → Option α} {b : α'} {a : α} {s t : σ}
    (h : Run step init (l.filterMap label) s) (hb : label b = some a) (hstep : step s a = some t) :
    Run step init ((l ++ [b]).filterMap label) t := by
  rw [List.filterMap_append, List.filterMap_cons_some hb, List.filterMap_nil]
  exact h.snoc hstep

end Run

/-- `P` holds in every state the run over `l` passes through. -/
def Throughout (step : σ → α → Option σ) (init : σ) (P : σ → Prop) (l : List α) : Prop :=
  ∀ l' s, l' <+: l → Run step init l' s → P s

/-- Every step of the run over `l` meets `C`, a condition on the state before it and its label. -/
def AlongSteps (step : σ → α → Option σ) (init : σ) (C : σ → α → Prop) (l : List α) : Prop :=
  ∀ l' s a, l' ++ [a] <+: l → Run step init l' s → C s a

/-- A step that is taken only at the end comes after all the others. -/
theorem eq_of_concat_prefix {l l' : List α} {a : α} (ha : a ∉ l) (h : l' ++ [a] <+: l ++ [a]) :
    l' = l := by
  rcases List.prefix_concat_iff.mp h with heq | hp
  · exact (List.append_singleton_inj.mp heq).1
  · exact absurd (hp.subset (List.mem_append_right _ (List.mem_singleton_self a))) ha

/-- A step that is not taken at the end was taken before. -/
theorem concat_prefix_of_append {l l' l'' : List α} {a : α} (ha : a ∉ l'')
    (h : l' ++ [a] <+: l ++ l'') : l' ++ [a] <+: l := by
  induction l'' using List.reverseRecOn with
  | nil => rwa [List.append_nil] at h
  | append_singleton l'' b ih =>
      rw [← List.append_assoc] at h
      rcases List.prefix_concat_iff.mp h with heq | hp
      · obtain rfl := (List.append_singleton_inj.mp heq).2
        exact absurd (List.mem_append_right _ (List.mem_singleton_self a)) ha
      · exact ih (fun hmem => ha (List.mem_append_left _ hmem)) hp

/-- A property throughout a longer run holds throughout a shorter one and at its end. -/
theorem throughout_snoc {P : σ → Prop} {l : List α} {a : α} {t : σ}
    (h : Run step init (l ++ [a]) t) :
    Throughout step init P (l ++ [a]) ↔ Throughout step init P l ∧ P t := by
  constructor
  · intro hP
    exact ⟨fun l' s hp => hP l' s (hp.trans (List.prefix_append l [a])),
      hP _ t List.prefix_rfl h⟩
  · rintro ⟨hP, ht⟩ l' s hp hs
    rcases List.prefix_concat_iff.mp hp with rfl | hp
    · rwa [hs.det h]
    · exact hP l' s hp hs

/-- A condition along a longer run is the condition along the shorter one and at the last step. -/
theorem alongSteps_snoc {C : σ → α → Prop} {l : List α} {a : α} {s : σ}
    (h : Run step init l s) :
    AlongSteps step init C (l ++ [a]) ↔ AlongSteps step init C l ∧ C s a := by
  constructor
  · intro hC
    exact ⟨fun l' s' b hp => hC l' s' b (hp.trans (List.prefix_append l [a])),
      hC l s a List.prefix_rfl h⟩
  · rintro ⟨hC, hlast⟩ l' s' b hp hs'
    rcases List.prefix_concat_iff.mp hp with heq | hp
    · obtain ⟨rfl, rfl⟩ := List.append_singleton_inj.mp heq
      rwa [hs'.det h]
    · exact hC l' s' b hp hs'

/-- The conditions along a run, from its first step on. -/
theorem alongSteps_cons {C : σ → α → Prop} {l : List α} {a : α} {t : σ} (h : step init a = some t) :
    AlongSteps step init C (a :: l) ↔ C init a ∧ AlongSteps step t C l := by
  constructor
  · intro hC
    refine ⟨hC [] init a (by simp) .nil, fun l' s b hp hs => ?_⟩
    exact hC (a :: l') s b (List.cons_prefix_cons.mpr ⟨rfl, hp⟩) ((Run.nil.snoc h).append hs)
  · rintro ⟨hfirst, hrest⟩ l' s b hp hs
    cases l' with
    | nil =>
        obtain ⟨rfl, -⟩ := List.cons_prefix_cons.mp hp
        rwa [hs.nil_inv]
    | cons a' l' =>
        obtain ⟨rfl, hrestPrefix⟩ := List.cons_prefix_cons.mp hp
        obtain ⟨t', ht', hs⟩ := hs.append_inv (l := [a'])
        obtain rfl := (Run.nil.snoc h).det ht'
        exact hrest l' s b hrestPrefix hs

/-- Every condition on the steps holds along no steps. -/
theorem alongSteps_nil {C : σ → α → Prop} : AlongSteps step init C [] :=
  fun l' s a hp _ => absurd hp (by simp)

/-- The conditions along a run that goes on are those along its parts. -/
theorem alongSteps_append {C : σ → α → Prop} {l l' : List α} {s t : σ} (h : Run step init l s)
    (h' : Run step s l' t) :
    AlongSteps step init C (l ++ l') ↔ AlongSteps step init C l ∧ AlongSteps step s C l' := by
  induction h' with
  | nil => rw [List.append_nil, and_iff_left alongSteps_nil]
  | snoc hr _ ih =>
      rw [← List.append_assoc, alongSteps_snoc (h.append hr), alongSteps_snoc hr, ih, and_assoc]

/-- Conditions that every label of the run meets in every state. -/
theorem alongSteps_of_forall {C : σ → α → Prop} {l : List α} (h : ∀ a ∈ l, ∀ s, C s a) :
    AlongSteps step init C l :=
  fun _ s a hp _ => h a (hp.subset (List.mem_append_right _ (List.mem_singleton_self a))) s

/-- Conditions that agree at every step of the run over `l` agree along it. -/
theorem alongSteps_congr {C D : σ → α → Prop} {l : List α}
    (h : ∀ l' s a, l' ++ [a] <+: l → Run step init l' s → (C s a ↔ D s a)) :
    AlongSteps step init C l ↔ AlongSteps step init D l := by
  constructor
  · intro hC l' s a hp hs
    exact (h l' s a hp hs).mp (hC l' s a hp hs)
  · intro hD l' s a hp hs
    exact (h l' s a hp hs).mpr (hD l' s a hp hs)

/-- **Exact conditions under an invariant.** If from a state with `P` and `J` a step leads to a
state with `P` exactly when the step meets `C`, and then to one with `J`, then a run has `P`
throughout exactly when all its steps meet `C`. -/
theorem Run.throughout_iff_of_inv {P J : σ → Prop} {C : σ → α → Prop} (h0 : P init) (hJ0 : J init)
    (hstep : ∀ l s a t, Run step init l s → P s → J s → step s a = some t → (P t ↔ C s a))
    (hJ : ∀ l s a t, Run step init l s → P s → J s → step s a = some t → C s a → J t)
    {l : List α} {s : σ} (h : Run step init l s) :
    Throughout step init P l ↔ AlongSteps step init C l := by
  have hboth : (Throughout step init P l ↔ AlongSteps step init C l) ∧
      (AlongSteps step init C l → J s) := by
    induction h with
    | nil =>
        refine ⟨⟨fun _ l' s a hp => absurd hp (by simp), fun _ l' s hp hs => ?_⟩, fun _ => hJ0⟩
        obtain rfl := List.prefix_nil.mp hp
        rwa [hs.nil_inv]
    | @snoc l s t a hr hs ih =>
        obtain ⟨ihP, ihJ⟩ := ih
        have hbefore : AlongSteps step init C l → P s ∧ J s := fun hC =>
          ⟨ihP.mpr hC l s List.prefix_rfl hr, ihJ hC⟩
        rw [throughout_snoc (hr.snoc hs), alongSteps_snoc hr, ihP]
        refine ⟨and_congr_right fun hC => ?_, fun hC => ?_⟩
        · exact hstep l s a t hr (hbefore hC).1 (hbefore hC).2 hs
        · exact hJ l s a t hr (hbefore hC.1).1 (hbefore hC.1).2 hs hC.2
  exact hboth.1

/-- **Exact conditions.** If from a state with `P` a step leads to a state with `P` exactly when
the step meets `C`, then a run has `P` throughout exactly when all its steps meet `C`. -/
theorem Run.throughout_iff {P : σ → Prop} {C : σ → α → Prop} (h0 : P init)
    (hstep : ∀ l s a t, Run step init l s → P s → step s a = some t → (P t ↔ C s a))
    {l : List α} {s : σ} (h : Run step init l s) :
    Throughout step init P l ↔ AlongSteps step init C l :=
  h.throughout_iff_of_inv (J := fun _ => True) h0 trivial
    (fun l s a t hr hs _ => hstep l s a t hr hs) fun _ _ _ _ _ _ _ _ _ => trivial

/-! ## Restarts -/

/-- A component that may stop at any time and then starts again without what it held; the label
`none` stands for that. -/
def restartable (step : σ → α → Option σ) (init s : σ) : Option α → Option σ
  | some a => step s a
  | none => some init

/-- The labels since the last start. -/
def sinceRestart (l : List (Option α)) : List α := (l.rtakeWhile Option.isSome).reduceOption

/-- An event after the last restart is since that restart. -/
theorem sinceRestart_concat_some (l : List (Option α)) (a : α) :
    sinceRestart (l ++ [some a]) = sinceRestart l ++ [a] := by
  unfold sinceRestart
  rw [List.rtakeWhile_concat_pos _ _ _ rfl, List.reduceOption_append]
  rfl

/-- Nothing is since a restart that comes last. -/
theorem sinceRestart_concat_none (l : List (Option α)) :
    sinceRestart (l ++ [none]) = [] := by
  unfold sinceRestart
  rw [List.rtakeWhile_concat_neg _ _ _ (by simp), List.reduceOption_nil]

/-- **Nothing is left of what was before the last start.** -/
theorem Run.sinceRestart {l : List (Option α)} {s : σ} (h : Run (restartable step init) init l s) :
    Run step init (sinceRestart l) s := by
  induction h with
  | nil => exact .nil
  | @snoc l s t a hr hs ih =>
      cases a with
      | some a =>
          rw [sinceRestart_concat_some]
          exact ih.snoc hs
      | none =>
          obtain rfl := Option.some.inj hs
          rw [sinceRestart_concat_none]
          exact .nil

/-- Labels that do not restart it are since the last start. -/
theorem sinceRestart_append_map_some (l₀ : List (Option α)) (l : List α) :
    sinceRestart (l₀ ++ l.map some) = sinceRestart l₀ ++ l := by
  induction l using List.reverseRecOn with
  | nil => rw [List.map_nil, List.append_nil, List.append_nil]
  | append_singleton l a ih =>
      rw [List.map_append, List.map_singleton, ← List.append_assoc, sinceRestart_concat_some, ih,
        List.append_assoc]

/-- A run without restarts. -/
theorem Run.map_some {s₀ s : σ} {l : List α} (h : Run step s₀ l s) :
    Run (restartable step init) s₀ (l.map some) s := by
  induction h with
  | nil => exact .nil
  | snoc _ hs ih =>
      rw [List.map_append]
      exact ih.snoc hs

end Lib.Transition
