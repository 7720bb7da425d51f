import TwinServices.State.Window

/-!
# The order of arrival

The window takes the newest stamp by maximum and the latest value of a channel by arrival. Over
samples with one stamp and one sample per channel that comes to the same in every order
(`observeAll_perm`); over samples with different stamps it does not.

* `observe_comm`: two samples of different channels with one stamp commute, from every window: the
  second finds the cutoff of the first.
* `snapshots_agree_iff`: two orders of arrival give every channel the value with the newest stamp
  exactly when in each of them the last sample of a channel has that value.
* `lateElbow_value`: an older sample that arrives last is reported under the newest stamp.
-/

set_option autoImplicit false

namespace TwinServices.State

open TwinServices.Python TwinServices.Contracts Lib.Binary64

namespace RollingWindow

/-! ## Samples with one stamp -/

section oneStamp

variable {F : Type}

/-- The channel of an observation. -/
def Observation.channel (o : Observation F) : String × JointField := (o.joint, o.field)

/-- **Two samples of different channels with one stamp commute**, from every window. -/
theorem observe_comm (w : RollingWindow F) {o o' : Observation F}
    (hstamp : o.sample.stampNs = o'.sample.stampNs) (hchannel : o.channel ≠ o'.channel) :
    (w.observe o.joint o.field o.sample).observe o'.joint o'.field o'.sample =
      (w.observe o'.joint o'.field o'.sample).observe o.joint o.field o.sample := by
  by_cases hmem : o.joint ∈ w.joints
  swap
  · rw [observe_of_not_mem w o.field o.sample hmem]
    exact (observe_of_not_mem _ _ _ (by rwa [observe_joints])).symm
  by_cases hmem' : o'.joint ∈ w.joints
  swap
  · rw [observe_of_not_mem w o'.field o'.sample hmem']
    exact observe_of_not_mem _ _ _ (by rwa [observe_joints])
  -- both samples find the same cutoff, whichever comes first
  have hmax : max (max w.stampNs o'.sample.stampNs) o'.sample.stampNs =
      max w.stampNs o'.sample.stampNs := max_eq_left (le_max_right _ _)
  unfold observe
  simp only [hmem, hmem', not_true_eq_false, if_false, hstamp, hmax]
  congr 1
  · exact (Function.update_comm hchannel.symm _ _ _).symm
  · by_cases hv : o.field = .velocity <;> by_cases hv' : o'.field = .velocity <;>
      simp only [hv, hv', if_true, if_false]
    have hjoint : o.joint ≠ o'.joint := by
      intro heq
      exact hchannel (Prod.ext heq (hv.trans hv'.symm))
    rw [Function.update_of_ne hjoint.symm, Function.update_of_ne hjoint,
      Function.update_comm hjoint]

/-- **One stamp, any order.** Samples with one stamp and one sample per channel leave one window,
in whatever order they arrive. -/
theorem observeAll_perm {obs obs' : List (Observation F)} (h : obs.Perm obs') {stampNs : ℕ}
    (hstamp : ∀ o ∈ obs, o.sample.stampNs = stampNs)
    (hnodup : (obs.map Observation.channel).Nodup) (w : RollingWindow F) :
    w.observeAll obs = w.observeAll obs' := by
  unfold observeAll
  apply h.foldl_eq'
  intro o ho o' ho' z
  by_cases hchannel : o.channel = o'.channel
  · rw [List.inj_on_of_nodup_map hnodup ho ho' hchannel]
  · exact observe_comm z ((hstamp o ho).trans (hstamp o' ho').symm) hchannel

/-- Samples with one stamp move the newest stamp up to it. -/
theorem stampNs_observeAll_of_stamp {w : RollingWindow F} {obs : List (Observation F)}
    {stampNs : ℕ} (hstamp : ∀ o ∈ obs, o.sample.stampNs = stampNs)
    (hmem : ∃ o ∈ obs, o.joint ∈ w.joints) :
    (w.observeAll obs).stampNs = max w.stampNs stampNs := by
  induction obs using List.reverseRecOn with
  | nil => simp at hmem
  | append_singleton obs o ih =>
      rw [List.forall_mem_append, List.forall_mem_singleton] at hstamp
      rw [observeAll_concat]
      by_cases ho : o.joint ∈ w.joints
      · rw [observe_stampNs _ _ _ (by rwa [observeAll_joints]), hstamp.2]
        by_cases hrest : ∃ o' ∈ obs, o'.joint ∈ w.joints
        · rw [ih hstamp.1 hrest]
          exact max_eq_left (le_max_right _ _)
        · have hsame : w.observeAll obs = w := observeAll_of_not_mem fun o' ho' hjoint =>
            hrest ⟨o', ho', hjoint⟩
          rw [hsame]
      · rw [observe_of_not_mem _ _ _ (by rwa [observeAll_joints])]
        apply ih hstamp.1
        obtain ⟨o', ho', hjoint⟩ := hmem
        rcases List.mem_append.mp ho' with ho' | ho'
        · exact ⟨o', ho', hjoint⟩
        · obtain rfl := List.mem_singleton.mp ho'
          exact absurd hjoint ho

end oneStamp

/-! ## Samples with different stamps -/

section manyStamps

variable {F : Type}

/-- The observations of a channel, in order of arrival. -/
def ofChannel (channel : String × JointField) (obs : List (Observation F)) :
    List (Observation F) := obs.filter fun o => o.channel = channel

/-- The stamps of each channel are pairwise distinct. -/
def DistinctStamps (obs : List (Observation F)) : Prop :=
  obs.Pairwise fun o o' => o.channel = o'.channel → o.sample.stampNs ≠ o'.sample.stampNs

/-- The value with the newest stamp of a channel. -/
def NewestValue (obs : List (Observation F)) (channel : String × JointField) (x : F) : Prop :=
  ∃ o ∈ obs, o.channel = channel ∧ o.sample.value = x ∧
    ∀ o' ∈ obs, o'.channel = channel → o'.sample.stampNs ≤ o.sample.stampNs

/-- The sample of every channel of the joints that arrives last has the value of the newest one. -/
def LastIsNewest (joints : List String) (obs : List (Observation F)) : Prop :=
  ∀ joint ∈ joints, ∀ field, ∀ o ∈ (ofChannel (joint, field) obs).getLast?,
    NewestValue obs (joint, field) o.sample.value

/-- The snapshot shows the value with the newest stamp of every channel. -/
def ShowsNewest (obs : List (Observation F)) (snaps : List (JointSnapshot F)) : Prop :=
  ∀ snap ∈ snaps, ∀ field, NewestValue obs (snap.name, field) (snap.measured field)

/-- The snapshots agree in every measured value. -/
def Agree (snaps snaps' : List (JointSnapshot F)) : Prop :=
  List.Forall₂ (fun snap snap' => snap.name = snap'.name ∧ snap.measured = snap'.measured)
    snaps snaps'

/-- The newest stamp of the observations; zero where there is none. -/
def IsNewestStamp (obs : List (Observation F)) (stampNs : ℕ) : Prop :=
  (∀ o ∈ obs, o.sample.stampNs ≤ stampNs) ∧
    ∀ b, (∀ o ∈ obs, o.sample.stampNs ≤ b) → stampNs ≤ b

/-- There is one newest stamp. -/
theorem IsNewestStamp.unique {obs : List (Observation F)} {s t : ℕ} (hs : IsNewestStamp obs s)
    (ht : IsNewestStamp obs t) : s = t := le_antisymm (hs.2 t ht.1) (ht.2 s hs.1)

/-- The order of arrival does not matter to the newest stamp. -/
theorem IsNewestStamp.perm {obs obs' : List (Observation F)} (h : obs.Perm obs') {s : ℕ}
    (hs : IsNewestStamp obs s) : IsNewestStamp obs' s :=
  ⟨fun o ho => hs.1 o (h.mem_iff.mpr ho), fun b hb => hs.2 b fun o ho => hb o (h.mem_iff.mp ho)⟩

/-- Where there are observations, one of them has the newest stamp. -/
theorem IsNewestStamp.exists_observation {obs : List (Observation F)} {s : ℕ}
    (hs : IsNewestStamp obs s) (hne : obs ≠ []) : ∃ o ∈ obs, o.sample.stampNs = s := by
  by_contra hnone
  have hlt : ∀ o ∈ obs, o.sample.stampNs < s := by
    intro o ho
    exact lt_of_le_of_ne (hs.1 o ho) fun heq => hnone ⟨o, ho, heq⟩
  have hle : s ≤ s - 1 := hs.2 (s - 1) fun o ho => Nat.le_sub_one_of_lt (hlt o ho)
  obtain ⟨o, ho⟩ := List.exists_mem_of_ne_nil obs hne
  have hpos := hlt o ho
  omega

/-- The stamp of a window over the joints of all samples is the newest of theirs. -/
theorem isNewestStamp_new {windowNs : ℤ} {joints : List String} {obs : List (Observation F)}
    (h : ∀ o ∈ obs, o.joint ∈ joints) :
    IsNewestStamp obs ((new windowNs joints : RollingWindow F).observeAll obs).stampNs :=
  ⟨fun o ho => le_stampNs_observeAll ho (h o ho), fun _ hb => stampNs_observeAll_le hb⟩

/-- There is one value with the newest stamp of a channel. -/
theorem NewestValue.unique {obs : List (Observation F)} (hdistinct : DistinctStamps obs)
    {channel : String × JointField} {x y : F} (hx : NewestValue obs channel x)
    (hy : NewestValue obs channel y) : x = y := by
  obtain ⟨o, ho, hchannel, rfl, hnewest⟩ := hx
  obtain ⟨o', ho', hchannel', rfl, hnewest'⟩ := hy
  by_contra hne
  have hsymm : Std.Symm fun o o' : Observation F =>
      o.channel = o'.channel → o.sample.stampNs ≠ o'.sample.stampNs :=
    ⟨fun _ _ h heq => (h heq.symm).symm⟩
  apply hdistinct.forall ho ho' (fun heq => hne (by rw [heq])) (hchannel.trans hchannel'.symm)
  exact le_antisymm (hnewest' o ho hchannel) (hnewest o' ho' hchannel')

/-- Which value is the newest does not depend on the order of arrival. -/
theorem NewestValue.perm {obs obs' : List (Observation F)} (h : obs.Perm obs')
    {channel : String × JointField} {x : F} (hx : NewestValue obs channel x) :
    NewestValue obs' channel x := by
  obtain ⟨o, ho, hchannel, hvalue, hnewest⟩ := hx
  exact ⟨o, h.mem_iff.mp ho, hchannel, hvalue, fun o' ho' => hnewest o' (h.mem_iff.mpr ho')⟩

/-- The latest value of a channel of a new window is that of the sample that arrived last. -/
theorem latest_new {windowNs : ℤ} {joints : List String} {joint : String} (h : joint ∈ joints)
    (field : JointField) (obs : List (Observation F)) :
    ((new windowNs joints).observeAll obs).latest (joint, field) =
      (ofChannel (joint, field) obs).getLast?.map fun o => o.sample.value := by
  have hchannel : ∀ o : Observation F,
      (o.joint = joint ∧ o.field = field) ↔ o.channel = (joint, field) := fun o => by
    rw [Observation.channel, Prod.mk.injEq]
  rw [observeAll_latest (by simpa [new] using h)]
  simp only [hchannel]
  exact Option.or_none

/-- Two snapshots that show the newest values of the same samples agree. -/
theorem ShowsNewest.agree {obs : List (Observation F)} (hdistinct : DistinctStamps obs)
    {snaps snaps' : List (JointSnapshot F)} (h : ShowsNewest obs snaps)
    (h' : ShowsNewest obs snaps')
    (hnames : snaps.map JointSnapshot.name = snaps'.map JointSnapshot.name) :
    Agree snaps snaps' := by
  induction snaps generalizing snaps' with
  | nil =>
      obtain rfl := List.map_eq_nil_iff.mp hnames.symm
      exact .nil
  | cons snap snaps ih =>
      obtain ⟨snap', snaps', rfl, hname, hrest⟩ := List.map_eq_cons_iff.mp hnames.symm
      obtain ⟨hsnap, hsnaps⟩ := List.forall_mem_cons.mp h
      obtain ⟨hsnap', hsnaps'⟩ := List.forall_mem_cons.mp h'
      refine .cons ⟨hname.symm, funext fun field => ?_⟩ (ih hsnaps hsnaps' hrest.symm)
      apply (hsnap field).unique hdistinct
      rw [← hname]
      exact hsnap' field

variable [PyFloat F]

/-- A snapshot shows the newest values exactly when they arrived last. -/
theorem showsNewest_iff {windowNs : ℤ} {joints : List String} {obs : List (Observation F)}
    {snaps : List (JointSnapshot F)}
    (h : ((new windowNs joints).observeAll obs).snapshot = .ok (some snaps)) :
    ShowsNewest obs snaps ↔ LastIsNewest joints obs := by
  have hjoints : ((new windowNs joints).observeAll obs).joints = joints :=
    observeAll_joints (new windowNs joints) obs
  constructor
  · intro hshows joint hjoint field o ho
    obtain ⟨snap, hsnap, rfl⟩ : ∃ snap ∈ snaps, snap.name = joint := by
      rwa [← List.mem_map, snapshot_names h, hjoints]
    have hlatest := (entryOf_of_mem h hsnap).2.latest field
    rw [latest_new hjoint, Option.mem_def.mp ho, Option.map_some, Option.some.injEq] at hlatest
    rw [hlatest]
    exact hshows snap hsnap field
  · intro hlast snap hsnap field
    obtain ⟨hmem, hentry⟩ := entryOf_of_mem h hsnap
    rw [hjoints] at hmem
    have hlatest := hentry.latest field
    rw [latest_new hmem, Option.map_eq_some_iff] at hlatest
    obtain ⟨o, ho, hvalue⟩ := hlatest
    rw [← hvalue]
    exact hlast snap.name hmem field o ho

/-- **When arrival order does not matter.** Two orders of the same samples, with distinct stamps on
each channel, give snapshots that agree in every measured value and show the newest one exactly when
in both orders the sample of a channel that arrives last has the value of the newest. The newest
stamp is the same in any case. Source: `window.py`, `RollingWindow.observe`,
`RollingWindow.snapshot` -/
theorem snapshots_agree_iff {windowNs : ℤ} {joints : List String} {obs obs' : List (Observation F)}
    (hperm : obs.Perm obs') (hjoints : ∀ o ∈ obs, o.joint ∈ joints)
    (hdistinct : DistinctStamps obs) {snaps snaps' : List (JointSnapshot F)}
    (h : ((new windowNs joints).observeAll obs).snapshot = .ok (some snaps))
    (h' : ((new windowNs joints).observeAll obs').snapshot = .ok (some snaps')) :
    (Agree snaps snaps' ∧ ShowsNewest obs snaps ∧ ShowsNewest obs' snaps' ↔
      LastIsNewest joints obs ∧ LastIsNewest joints obs') ∧
    IsNewestStamp obs ((new windowNs joints : RollingWindow F).observeAll obs).stampNs ∧
    ((new windowNs joints : RollingWindow F).observeAll obs).stampNs =
      ((new windowNs joints : RollingWindow F).observeAll obs').stampNs := by
  refine ⟨?_, isNewestStamp_new hjoints, ?_⟩
  · rw [showsNewest_iff h, showsNewest_iff h']
    constructor
    · exact fun hall => hall.2
    · intro hlast
      refine ⟨?_, hlast⟩
      apply ShowsNewest.agree hdistinct ((showsNewest_iff h).mpr hlast.1)
      · intro snap hsnap field
        exact (((showsNewest_iff h').mpr hlast.2) snap hsnap field).perm hperm.symm
      · rw [snapshot_names h, snapshot_names h', observeAll_joints, observeAll_joints]
  · apply (isNewestStamp_new hjoints).unique
    have hjoints' : ∀ o ∈ obs', o.joint ∈ joints := fun o ho => hjoints o (hperm.mem_iff.mpr ho)
    exact (isNewestStamp_new hjoints').perm hperm.symm

end manyStamps

/-! ### A late sample -/

section platform

attribute [local instance] CPython.series

/-- A sample of the elbow. -/
def elbowSample (field : JointField) (value : Finite64) (stampNs : ℕ) : Observation Double :=
  ⟨"elbow_joint", field, .new (.finite value) stampNs⟩

/-- The elbow rests and then moves, and its samples arrive in the order of their stamps. -/
def promptElbow : List (Observation Double) :=
  [elbowSample .velocity Double.zero 1, elbowSample .effort Double.zero 1,
    elbowSample .position Double.zero 1, elbowSample .position Double.one 2]

/-- The same samples, with the older position after the newer one. -/
def lateElbow : List (Observation Double) :=
  [elbowSample .velocity Double.zero 1, elbowSample .effort Double.zero 1,
    elbowSample .position Double.one 2, elbowSample .position Double.zero 1]

/-- The window over the elbow. -/
def elbowWindow (obs : List (Observation Double)) : RollingWindow Double :=
  (new 2000000000 ["elbow_joint"]).observeAll obs

/-- The late run is a permutation of the prompt one. -/
theorem promptElbow_perm : promptElbow.Perm lateElbow := by
  unfold promptElbow lateElbow
  apply List.Perm.cons
  apply List.Perm.cons
  exact List.Perm.swap ..

/-- The prompt run is of the elbow alone. -/
theorem promptElbow_joints : ∀ o ∈ promptElbow, o.joint ∈ ["elbow_joint"] := by
  simp [promptElbow, elbowSample]

/-- No channel of the prompt run has one stamp twice. -/
theorem promptElbow_distinct : DistinctStamps promptElbow := by
  simp [DistinctStamps, promptElbow, elbowSample, Observation.channel, JointTelemetry.new]

/-- The window of the elbow is complete with its three values. -/
theorem complete_elbowWindow {obs : List (Observation Double)}
    (h : ∀ field, ((elbowWindow obs).latest ("elbow_joint", field)).isSome = true) :
    (elbowWindow obs).Complete := by
  intro joint hjoint field
  obtain rfl := List.mem_singleton.mp (mem_joints_new.mp hjoint)
  exact h field

/-- The prompt run completes the window. -/
theorem promptElbow_complete : (elbowWindow promptElbow).Complete :=
  complete_elbowWindow fun field => by cases field <;> rfl

/-- The late run completes the window. -/
theorem lateElbow_complete : (elbowWindow lateElbow).Complete :=
  complete_elbowWindow fun field => by cases field <;> rfl

/-- Both runs of the elbow have snapshots, and these agree exactly if each run ends with its newest
samples. -/
theorem snapshots_agree_iff_elbow :
    ∃ snaps snaps', (elbowWindow promptElbow).snapshot = .ok (some snaps) ∧
      (elbowWindow lateElbow).snapshot = .ok (some snaps') ∧
      (Agree snaps snaps' ∧ ShowsNewest promptElbow snaps ∧ ShowsNewest lateElbow snaps' ↔
        LastIsNewest ["elbow_joint"] promptElbow ∧ LastIsNewest ["elbow_joint"] lateElbow) := by
  obtain ⟨snaps, h⟩ := promptElbow_complete.exists_snapshot
  obtain ⟨snaps', h'⟩ := lateElbow_complete.exists_snapshot
  exact ⟨snaps, snaps', h, h', (snapshots_agree_iff promptElbow_perm promptElbow_joints
    promptElbow_distinct h h').1⟩

/-- The snapshot of the elbow's window has one entry, with the latest position. -/
theorem elbow_position {obs : List (Observation Double)} {snaps : List (JointSnapshot Double)}
    (h : (elbowWindow obs).snapshot = .ok (some snaps)) {x : Double}
    (hlatest : (elbowWindow obs).latest ("elbow_joint", .position) = some x) :
    ∃ snap, snaps = [snap] ∧ snap.measured .position = x := by
  have hall := snapshot_some h
  have hjoints : (elbowWindow obs).joints = ["elbow_joint"] := observeAll_joints _ obs
  rw [hjoints, List.forall₂_cons_left_iff] at hall
  obtain ⟨snap, rest, hentry, hrest, rfl⟩ := hall
  obtain rfl := List.forall₂_nil_left_iff.mp hrest
  refine ⟨snap, rfl, ?_⟩
  rw [hentry.latest] at hlatest
  exact Option.some.inj hlatest

/-- A position that arrives late is reported in place of the newer one, under the newer stamp. -/
theorem lateElbow_value :
    promptElbow.Perm lateElbow ∧ DistinctStamps promptElbow ∧
      (∀ o ∈ promptElbow, o.joint ∈ ["elbow_joint"]) ∧
      (elbowWindow promptElbow).stampNs = 2 ∧ (elbowWindow lateElbow).stampNs = 2 ∧
      ∃ snaps snaps', (elbowWindow promptElbow).snapshot = .ok (some snaps) ∧
        (elbowWindow lateElbow).snapshot = .ok (some snaps') ∧ ¬ Agree snaps snaps' ∧
        ¬ ShowsNewest lateElbow snaps' := by
  obtain ⟨snaps, h⟩ := promptElbow_complete.exists_snapshot
  obtain ⟨snaps', h'⟩ := lateElbow_complete.exists_snapshot
  refine ⟨promptElbow_perm, promptElbow_distinct, promptElbow_joints, rfl, rfl, snaps, snaps', h,
    h', ?_, ?_⟩
  · obtain ⟨snap, rfl, hposition⟩ := elbow_position h rfl
    obtain ⟨snap', rfl, hposition'⟩ := elbow_position h' rfl
    intro hagree
    obtain ⟨⟨-, hmeasured⟩, -⟩ := List.forall₂_cons.mp hagree
    rw [hmeasured, hposition'] at hposition
    exact absurd (Double.finite.inj hposition) Double.zero_ne_one
  · rw [showsNewest_iff h']
    intro hlast
    obtain ⟨o, ho, hchannel, hvalue, hnewest⟩ := hlast "elbow_joint" (List.mem_singleton_self _)
      .position (elbowSample .position Double.zero 1) rfl
    -- the newest position is that of stamp 2
    have hstamp := hnewest (elbowSample .position Double.one 2) (by simp [lateElbow]) rfl
    simp only [lateElbow, List.mem_cons, List.not_mem_nil, or_false] at ho
    rcases ho with rfl | rfl | rfl | rfl
    · exact absurd hchannel (by simp [elbowSample, Observation.channel])
    · exact absurd hchannel (by simp [elbowSample, Observation.channel])
    · exact absurd (Double.finite.inj hvalue) (Ne.symm Double.zero_ne_one)
    · exact absurd hstamp (by simp [elbowSample, JointTelemetry.new])

end platform

end RollingWindow

end TwinServices.State
