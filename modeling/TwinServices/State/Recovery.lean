import TwinServices.State.Pruning

/-!
# What the window forgets

A window that has a past holds what a new one holds, once the observations after the past replace
all that a window keeps: the latest value of every channel, the newest stamp, and the velocities of
every joint, which are pruned when the next one comes.

* `Replaces`: later observations that leave nothing of earlier ones.
* `observeAll_append_of_replaces`: the window after both is the one after the later ones.
* `replaces_of_report`: one sample of every channel is enough, with a stamp that is longer than the
  window after all the earlier ones.
-/

set_option autoImplicit false

namespace TwinServices.State.RollingWindow

open TwinServices.Python TwinServices.Contracts Lib.TimeWindow Lib.Binary64

variable {F : Type} {windowNs : ℤ} {joints : List String} {joint : String}
  {before after obs : List (Observation F)}

/-- Every channel is among the later observations, and up to the last velocity of every joint these
reach a stamp that is longer than the window after the earlier ones. -/
structure Replaces (windowNs : ℤ) (joints : List String) (before after : List (Observation F)) :
    Prop where
  channels : ∀ joint ∈ joints, ∀ field, ∃ o ∈ after, o.joint = joint ∧ o.field = field
  newer : ∀ o ∈ before, o.joint ∈ joints → ∀ joint ∈ joints,
    (o.sample.stampNs : ℤ) + windowNs < newestStamp joints (upToVelocity joint after)

/-! ## The newest stamp and the last velocity -/

/-- The newest stamp is bounded when every one of the joints' is. -/
theorem newestStamp_le_iff {b : ℕ} :
    newestStamp joints obs ≤ b ↔ ∀ o ∈ obs, o.joint ∈ joints → o.sample.stampNs ≤ b := by
  rw [← stampNs_eq_newestStamp 0]
  constructor
  · intro h o ho hmem
    exact (le_stampNs_observeAll ho hmem).trans h
  · intro h
    rw [← observeAll_filter (new 0 joints) obs]
    refine stampNs_observeAll_le fun o ho => ?_
    obtain ⟨ho, hmem⟩ := List.mem_filter.mp ho
    exact h o ho (of_decide_eq_true hmem)

/-- Older observations leave the newest stamp as it is. -/
theorem newestStamp_append
    (h : ∀ o ∈ before, o.joint ∈ joints → o.sample.stampNs ≤ newestStamp joints after) :
    newestStamp joints (before ++ after) = newestStamp joints after := by
  have hself := newestStamp_le_iff.mp (le_refl (newestStamp joints (before ++ after)))
  apply le_antisymm
  · refine newestStamp_le_iff.mpr fun o ho hmem => ?_
    rcases List.mem_append.mp ho with ho | ho
    · exact h o ho hmem
    · exact newestStamp_le_iff.mp le_rfl o ho hmem
  · exact newestStamp_le_iff.mpr fun o ho => hself o (List.mem_append_right _ ho)

/-- The last velocity is that of the later observations, if there is one. -/
theorem upToVelocity_append (h : ∃ o ∈ after, o.joint = joint ∧ o.field = .velocity) :
    upToVelocity joint (before ++ after) = before ++ upToVelocity joint after := by
  induction after using List.reverseRecOn with
  | nil =>
      obtain ⟨o, ho, -⟩ := h
      cases ho
  | append_singleton after o ih =>
      rw [← List.append_assoc]
      by_cases hvel : o.joint = joint ∧ o.field = .velocity
      · rw [upToVelocity_concat hvel, upToVelocity_concat hvel, List.append_assoc]
      · rw [upToVelocity_concat_of_ne hvel, upToVelocity_concat_of_ne hvel]
        apply ih
        obtain ⟨o', ho', hvel'⟩ := h
        rcases List.mem_append.mp ho' with ho' | ho'
        · exact ⟨o', ho', hvel'⟩
        · rw [List.mem_singleton.mp ho'] at hvel'
          exact absurd hvel' hvel

/-- A velocity of the joint is not after its last one. -/
theorem mem_upToVelocity {o : Observation F} (ho : o ∈ obs)
    (hvel : o.joint = joint ∧ o.field = .velocity) : o ∈ upToVelocity joint obs := by
  induction obs using List.reverseRecOn with
  | nil => cases ho
  | append_singleton obs o' ih =>
      by_cases hlast : o'.joint = joint ∧ o'.field = .velocity
      · rwa [upToVelocity_concat hlast]
      · rw [upToVelocity_concat_of_ne hlast]
        apply ih
        rcases List.mem_append.mp ho with ho | ho
        · exact ho
        · rw [List.mem_singleton.mp ho] at hvel
          exact absurd hvel hlast

/-! ## The window -/

/-- What the window holds of a joint that it does not have. -/
theorem observeAll_not_mem (hmem : joint ∉ joints) (obs : List (Observation F)) :
    ((new windowNs joints).observeAll obs).velocities joint = [] ∧
      ∀ field, ((new windowNs joints).observeAll obs).latest (joint, field) = none := by
  induction obs using List.reverseRecOn with
  | nil => exact ⟨rfl, fun _ => rfl⟩
  | append_singleton obs o ih =>
      rw [observeAll_concat]
      by_cases ho : o.joint ∈ joints
      · have hne : o.joint ≠ joint := fun heq => hmem (heq ▸ ho)
        rw [observe_velocities_of_ne _ _ _ _ fun hvel => hne hvel.1]
        refine ⟨ih.1, fun field => ?_⟩
        rw [observe_latest _ _ _ (mem_joints_new.mpr ho), Function.update_of_ne]
        · exact ih.2 field
        · exact fun heq => hne (Prod.mk.inj heq).1.symm
      · rwa [observe_of_not_mem _ _ _ (mt mem_joints_new.mp ho)]

/-- Windows with equal fields are equal. -/
theorem eq_of_fields {w w' : RollingWindow F} (hwindow : w.windowNs = w'.windowNs)
    (hjoints : w.joints = w'.joints) (hlatest : ∀ joint field,
      w.latest (joint, field) = w'.latest (joint, field))
    (hvelocities : ∀ joint, w.velocities joint = w'.velocities joint)
    (hstamp : w.stampNs = w'.stampNs) : w = w' := by
  cases w
  cases w'
  simp only [mk.injEq]
  exact ⟨hwindow, hjoints, funext fun channel => hlatest channel.1 channel.2, funext hvelocities,
    hstamp⟩

/-- The velocities are those of the later observations: the earlier ones have expired. -/
theorem velocities_append_of_replaces (hwindow : 0 ≤ windowNs)
    (h : Replaces windowNs joints before after) (hmem : joint ∈ joints) :
    ((new windowNs joints).observeAll (before ++ after)).velocities joint =
      ((new windowNs joints).observeAll after).velocities joint := by
  have hcutoff : lastCutoff windowNs joints joint (before ++ after) =
      lastCutoff windowNs joints joint after := by
    unfold lastCutoff
    rw [upToVelocity_append (h.channels joint hmem .velocity), newestStamp_append]
    intro o ho hjoint
    have hnewer := h.newer o ho hjoint joint hmem
    omega
  have hsamples : velocitySamples joint (before ++ after) =
      velocitySamples joint before ++ velocitySamples joint after := by
    simp [velocitySamples, List.filter_append]
  rw [velocities_eq_filtered hmem, velocities_eq_filtered hmem, hcutoff, hsamples]
  refine List.dropWhile_append_of_pos fun p hp => ?_
  obtain ⟨o, ho, rfl⟩ := List.mem_map.mp hp
  obtain ⟨ho, hvel⟩ := List.mem_filter.mp ho
  have hnewer := h.newer o ho ((of_decide_eq_true hvel).1 ▸ hmem) joint hmem
  exact decide_eq_true (lt_sub_iff_add_lt.mpr hnewer)

/-- **The past is forgotten.** -/
theorem observeAll_append_of_replaces (hwindow : 0 ≤ windowNs)
    (h : Replaces windowNs joints before after) :
    (new windowNs joints).observeAll (before ++ after) =
      (new windowNs joints).observeAll after := by
  refine eq_of_fields (by simp) (by simp) (fun joint field => ?_) (fun joint => ?_) ?_
  · by_cases hmem : joint ∈ joints
    · obtain ⟨o, ho, hjoint, hfield⟩ := h.channels joint hmem field
      have hne : (after.filter fun o => o.joint = joint ∧ o.field = field) ≠ [] :=
        List.ne_nil_of_mem (List.mem_filter.mpr ⟨ho, by simp [hjoint, hfield]⟩)
      obtain ⟨last, hlast⟩ := Option.isSome_iff_exists.mp (List.getLast?_isSome.mpr hne)
      have hnew : joint ∈ (new windowNs joints : RollingWindow F).joints := hmem
      rw [observeAll_latest hnew, observeAll_latest hnew, List.filter_append, List.getLast?_append,
        hlast, Option.some_or]
    · rw [(observeAll_not_mem hmem _).2, (observeAll_not_mem hmem _).2]
  · by_cases hmem : joint ∈ joints
    · exact velocities_append_of_replaces hwindow h hmem
    · rw [(observeAll_not_mem hmem _).1, (observeAll_not_mem hmem _).1]
  · rw [stampNs_eq_newestStamp, stampNs_eq_newestStamp, newestStamp_append]
    intro o ho hmem
    have hnewer := h.newer o ho hmem o.joint hmem
    have hle : newestStamp joints (upToVelocity o.joint after) ≤ newestStamp joints after :=
      newestStamp_le_iff.mpr fun o' ho' =>
        newestStamp_le_iff.mp le_rfl o' ((prefix_upToVelocity _ _).subset ho')
    omega

/-- **A report of all channels replaces the past** that is longer ago than the window. -/
theorem replaces_of_report (stampNs : ℕ)
    (hall : ∀ joint ∈ joints, ∀ field, ∃ o ∈ after, o.joint = joint ∧ o.field = field ∧
      o.sample.stampNs = stampNs)
    (hlater : ∀ o ∈ before, o.joint ∈ joints → (o.sample.stampNs : ℤ) + windowNs < stampNs) :
    Replaces windowNs joints before after where
  channels joint hmem field := by
    obtain ⟨o, ho, hjoint, hfield, -⟩ := hall joint hmem field
    exact ⟨o, ho, hjoint, hfield⟩
  newer o ho hmem joint hjoint := by
    obtain ⟨o', ho', rfl, hfield, hstamp⟩ := hall joint hjoint .velocity
    have hle : o'.sample.stampNs ≤ newestStamp joints (upToVelocity o'.joint after) :=
      newestStamp_le_iff.mp le_rfl o' (mem_upToVelocity ho' ⟨rfl, hfield⟩) hjoint
    have hlt := hlater o ho hmem
    omega

end TwinServices.State.RollingWindow
