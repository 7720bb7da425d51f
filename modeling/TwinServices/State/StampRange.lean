import TwinServices.State.ArrivalOrder
import TwinServices.State.Consumer

/-!
# The range of the stamp

The contract of a sample bounds its stamp from below only, the field of the published message holds
64 bits. The stamp of the window is the maximum of all it ever folded, so the two agree for as long
as every sample does, and never again after one that does not fit.

* `isNewestStamp_of_run`: the stamp of the window after a run.
* `buildState_out_of_range`: a stamp that does not fit fails every build of a complete window.
* `stamps_agree_iff`: when the stamp of every state can be built and read back.
* `outOfRange_kills`: one accepted sample whose stamp does not fit.
-/

set_option autoImplicit false

namespace TwinServices.State

open TwinServices.Python TwinServices.Contracts Lib.Transition Lib.Binary64 Lib.Json
open RollingWindow (Observation IsNewestStamp)

section methods

variable [Pydantic]

/-- Every sample that a run folds into the window has a stamp that fits the message. -/
def FoldedStampsFit (l : List Event) : Prop :=
  ∀ o ∈ l.filterMap folded, o.sample.stampNs < uint64Limit

variable [CPython] {assetName : String} {rmsWindowS : Double} {windowNs : ℤ} {l : List Event}
  {c : Consumer}

/-- **The stamp of the window is the newest one it folded**, after every run. -/
theorem isNewestStamp_of_run (h : Run step (Consumer.init assetName rmsWindowS windowNs) l c) :
    IsNewestStamp (l.filterMap folded) c.window.stampNs := by
  rw [window_of_run h]
  apply RollingWindow.isNewestStamp_new
  intro o ho
  obtain ⟨e, -, he⟩ := List.mem_filterMap.mp ho
  exact joint_of_folded he

/-- The stamp of the window fits exactly if all that it folded do. -/
theorem stampNs_lt_iff (h : Run step (Consumer.init assetName rmsWindowS windowNs) l c) :
    c.window.stampNs < uint64Limit ↔ FoldedStampsFit l := by
  have hnewest := isNewestStamp_of_run h
  constructor
  · intro hlt o ho
    exact (hnewest.1 o ho).trans_lt hlt
  · intro hfit
    have hle : c.window.stampNs ≤ uint64Limit - 1 :=
      hnewest.2 _ fun o ho => Nat.le_sub_one_of_lt (hfit o ho)
    have hpos : 0 < uint64Limit := by decide
    omega

/-- What a client may rely on of the stamp, after the steps of a run. -/
structure StampAgrees (l : List Event) (c : Consumer) : Prop where
  /-- The stamp fits the field of the message. -/
  fits : c.window.stampNs < uint64Limit
  /-- Where forward kinematics takes the positions, a build does not raise. -/
  builds : FinitePositions c.window →
    ∃ state, buildState c.assetName c.window c.rmsWindowS = .ok state
  /-- What is built has the newest stamp that was folded. -/
  newest : ∀ state, buildState c.assetName c.window c.rmsWindowS = .ok (some state) →
    IsNewestStamp (l.filterMap folded) state.stampNs
  /-- And so has what a client reads, once the window is broadcast. -/
  served : c.dirty = false → ∀ state, c.hub.latest = some state →
    IsNewestStamp (l.filterMap folded) state.stampNs

/-- After a run the stamp agrees if it fits. -/
theorem stampAgrees_iff (h : Run step (Consumer.init assetName rmsWindowS windowNs) l c) :
    StampAgrees l c ↔ c.window.stampNs < uint64Limit := by
  have hinv := consumerInv_of_run h
  have hsix : c.window.joints.length = 6 := by rw [hinv.joints]; rfl
  have hnewest : ∀ state, buildState c.assetName c.window c.rmsWindowS = .ok (some state) →
      IsNewestStamp (l.filterMap folded) state.stampNs := by
    intro state hstate
    obtain ⟨_, _, -, -, -, rfl⟩ := buildState_some hstate
    exact isNewestStamp_of_run h
  constructor
  · exact fun hagrees => hagrees.fits
  · intro hfits
    refine ⟨hfits, fun hfinite => ?_, hnewest, fun hdirty state hlatest => ?_⟩
    · exact (buildState_double_iff hsix).mpr fun _ => ⟨hfinite, hfits⟩
    · have hupToDate := hinv.upToDate hdirty
      rw [UpToDate, hlatest] at hupToDate
      exact hnewest state hupToDate

/-- **One sample out of range is never forgotten**: whatever follows it in a run, a build of a
complete window raises. -/
theorem buildState_out_of_range (h : Run step (Consumer.init assetName rmsWindowS windowNs) l c)
    (hcomplete : c.window.Complete) {o : Observation Double} (ho : o ∈ l.filterMap folded)
    (hstamp : uint64Limit ≤ o.sample.stampNs) :
    ∃ e, buildState c.assetName c.window c.rmsWindowS = .error e := by
  have hsix : c.window.joints.length = 6 := by rw [(consumerInv_of_run h).joints]; rfl
  apply (buildState_of_complete hcomplete hsix).2
  rintro ⟨-, hfits⟩
  exact absurd ((stampNs_lt_iff h).mp hfits o ho) (not_lt.mpr hstamp)

/-- **When the two schemas agree.** In every state that a run reaches the stamp fits, is built and
is read back as the newest one exactly if every sample that the run folds has a stamp that fits.
Source: `grpc_server.py`, `build_state` -/
theorem stamps_agree_iff (h : Run step (Consumer.init assetName rmsWindowS windowNs) l c) :
    (∀ l' c', l' <+: l → Run step (Consumer.init assetName rmsWindowS windowNs) l' c' →
      StampAgrees l' c') ↔ FoldedStampsFit l := by
  constructor
  · intro hall
    exact (stampNs_lt_iff h).mp (hall l c List.prefix_rfl h).fits
  · intro hfit l' c' hp h'
    apply (stampAgrees_iff h').mpr
    apply (stampNs_lt_iff h').mpr
    intro o ho
    exact hfit o ((hp.sublist.filterMap folded).subset ho)

end methods

/-! ### A stamp of 65 bits -/

section platform

attribute [local instance] CPython.series Pydantic.decimal

/-- A sample of the elbow that the contract accepts. -/
def outOfRange : Payload :=
  .ofText (dumpJson (JointTelemetry.legacyMembers (.num (.ofNat 0)) uint64Limit))

/-- The full report of the arm, and the sample after it. -/
def reportOutOfRange : List Event :=
  reportEvents (.num (.ofNat 0)) (.finite Double.zero) ++
    [.message (telemetryTopic "ur5" "elbow_joint" .position) outOfRange]

/-- A stamp of 65 bits is accepted. -/
theorem checkMessage_outOfRange :
    checkMessage (telemetryTopic "ur5" "elbow_joint" .position) outOfRange =
      .ok ("elbow_joint", .position, .new (.finite Double.zero) uint64Limit) := by
  apply checkMessage_telemetryTopic (by decide) (by decide)
  exact JointTelemetry.validate_legacy checkFloat_ofNat_zero uint64Limit

/-- The window over the report is complete, and stays so. -/
theorem run_reportOutOfRange :
    ∃ c, Run step reportInit reportOutOfRange c ∧ c.window.Complete := by
  obtain ⟨c, hrun, -, hwindow⟩ := run_report checkFloat_ofNat_zero
  have hcomplete : c.window.Complete := by
    rw [hwindow]
    exact complete_report
  refine ⟨_, hrun.snoc rfl, ?_⟩
  rw [observe_accepted checkMessage_outOfRange]
  exact hcomplete.observe "elbow_joint" .position (.new (.finite Double.zero) uint64Limit)

/-- The sample is accepted after a full report, and then the state can not be built. -/
theorem outOfRange_kills :
    ∃ c, Run step reportInit reportOutOfRange c ∧
      (∃ e, buildState c.assetName c.window c.rmsWindowS = .error e) ∧
      ¬ ∀ l' c', l' <+: reportOutOfRange → Run step reportInit l' c' → StampAgrees l' c' := by
  obtain ⟨c, hrun, hcomplete⟩ := run_reportOutOfRange
  have hmem : ⟨"elbow_joint", .position, .new (.finite Double.zero) uint64Limit⟩ ∈
      reportOutOfRange.filterMap folded := by
    apply List.mem_filterMap.mpr
    exact ⟨_, List.mem_concat_self, folded_message checkMessage_outOfRange⟩
  refine ⟨c, hrun, buildState_out_of_range hrun hcomplete hmem le_rfl, fun hall => ?_⟩
  have hfits := (stampNs_lt_iff hrun).mp (hall _ c List.prefix_rfl hrun).fits
  exact lt_irrefl _ (hfits _ hmem)

/-- The stamps of a report fit 64 bits. -/
theorem foldedStampsFit_report :
    FoldedStampsFit (reportEvents (.num (.ofNat 0)) (.finite Double.zero)) := by
  intro o ho
  obtain ⟨e, he, hfolded⟩ := List.mem_filterMap.mp ho
  obtain ⟨d, hd, rfl⟩ := List.mem_map.mp he
  rw [folded_report checkFloat_ofNat_zero d hd] at hfolded
  obtain rfl := Option.some.inj hfolded
  rw [(mem_report hd).1]
  decide

/-- Through the report alone they agree. -/
theorem stamps_agree_iff_report :
    ∃ c, Run step reportInit (reportEvents (.num (.ofNat 0)) (.finite Double.zero)) c ∧
      ∀ l' c', l' <+: reportEvents (.num (.ofNat 0)) (.finite Double.zero) →
        Run step reportInit l' c' → StampAgrees l' c' := by
  obtain ⟨c, hrun, -, -⟩ := run_report checkFloat_ofNat_zero
  exact ⟨c, hrun, (stamps_agree_iff hrun).mpr foldedStampsFit_report⟩

end platform

end TwinServices.State
