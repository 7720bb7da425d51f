import TwinServices.Lib.RoundingError
import TwinServices.Bridge.Trajectory

/-!
# The duration of a trajectory over doubles

`publish_command` splits the duration of a command with `int(d)` and `int((d % 1.0) * 1e9)`. The
whole seconds and the remainder are exact over doubles, and only the product is rounded.

* `floor_round_nanoseconds`: what the rounding of the product can do to the nanoseconds.
* `timeFromStart_double`: the fields of the ROS message stay in range, and the duration that is sent
  is the one that was asked for, rounded down to a nanosecond or one more.
-/

set_option autoImplicit false

namespace TwinServices.Bridge

open TwinServices.Python TwinServices.Contracts Lib Lib.Binary64

section duration

/-- The nanoseconds of a fractional part, over doubles: the exact ones or one more, and never a
whole second. -/
theorem floor_round_nanoseconds {y : ℚ} (hy : 0 ≤ y) (hlt : y ≤ 1 - 2 ^ (-53 : ℤ)) :
    0 ≤ Binary64.round (y * 1000000000) ∧ ⌊y * 1000000000⌋ ≤ ⌊Binary64.round (y * 1000000000)⌋ ∧
      ⌊Binary64.round (y * 1000000000)⌋ ≤ ⌊y * 1000000000⌋ + 1 ∧
      ⌊Binary64.round (y * 1000000000)⌋ < 1000000000 := by
  have hnonneg : 0 ≤ y * 1000000000 := by positivity
  have hplace : (2 : ℚ) ^ (-53 : ℤ) = 1 / 9007199254740992 := by norm_num
  rw [hplace] at hlt
  have habs : |y * 1000000000| < 2 ^ (30 : ℤ) := by
    rw [abs_of_nonneg hnonneg]
    norm_num
    linarith
  obtain ⟨-, herror⟩ := abs_le.mp (abs_round_sub_le_of_lt (by norm_num) habs)
  have hhalf : (2 : ℚ) ^ (30 - 53 : ℤ) / 2 = 1 / 16777216 := by norm_num
  rw [hhalf] at herror
  refine ⟨round_nonneg hnonneg, ?_, ?_, ?_⟩
  · -- a whole number below the product is below what it is rounded to
    have hfloor : |⌊y * 1000000000⌋| ≤ 2 ^ 53 := by
      rw [abs_of_nonneg (Int.floor_nonneg.mpr hnonneg)]
      have hle : (⌊y * 1000000000⌋ : ℚ) ≤ 2 ^ 53 :=
        (Int.floor_le _).trans (by norm_num; linarith)
      exact_mod_cast hle
    rw [Int.le_floor, ← round_intCast hfloor]
    exact round_mono (Int.floor_le _)
  · have hnext := Int.lt_floor_add_one (y * 1000000000)
    rw [← Int.lt_add_one_iff, Int.floor_lt]
    push_cast
    linarith
  · -- the last double below one is too far from it to be rounded to a whole second
    rw [Int.floor_lt]
    push_cast
    linarith

/-- **The duration that is sent.** For every command of the contract `publish_command` splits the
duration over doubles into whole seconds from 0 to 30 and less than 10⁹ nanoseconds, and together
they are the duration in nanoseconds, rounded down or one more.
Source: `main.py`, `BridgeNode.publish_command` -/
theorem timeFromStart_double [CPython] (cmd : JointCommand Double) :
    ∃ x time names positions, cmd.durationS = .finite x ∧
      publishCommand cmd = .ok ⟨names, [⟨positions, time⟩]⟩ ∧
      time.sec = ⌊x.val⌋ ∧ 0 ≤ time.sec ∧ time.sec ≤ 30 ∧
      0 ≤ time.nanosec ∧ time.nanosec < 10 ^ 9 ∧
      ⌊x.val * 10 ^ 9⌋ ≤ time.sec * 10 ^ 9 + time.nanosec ∧
      time.sec * 10 ^ 9 + time.nanosec ≤ ⌊x.val * 10 ^ 9⌋ + 1 := by
  obtain ⟨x, hx, hpos, hthirty⟩ :=
    JointCommand.exists_finite_duration cmd.duration_gt cmd.duration_le
  -- the remainder is exact
  have hrest : Double.ofRat (Int.fract x.val) = .finite (x.fract hpos.le) :=
    Double.ofRat_val (x.fract hpos.le)
  obtain ⟨hround, hlower, hupper, hsecond⟩ :=
    floor_round_nanoseconds (Int.fract_nonneg x.val) (Finite64.fract_le hpos.le)
  have hbounded : |Binary64.round (Int.fract x.val * 1000000000)| < overflow := by
    have hceil := Int.lt_floor_add_one (Binary64.round (Int.fract x.val * 1000000000))
    have hwhole : (⌊Binary64.round (Int.fract x.val * 1000000000)⌋ : ℚ) + 1 ≤ 2 ^ 53 := by
      exact_mod_cast (by omega : ⌊Binary64.round (Int.fract x.val * 1000000000)⌋ + 1 ≤ 2 ^ 53)
    rw [abs_of_nonneg hround]
    exact (hceil.trans_le hwhole).trans two_pow_53_lt_overflow
  have hproduct : Double.ofRat ((x.fract hpos.le).val * 1000000000) =
      .finite ⟨_, round_idem _, hbounded⟩ := dif_pos hbounded
  have htime : timeFromStart cmd.durationS =
      .ok ⟨⌊x.val⌋, ⌊Binary64.round (Int.fract x.val * 1000000000)⌋⟩ := by
    have hsec : truncate x.val = ⌊x.val⌋ := if_pos hpos.le
    have hnanosec : truncate (Binary64.round (Int.fract x.val * 1000000000)) = _ := if_pos hround
    rw [hx, timeFromStart_finite hrest hproduct, hsec, hnanosec]
  obtain ⟨names, positions, hpublish, -⟩ := publishCommand_of_time cmd htime
  refine ⟨x, _, names, positions, hx, hpublish, rfl, Int.floor_nonneg.mpr hpos.le, ?_, ?_, ?_, ?_,
    ?_⟩
  · have hfloor : (⌊x.val⌋ : ℚ) ≤ 30 := (Int.floor_le _).trans hthirty
    exact_mod_cast hfloor
  · exact Int.floor_nonneg.mpr hround
  · exact hsecond
  · rw [floor_mul_billion]
    exact Int.add_le_add_left hlower _
  · rw [floor_mul_billion, add_assoc]
    exact Int.add_le_add_left hupper _

end duration

end TwinServices.Bridge
