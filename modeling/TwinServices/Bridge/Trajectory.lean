import TwinServices.Contracts.Models

/-!
# From a command to a trajectory

`publish_command` of the ROS node: the joint names and angles of a command, and its duration as
seconds and nanoseconds. Generic in the type of floats.

* `publishCommand`: the method; `commanded` and `timeFromStart` are its two halves.
* `commanded_ok`: over a command of the contract the assertion holds and no key is missing.
* `timeFromStart_real`, `exists_timeFromStart_double`: the duration, exactly and over doubles.
* `publishCommand_well_formed`: the trajectory of every command of the contract.
-/

set_option autoImplicit false

namespace TwinServices.Bridge

open TwinServices.Python TwinServices.Contracts Lib.Binary64

/-! ## The language -/

/-- The exceptions of the method.
Source: `main.py`, `BridgeNode.publish_command` -/
inductive NodeError
  | assertionError
  | keyError (key : String)
  /-- `OverflowError` and `ValueError`, of `int` over an infinity and NaN. -/
  | notAnInteger
  /-- `ZeroDivisionError("float modulo by zero")`. -/
  | moduloByZero
deriving DecidableEq, Repr

/-- What the method does with floats beyond the operations of the services. -/
class PyInt (F : Type) extends PyFloat F where
  /-- `int`: the integer part, towards zero. -/
  int : F → Except NodeError ℤ
  /-- The operator `%`, whose result has the sign of the divisor. -/
  mod : F → F → Except NodeError F

/-- The integer part of a number, towards zero. -/
def truncate {K : Type} [Ring K] [LinearOrder K] [FloorRing K] (x : K) : ℤ :=
  if 0 ≤ x then ⌊x⌋ else ⌈x⌉

/-- Over the reals `int` cuts off towards zero and `%` is exact. -/
noncomputable instance : PyInt ℝ where
  int x := .ok (truncate x)
  mod x y := if y = 0 then .error .moduloByZero else .ok (x - y * ⌊x / y⌋)

/-- The remainder of doubles, exact and then rounded; no value at a zero divisor. -/
def remainder : Double → Double → Option Double
  | .finite x, .finite y =>
      if y.val = 0 then none else some (.ofRat (x.val - y.val * ⌊x.val / y.val⌋))
  | _, .finite y => if y.val = 0 then none else some .nan
  | .finite x, .inf s =>
      if x.val = 0 ∨ decide (x.val < 0) = s then some (.finite x) else some (.inf s)
  | _, .inf _ => some .nan
  | _, .nan => some .nan

/-- Over doubles `int` raises for what is not finite, and `%` rounds. -/
instance [CPython] : PyInt Double where
  int
    | .finite x => .ok (truncate x.val)
    | _ => .error .notAnInteger
  mod x y :=
    match remainder x y with
    | some z => .ok z
    | none => .error .moduloByZero

/-! ## The method -/

/-- Source: `builtin_interfaces/Duration`, as `main.py` fills it -/
structure TimeFromStart where
  sec : ℤ
  nanosec : ℤ
deriving DecidableEq

/-- Source: `trajectory_msgs/JointTrajectoryPoint`, as `main.py` fills it -/
structure JointTrajectoryPoint (F : Type) where
  positions : List F
  timeFromStart : TimeFromStart

/-- Source: `trajectory_msgs/JointTrajectory`, as `main.py` fills it -/
structure JointTrajectory (F : Type) where
  jointNames : List String
  points : List (JointTrajectoryPoint F)

/-- `d[name]`. -/
def getItem {F : Type} (d : Dict String F) (name : String) : Except NodeError F :=
  match d.items.find? fun p => p.1 = name with
  | some p => .ok p.2
  | none => .error (.keyError name)

section method

variable {F : Type} [PyInt F]

/-- The names and the angles of a command.
Source: `main.py`, `BridgeNode.publish_command` -/
def commanded (cmd : JointCommand F) : Except NodeError (List String × List F) :=
  if cmd.kind = .home then
    .ok (ur5JointNames, List.replicate ur5JointNames.length (PyFloat.lit 0))
  else
    match cmd.positions with
    | none => .error .assertionError
    | some d => do
        let names := d.items.map Prod.fst
        let positions ← names.mapM (getItem d)
        return (names, positions)

/-- A duration as seconds and nanoseconds.
Source: `main.py`, `BridgeNode.publish_command` -/
def timeFromStart (durationS : F) : Except NodeError TimeFromStart := do
  let sec ← PyInt.int durationS
  let fraction ← PyInt.mod durationS (PyFloat.lit 1)
  let nanosec ← PyInt.int (fraction * PyFloat.lit 1000000000)
  return ⟨sec, nanosec⟩

/-- The trajectory that is published for a command. Source: `main.py`,
`BridgeNode.publish_command` -/
def publishCommand (cmd : JointCommand F) : Except NodeError (JointTrajectory F) := do
  let (names, positions) ← commanded cmd
  let time ← timeFromStart cmd.durationS
  return ⟨names, [⟨positions, time⟩]⟩

end method

/-! ## Names and angles -/

section commanded

variable {F : Type}

/-- A dictionary has each of its items. -/
theorem getItem_of_mem {d : Dict String F} {p : String × F} (hp : p ∈ d.items) :
    getItem d p.1 = .ok p.2 := by
  unfold getItem
  rcases hfind : d.items.find? fun q => q.1 = p.1 with _ | q
  · have hmissing := List.find?_eq_none.mp hfind p hp
    simp at hmissing
  · have hkey : q.1 = p.1 := by simpa using List.find?_some hfind
    obtain rfl := List.inj_on_of_nodup_map d.nodup (List.mem_of_find?_eq_some hfind) hp hkey
    simp only [hfind]

/-- The items of a dictionary are found under their keys. -/
theorem mapM_getItem {d : Dict String F} {items : List (String × F)}
    (h : ∀ p ∈ items, p ∈ d.items) :
    (items.map Prod.fst).mapM (getItem d) = .ok (items.map Prod.snd) := by
  induction items with
  | nil => rfl
  | cons p items ih =>
      obtain ⟨hp, hrest⟩ := List.forall_mem_cons.mp h
      rw [List.map_cons, List.mapM_cons, getItem_of_mem hp, ih hrest]
      rfl

variable [PyInt F]

/-- The names and angles that a command stands for. -/
structure Commands (cmd : JointCommand F) (names : List String) (positions : List F) : Prop where
  lengths : positions.length = names.length
  distinct : names.Nodup
  /-- At home all joints of the arm are at zero. -/
  home : cmd.kind = .home → names = ur5JointNames ∧ ∀ angle ∈ positions, angle = PyFloat.lit 0
  /-- Else each name is paired with its angle in the command. -/
  moves : cmd.kind = .moveJoints → ∃ d, cmd.positions = some d ∧ names.zip positions = d.items

/-- **The assertion holds and no key is missing**, for every command of the contract: the validator
lets no other kind through without positions. -/
theorem commanded_ok (cmd : JointCommand F) :
    ∃ names positions, commanded cmd = .ok (names, positions) ∧ Commands cmd names positions := by
  unfold commanded
  by_cases hkind : cmd.kind = .home
  · rw [if_pos hkind]
    refine ⟨_, _, rfl, ⟨List.length_replicate, by decide, fun _ => ⟨rfl, ?_⟩, fun hmoves => ?_⟩⟩
    · exact fun angle => List.eq_of_mem_replicate
    · rw [hkind] at hmoves
      cases hmoves
  · rw [if_neg hkind]
    have hmoves : cmd.kind = .moveJoints := by
      cases hk : cmd.kind with
      | home => exact absurd hk hkind
      | moveJoints => rfl
    have hmatch := cmd.positions_match
    rcases hpositions : cmd.positions with _ | d
    · rw [hmoves, hpositions] at hmatch
      cases hmatch
    · refine ⟨d.items.map Prod.fst, d.items.map Prod.snd, ?_, ?_⟩
      · simp only [mapM_getItem fun p (hp : p ∈ d.items) => hp]
        rfl
      · refine ⟨by simp, d.nodup, fun hhome => absurd hhome hkind, fun _ => ⟨d, hpositions, ?_⟩⟩
        have hzip := List.zip_unzip d.items
        rwa [List.unzip_eq_map] at hzip

/-- A command is published if its duration can be split. -/
theorem publishCommand_of_time (cmd : JointCommand F) {time : TimeFromStart}
    (h : timeFromStart cmd.durationS = .ok time) :
    ∃ names positions, publishCommand cmd = .ok ⟨names, [⟨positions, time⟩]⟩ ∧
      Commands cmd names positions := by
  obtain ⟨names, positions, heq, hcommands⟩ := commanded_ok cmd
  refine ⟨names, positions, ?_, hcommands⟩
  unfold publishCommand
  rw [heq, h]
  rfl

end commanded

/-! ## The duration -/

section duration

/-- The duration is put together of what the three operations return. -/
theorem timeFromStart_ok {F : Type} [PyInt F] {durationS fraction : F} {sec nanosec : ℤ}
    (hsec : PyInt.int durationS = .ok sec)
    (hfraction : PyInt.mod durationS (PyFloat.lit 1) = .ok fraction)
    (hnanosec : PyInt.int (fraction * PyFloat.lit 1000000000) = .ok nanosec) :
    timeFromStart durationS = .ok ⟨sec, nanosec⟩ := by
  unfold timeFromStart
  rw [hsec, hfraction]
  simp only [bind, Except.bind, hnanosec]
  rfl

/-- The integer part of a duration in exact arithmetic. -/
theorem int_real {x : ℝ} (h : 0 ≤ x) : PyInt.int x = .ok ⌊x⌋ := by
  have htruncate : truncate x = ⌊x⌋ := if_pos h
  rw [← htruncate]
  rfl

/-- The rest of a duration in exact arithmetic. -/
theorem mod_one_real (x : ℝ) : PyInt.mod x (PyFloat.lit 1) = .ok (Int.fract x) := by
  have hmod : x - 1 * ⌊x / 1⌋ = Int.fract x := by rw [one_mul, div_one, Int.self_sub_floor]
  rw [lit_real, Rat.cast_one, ← hmod]
  exact if_neg one_ne_zero

/-- The whole seconds go into the nanoseconds. -/
theorem floor_mul_billion {F : Type} [Field F] [LinearOrder F] [IsStrictOrderedRing F] [FloorRing F]
    (x : F) : ⌊x * 10 ^ 9⌋ = ⌊x⌋ * 10 ^ 9 + ⌊Int.fract x * 1000000000⌋ := by
  have hsplit : x * 10 ^ 9 = ((⌊x⌋ * 10 ^ 9 : ℤ) : F) + Int.fract x * 1000000000 := by
    conv_lhs => rw [← Int.floor_add_fract x]
    push_cast
    ring
  rw [hsplit, Int.floor_intCast_add]

/-- **The two halves recombine.** In exact arithmetic the seconds and nanoseconds of a duration are
its nanoseconds, rounded down once. -/
theorem timeFromStart_real {durationS : ℝ} (h : 0 ≤ durationS) :
    ∃ time, timeFromStart durationS = .ok time ∧ 0 ≤ time.nanosec ∧ time.nanosec < 10 ^ 9 ∧
      time.sec * 10 ^ 9 + time.nanosec = ⌊durationS * 10 ^ 9⌋ := by
  have hnonneg : 0 ≤ Int.fract durationS * 1000000000 := by
    have := Int.fract_nonneg durationS
    positivity
  have hlt : Int.fract durationS * 1000000000 < 1000000000 := by
    have := Int.fract_lt_one durationS
    linarith
  have hlit : (PyFloat.lit 1000000000 : ℝ) = 1000000000 := by norm_num
  refine ⟨_, timeFromStart_ok (int_real h) (mod_one_real durationS) (int_real ?_), ?_, ?_, ?_⟩
  · rwa [hlit]
  · rw [hlit]
    exact Int.floor_nonneg.mpr hnonneg
  · rw [hlit]
    apply Int.floor_lt.mpr
    exact_mod_cast hlt
  · rw [hlit, floor_mul_billion]

/-- The stages over doubles, where neither the rest nor the product overflows. -/
theorem timeFromStart_finite [CPython] {x y z : Finite64}
    (hrest : Double.ofRat (Int.fract x.val) = .finite y)
    (hproduct : Double.ofRat (y.val * 1000000000) = .finite z) :
    timeFromStart (Double.finite x) = .ok ⟨truncate x.val, truncate z.val⟩ := by
  have hmod : PyInt.mod (Double.finite x) (PyFloat.lit 1) = .ok (.finite y) := by
    have hremainder : remainder (.finite x) (.finite Double.one) = some (.finite y) := by
      rw [← hrest, ← Int.self_sub_floor]
      simp [remainder]
    rw [lit_double, Double.ofRat_one]
    simp only [PyInt.mod, hremainder]
  have hmul : Double.finite y * PyFloat.lit 1000000000 = .finite z := by
    have hlit : (PyFloat.lit 1000000000 : Double) =
        .finite (Double.nat 1000000000 (by norm_num)) := by
      exact_mod_cast Double.ofRat_natCast (n := 1000000000) (by norm_num)
    rw [hlit, mul_double, Double.mul_finite_finite, ← hproduct]
    rfl
  exact timeFromStart_ok rfl hmod (by rw [hmul]; rfl)

/-- The duration of a command is split over doubles too: no part of it is infinite or NaN. -/
theorem exists_timeFromStart_double [CPython] (cmd : JointCommand Double) :
    ∃ time, timeFromStart cmd.durationS = .ok time := by
  obtain ⟨x, hx, -⟩ := JointCommand.exists_finite_duration cmd.duration_gt cmd.duration_le
  have hfract : |Int.fract x.val| ≤ 2 ^ 0 := by
    rw [Int.abs_fract, pow_zero]
    exact (Int.fract_lt_one _).le
  obtain ⟨y, hy, hyle⟩ := Double.ofRat_of_abs_le (by norm_num) hfract
  have hproduct : |y.val * 1000000000| ≤ 2 ^ 30 := by
    rw [abs_mul]
    have hbillion : |(1000000000 : ℚ)| ≤ 2 ^ 30 := by norm_num
    calc |y.val| * |(1000000000 : ℚ)| ≤ 2 ^ 0 * 2 ^ 30 :=
          mul_le_mul hyle hbillion (abs_nonneg _) (by norm_num)
      _ = 2 ^ 30 := by norm_num
  obtain ⟨z, hz, -⟩ := Double.ofRat_of_abs_le (by norm_num) hproduct
  rw [hx]
  exact ⟨_, timeFromStart_finite hy hz⟩

end duration

/-! ## The trajectory -/

/-- **Every command becomes a well-formed trajectory.** `publish_command` returns for every command
of the contract, over doubles and in exact arithmetic: with one point, as many angles as names, no
name twice, all joints at zero for home and each name with its angle else. In exact arithmetic its
duration is that of the command in nanoseconds, rounded down, split into seconds and less than a
second. Source: `main.py`, `BridgeNode.publish_command` -/
theorem publishCommand_well_formed :
    (∀ cmd : JointCommand ℝ, ∃ names positions time,
      publishCommand cmd = .ok ⟨names, [⟨positions, time⟩]⟩ ∧ Commands cmd names positions ∧
        0 ≤ time.nanosec ∧ time.nanosec < 10 ^ 9 ∧
        time.sec * 10 ^ 9 + time.nanosec = ⌊cmd.durationS * 10 ^ 9⌋) ∧
    ∀ [CPython] (cmd : JointCommand Double), ∃ names positions time,
      publishCommand cmd = .ok ⟨names, [⟨positions, time⟩]⟩ ∧ Commands cmd names positions := by
  constructor
  · intro cmd
    have hpos : 0 ≤ cmd.durationS := by
      have hgt : ((0 : ℚ) : ℝ) < cmd.durationS := cmd.duration_gt
      rw [Rat.cast_zero] at hgt
      exact hgt.le
    obtain ⟨time, htime, hnanosec⟩ := timeFromStart_real hpos
    obtain ⟨names, positions, hpublish, hcommands⟩ := publishCommand_of_time cmd htime
    exact ⟨names, positions, time, hpublish, hcommands, hnanosec⟩
  · intro _ cmd
    obtain ⟨time, htime⟩ := exists_timeFromStart_double cmd
    obtain ⟨names, positions, hpublish, hcommands⟩ := publishCommand_of_time cmd htime
    exact ⟨names, positions, time, hpublish, hcommands⟩

end TwinServices.Bridge
