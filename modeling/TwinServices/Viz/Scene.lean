import TwinServices.Viz.Stream

/-!
# The scene of the viewer

The scene is a tree of groups and meshes. A group has a position and a rotation, and places its
children in its own frame, so the matrix of a mesh is the product of those on the way down to it.
`armChain` nests two groups for each row of the arm; the marker stands at the streamed pose.

* `Element`, `place`: scene trees, and where their meshes are.
* `armChain`, `scene`: the trees that the components render.
* `rowTransform_eq`: the two groups of a row are its Denavit–Hartenberg transform.
* `armChain_agrees`: the tip of the arm has the transform that forward kinematics computes, and
  meets the marker in every frame of a state that was built.
-/

set_option autoImplicit false

namespace TwinServices.Viz

open TwinServices.Python TwinServices.Contracts TwinServices.State

/-! ## Scene trees -/

/-- The numbers of the browser, with the functions of `Math` and the matrix product of three.js. -/
class BrowserFloat (F : Type) where
  lit : ℚ → F
  /-- `Math.PI`. -/
  pi : F
  neg : F → F
  /-- The operator `/`. -/
  div : F → F → F
  /-- `Math.cos`. -/
  cos : F → F
  /-- `Math.sin`. -/
  sin : F → F
  /-- `Matrix4.multiplyMatrices`. -/
  multiply : Matrix4 F → Matrix4 F → Matrix4 F

/-- Exact real arithmetic. -/
noncomputable instance : BrowserFloat ℝ where
  lit q := q
  pi := Real.pi
  neg x := -x
  div x y := x / y
  cos := Real.cos
  sin := Real.sin
  multiply a b := a * b

/-- The meshes that are looked at. -/
inductive Mesh
  | jointBall
  | tip
  | eeMarker
deriving DecidableEq, Repr

/-- An element of a scene.
Source: `Scene.tsx`, `Scene` -/
inductive Element (F : Type)
  | mesh (mesh : Mesh) (position : F × F × F)
  | group (position rotation : F × F × F) (children : List (Element F))

section tree

variable {F : Type} [BrowserFloat F]

open BrowserFloat

/-- The matrix that a new object has.
Source: `Scene.tsx`, `ArmChain` -/
def identity : Matrix4 F := fun i j => if i = j then lit 1 else lit 0

/-- `Matrix4.makeTranslation`. -/
def translation (p : F × F × F) : Matrix4 F :=
  !![lit 1, lit 0, lit 0, p.1;
     lit 0, lit 1, lit 0, p.2.1;
     lit 0, lit 0, lit 1, p.2.2;
     lit 0, lit 0, lit 0, lit 1]

/-- `Matrix4.makeRotationX`. -/
def rotationX (theta : F) : Matrix4 F :=
  !![lit 1, lit 0, lit 0, lit 0;
     lit 0, cos theta, neg (sin theta), lit 0;
     lit 0, sin theta, cos theta, lit 0;
     lit 0, lit 0, lit 0, lit 1]

/-- `Matrix4.makeRotationY`. -/
def rotationY (theta : F) : Matrix4 F :=
  !![cos theta, lit 0, sin theta, lit 0;
     lit 0, lit 1, lit 0, lit 0;
     neg (sin theta), lit 0, cos theta, lit 0;
     lit 0, lit 0, lit 0, lit 1]

/-- `Matrix4.makeRotationZ`. -/
def rotationZ (theta : F) : Matrix4 F :=
  !![cos theta, neg (sin theta), lit 0, lit 0;
     sin theta, cos theta, lit 0, lit 0;
     lit 0, lit 0, lit 1, lit 0;
     lit 0, lit 0, lit 0, lit 1]

/-- The rotation of Euler angles in the order `XYZ`, the default of three.js. -/
def eulerXYZ (r : F × F × F) : Matrix4 F :=
  multiply (multiply (rotationX r.1) (rotationY r.2.1)) (rotationZ r.2.2)

/-- The matrix of a group: its rotation, then its position. -/
def localMatrix (position rotation : F × F × F) : Matrix4 F :=
  multiply (translation position) (eulerXYZ rotation)

mutual

/-- The meshes below an element with their world matrices. -/
def place (world : Matrix4 F) : Element F → List (Mesh × Matrix4 F)
  | .mesh mesh position => [(mesh, multiply world (translation position))]
  | .group position rotation children =>
      placeAll (multiply world (localMatrix position rotation)) children

/-- The meshes below the children of a group. -/
def placeAll (world : Matrix4 F) : List (Element F) → List (Mesh × Matrix4 F)
  | [] => []
  | child :: children => place world child ++ placeAll world children

end

/-- The world matrices of the meshes of one kind. -/
def placesOf (mesh : Mesh) (placed : List (Mesh × Matrix4 F)) : List (Matrix4 F) :=
  placed.filterMap fun p => if p.1 = mesh then some p.2 else none

/-! ## The components -/

/-- A row of the table `DH`.
Source: `Scene.tsx`, `DH` -/
structure DhRow (F : Type) where
  a : F
  d : F
  alpha : F

/-- Source: `Scene.tsx`, `DH` -/
def dh : List (DhRow F) :=
  [⟨lit 0, lit 0.089159, div pi (lit 2)⟩,
    ⟨neg (lit 0.425), lit 0, lit 0⟩,
    ⟨neg (lit 0.39225), lit 0, lit 0⟩,
    ⟨lit 0, lit 0.10915, div pi (lit 2)⟩,
    ⟨lit 0, lit 0.09465, div (neg pi) (lit 2)⟩,
    ⟨lit 0, lit 0.0823, lit 0⟩]

/-- Source: `Scene.tsx`, `HOME_ANGLES` -/
def homeAngles : List F := List.replicate 6 (lit 0)

/-- The position that an object has without a `position`.
Source: `Scene.tsx`, `ArmChain` -/
def origin : F × F × F := (lit 0, lit 0, lit 0)

/-- `ArmChain` from an index on, over the rows of the table that are left. The limb of a row is not
modelled: it is a mesh below the group and places nothing.
Source: `Scene.tsx`, `ArmChain` -/
def armChainFrom (angles : List F) : ℕ → List (DhRow F) → Element F
  | _, [] => .mesh .tip origin
  | index, row :: rows =>
      .group origin (lit 0, lit 0, (angles[index]?).getD (lit 0))
        [.mesh .jointBall origin,
          .group (row.a, lit 0, row.d) (row.alpha, lit 0, lit 0)
            [armChainFrom angles (index + 1) rows]]

/-- Source: `Scene.tsx`, `ArmChain` -/
def armChain (angles : List F) : Element F := armChainFrom angles 0 dh

/-- Source: `Scene.tsx`, `EEMarker` -/
def eeMarker (pos : F × F × F) : Element F := .mesh .eeMarker pos

/-- The robot lies down: its `z` axis is the `y` axis of the scene.
Source: `Scene.tsx`, `Scene` -/
def robotRotation : F × F × F := (div (neg pi) (lit 2), lit 0, lit 0)

/-- The group of the robot. Source: `Scene.tsx`, `Scene` -/
def scene (frame : Option (TwinFrame F)) : Element F :=
  let angles := match frame with
    | some frame => frame.joints.map JointFrame.positionRad
    | none => homeAngles
  .group origin robotRotation
    (armChain angles :: match frame with
      | some frame => [eeMarker frame.ee.pos]
      | none => [])

end tree

/-! ## The chain in exact arithmetic -/

section Real

/-- Over the reals a literal is its value. -/
@[simp] theorem browser_lit (q : ℚ) : (BrowserFloat.lit q : ℝ) = q := rfl

/-- Over the reals `Math.PI` is π. -/
@[simp] theorem browser_pi : (BrowserFloat.pi : ℝ) = Real.pi := rfl

/-- Over the reals `-` is negation. -/
@[simp] theorem browser_neg (x : ℝ) : BrowserFloat.neg x = -x := rfl

/-- Over the reals `/` is division. -/
@[simp] theorem browser_div (x y : ℝ) : BrowserFloat.div x y = x / y := rfl

/-- Over the reals `Math.cos` is the cosine. -/
@[simp] theorem browser_cos (x : ℝ) : BrowserFloat.cos x = Real.cos x := rfl

/-- Over the reals `Math.sin` is the sine. -/
@[simp] theorem browser_sin (x : ℝ) : BrowserFloat.sin x = Real.sin x := rfl

/-- Over the reals matrices are multiplied exactly. -/
@[simp] theorem browser_multiply (a b : Matrix4 ℝ) : BrowserFloat.multiply a b = a * b := rfl

/-- Over the reals a new object's matrix is the identity. -/
theorem identity_real : (identity : Matrix4 ℝ) = 1 := by
  ext i j
  simp [identity, Matrix.one_apply]

/-- A move to the origin is none. -/
theorem translation_origin : translation (origin : ℝ × ℝ × ℝ) = 1 := by
  ext i j
  fin_cases i <;> fin_cases j <;> simp [translation, origin]

/-- A turn about x by zero is none. -/
theorem rotationX_zero : rotationX (0 : ℝ) = 1 := by
  ext i j
  fin_cases i <;> fin_cases j <;> simp [rotationX]

/-- A turn about y by zero is none. -/
theorem rotationY_zero : rotationY (0 : ℝ) = 1 := by
  ext i j
  fin_cases i <;> fin_cases j <;> simp [rotationY]

/-- A turn about z by zero is none. -/
theorem rotationZ_zero : rotationZ (0 : ℝ) = 1 := by
  ext i j
  fin_cases i <;> fin_cases j <;> simp [rotationZ]

/-- The outer group of a row turns about `z`. -/
theorem localMatrix_outer (theta : ℝ) : localMatrix origin (0, 0, theta) = rotationZ theta := by
  simp [localMatrix, eulerXYZ, translation_origin, rotationX_zero, rotationY_zero]

/-- The inner group of a row turns about `x` and moves along `x` and `z`. -/
theorem localMatrix_inner (a d alpha : ℝ) :
    localMatrix (a, 0, d) (alpha, 0, 0) = translation (a, 0, d) * rotationX alpha := by
  simp [localMatrix, eulerXYZ, rotationY_zero, rotationZ_zero]

/-- **The two groups of a row are its Denavit–Hartenberg transform.** -/
theorem rowTransform_eq (theta d a alpha : ℝ) :
    localMatrix origin (0, 0, theta) * localMatrix (a, 0, d) (alpha, 0, 0) =
      dhMatrix theta d a alpha := by
  rw [localMatrix_outer, localMatrix_inner]
  ext i j
  fin_cases i <;> fin_cases j <;>
    simp [rotationZ, translation, rotationX, dhMatrix, Matrix.mul_apply, Fin.sum_univ_four,
      mul_comm]

/-! ## The arm and the marker -/

/-- The product of the row transforms of the arm from an index on. -/
noncomputable def armProduct (angles : List ℝ) : ℕ → List (DhRow ℝ) → Matrix4 ℝ
  | _, [] => 1
  | index, row :: rows =>
      dhMatrix ((angles[index]?).getD 0) row.d row.a row.alpha * armProduct angles (index + 1) rows

/-- The nested groups compose to that product. -/
theorem placesOf_armChainFrom (angles : List ℝ) (rows : List (DhRow ℝ)) (index : ℕ)
    (world : Matrix4 ℝ) :
    placesOf .tip (place world (armChainFrom angles index rows)) =
      [world * armProduct angles index rows] := by
  induction rows generalizing index world with
  | nil => simp [armChainFrom, place, placesOf, armProduct, translation_origin]
  | cons row rows ih =>
      have hworld : world * localMatrix origin (0, 0, (angles[index]?).getD 0) *
          localMatrix (row.a, 0, row.d) (row.alpha, 0, 0) =
          world * dhMatrix ((angles[index]?).getD 0) row.d row.a row.alpha := by
        rw [mul_assoc, rowTransform_eq]
      simp only [armChainFrom, place, placeAll, armProduct, browser_multiply, browser_lit,
        Rat.cast_zero, List.append_nil, hworld]
      rw [← mul_assoc]
      exact ih (index + 1) _

/-- The marker is not attached to the arm. -/
theorem placesOf_eeMarker_armChainFrom (angles : List ℝ) (rows : List (DhRow ℝ)) (index : ℕ)
    (world : Matrix4 ℝ) :
    placesOf .eeMarker (place world (armChainFrom angles index rows)) = [] := by
  induction rows generalizing index world with
  | nil => rfl
  | cons row rows ih =>
      simp only [armChainFrom, place, placeAll, List.append_nil]
      exact ih (index + 1) _

/-- The places of a mesh in two lists are those in one after the other. -/
theorem placesOf_append (mesh : Mesh) (placed placed' : List (Mesh × Matrix4 ℝ)) :
    placesOf mesh (placed ++ placed') = placesOf mesh placed ++ placesOf mesh placed' :=
  List.filterMap_append

/-- The matrix of the group of the robot. -/
noncomputable def robotMatrix : Matrix4 ℝ := localMatrix origin robotRotation

/-- The scene of a frame has the arm and the marker below the group of the robot. -/
theorem place_scene (frame : TwinFrame ℝ) :
    place identity (scene (some frame)) =
      place robotMatrix (armChain (frame.joints.map JointFrame.positionRad)) ++
        [(Mesh.eeMarker, robotMatrix * translation frame.ee.pos)] := by
  simp [scene, place, placeAll, eeMarker, identity_real, robotMatrix]

/-- The two tables agree, row by row. -/
theorem armProduct_dh {angles : List ℝ} (h : angles.length = 6) :
    armProduct angles 0 dh = rowsProduct (rows angles alphas) := by
  match angles, h with
  | [_, _, _, _, _, _], _ =>
      simp [armProduct, dh, rowsProduct, rows, tableD, tableA, alphas]

/-- The tip of the arm has the product of the transforms of the six rows, below any group. -/
theorem placesOf_tip_armChain {angles : List ℝ} (h : angles.length = 6) (world : Matrix4 ℝ) :
    placesOf .tip (place world (armChain angles)) =
      [world * rowsProduct (rows angles alphas)] := by
  rw [armChain, placesOf_armChainFrom, armProduct_dh h]

/-- The position of a pose is where that product moves the origin. -/
theorem rowsProduct_column {angles : List ℝ} (h : angles.length = 6) {pose : Pose ℝ}
    (hpose : forward angles = .ok pose) (k : Fin 4) :
    rowsProduct (rows angles alphas) k 3 = translation (pose.x, pose.y, pose.z) k 3 := by
  obtain ⟨transform, htransform, hx, hy, hz⟩ := forward_some hpose
  rw [forwardTransform_real h] at htransform
  obtain rfl := Except.ok.inj htransform
  have hbottom : rowsProduct (rows angles alphas) 3 3 = 1 := by
    rw [rowsProduct_bottom]
    rfl
  fin_cases k
  · simpa [translation] using hx.symm
  · simpa [translation] using hy.symm
  · simpa [translation] using hz.symm
  · simpa [translation] using hbottom

/-- **The viewer's arm and the server's kinematics agree.** For all six joint angles, the tip of the
arm has the transform that `forward` computes, below any group. So in every frame of a state that
was built, over a window of the joints of the arm, the frame lists the joints in their order, and
the tip is where the marker is. Source: `Scene.tsx`, `ArmChain`, `Scene`; `kinematics.py`,
`forward`; `stream.py`, `to_frame` -/
theorem armChain_agrees :
    (∀ (angles : List ℝ) (world : Matrix4 ℝ), angles.length = 6 →
      ∃ transform, forwardTransform angles = .ok transform ∧
        placesOf .tip (place world (armChain angles)) = [world * transform]) ∧
    ∀ (asset : String) (w : RollingWindow ℝ) (rmsWindowS : ℝ) (state : TwinState ℝ),
      w.joints = ur5JointNames → buildState asset w rmsWindowS = .ok (some state) →
      ∃ frame tip marker, toFrame state = .ok frame ∧
        frame.joints.map JointFrame.name = ur5JointNames ∧
        placesOf .tip (place identity (scene (some frame))) = [tip] ∧
        placesOf .eeMarker (place identity (scene (some frame))) = [marker] ∧
        ∀ i, tip i 3 = marker i 3 := by
  constructor
  · intro angles world h
    exact ⟨_, forwardTransform_real h, placesOf_tip_armChain h world⟩
  intro asset w rmsWindowS state hjoints hbuild
  obtain ⟨snaps, pose, hsnap, hpose, -, rfl⟩ := buildState_some hbuild
  have hnames := RollingWindow.snapshot_names hsnap
  rw [hjoints] at hnames
  have hlength : (snaps.map JointSnapshot.positionRad).length = 6 := by
    rw [List.length_map, ← List.length_map (f := JointSnapshot.name), hnames]
    rfl
  have hangles : ((snaps.map JointState.ofSnapshot).map JointFrame.ofState).map
      JointFrame.positionRad = snaps.map JointSnapshot.positionRad := by
    simp [JointFrame.ofState, JointState.ofSnapshot, Function.comp_def]
  refine ⟨_, robotMatrix * rowsProduct (rows (snaps.map JointSnapshot.positionRad) alphas),
    robotMatrix * translation (pose.x, pose.y, pose.z), toFrame_ok _, ?_, ?_, ?_, ?_⟩
  · rw [← hnames]
    simp [TwinFrame.ofState, JointFrame.ofState, JointState.ofSnapshot, Function.comp_def]
  · rw [place_scene, placesOf_append, TwinFrame.ofState, hangles, placesOf_tip_armChain hlength]
    rfl
  · rw [place_scene, placesOf_append, armChain, placesOf_eeMarker_armChainFrom]
    rfl
  · intro i
    rw [Matrix.mul_apply, Matrix.mul_apply]
    apply Finset.sum_congr rfl
    intro k _
    rw [rowsProduct_column hlength hpose]

/-- One sample of zero on every channel of the arm. -/
def homeReport : List (RollingWindow.Observation ℝ) :=
  ur5JointNames.flatMap fun joint => JointField.members.map fun field => ⟨joint, field, .new 0 1⟩

/-- The window of an arm at rest in its home position. -/
noncomputable def homeWindow : RollingWindow ℝ :=
  (RollingWindow.new 2000000000 ur5JointNames).observeAll homeReport

/-- The report at home is one zero for each channel. -/
theorem mem_homeReport {o : RollingWindow.Observation ℝ} :
    o ∈ homeReport ↔ ∃ joint ∈ ur5JointNames, ∃ field, o = ⟨joint, field, .new 0 1⟩ := by
  unfold homeReport
  simp only [List.mem_flatMap, List.mem_map]
  constructor
  · rintro ⟨joint, hjoint, field, -, rfl⟩
    exact ⟨joint, hjoint, field, rfl⟩
  · rintro ⟨joint, hjoint, field, rfl⟩
    exact ⟨joint, hjoint, field, JointField.mem_members field, rfl⟩

/-- The joints of the window are those of the arm. -/
theorem homeWindow_joints : homeWindow.joints = ur5JointNames := RollingWindow.observeAll_joints ..

/-- The report completes the window. -/
theorem complete_homeWindow : homeWindow.Complete := by
  intro joint hjoint field
  rw [homeWindow_joints] at hjoint
  have hmem : ⟨joint, field, .new 0 1⟩ ∈ homeReport :=
    mem_homeReport.mpr ⟨joint, hjoint, field, rfl⟩
  exact RollingWindow.isSome_latest_observeAll hmem hjoint

/-- All positions of that window are zero. -/
theorem positions_homeWindow {snaps : List (JointSnapshot ℝ)}
    (h : homeWindow.snapshot = .ok (some snaps)) :
    snaps.map JointSnapshot.positionRad = List.replicate 6 0 := by
  rw [List.eq_replicate_iff]
  constructor
  · rw [List.length_map, ← (RollingWindow.snapshot_some h).length_eq, homeWindow_joints]
    rfl
  · intro x hx
    obtain ⟨snap, hmem, rfl⟩ := List.mem_map.mp hx
    obtain ⟨hjoint, -, hposition, -⟩ := RollingWindow.entryOf_of_mem h hmem
    rw [homeWindow_joints] at hjoint
    obtain ⟨o, ho, -, -, hvalue⟩ := RollingWindow.exists_observation_of_latest
      (w := .new 2000000000 ur5JointNames) hjoint rfl hposition
    obtain ⟨joint, -, field, rfl⟩ := mem_homeReport.mp ho
    exact hvalue.symm

/-- A state is built of that window. -/
theorem buildState_homeWindow :
    ∃ state, buildState "ur5" homeWindow 2 = .ok (some state) := by
  obtain ⟨snaps, hsnap, hiff⟩ := RollingWindow.snapshot_of_rms homeWindow.exists_velocityRms_real
  obtain ⟨snaps, rfl⟩ := Option.isSome_iff_exists.mp (hiff.mpr complete_homeWindow)
  have hstamp : homeWindow.stampNs ≤ 1 := by
    apply RollingWindow.stampNs_observeAll_le
    intro o ho
    obtain ⟨joint, -, field, rfl⟩ := mem_homeReport.mp ho
    exact le_rfl
  obtain ⟨pose, hpose⟩ := forward_home
  rw [← positions_homeWindow hsnap] at hpose
  exact ⟨_, buildState_ok hsnap hpose (hstamp.trans_lt (by decide))⟩

/-- At home the tip is where the marker is. -/
theorem armChain_agrees_home :
    ∃ state frame tip marker, buildState "ur5" homeWindow 2 = .ok (some state) ∧
      toFrame state = .ok frame ∧
      placesOf .tip (place identity (scene (some frame))) = [tip] ∧
      placesOf .eeMarker (place identity (scene (some frame))) = [marker] ∧
      ∀ i, tip i 3 = marker i 3 := by
  obtain ⟨state, hbuild⟩ := buildState_homeWindow
  obtain ⟨frame, tip, marker, hframe, -, htip, hmarker, hagree⟩ :=
    armChain_agrees.2 "ur5" homeWindow 2 state homeWindow_joints hbuild
  exact ⟨state, frame, tip, marker, hbuild, hframe, htip, hmarker, hagree⟩

end Real

end TwinServices.Viz
