import TwinServices.State.Recovery
import TwinServices.System.Composition

/-!
# Recovery of state-svc

state-svc holds everything in memory. When it is killed and started again, or while it is cut off
from the broker, it is not where it would be; nothing has to be repaired for it to be there again. A
joint state of the whole arm, longer than the window after all that one process has and another has
not, makes them the same, and their clients get the same state.

* `replaces_of_published`: what the messages of such a joint state do to a window.
* `window_of_taken`, `latest_of_taken`: what a process holds, from the messages that count.
* `restart_is_forgotten`: two processes after any restarts and losses.
-/

set_option autoImplicit false

namespace TwinServices.System

open TwinServices.Python TwinServices.Contracts TwinServices.Bridge TwinServices.State
open State.RollingWindow (Replaces replaces_of_report observeAll_append_of_replaces)
open Lib.Transition Lib.Binary64

section recovery

variable [Pydantic]

/-- What the consumer folds of a message. -/
def observed (m : String × Payload) : Option (RollingWindow.Observation Double) :=
  folded (.message m.1 m.2)

/-- What a run folds is what it takes in. -/
theorem filterMap_observed (l : List Event) :
    l.filterMap folded = (deliveries l).filterMap observed := by
  unfold deliveries
  rw [List.filterMap_filterMap]
  refine List.filterMap_congr fun e _ => ?_
  cases e <;> rfl

/-- The messages of a finite joint state of the whole arm replace all that was observed longer than
the window before. -/
theorem replaces_of_published {asset : String} (hasset : IsLevel asset)
    {msg : JointStateMessage Double} (hcovers : CoversArm msg)
    (hfinite : ∀ x ∈ msg.values, x.isFinite = true) {windowNs : ℤ}
    {before after : List (String × Payload)}
    (hpublished : ∀ m ∈ publishJointStates msg asset, (m.1, .ofText m.2) ∈ after)
    (hlater : ∀ m ∈ before, ∀ o, observed m = some o →
      (o.sample.stampNs : ℤ) + windowNs < msg.stampNs) :
    Replaces windowNs ur5JointNames (before.filterMap observed) (after.filterMap observed) := by
  apply replaces_of_report msg.stampNs
  · intro joint hjoint field
    obtain ⟨entry, hentry, rfl⟩ := exists_entry_of_name hcovers.1 (hcovers.2 joint hjoint)
    obtain ⟨m, hm, hread⟩ := List.mem_filterMap.mp
      (exists_reading hasset hcovers.1 hfinite hentry hjoint field)
    exact ⟨_, List.mem_filterMap.mpr ⟨_, hpublished m hm, hread⟩, rfl, rfl, rfl⟩
  · intro o ho _
    obtain ⟨m, hm, hobserved⟩ := List.mem_filterMap.mp ho
    exact hlater m hm o hobserved

variable [CPython] {assetName asset : String} {rmsWindowS : Double} {windowNs : ℤ}

/-- A run does not change the configuration. -/
theorem config_of_run {l : List Event} {c : Consumer}
    (h : Run step (Consumer.init assetName rmsWindowS windowNs) l c) :
    c.assetName = assetName ∧ c.rmsWindowS = rmsWindowS := by
  apply h.invariant (I := fun c => c.assetName = assetName ∧ c.rmsWindowS = rmsWindowS) ⟨rfl, rfl⟩
  intro c e t ih hstep
  rcases step_cases hstep with ⟨_, _, _, _, _, -, -, rfl⟩ | ⟨-, htick⟩ | ⟨-, -, hsame⟩
  · exact ih
  · rcases tick_cases htick with ⟨-, rfl⟩ | ⟨-, -, rfl⟩ | ⟨_, _, -, -, -, rfl⟩
    · exact ih
    · exact ih
    · exact ih
  · rw [hsame.assetName, hsame.rmsWindowS]
    exact ih

section restarts

variable {l : List (Option Event)} {c : Consumer} {before after : List (String × Payload)}

/-- The window, from the messages that leave nothing of those before them. -/
theorem window_of_taken (hwindow : 0 ≤ windowNs)
    (h : Run (restartable step (Consumer.init assetName rmsWindowS windowNs))
      (Consumer.init assetName rmsWindowS windowNs) l c)
    (htaken : deliveries (sinceRestart l) = before ++ after)
    (hreplaces : Replaces windowNs ur5JointNames (before.filterMap observed)
      (after.filterMap observed)) :
    c.window = (RollingWindow.new windowNs ur5JointNames).observeAll
      (after.filterMap observed) := by
  rw [window_of_run h.sinceRestart, filterMap_observed, htaken, List.filterMap_append]
  exact observeAll_append_of_replaces hwindow hreplaces

/-- What the clients get, once it is broadcast. -/
theorem latest_of_taken (hwindow : 0 ≤ windowNs)
    (h : Run (restartable step (Consumer.init assetName rmsWindowS windowNs))
      (Consumer.init assetName rmsWindowS windowNs) l c)
    (htaken : deliveries (sinceRestart l) = before ++ after)
    (hreplaces : Replaces windowNs ur5JointNames (before.filterMap observed)
      (after.filterMap observed)) (hclean : c.dirty = false) :
    buildState assetName ((RollingWindow.new windowNs ur5JointNames).observeAll
      (after.filterMap observed)) rmsWindowS = .ok c.hub.latest ∧ c.hub.latest.isSome = true := by
  have hbuild := (consumerInv_of_run h.sinceRestart).upToDate hclean
  obtain ⟨hasset, hrms⟩ := config_of_run h.sinceRestart
  rw [UpToDate, window_of_taken hwindow h htaken hreplaces, hasset, hrms] at hbuild
  refine ⟨hbuild, (isSome_buildState_iff hbuild).mpr fun joint hjoint field => ?_⟩
  rw [RollingWindow.observeAll_joints] at hjoint
  obtain ⟨o, ho, rfl, rfl⟩ := hreplaces.channels joint hjoint field
  exact RollingWindow.isSome_latest_observeAll ho hjoint

end restarts

/-- **A restart is forgotten one window later.** Take any two runs of state-svc with the same
configuration, each with any restarts, losses, duplicates, ticks and clients. Once both have taken
in the same messages in the same order, among them those of one joint state of the whole arm whose
stamp is longer than the window after all that either folded before since its last start, their
windows are the same; and whenever neither has anything left to broadcast, `GetState` answers the
same state in both.
Source: `consumer.py`, `Consumer`; `window.py`, `RollingWindow.observe`; `grpc_server.py`,
`build_state`; `main.py`, `publish_joint_states`; `chaos.py`, `run_cycle` -/
theorem restart_is_forgotten (hwindow : 0 ≤ windowNs) {l l' : List (Option Event)} {c c' : Consumer}
    (h : Run (restartable step (Consumer.init assetName rmsWindowS windowNs))
      (Consumer.init assetName rmsWindowS windowNs) l c)
    (h' : Run (restartable step (Consumer.init assetName rmsWindowS windowNs))
      (Consumer.init assetName rmsWindowS windowNs) l' c')
    {before before' after : List (String × Payload)}
    (htaken : deliveries (sinceRestart l) = before ++ after)
    (htaken' : deliveries (sinceRestart l') = before' ++ after)
    (hasset : IsLevel asset) {msg : JointStateMessage Double} (hcovers : CoversArm msg)
    (hfinite : ∀ x ∈ msg.values, x.isFinite = true)
    (hpublished : ∀ m ∈ publishJointStates msg asset, (m.1, .ofText m.2) ∈ after)
    (hlater : ∀ m ∈ before ++ before', ∀ o, observed m = some o →
      (o.sample.stampNs : ℤ) + windowNs < msg.stampNs) :
    c.window = c'.window ∧ (c.dirty = false → c'.dirty = false →
      ∃ state, c.hub.latest = some state ∧ c'.hub.latest = some state) := by
  have hreplaces := replaces_of_published hasset hcovers hfinite hpublished
    fun m hm => hlater m (List.mem_append_left _ hm)
  have hreplaces' := replaces_of_published hasset hcovers hfinite hpublished
    fun m hm => hlater m (List.mem_append_right _ hm)
  constructor
  · rw [window_of_taken hwindow h htaken hreplaces, window_of_taken hwindow h' htaken' hreplaces']
  · intro hclean hclean'
    obtain ⟨hbuild, hsome⟩ := latest_of_taken hwindow h htaken hreplaces hclean
    obtain ⟨hbuild', -⟩ := latest_of_taken hwindow h' htaken' hreplaces' hclean'
    obtain ⟨state, hstate⟩ := Option.isSome_iff_exists.mp hsome
    exact ⟨state, hstate, (Except.ok.inj (hbuild.symm.trans hbuild')).symm.trans hstate⟩

/-- After a tick nothing is left to broadcast. -/
theorem dirty_of_tick {l : List Event} {c : Consumer} {init : Consumer}
    (h : Run step init (l ++ [.tick]) c) : c.dirty = false := by
  obtain ⟨c', -, hstep⟩ := h.snoc_inv
  rcases step_cases hstep with ⟨_, _, _, _, _, he, -⟩ | ⟨-, htick⟩ | ⟨he, -⟩
  · cases he
  · rcases tick_cases htick with ⟨hclean, rfl⟩ | ⟨-, -, rfl⟩ | ⟨_, _, -, -, -, rfl⟩
    · exact hclean
    · rfl
    · rfl
  · exact absurd rfl he

end recovery

/-! ### A restart between two joint states -/

section platform

attribute [local instance] CPython.series Pydantic.decimal

/-- A joint state three seconds after the first one. -/
def later : JointStateMessage Double := allEqual Double.one 3000000001

/-- The samples of the later joint state are for the arm. -/
theorem mem_samples_later {p : String × JointTelemetry Double} (hp : p ∈ samples "ur5" later) :
    ForArm p := forArm_of_mem_samples (by decide) hp

/-- The later joint state covers the arm. -/
theorem coversArm_later : CoversArm later := ⟨rfl, fun _ h => h⟩

/-- All of its values are finite. -/
theorem finite_later : ∀ x ∈ later.values, x.isFinite = true := by
  intro x hx
  obtain ⟨p, hp, rfl⟩ := (mem_values_iff "ur5" rfl x).mp hx
  obtain ⟨joint, -, field, y, stampNs, rfl, -⟩ := mem_samples_later hp
  rfl

/-- The later joint state arrives at a new consumer. -/
theorem run_later : ∃ c, Run step consumerInit (arrivals (samples "ur5" later) ++ [.tick]) c := by
  obtain ⟨c, state, hrun, -⟩ :=
    run_arrivals (fun p hp => mem_samples_later hp) (List.Subset.refl (samples "ur5" later))
  exact ⟨c, hrun⟩

/-- The messages of a joint state. -/
def messagesOf (msg : JointStateMessage Double) : List (String × Payload) :=
  (samples "ur5" msg).map fun p => (p.1, .ofText p.2.modelDumpJson)

/-- Those of the first joint state are longer ago than the window. -/
theorem observed_first {m : String × Payload} (hm : m ∈ messagesOf first)
    {o : RollingWindow.Observation Double} (ho : observed m = some o) :
    (o.sample.stampNs : ℤ) + 2000000000 < later.stampNs := by
  obtain ⟨p, hp, rfl⟩ := List.mem_map.mp hm
  obtain ⟨joint, hjoint, field, rfl⟩ := mem_samples_allEqual.mp hp
  obtain rfl := Option.some.inj (ho.symm.trans (readBack_allEqual hjoint field))
  have hlt : ((1 : ℕ) : ℤ) + 2000000000 < ((3000000001 : ℕ) : ℤ) := by norm_num
  exact hlt

/-- Between the two joint states the process is killed and started again. -/
def killed : List (Option Event) :=
  (arrivals (samples "ur5" first) ++ [Event.tick]).map some ++ [none] ++
    (arrivals (samples "ur5" later) ++ [Event.tick]).map some

/-- It takes both joint states in. -/
def spared : List (Option Event) :=
  (arrivals (samples "ur5" first ++ samples "ur5" later) ++ [Event.tick]).map some

/-- Since the restart the killed consumer got the later joint state alone. -/
theorem deliveries_killed : deliveries (sinceRestart killed) = [] ++ messagesOf later := by
  unfold killed
  rw [sinceRestart_append_map_some, sinceRestart_concat_none, List.nil_append,
    deliveries_arrivals_tick]
  rfl

/-- The spared consumer got both joint states. -/
theorem deliveries_spared :
    deliveries (sinceRestart spared) = messagesOf first ++ messagesOf later := by
  have hsince : sinceRestart spared = arrivals (samples "ur5" first ++ samples "ur5" later) ++
      [Event.tick] :=
    sinceRestart_append_map_some []
      (arrivals (samples "ur5" first ++ samples "ur5" later) ++ [Event.tick])
  rw [hsince, deliveries_arrivals_tick, List.map_append]
  rfl

/-- After the later joint state both have the same window and the same latest state. -/
theorem restart_is_forgotten_later : ∃ c c' state,
    Run (restartable step consumerInit) consumerInit killed c ∧
      Run (restartable step consumerInit) consumerInit spared c' ∧
      c.window = c'.window ∧ c.hub.latest = some state ∧ c'.hub.latest = some state := by
  obtain ⟨c₀, -, hfirst, -⟩ := run_first _ fun p hp => absurd hp List.not_mem_nil
  rw [List.append_nil] at hfirst
  obtain ⟨c, hlater⟩ := run_later
  obtain ⟨c', -, hboth, -⟩ := run_first _ fun p hp => mem_samples_later hp
  have hkilled : Run (restartable step consumerInit) consumerInit killed c :=
    (hfirst.map_some.snoc rfl).append hlater.map_some
  have hspared : Run (restartable step consumerInit) consumerInit spared c' := hboth.map_some
  have hpublished : ∀ m ∈ publishJointStates later "ur5",
      (m.1, Payload.ofText m.2) ∈ messagesOf later := by
    intro m hm
    obtain ⟨p, hp, rfl⟩ := List.mem_map.mp hm
    exact List.mem_map_of_mem hp
  obtain ⟨hwindow, hlatest⟩ := restart_is_forgotten (by norm_num) hkilled hspared
    deliveries_killed deliveries_spared (by decide : IsLevel "ur5") coversArm_later finite_later
    hpublished fun m hm o ho => observed_first hm ho
  obtain ⟨state, hc, hc'⟩ := hlatest (dirty_of_tick hlater) (dirty_of_tick hboth)
  exact ⟨c, c', state, hkilled, hspared, hwindow, hc, hc'⟩

end platform

end TwinServices.System
