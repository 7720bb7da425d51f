import TwinServices.Python.Basic
import Mathlib.Data.List.TakeWhile

/-!
# The shared vocabulary and the topics

The joint names and fields every service agrees on, and the MQTT topics. A topic is built by
concatenation and taken apart by one regular expression; `parseTelemetryTopic_ok_iff` says what
the expression accepts: the built topics whose asset and joint are non-empty and free of `/`, each
with at most one newline after it, because `$` also matches before a newline that ends the text.
So it accepts exactly the built topics on every text but those with the newline
(`parsedExactly_iff`).
-/

set_option autoImplicit false

namespace TwinServices.Contracts

open TwinServices.Python

/-! ## Vocabulary -/

/-- The version of the contracts. Source: `models.py`, `SCHEMA_VERSION` -/
def schemaVersion : ℕ := 1

/-- The joints in contract order. Source: `models.py`, `UR5_JOINT_NAMES` -/
def ur5JointNames : List String :=
  ["shoulder_pan_joint", "shoulder_lift_joint", "elbow_joint", "wrist_1_joint", "wrist_2_joint",
    "wrist_3_joint"]

/-- The three telemetry channels of a joint. Source: `models.py`, `JointField` -/
inductive JointField
  | position
  | velocity
  | effort
deriving DecidableEq, Repr

namespace JointField

/-- The text of the enumeration member.
Source: `models.py`, `JointField` -/
def value : JointField → String
  | position => "position"
  | velocity => "velocity"
  | effort => "effort"

/-- The members in the order of the class.
Source: `models.py`, `JointField` -/
def members : List JointField := [position, velocity, effort]

/-- Every field is listed. -/
theorem mem_members (f : JointField) : f ∈ members := by
  cases f <;> decide

end JointField

/-! ## Topics -/

/-- The topic of one telemetry channel. Source: `models.py`, `telemetry_topic` -/
def telemetryTopic (asset joint : String) (field : JointField) : String :=
  "twin/" ++ asset ++ "/joint/" ++ joint ++ "/" ++ field.value

/-- The subscription filter for an asset. Source: `models.py`, `telemetry_wildcard` -/
def telemetryWildcard (asset : String) : String := "twin/" ++ asset ++ "/joint/+/+"

/-- The topic of the setpoints. Source: `models.py`, `command_topic` -/
def commandTopic (asset : String) : String := "twin/" ++ asset ++ "/cmd/joints"

/-- The group `[^/]+`: the longest run of characters other than `/`, at least one. It is always
followed by a `/` in the expression, so no shorter run can match.
Source: `models.py`, `_TELEMETRY_TOPIC` -/
def matchLevel (cs : List Char) : Option (List Char × List Char) :=
  let level := cs.takeWhile (· ≠ '/')
  if level.isEmpty then none else some (level, cs.dropWhile (· ≠ '/'))

/-- The group `position|velocity|effort` and the `$` after it: the end of the text, or a newline
that ends it.
Source: `models.py`, `_TELEMETRY_TOPIC` -/
def matchField (cs : List Char) : Option JointField :=
  JointField.members.find? fun f => cs = f.value.toList ∨ cs = f.value.toList ++ ['\n']

/-- The expression `_TELEMETRY_TOPIC`, matched at the start of a text.
Source: `models.py`, `_TELEMETRY_TOPIC` -/
def matchTelemetryTopic (cs : List Char) : Option (List Char × List Char × JointField) := do
  let cs ← "twin/".toList.isPrefixOf? cs
  let (asset, cs) ← matchLevel cs
  let cs ← "/joint/".toList.isPrefixOf? cs
  let (joint, cs) ← matchLevel cs
  let cs ← "/".toList.isPrefixOf? cs
  let field ← matchField cs
  some (asset, joint, field)

/-- A telemetry topic as asset, joint and field. Source: `models.py`, `parse_telemetry_topic` -/
def parseTelemetryTopic (topic : String) : Except PyError (String × String × JointField) :=
  match matchTelemetryTopic topic.toList with
  | none => .error (.notATelemetryTopic topic)
  | some (asset, joint, field) => .ok (String.ofList asset, String.ofList joint, field)

/-! ## What the expression accepts -/

/-- A text that can be one level of a topic. -/
def IsLevel (s : String) : Prop := s ≠ "" ∧ '/' ∉ s.toList

/-- Whether a string is a topic level is checked by computing. -/
instance (s : String) : Decidable (IsLevel s) := inferInstanceAs (Decidable (_ ∧ _))

/-- A level before a slash is matched up to the slash. -/
theorem matchLevel_append {s r : List Char} (hs : s ≠ []) (hfree : '/' ∉ s) :
    matchLevel (s ++ '/' :: r) = some (s, '/' :: r) := by
  have hall : ∀ c ∈ s, (decide (c ≠ '/')) = true := by
    intro c hc
    simpa using fun h : c = '/' => hfree (h ▸ hc)
  unfold matchLevel
  rw [List.takeWhile_append_of_pos hall, List.dropWhile_append_of_pos hall]
  simp [hs]

/-- What `[^/]+` matches is not empty, has no slash and is what the text begins with. -/
theorem matchLevel_eq_some {cs s r : List Char} (h : matchLevel cs = some (s, r)) :
    s ≠ [] ∧ '/' ∉ s ∧ cs = s ++ r := by
  unfold matchLevel at h
  simp only at h
  split_ifs at h with hempty
  obtain ⟨rfl, rfl⟩ := Prod.mk.inj (Option.some.inj h)
  refine ⟨by simpa using hempty, ?_, (List.takeWhile_append_dropWhile).symm⟩
  intro hmem
  simpa using List.mem_takeWhile_imp hmem

/-- The end of the pattern matches a field's name, or a field's name and one newline. -/
theorem matchField_eq_some_iff {cs : List Char} {f : JointField} :
    matchField cs = some f ↔ cs = f.value.toList ∨ cs = f.value.toList ++ ['\n'] := by
  constructor
  · intro h
    simpa using List.find?_some h
  · rintro (rfl | rfl) <;> cases f <;> decide

/-- The text of a telemetry topic, level by level. -/
theorem telemetryTopic_toList (asset joint : String) (field : JointField) :
    (telemetryTopic asset joint field).toList = "twin/".toList ++ (asset.toList ++
      ("/joint/".toList ++ (joint.toList ++ ("/".toList ++ field.value.toList)))) := by
  simp only [telemetryTopic, String.toList_append, List.append_assoc]

/-- The pattern matches the parts of a topic that is put together of them. -/
theorem matchTelemetryTopic_append {a j cs : List Char} {f : JointField} (ha : a ≠ [])
    (ha' : '/' ∉ a) (hj : j ≠ []) (hj' : '/' ∉ j)
    (hcs : cs = f.value.toList ∨ cs = f.value.toList ++ ['\n']) :
    matchTelemetryTopic ("twin/".toList ++ (a ++ ("/joint/".toList ++ (j ++ ("/".toList ++ cs))))) =
      some (a, j, f) := by
  unfold matchTelemetryTopic
  have hstrip : ∀ p r : List Char, p.isPrefixOf? (p ++ r) = some r := by
    intro p r
    exact List.isPrefixOf?_eq_some_iff_append_eq.mpr rfl
  rw [hstrip]
  simp only [Option.bind_eq_bind, Option.bind_some]
  rw [show a ++ ("/joint/".toList ++ (j ++ ("/".toList ++ cs))) =
      a ++ '/' :: ("joint/".toList ++ (j ++ ("/".toList ++ cs))) from rfl,
    matchLevel_append ha ha']
  simp only [Option.bind_some]
  rw [show '/' :: ("joint/".toList ++ (j ++ ("/".toList ++ cs))) =
      "/joint/".toList ++ (j ++ ("/".toList ++ cs)) from rfl, hstrip]
  simp only [Option.bind_some]
  rw [show j ++ ("/".toList ++ cs) = j ++ '/' :: cs from rfl, matchLevel_append hj hj']
  simp only [Option.bind_some]
  rw [show '/' :: cs = "/".toList ++ cs from rfl, hstrip]
  simp only [Option.bind_some, matchField_eq_some_iff.mpr hcs]

/-- What the pattern matches is put together of the parts that it captures. -/
theorem matchTelemetryTopic_eq_some {cs a j : List Char} {f : JointField}
    (h : matchTelemetryTopic cs = some (a, j, f)) :
    a ≠ [] ∧ '/' ∉ a ∧ j ≠ [] ∧ '/' ∉ j ∧ ∃ tail,
      (tail = f.value.toList ∨ tail = f.value.toList ++ ['\n']) ∧
      cs = "twin/".toList ++ (a ++ ("/joint/".toList ++ (j ++ ("/".toList ++ tail)))) := by
  unfold matchTelemetryTopic at h
  simp only [Option.bind_eq_bind, Option.bind_eq_some_iff] at h
  obtain ⟨cs₁, h₁, ⟨a', cs₂⟩, h₂, cs₃, h₃, ⟨j', cs₄⟩, h₄, cs₅, h₅, f', h₆, h₇⟩ := h
  obtain ⟨rfl, rfl, rfl⟩ : a' = a ∧ j' = j ∧ f' = f := by simpa using h₇
  obtain ⟨ha, ha', rfl⟩ := matchLevel_eq_some h₂
  obtain ⟨hj, hj', rfl⟩ := matchLevel_eq_some h₄
  refine ⟨ha, ha', hj, hj', cs₅, matchField_eq_some_iff.mp h₆, ?_⟩
  simp only at h₃ h₅
  rw [← List.isPrefixOf?_eq_some_iff_append_eq.mp h₁,
    ← List.isPrefixOf?_eq_some_iff_append_eq.mp h₃, ← List.isPrefixOf?_eq_some_iff_append_eq.mp h₅]

/-- The topics that are parsed, and as what. -/
theorem parseTelemetryTopic_ok_iff {t a j : String} {f : JointField} :
    parseTelemetryTopic t = .ok (a, j, f) ↔
      IsLevel a ∧ IsLevel j ∧ (t = telemetryTopic a j f ∨ t = telemetryTopic a j f ++ "\n") := by
  have hne : ∀ s : String, s ≠ "" ↔ s.toList ≠ [] := by
    intro s
    rw [not_iff_not, ← String.toList_inj]
    rfl
  constructor
  · intro h
    unfold parseTelemetryTopic at h
    split at h
    · exact absurd h (by simp)
    · rename_i a' j' f' hm
      obtain ⟨rfl, rfl, rfl⟩ : String.ofList a' = a ∧ String.ofList j' = j ∧ f' = f := by
        simpa using h
      obtain ⟨ha, ha', hj, hj', tail, htail, ht⟩ := matchTelemetryTopic_eq_some hm
      refine ⟨⟨(hne _).mpr (by simpa using ha), by simpa using ha'⟩,
        ⟨(hne _).mpr (by simpa using hj), by simpa using hj'⟩, ?_⟩
      rcases htail with rfl | rfl
      · left
        apply String.toList_injective
        rw [ht, telemetryTopic_toList]
        simp
      · right
        apply String.toList_injective
        rw [ht, String.toList_append, telemetryTopic_toList]
        simp
  · rintro ⟨⟨ha, ha'⟩, ⟨hj, hj'⟩, ht⟩
    have hm : matchTelemetryTopic t.toList = some (a.toList, j.toList, f) := by
      rcases ht with rfl | rfl
      · rw [telemetryTopic_toList]
        exact matchTelemetryTopic_append ((hne a).mp ha) ha' ((hne j).mp hj) hj' (Or.inl rfl)
      · rw [String.toList_append, telemetryTopic_toList]
        simp only [List.append_assoc]
        exact matchTelemetryTopic_append ((hne a).mp ha) ha' ((hne j).mp hj) hj' (Or.inr rfl)
    unfold parseTelemetryTopic
    rw [hm]
    simp

/-! ## Topics that are parsed back -/

/-- A text splits at its first slash in one way. -/
theorem append_slash_inj {s s' r r' : List Char} (hs : '/' ∉ s) (hs' : '/' ∉ s')
    (h : s ++ '/' :: r = s' ++ '/' :: r') : s = s' ∧ r = r' := by
  induction s generalizing s' with
  | nil =>
      cases s' with
      | nil => exact ⟨rfl, (List.cons.inj h).2⟩
      | cons c s' => exact absurd (List.mem_cons.mpr (Or.inl (List.cons.inj h).1)) hs'
  | cons c s ih =>
      cases s' with
      | nil => exact absurd (List.mem_cons.mpr (Or.inl (List.cons.inj h).1.symm)) hs
      | cons c' s' =>
          obtain ⟨rfl, htail⟩ := List.cons.inj h
          obtain ⟨rfl, hr⟩ := ih (fun hm => hs (List.mem_cons_of_mem _ hm))
            (fun hm => hs' (List.mem_cons_of_mem _ hm)) htail
          exact ⟨rfl, hr⟩

/-- The levels of a topic can be told apart. -/
theorem levels_inj {a a' j j' t t' : List Char} (ha : '/' ∉ a) (ha' : '/' ∉ a') (hj : '/' ∉ j)
    (hj' : '/' ∉ j')
    (h : "twin/".toList ++ (a ++ ("/joint/".toList ++ (j ++ ("/".toList ++ t)))) =
      "twin/".toList ++ (a' ++ ("/joint/".toList ++ (j' ++ ("/".toList ++ t'))))) :
    a = a' ∧ j = j' ∧ t = t' := by
  have h₁ := List.append_cancel_left h
  change a ++ '/' :: ("joint/".toList ++ (j ++ ("/".toList ++ t))) =
    a' ++ '/' :: ("joint/".toList ++ (j' ++ ("/".toList ++ t'))) at h₁
  obtain ⟨rfl, h₂⟩ := append_slash_inj ha ha' h₁
  obtain ⟨rfl, h₃⟩ := append_slash_inj hj hj' (List.append_cancel_left h₂)
  exact ⟨rfl, rfl, h₃⟩

/-- The slashes of a topic. -/
theorem count_slash (a j t : List Char) :
    ("twin/".toList ++ (a ++ ("/joint/".toList ++ (j ++ ("/".toList ++ t))))).count '/' =
      a.count '/' + j.count '/' + t.count '/' + 4 := by
  have htwin : "twin/".toList.count '/' = 1 := by decide
  have hjoint : "/joint/".toList.count '/' = 2 := by decide
  have hslash : "/".toList.count '/' = 1 := by decide
  simp only [List.count_append, htwin, hjoint, hslash]
  omega

/-- **The topic of a channel is parsed as that channel**, and only where asset and joint are
levels. -/
theorem parseTelemetryTopic_telemetryTopic {asset joint : String} {field : JointField}
    {r : String × String × JointField} :
    parseTelemetryTopic (telemetryTopic asset joint field) = .ok r ↔
      IsLevel asset ∧ IsLevel joint ∧ r = (asset, joint, field) := by
  obtain ⟨a, j, f⟩ := r
  have hfield : ∀ f : JointField, f.value.toList.count '/' = 0 := by
    intro f
    cases f <;> decide
  rw [parseTelemetryTopic_ok_iff]
  constructor
  · rintro ⟨ha, hj, ht⟩
    have htail : ∃ tail, (tail = f.value.toList ∨ tail = f.value.toList ++ ['\n']) ∧
        (telemetryTopic asset joint field).toList = "twin/".toList ++ (a.toList ++
          ("/joint/".toList ++ (j.toList ++ ("/".toList ++ tail)))) := by
      rcases ht with ht | ht
      · exact ⟨_, Or.inl rfl, by rw [ht, telemetryTopic_toList]⟩
      · exact ⟨_, Or.inr rfl, by
          rw [ht, String.toList_append, telemetryTopic_toList]
          simp only [List.append_assoc]
          rfl⟩
    obtain ⟨tail, htail, heq⟩ := htail
    have htail0 : tail.count '/' = 0 := by
      rcases htail with rfl | rfl
      · exact hfield f
      · rw [List.count_append, hfield f]
        decide
    rw [telemetryTopic_toList] at heq
    have hcount := congrArg (List.count '/') heq
    rw [count_slash, count_slash, hfield, htail0, List.count_eq_zero_of_not_mem ha.2,
      List.count_eq_zero_of_not_mem hj.2] at hcount
    have hasset : '/' ∉ asset.toList := List.count_eq_zero.mp (by omega)
    have hjoint : '/' ∉ joint.toList := List.count_eq_zero.mp (by omega)
    obtain ⟨h₁, h₂, h₃⟩ := levels_inj hasset ha.2 hjoint hj.2 heq
    obtain rfl := String.toList_injective h₁
    obtain rfl := String.toList_injective h₂
    refine ⟨ha, hj, ?_⟩
    rw [← h₃] at htail
    have hinj : ∀ f f' : JointField,
        f'.value.toList = f.value.toList ∨ f'.value.toList = f.value.toList ++ ['\n'] → f = f' := by
      intro f f'
      cases f <;> cases f' <;> decide
    rw [hinj f field htail]
  · rintro ⟨ha, hj, heq⟩
    obtain ⟨rfl, rfl, rfl⟩ : a = asset ∧ j = joint ∧ f = field := by simpa using heq
    exact ⟨ha, hj, Or.inl rfl⟩

/-! ## When the parser accepts exactly the built topics -/

/-- A text is parsed as a channel if and only if it is the topic of that channel, and refused with a
`ValueError` if it is the topic of none. -/
def ParsedExactly (t : String) : Prop :=
  (∀ asset joint field, parseTelemetryTopic t = .ok (asset, joint, field) ↔
    IsLevel asset ∧ IsLevel joint ∧ t = telemetryTopic asset joint field) ∧
  ((∀ asset joint field, IsLevel asset → IsLevel joint → t ≠ telemetryTopic asset joint field) →
    parseTelemetryTopic t = .error (.notATelemetryTopic t))

/-- What is not parsed is refused with the error of the function. -/
theorem parseTelemetryTopic_error {t : String} (h : ∀ r, parseTelemetryTopic t ≠ .ok r) :
    parseTelemetryTopic t = .error (.notATelemetryTopic t) := by
  unfold parseTelemetryTopic at h ⊢
  split
  · rfl
  · rename_i heq
    rw [heq] at h
    exact absurd rfl (h _)

/-- A topic with a newline after it is parsed, and is not a topic. -/
theorem not_parsedExactly_newline {asset joint : String} (hasset : IsLevel asset)
    (hjoint : IsLevel joint) (field : JointField) :
    ¬ ParsedExactly (telemetryTopic asset joint field ++ "\n") := by
  rintro ⟨hparse, -⟩
  obtain ⟨-, -, heq⟩ := (hparse asset joint field).mp
    (parseTelemetryTopic_ok_iff.mpr ⟨hasset, hjoint, Or.inr rfl⟩)
  have hlength := congrArg String.length heq
  rw [String.length_append] at hlength
  have hnewline : "\n".length = 1 := rfl
  omega

/-- **When the parser accepts exactly the built topics.** For every text: it is parsed as a channel
if and only if it is the topic of that channel, and refused else, unless it is a topic with one
newline after it. Source: `models.py`, `_TELEMETRY_TOPIC`, `parse_telemetry_topic` -/
theorem parsedExactly_iff (t : String) :
    ParsedExactly t ↔ ¬ ∃ asset joint field, IsLevel asset ∧ IsLevel joint ∧
      t = telemetryTopic asset joint field ++ "\n" := by
  constructor
  · rintro h ⟨asset, joint, field, hasset, hjoint, rfl⟩
    exact not_parsedExactly_newline hasset hjoint field h
  · intro hnone
    have hparse : ∀ asset joint field, parseTelemetryTopic t = .ok (asset, joint, field) ↔
        IsLevel asset ∧ IsLevel joint ∧ t = telemetryTopic asset joint field := by
      intro asset joint field
      rw [parseTelemetryTopic_ok_iff]
      constructor
      · rintro ⟨hasset, hjoint, ht | ht⟩
        · exact ⟨hasset, hjoint, ht⟩
        · exact absurd ⟨asset, joint, field, hasset, hjoint, ht⟩ hnone
      · rintro ⟨hasset, hjoint, ht⟩
        exact ⟨hasset, hjoint, Or.inl ht⟩
    refine ⟨hparse, fun hne => parseTelemetryTopic_error ?_⟩
    rintro ⟨asset, joint, field⟩ hok
    obtain ⟨hasset, hjoint, ht⟩ := (hparse asset joint field).mp hok
    exact hne asset joint field hasset hjoint ht

/-- The position of the elbow, with a newline at the end of the topic. -/
theorem newline_parsed :
    parseTelemetryTopic "twin/ur5/joint/elbow_joint/position\n" =
        .ok ("ur5", "elbow_joint", .position) ∧
      ¬ ParsedExactly "twin/ur5/joint/elbow_joint/position\n" := by
  have htopic : "twin/ur5/joint/elbow_joint/position\n" =
      telemetryTopic "ur5" "elbow_joint" .position ++ "\n" := by decide
  rw [htopic]
  exact ⟨parseTelemetryTopic_ok_iff.mpr ⟨by decide, by decide, Or.inr rfl⟩,
    not_parsedExactly_newline (by decide) (by decide) .position⟩

end TwinServices.Contracts
