import TwinServices.Lib.TopicFilter
import TwinServices.State.Consumer

/-!
# Assets are isolated by their topics

The consumer drops the asset that it parses from a topic. What keeps the telemetry of one robot out
of the state of another is the filter it subscribes with and the levels of the topics.

* `IsName`: a text that can be the name of an asset or a joint in a topic and in a filter.
* `topicMatches_telemetryTopic`, `topicMatches_commandTopic`: what a subscription gets.
* `telemetryTopic_inj`: a topic is that of one channel of one asset.
* `topics_isolate`: these together, and that the consumer folds the telemetry of its asset only.
-/

set_option autoImplicit false

namespace TwinServices.System

open TwinServices.Python TwinServices.Contracts TwinServices.State
open Lib.Transition Lib.Binary64 Lib.TopicFilter

/-! ## The levels of the topics -/

/-- A level of a topic that is no wildcard in a filter either. -/
def IsName (s : String) : Prop := IsLevel s ∧ '+' ∉ s.toList ∧ '#' ∉ s.toList

/-- Whether a string is such a name is checked by computing. -/
instance (s : String) : Decidable (IsName s) := inferInstanceAs (Decidable (_ ∧ _))

/-- A name is not a text of one wildcard. -/
theorem IsName.ne_wildcard {s : String} (h : IsName s) :
    s.toList ≠ ['+'] ∧ s.toList ≠ ['#'] := by
  constructor
  · intro heq
    exact h.2.1 (by rw [heq]; exact List.mem_singleton_self _)
  · intro heq
    exact h.2.2 (by rw [heq]; exact List.mem_singleton_self _)

/-- The text of a field is free of slashes. -/
theorem slash_not_mem_value (field : JointField) : '/' ∉ field.value.toList := by
  cases field <;> decide

/-- The topic of a channel has five levels. -/
theorem levels_telemetryTopic {asset joint : String} (hasset : '/' ∉ asset.toList)
    (hjoint : '/' ∉ joint.toList) (field : JointField) :
    levels (telemetryTopic asset joint field).toList =
      ["twin".toList, asset.toList, "joint".toList, joint.toList, field.value.toList] := by
  have hjoin : (telemetryTopic asset joint field).toList =
      join ["twin".toList, asset.toList, "joint".toList, joint.toList, field.value.toList] := by
    rw [telemetryTopic_toList]
    simp [join, List.intercalate]
  rw [hjoin]
  apply levels_join (List.cons_ne_nil _ _)
  simp only [List.forall_mem_cons, List.not_mem_nil, false_implies, implies_true, and_true]
  exact ⟨by decide, hasset, by decide, hjoint, slash_not_mem_value field⟩

/-- The filter of an asset has five levels. -/
theorem levels_telemetryWildcard {asset : String} (hasset : '/' ∉ asset.toList) :
    levels (telemetryWildcard asset).toList =
      ["twin".toList, asset.toList, "joint".toList, ['+'], ['+']] := by
  have hjoin : (telemetryWildcard asset).toList =
      join ["twin".toList, asset.toList, "joint".toList, ['+'], ['+']] := by
    simp [telemetryWildcard, String.toList_append, join, List.intercalate]
  rw [hjoin]
  apply levels_join (List.cons_ne_nil _ _)
  simp only [List.forall_mem_cons, List.not_mem_nil, false_implies, implies_true, and_true]
  exact ⟨by decide, hasset, by decide, by decide, by decide⟩

/-- The topic of the setpoints has four levels. -/
theorem levels_commandTopic {asset : String} (hasset : '/' ∉ asset.toList) :
    levels (commandTopic asset).toList =
      ["twin".toList, asset.toList, "cmd".toList, "joints".toList] := by
  have hjoin : (commandTopic asset).toList =
      join ["twin".toList, asset.toList, "cmd".toList, "joints".toList] := by
    simp [commandTopic, String.toList_append, join, List.intercalate]
  rw [hjoin]
  apply levels_join (List.cons_ne_nil _ _)
  simp only [List.forall_mem_cons, List.not_mem_nil, false_implies, implies_true, and_true]
  exact ⟨by decide, hasset, by decide, by decide⟩

/-! ## What a subscription gets -/

/-- The filter of an asset begins with no wildcard. -/
theorem passesOver_telemetryWildcard (asset : String) (topic : List Char) :
    passesOver (telemetryWildcard asset).toList topic = false := by
  simp [passesOver, telemetryWildcard, String.toList_append]

/-- A topic matches the filter of an asset exactly when its levels do, one by one. -/
theorem topicMatches_telemetryWildcard {asset : String} (hasset : IsName asset) (topic : String) :
    topicMatches (telemetryWildcard asset) topic = true ↔
      List.Forall₂ (fun f t => f = ['+'] ∨ f = t)
        ["twin".toList, asset.toList, "joint".toList, ['+'], ['+']] (levels topic.toList) := by
  have hfree : ['#'] ∉ ["twin".toList, asset.toList, "joint".toList, ['+'], ['+']] := by
    simp only [List.mem_cons, List.not_mem_nil, or_false, not_or]
    exact ⟨by decide, hasset.ne_wildcard.2.symm, by decide, by decide, by decide⟩
  unfold topicMatches
  rw [passesOver_telemetryWildcard, levels_telemetryWildcard hasset.1.2, Bool.not_false,
    Bool.true_and, matchLevels_iff hfree]

/-- The filter of an asset matches the topics of its channels and of no other asset's. -/
theorem topicMatches_telemetryTopic {a b joint : String} (ha : IsName a) (hb : IsName b)
    (hjoint : IsName joint) (field : JointField) :
    topicMatches (telemetryWildcard a) (telemetryTopic b joint field) = true ↔ a = b := by
  rw [topicMatches_telemetryWildcard ha, levels_telemetryTopic hb.1.2 hjoint.1.2]
  simp only [List.forall₂_cons, ha.ne_wildcard.1, false_or, String.toList_inj, or_true, true_or,
    List.Forall₂.nil, and_true, true_and]

/-- The filter of an asset matches no topic of setpoints. -/
theorem topicMatches_commandTopic {a b : String} (ha : IsName a) (hb : IsName b) :
    topicMatches (telemetryWildcard a) (commandTopic b) = false := by
  rw [Bool.eq_false_iff, Ne, topicMatches_telemetryWildcard ha, levels_commandTopic hb.1.2]
  intro h
  have hlength := h.length_eq
  simp only [List.length_cons, List.length_nil] at hlength
  omega

/-- A topic is that of one channel of one asset. -/
theorem telemetryTopic_inj {a b joint joint' : String} {field field' : JointField}
    (ha : '/' ∉ a.toList) (hb : '/' ∉ b.toList) (hjoint : '/' ∉ joint.toList)
    (hjoint' : '/' ∉ joint'.toList)
    (h : telemetryTopic a joint field = telemetryTopic b joint' field') :
    a = b ∧ joint = joint' ∧ field = field' := by
  have hlevels := congrArg (fun topic : String => levels topic.toList) h
  simp only [levels_telemetryTopic ha hjoint, levels_telemetryTopic hb hjoint', List.cons.injEq,
    String.toList_inj, true_and, and_true] at hlevels
  obtain ⟨rfl, rfl, hfield⟩ := hlevels
  refine ⟨rfl, rfl, ?_⟩
  cases field <;> cases field' <;> first | rfl | exact absurd hfield (by decide)

/-- A topic of setpoints is not parsed as that of a channel. -/
theorem parseTelemetryTopic_commandTopic {b : String} (hb : IsName b)
    (r : String × String × JointField) : parseTelemetryTopic (commandTopic b) ≠ .ok r := by
  obtain ⟨a, joint, field⟩ := r
  intro h
  obtain ⟨-, -, htopic⟩ := parseTelemetryTopic_ok_iff.mp h
  -- the topic of a channel has one slash more, with or without a newline
  have hcommand : (commandTopic b).toList.count '/' = 3 := by
    have htwin : "twin/".toList.count '/' = 1 := by decide
    have hcmd : "/cmd/joints".toList.count '/' = 2 := by decide
    simp only [commandTopic, String.toList_append, List.count_append, htwin, hcmd,
      List.count_eq_zero_of_not_mem hb.1.2]
  have htelemetry : 4 ≤ (telemetryTopic a joint field).toList.count '/' := by
    rw [telemetryTopic_toList, count_slash]
    omega
  rcases htopic with htopic | htopic
  · rw [htopic] at hcommand
    omega
  · rw [htopic, String.toList_append, List.count_append] at hcommand
    omega

/-! ## What the consumer folds -/

section consumer

variable [Pydantic] [CPython]

/-- The broker delivered only messages that match the filter of the asset. -/
def Subscribed (asset : String) (l : List Event) : Prop :=
  ∀ topic payload, Event.message topic payload ∈ l →
    topicMatches (telemetryWildcard asset) topic = true

/-- **Topics isolate assets and channels.** The filter of an asset matches the topic of a channel
exactly when the channel is the asset's, and the topic is then parsed as that channel; it matches no
topic of setpoints, and none is parsed; a topic is that of one channel of one asset. So a consumer
that subscribes with the filter folds what was sent on the topic of a channel only if the channel is
its asset's, and into that channel. Source: `models.py`, `telemetry_topic`, `telemetry_wildcard`,
`parse_telemetry_topic`, `command_topic`; `consumer.py`, `Consumer._consume`,
`Consumer._observe` -/
theorem topics_isolate {a b joint : String} (ha : IsName a) (hb : IsName b) (hjoint : IsName joint)
    (field : JointField) :
    (topicMatches (telemetryWildcard a) (telemetryTopic b joint field) = true ↔ a = b) ∧
    (a = b → parseTelemetryTopic (telemetryTopic b joint field) = .ok (a, joint, field)) ∧
    topicMatches (telemetryWildcard a) (commandTopic b) = false ∧
    (∀ r, parseTelemetryTopic (commandTopic b) ≠ .ok r) ∧
    (∀ b' joint' field', IsName b' → IsName joint' →
      telemetryTopic b joint field = telemetryTopic b' joint' field' →
        b = b' ∧ joint = joint' ∧ field = field') ∧
    ∀ rmsWindowS windowNs l c, Run step (Consumer.init a rmsWindowS windowNs) l c →
      Subscribed a l →
        c.window = (RollingWindow.new windowNs ur5JointNames).observeAll (l.filterMap folded) ∧
        ∀ payload, Event.message (telemetryTopic b joint field) payload ∈ l → a = b ∧
          ∀ o, folded (.message (telemetryTopic b joint field) payload) = some o →
            o.joint = joint ∧ o.field = field := by
  have hmatches := topicMatches_telemetryTopic ha hb hjoint field
  refine ⟨hmatches, ?_, topicMatches_commandTopic ha hb, parseTelemetryTopic_commandTopic hb,
    ?_, ?_⟩
  · rintro rfl
    exact parseTelemetryTopic_telemetryTopic.mpr ⟨ha.1, hjoint.1, rfl⟩
  · intro b' joint' field' hb' hjoint' h
    exact telemetryTopic_inj hb.1.2 hb'.1.2 hjoint.1.2 hjoint'.1.2 h
  · intro rmsWindowS windowNs l c hrun hsubscribed
    refine ⟨window_of_run hrun, fun payload hmem => ⟨hmatches.mp (hsubscribed _ payload hmem), ?_⟩⟩
    intro o ho
    simp only [folded] at ho
    split at ho
    · rename_i joint' field' sample hcheck
      obtain rfl := Option.some.inj ho
      obtain ⟨⟨asset', hparse⟩, -, -⟩ := checkMessage_ok hcheck
      obtain ⟨-, -, heq⟩ := parseTelemetryTopic_telemetryTopic.mp hparse
      obtain ⟨-, rfl, rfl⟩ : asset' = b ∧ joint' = joint ∧ field' = field := by simpa using heq
      exact ⟨rfl, rfl⟩
    · cases ho

end consumer

/-! ### Two arms -/

section platform

attribute [local instance] CPython.series Pydantic.decimal

/-- Two arms with similar names share no topics. -/
theorem topics_isolate_arms :
    (topicMatches (telemetryWildcard "ur5") (telemetryTopic "ur5-2" "elbow_joint" .position) =
      true ↔ "ur5" = "ur5-2") ∧
    topicMatches (telemetryWildcard "ur5") (commandTopic "ur5-2") = false := by
  have h := @topics_isolate _ _ "ur5" "ur5-2" "elbow_joint" (by decide) (by decide) (by decide)
    .position
  exact ⟨h.1, h.2.2.1⟩

end platform

end TwinServices.System
