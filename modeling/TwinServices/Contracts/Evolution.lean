import TwinServices.Contracts.Models

/-!
# Other versions of a schema

Schemas grow by fields only. A later producer sends members that this version does not know, an
earlier one does not say which version it writes, and both are read as if they had sent what this
version reads. Which version an object says it is makes no difference either, as long as it is one.
What they add has to be within the limits of the parser, which reads all of a text before any of it
is validated: at most 200 containers in one another, and at most 4300 digits in an integer.

* `SameFields`: two objects that say the same to a model with these fields.
* `sameFields_of_known`: objects that differ in unknown members only.
* `Payload.object`, `Payload.Same`: payloads of such objects, in whatever JSON they are written.
* `JointTelemetry.modelValidateJson_same`, `JointCommand.modelValidateJson_same`: both are accepted
  or both are refused, and what is accepted is the same but for its version.
-/

set_option autoImplicit false

namespace TwinServices.Contracts

open TwinServices.Python Lib.Json Lib.Binary64

/-! ## Objects -/

section objects

variable [Pydantic]

/-- The version of the object: the one it says, or one. -/
def versionField (ms : List (String × Value)) : Checked (AtLeast 1) :=
  field "schema_version" (some currentVersion) (checkInt 1) ms

/-- Two objects say the same to a model with these fields, whatever else they hold and whichever
version they say they are. -/
structure SameFields (names : List String) (ms ms' : List (String × Value)) : Prop where
  member : ∀ name ∈ names, member name ms' = member name ms
  version : (versionField ms').toOption.isSome = (versionField ms).toOption.isSome

variable {names : List String} {ms ms' : List (String × Value)}

/-- Messages with the same known fields give the same for each check of one. -/
theorem SameFields.field {α : Type} (h : SameFields names ms ms') {name : String}
    (hname : name ∈ names) (default : Option α) (check : Value → Checked α) :
    field name default check ms' = field name default check ms := by
  unfold Contracts.field
  rw [h.member name hname]

/-- What follows once the version is accepted follows for both. -/
theorem SameFields.bind_version {α : Type} (h : SameFields names ms ms') (x : Option α) :
    ((versionField ms').toOption.bind fun _ => x) = (versionField ms).toOption.bind fun _ => x := by
  have hversion := h.version
  rcases hms : versionField ms with es | version <;>
    rcases hms' : versionField ms' with es' | version' <;>
    simp_all [Except.toOption]

/-- Having the same known fields is transitive. -/
theorem SameFields.trans {ms'' : List (String × Value)} (h : SameFields names ms ms')
    (h' : SameFields names ms' ms'') : SameFields names ms ms'' :=
  ⟨fun name hname => (h'.member name hname).trans (h.member name hname),
    h'.version.trans h.version⟩

omit [Pydantic] in
/-- A member with a known name is found among the known members. -/
theorem member_filter {name : String} {known : List String} (h : name ∈ known)
    (ms : List (String × Value)) :
    member name (ms.filter fun m => m.1 ∈ known) = member name ms := by
  unfold member
  rw [← List.filter_reverse, List.find?_filter]
  congr 2
  funext m
  by_cases hm : m.1 = name
  · simp [hm, h]
  · simp [hm]

/-- **Unknown members make no difference**, wherever they stand. -/
theorem sameFields_of_known
    (h : (ms'.filter fun m => m.1 ∈ "schema_version" :: names) =
      ms.filter fun m => m.1 ∈ "schema_version" :: names) : SameFields names ms ms' := by
  have hmember : ∀ name ∈ "schema_version" :: names, member name ms' = member name ms := by
    intro name hname
    rw [← member_filter hname ms', h, member_filter hname ms]
  refine ⟨fun name hname => hmember name (List.mem_cons_of_mem _ hname), ?_⟩
  unfold versionField Contracts.field
  rw [hmember _ (List.mem_cons_self ..)]

/-- An object that does not say its version is read as one that says any version. -/
theorem sameFields_of_version {v : AtLeast 1} (hnone : member "schema_version" ms = none)
    (hversion : "schema_version" ∉ names) :
    SameFields names ms (("schema_version", dumpNat v.val) :: ms) := by
  have hmember : ∀ name, name ≠ "schema_version" →
      member name (("schema_version", dumpNat v.val) :: ms) = member name ms := by
    intro name hname
    unfold member
    rw [List.reverse_cons, List.find?_append]
    simp [hname.symm]
  have hfirst : member "schema_version" (("schema_version", dumpNat v.val) :: ms) =
      some (dumpNat v.val) := by
    have hfind : ms.reverse.find? (fun m => m.1 = "schema_version") = none := by
      simpa [member] using hnone
    unfold member
    rw [List.reverse_cons, List.find?_append, hfind]
    rfl
  refine ⟨fun name hname => hmember name fun heq => hversion (heq ▸ hname), ?_⟩
  unfold versionField
  rw [field_of_member hfirst, checkInt_dumpNat]
  unfold Contracts.field
  rw [hnone]
  rfl

end objects

/-! ## Payloads -/

/-- The parser refuses a number whose integer part has more digits. The checks of the models leave
that out, and payloads are compared where it makes no difference. -/
def maxDigits : ℕ := 4300

/-- The members of the object that a text is JSON of, where the parser takes it: the limits are on
all that is in it, known or not. -/
def objectOf (text : String) : Option (List (String × Value)) :=
  match parse true text.toList with
  | some (.obj ms) =>
      if (Value.obj ms).depth ≤ maxDepth ∧ (Value.obj ms).largestInt < 10 ^ maxDigits then some ms
      else none
  | _ => none

/-- The members of the object that a payload carries, within the limits of the parser. -/
def Payload.object : Payload → Option (List (String × Value))
  | .bytes b => (String.fromUTF8? b).bind objectOf
  | .str text => objectOf text
  | .other => none

/-- A payload with an object is bytes or text. -/
theorem Payload.ne_other_of_object {p : Payload} {ms : List (String × Value)}
    (h : p.object = some ms) : p ≠ .other := by
  rintro rfl
  cases h

/-- A text that is an object within the limits is validated by its members. -/
theorem validateJson_of_objectOf {α : Type} (model : List (String × Value) → Checked α)
    {text : String} {ms : List (String × Value)} (h : objectOf text = some ms) :
    validateJson model text = model ms := by
  unfold objectOf at h
  unfold validateJson
  split at h
  · rename_i ms' hparse
    split_ifs at h with hlimits
    obtain rfl := Option.some.inj h
    simp only [hparse, if_neg (not_lt.mpr hlimits.1)]
  · cases h

/-- A payload that carries an object is validated by its members. -/
theorem Payload.validateJson_of_object {α : Type} (model : List (String × Value) → Checked α)
    {p : Payload} {ms : List (String × Value)} (h : p.object = some ms) :
    p.validateJson model = model ms := by
  cases p with
  | bytes b =>
      obtain ⟨text, htext, hobject⟩ := Option.bind_eq_some_iff.mp h
      simp only [validateJson, htext, validateJson_of_objectOf model hobject]
  | str text => exact validateJson_of_objectOf model h
  | other => cases h

/-- A printed object within the limits is carried as it is, however it is laid out. -/
theorem Payload.object_ofText (style : Style) {ms : List (String × Value)}
    (hdepth : (Value.obj ms).depth ≤ maxDepth)
    (hdigits : (Value.obj ms).largestInt < 10 ^ maxDigits) :
    (ofText (String.ofList (print style (.obj ms)))).object = some ms := by
  have hutf8 : ∀ text : String, String.fromUTF8? text.toByteArray = some text := by
    intro text
    unfold String.fromUTF8?
    rw [dif_pos text.isValidUTF8]
    rfl
  simp only [ofText, object, hutf8, Option.bind_some, objectOf, String.toList_ofList]
  rw [parse_print _ (Or.inl rfl)]
  exact if_pos ⟨hdepth, hdigits⟩

section payloads

variable [Pydantic]

/-- Payloads that say the same to a model with these fields: the same payload, or two objects within
the limits of the parser. -/
inductive Payload.Same (names : List String) : Payload → Payload → Prop
  | refl (p : Payload) : Same names p p
  | object {p p' : Payload} {ms ms' : List (String × Value)} (h : p.object = some ms)
      (h' : p'.object = some ms') (hsame : SameFields names ms ms') : Same names p p'

/-! ## Telemetry -/

/-- The fields of a sample that say something. -/
def JointTelemetry.fieldNames : List String := ["value", "stamp_ns"]

/-- The sample as one of this version. -/
def JointTelemetry.current {F : Type} (t : JointTelemetry F) : JointTelemetry F :=
  .new t.value t.stampNs

/-- The checks of a sample one by one, where only acceptance counts. -/
theorem JointTelemetry.toOption_validate (ms : List (String × Value)) :
    (validate ms).toOption.map current =
      (versionField ms).toOption.bind fun _ =>
        (field "value" none checkFloat ms).toOption.bind fun value =>
          (field "stamp_ns" none (checkInt 0) ms).toOption.map fun stamp =>
            .new value stamp.val := by
  unfold validate versionField
  rcases field "schema_version" (some currentVersion) (checkInt 1) ms with es | version <;>
    rcases field "value" none checkFloat ms with es' | value <;>
    rcases field "stamp_ns" none (checkInt 0) ms with es'' | stamp <;> rfl

/-- **Another version's sample is read the same**: both are refused, or what both say is. -/
theorem JointTelemetry.modelValidateJson_same {p p' : Payload} (h : p.Same fieldNames p') :
    (∃ es es', modelValidateJson p = .error es ∧ modelValidateJson p' = .error es') ∨
      ∃ t t', modelValidateJson p = .ok t ∧ modelValidateJson p' = .ok t' ∧
        t'.current = t.current := by
  have hsame : (modelValidateJson p').toOption.map current =
      (modelValidateJson p).toOption.map current := by
    cases h with
    | refl => rfl
    | @object _ ms ms' h h' hsame =>
        unfold modelValidateJson
        rw [Payload.validateJson_of_object _ h, Payload.validateJson_of_object _ h',
          toOption_validate, toOption_validate, hsame.field (by simp [fieldNames]),
          hsame.field (by simp [fieldNames])]
        exact hsame.bind_version _
  rcases hp : modelValidateJson p with es | t <;> rcases hp' : modelValidateJson p' with es' | t'
  · exact Or.inl ⟨es, es', rfl, rfl⟩
  · simp [hp, hp', Except.toOption] at hsame
  · simp [hp, hp', Except.toOption] at hsame
  · exact Or.inr ⟨t, t', rfl, rfl, by simpa [hp, hp', Except.toOption] using hsame⟩

/-! ## Commands -/

/-- The fields of a command that say something. -/
def JointCommand.fieldNames : List String := ["kind", "positions", "duration_s"]

variable [CPython]

/-- The command as one of this version. -/
def JointCommand.current (c : JointCommand Double) : JointCommand Double :=
  { c with schemaVersion := currentVersion }

/-- The checks of a command one by one, where only acceptance counts: what the validator of the
whole makes of the fields does not depend on the version. -/
theorem JointCommand.exists_toOption_validate :
    ∃ ofFields : CommandKind → Option (Dict String Double) → Duration →
        Option (JointCommand Double), ∀ ms,
      (validate ms).toOption.map current =
        (versionField ms).toOption.bind fun _ =>
          (field "kind" none (checkEnum CommandKind.value CommandKind.members) ms).toOption.bind
            fun kind =>
          (field "positions" (some none) (checkOptional (checkDict checkFloat)) ms).toOption.bind
            fun positions =>
          (field "duration_s" (some defaultDuration) checkDuration ms).toOption.bind
            fun duration => ofFields kind positions duration := by
  refine ⟨fun kind positions duration =>
    if h : positionsMatchKind kind positions = none then
      some ⟨currentVersion, kind, positions, duration.val, duration.2.1, duration.2.2, h⟩
    else none, fun ms => ?_⟩
  unfold validate versionField
  rcases field "schema_version" (some currentVersion) (checkInt 1) ms with es | version
  · rfl
  · rcases field "kind" none (checkEnum CommandKind.value CommandKind.members) ms with es | kind
    · rfl
    · rcases field "positions" (some none) (checkOptional (checkDict checkFloat)) ms with
        es | positions
      · rfl
      · rcases field "duration_s" (some defaultDuration) checkDuration ms with es | duration
        · rfl
        · change Option.map current (Except.toOption _) = dite _ _ _
          dsimp only
          split_ifs with hmatch
          · split
            · rfl
            · rename_i text htext
              simp [htext] at hmatch
          · split
            · rename_i hnone
              exact absurd hnone hmatch
            · rfl

/-- **Another version's command is read the same**: both are refused, or what both say is. -/
theorem JointCommand.modelValidateJson_same {p p' : Payload} (h : p.Same fieldNames p') :
    (modelValidateJson p').toOption.map current = (modelValidateJson p).toOption.map current := by
  cases h with
  | refl => rfl
  | @object _ ms ms' h h' hsame =>
      obtain ⟨ofFields, hvalidate⟩ := exists_toOption_validate
      unfold modelValidateJson
      rw [Payload.validateJson_of_object _ h, Payload.validateJson_of_object _ h',
        hvalidate, hvalidate, hsame.field (by simp [fieldNames]),
        hsame.field (by simp [fieldNames]), hsame.field (by simp [fieldNames])]
      exact hsame.bind_version _

end payloads

end TwinServices.Contracts
