import TwinServices.Lib.JsonRoundTrip

/-!
# The strict parser

What the strict parser accepts, the permissive one reads as the same value, and there is no token
for a non-number in it (`parse_strict`). So a printed value is a text of the standard exactly when
it is strict (`parse_print_strict_iff`).
-/

set_option autoImplicit false

namespace Lib.Json

/-- The elements are strict when each of them is. -/
theorem strictElems_iff {xs : List Value} : StrictElems xs ↔ ∀ x ∈ xs, x.Strict := by
  induction xs with
  | nil => simp [StrictElems]
  | cons x xs ih => rw [StrictElems, ih, List.forall_mem_cons]

/-- A descent that both parsers share. -/
theorem strict_of_map {β : Type} {o : Option β} {f : β → Value × List Char} {v : Value}
    {r : List Char} (hf : ∀ b, (f b).1.Strict) (h : o.map f = some (v, r)) :
    o.map f = some (v, r) ∧ v.Strict := by
  obtain ⟨b, -, hb⟩ := Option.map_eq_some_iff.mp h
  refine ⟨h, ?_⟩
  have hstrict := hf b
  rwa [hb] at hstrict

/-- Two descents that follow each other, and what is made of their values. -/
theorem strict_of_bind {α β γ : Type} {p p' : Option (α × List Char)}
    (q q' : List Char → Option (β × List Char)) {P : α → Prop} {Q : β → Prop}
    (hp : ∀ x cs, p = some (x, cs) → p' = some (x, cs) ∧ P x)
    (hq : ∀ cs y r, q cs = some (y, r) → q' cs = some (y, r) ∧ Q y) (f : α → β → γ) {z : γ}
    {r : List Char}
    (h : (do
      let (x, cs) ← p
      let (y, cs) ← q cs
      some (f x y, cs)) = some (z, r)) :
    (do
      let (x, cs) ← p'
      let (y, cs) ← q' cs
      some (f x y, cs)) = some (z, r) ∧ ∃ x y, z = f x y ∧ P x ∧ Q y := by
  simp only [Option.bind_eq_bind, Option.bind_eq_some_iff] at h
  obtain ⟨⟨x, cs⟩, hx, ⟨y, r'⟩, hy, heq⟩ := h
  obtain ⟨rfl, rfl⟩ := Prod.mk.inj (Option.some.inj heq)
  obtain ⟨hx, hP⟩ := hp _ _ hx
  obtain ⟨hy, hQ⟩ := hq _ _ _ hy
  simp only [hx, hy, Option.bind_eq_bind, Option.bind_some]
  exact ⟨trivial, x, y, rfl, hP, hQ⟩

mutual

/-- By recursion on the bound of the descent, with one lemma for each kind of descent. -/
theorem parseValue_strict (n : ℕ) {cs r : List Char} {v : Value}
    (h : parseValue false n cs = some (v, r)) : parseValue true n cs = some (v, r) ∧ v.Strict := by
  cases n with
  | zero => rw [parseValue] at h; cases h
  | succ n =>
      rw [parseValue] at h ⊢
      generalize skipBlanks cs = cs' at h ⊢
      split at h
      -- the literals and the strings
      · exact strict_of_map (fun _ => trivial) h
      · exact strict_of_map (fun _ => trivial) h
      · exact strict_of_map (fun _ => trivial) h
      · exact strict_of_map (fun _ => trivial) h
      -- an array
      · rename_i cs
        simp only
        generalize skipBlanks cs = cs at h ⊢
        split at h
        · obtain ⟨rfl, rfl⟩ := Prod.mk.inj (Option.some.inj h)
          exact ⟨rfl, trivial⟩
        · obtain ⟨heq, x, xs, rfl, hx, hxs⟩ :=
            strict_of_bind (parseElems false n) (parseElems true n)
              (fun _ _ => parseValue_strict n) (fun _ _ _ => parseElems_strict n)
              (fun x xs => Value.arr (x :: xs)) h
          exact ⟨heq, hx, hxs⟩
      -- an object
      · rename_i cs
        simp only
        generalize skipBlanks cs = cs at h ⊢
        split at h
        · obtain ⟨rfl, rfl⟩ := Prod.mk.inj (Option.some.inj h)
          exact ⟨rfl, trivial⟩
        · obtain ⟨heq, m, ms, rfl, hm, hms⟩ :=
            strict_of_bind (parseMembers false n) (parseMembers true n)
              (fun _ _ => parseMember_strict n) (fun _ _ _ => parseMembers_strict n)
              (fun m ms => Value.obj (m :: ms)) h
          exact ⟨heq, hm, hms⟩
      -- the tokens that the strict parser has not
      · cases h
      · cases h
      · cases h
      -- a number
      · exact strict_of_map (fun _ => trivial) h
      · exact strict_of_map (fun _ => trivial) h

/-- What the strict reader accepts as a member, the extended one reads alike, and it is strict. -/
theorem parseMember_strict (n : ℕ) {cs r : List Char} {m : String × Value}
    (h : parseMember false n cs = some (m, r)) :
    parseMember true n cs = some (m, r) ∧ m.2.Strict := by
  cases n with
  | zero => rw [parseMember] at h; cases h
  | succ n =>
      rw [parseMember] at h ⊢
      split at h
      · simp only [Option.bind_eq_bind, Option.bind_eq_some_iff] at h
        obtain ⟨⟨k, cs₁⟩, hk, h⟩ := h
        simp only [hk, Option.bind_eq_bind, Option.bind_some]
        simp only at h
        generalize skipBlanks cs₁ = cs₁ at h ⊢
        split at h
        · simp only [Option.bind_eq_some_iff] at h
          obtain ⟨⟨x, cs₂⟩, hx, heq⟩ := h
          obtain ⟨rfl, rfl⟩ := Prod.mk.inj (Option.some.inj heq)
          obtain ⟨hx, hstrict⟩ := parseValue_strict n hx
          simp only [hx, Option.bind_some]
          exact ⟨trivial, hstrict⟩
        · cases h
      · cases h

/-- What the strict reader accepts as elements, the extended one reads alike, and they are
strict. -/
theorem parseElems_strict (n : ℕ) {cs r : List Char} {xs : List Value}
    (h : parseElems false n cs = some (xs, r)) :
    parseElems true n cs = some (xs, r) ∧ StrictElems xs := by
  cases n with
  | zero => rw [parseElems] at h; cases h
  | succ n =>
      rw [parseElems] at h ⊢
      split at h
      · obtain ⟨rfl, rfl⟩ := Prod.mk.inj (Option.some.inj h)
        exact ⟨rfl, trivial⟩
      · obtain ⟨heq, x, xs', rfl, hx, hxs⟩ :=
          strict_of_bind (parseElems false n) (parseElems true n)
            (fun _ _ => parseValue_strict n) (fun _ _ _ => parseElems_strict n) List.cons h
        exact ⟨heq, hx, hxs⟩
      · cases h

/-- What the strict reader accepts as members, the extended one reads alike, and they are strict. -/
theorem parseMembers_strict (n : ℕ) {cs r : List Char} {ms : List (String × Value)}
    (h : parseMembers false n cs = some (ms, r)) :
    parseMembers true n cs = some (ms, r) ∧ StrictMembers ms := by
  cases n with
  | zero => rw [parseMembers] at h; cases h
  | succ n =>
      rw [parseMembers] at h ⊢
      split at h
      · obtain ⟨rfl, rfl⟩ := Prod.mk.inj (Option.some.inj h)
        exact ⟨rfl, trivial⟩
      · obtain ⟨heq, m, ms', rfl, hm, hms⟩ :=
          strict_of_bind (parseMembers false n) (parseMembers true n)
            (fun _ _ => parseMember_strict n) (fun _ _ _ => parseMembers_strict n) List.cons h
        exact ⟨heq, hm, hms⟩
      · cases h

end

/-- **The strict parser.** What it accepts is read as the same value by the permissive parser, and
is strict. -/
theorem parse_strict {text : List Char} {v : Value} (h : parse false text = some v) :
    parse true text = some v ∧ v.Strict := by
  unfold parse at h ⊢
  split at h
  · rename_i x rest hparse
    obtain ⟨htrue, hstrict⟩ := parseValue_strict _ hparse
    rw [htrue]
    simp only
    split_ifs at h ⊢ with hrest
    obtain rfl := Option.some.inj h
    exact ⟨rfl, hstrict⟩
  · cases h

/-- A printed value is a text of the standard exactly when it is strict, and is then read as
itself. -/
theorem parse_print_strict_iff {st : Style} {v w : Value} :
    parse false (print st v) = some w ↔ v.Strict ∧ w = v := by
  constructor
  · intro h
    obtain ⟨htrue, hstrict⟩ := parse_strict h
    rw [parse_print v (Or.inl rfl)] at htrue
    obtain rfl := Option.some.inj htrue
    exact ⟨hstrict, rfl⟩
  · rintro ⟨hstrict, rfl⟩
    exact parse_print w (Or.inr hstrict)

end Lib.Json
