import TwinServices.Lib.Json
import Mathlib.Data.Fintype.Basic
import Mathlib.Tactic.FinCases
import Mathlib.Tactic.IntervalCases

/-!
# Parsing inverts printing

`parse_print`: the text of a value, in any layout, parses to that value; with the strict parser
this needs that no token for a non-number is in it (`Value.Strict`). The proof follows the
printer: digits, numbers, characters, strings, and then the values by induction on the tree, with
a bound on the depth (`size`) that the length of the text covers.
-/

set_option autoImplicit false

namespace Lib.Json

/-! ## Digits and numbers -/

/-- A digit is written as a digit character. -/
theorem isDigit_digitChar (d : Fin 10) : (digitChar d).isDigit = true := by
  revert d
  decide

/-- The value of a written digit is the digit. -/
@[simp] theorem digitVal_digitChar (d : Fin 10) : digitVal (digitChar d) = d := by
  revert d
  decide

/-- The text does not go on with a digit. -/
def NoDigit (r : List Char) : Prop := ∀ c ∈ r.head?, c.isDigit = false

/-- The text does not go on with anything that could belong to a number. -/
def NoNumber (r : List Char) : Prop :=
  ∀ c ∈ r.head?, c.isDigit = false ∧ c ≠ '.' ∧ c ≠ 'e' ∧ c ≠ 'E'

/-- What cannot go on a number begins with no digit. -/
theorem NoNumber.noDigit {r : List Char} (h : NoNumber r) : NoDigit r := fun c hc => (h c hc).1

/-- The end of the text goes on no number. -/
theorem noNumber_nil : NoNumber [] := fun c hc => by simp at hc

/-- Written digits are read back up to the first other character. -/
theorem takeDigits_append (ds : List (Fin 10)) {r : List Char} (hr : NoDigit r) :
    takeDigits (ds.map digitChar ++ r) = (ds, r) := by
  induction ds with
  | nil =>
      cases r with
      | nil => rfl
      | cons c cs => simp [takeDigits, hr c rfl]
  | cons d ds ih => simp [takeDigits, isDigit_digitChar, ih]

/-- A digit run is read back from its text. -/
theorem parseDigits_text (d : Digits) {r : List Char} (hr : NoDigit r) :
    parseDigits (d.text ++ r) = some (d, r) := by
  unfold parseDigits Digits.text
  rw [← List.map_cons, takeDigits_append _ hr]

/-- The decimal digits of a natural number, most significant first, without a leading zero. -/
theorem exists_digits (n : ℕ) :
    ∃ d : Digits, Nat.toDigits 10 n = d.text ∧ d.toNat = n ∧ (d.first = 0 → n = 0) ∧
      (n = 0 → d.rest = []) := by
  induction n using Nat.strong_induction_on with
  | _ n ih =>
      rcases lt_or_ge n 10 with hlt | hge
      · refine ⟨⟨⟨n, hlt⟩, []⟩, ?_, ?_, ?_, fun _ => rfl⟩
        · rw [Nat.toDigits_of_lt_base hlt]
          rfl
        · simp [Digits.toNat]
        · exact fun h => congrArg Fin.val h
      · -- the digits of `n / 10`, then the last one
        obtain ⟨d, htext, hval, hfirst, -⟩ := ih (n / 10) (by omega)
        refine ⟨⟨d.first, d.rest ++ [⟨n % 10, by omega⟩]⟩, ?_, ?_, ?_, by omega⟩
        · rw [Nat.toDigits_of_base_le (by norm_num) hge, htext]
          simp [Digits.text, digitChar]
        · unfold Digits.toNat at hval ⊢
          simp only [← List.cons_append, List.foldl_append, hval, List.foldl_cons, List.foldl_nil]
          omega
        · intro h
          have := hfirst h
          omega

/-- A natural number is read back from its decimal digits. -/
theorem parseInt_toDigits (n : ℕ) {r : List Char} (hr : NoDigit r) :
    parseInt (Nat.toDigits 10 n ++ r) = some (n, r) := by
  obtain ⟨d, htext, hval, hfirst, hrest⟩ := exists_digits n
  unfold parseInt
  rw [htext, parseDigits_text d hr]
  have h : ¬ (d.first = 0 ∧ d.rest ≠ []) := fun ⟨h1, h2⟩ => h2 (hrest (hfirst h1))
  simp [h, hval]

/-- An exponent, or none, begins with no digit, so that the digits before it end there. -/
theorem noDigit_exp_append (e : Option Exponent) {r : List Char} (hr : NoNumber r) :
    NoDigit ((match e with | none => [] | some e => e.text) ++ r) := by
  rcases e with _ | ⟨u, s, d⟩
  · exact hr.noDigit
  · intro c hc
    cases u <;> simp [Exponent.text] at hc <;> rw [← hc] <;> rfl

/-- An optional exponent is read back from its text. -/
theorem parseExp_text (e : Option Exponent) {r : List Char} (hr : NoNumber r) :
    parseExp ((match e with | none => [] | some e => e.text) ++ r) = some (e, r) := by
  rcases e with _ | ⟨u, s, d⟩
  · cases r with
    | nil => rfl
    | cons c cs =>
        obtain ⟨-, -, he, hE⟩ := hr c rfl
        simp [parseExp, he, hE]
  · have hd := parseDigits_text d hr.noDigit
    have hstart : ∃ c cs, d.text ++ r = c :: cs ∧ c ≠ '-' ∧ c ≠ '+' := by
      refine ⟨digitChar d.first, _, rfl, ?_, ?_⟩ <;> intro h <;>
        have := isDigit_digitChar d.first <;> rw [h] at this <;> exact absurd this (by decide)
    obtain ⟨c, cs, hcs, hc1, hc2⟩ := hstart
    rcases s with _ | s
    · cases u <;> simp [Exponent.text, parseExp, hcs, parseExpDigits, hc1, hc2] <;>
        simp [← hcs, hd]
    · cases s <;> cases u <;> simp [Exponent.text, parseExp, parseExpDigits, hd]

/-- A fraction, or none, begins with no digit, so that the digits before it end there. -/
theorem noDigit_frac_append (f : Option Digits) (e : Option Exponent) {r : List Char}
    (hr : NoNumber r) :
    NoDigit ((match f with | none => [] | some d => '.' :: d.text) ++
      ((match e with | none => [] | some e => e.text) ++ r)) := by
  rcases f with _ | d
  · exact noDigit_exp_append e hr
  · intro c hc
    simp at hc
    rw [← hc]
    rfl

/-- An optional fraction is read back from its text. -/
theorem parseFrac_text (f : Option Digits) (e : Option Exponent) {r : List Char}
    (hr : NoNumber r) :
    parseFrac ((match f with | none => [] | some d => '.' :: d.text) ++
      ((match e with | none => [] | some e => e.text) ++ r)) =
      some (f, (match e with | none => [] | some e => e.text) ++ r) := by
  rcases f with _ | d
  · rcases e with _ | ⟨u, s, d⟩
    · cases r with
      | nil => rfl
      | cons c cs => simp [parseFrac, (hr c rfl).2.1]
    · cases u <;> simp [Exponent.text, parseFrac]
  · have hd := parseDigits_text d (noDigit_exp_append e hr)
    simp only [List.cons_append, parseFrac, hd]
    rfl

/-- A number token parses back, sign apart. -/
theorem parseUnsigned_text (n : NumLit) {r : List Char} (hr : NoNumber r) :
    parseUnsigned n.negative (Nat.toDigits 10 n.int ++
      ((match n.frac with | none => [] | some d => '.' :: d.text) ++
        ((match n.exp with | none => [] | some e => e.text) ++ r))) = some (n, r) := by
  unfold parseUnsigned
  rw [parseInt_toDigits _ (noDigit_frac_append _ _ hr)]
  simp [parseFrac_text _ _ hr, parseExp_text _ hr]

/-! ## Characters and strings -/

/-- A written hexadecimal digit is read back. -/
@[simp] theorem hexVal_hexChar (n : ℕ) : hexVal (hexChar n) = some (n % 16) := by
  have h : ∀ m < 16, hexVal (Nat.digitChar m) = some m := by decide
  exact h _ (Nat.mod_lt _ (by norm_num))

/-- The four digits of a `\u` escape are read back as its code unit. -/
theorem parseUnit_unitText {n : ℕ} (hn : n < 65536) (r : List Char) :
    parseUnit ((unitText n).drop 2 ++ r) = some (n, r) := by
  have h : 4096 * (n / 4096 % 16) + 256 * (n / 256 % 16) + 16 * (n / 16 % 16) + n % 16 = n := by
    omega
  simp [unitText, parseUnit, h]

/-- A `\u` escape begins with a backslash and a `u`. -/
theorem unitText_eq (n : ℕ) : unitText n = '\\' :: 'u' :: (unitText n).drop 2 := rfl

/-- A character is a code unit that is no surrogate, or lies above the code units. -/
theorem toNat_cases (c : Char) :
    c.toNat < 55296 ∨ 57344 ≤ c.toNat ∧ c.toNat < 1114112 := by
  rcases c.valid with h | ⟨h1, h2⟩
  · exact Or.inl h
  · exact Or.inr ⟨h1, h2⟩

/-- A character of the basic plane is read back from its one `\u` escape. -/
theorem parseUnicode_unitText {c : Char} (hc : c.toNat < 65536) (r : List Char) :
    parseUnicode ((unitText c.toNat).drop 2 ++ r) = some (c, r) := by
  unfold parseUnicode
  rw [parseUnit_unitText hc]
  have hv := toNat_cases c
  have h1 : ¬ (55296 ≤ c.toNat ∧ c.toNat < 56320) := by omega
  have h2 : ¬ (56320 ≤ c.toNat ∧ c.toNat < 57344) := by omega
  simp [h1, h2, Char.ofNat_toNat]

/-- A high surrogate and the low one after it are read as one character. -/
theorem parseUnicode_pair {hi lo : ℕ} (h1 : 55296 ≤ hi) (h2 : hi < 56320) (h3 : 56320 ≤ lo)
    (h4 : lo < 57344) (r : List Char) :
    parseUnicode ((unitText hi).drop 2 ++ (unitText lo ++ r)) =
      some (Char.ofNat (65536 + 1024 * (hi - 55296) + (lo - 56320)), r) := by
  unfold parseUnicode
  rw [parseUnit_unitText (by omega), unitText_eq lo]
  simp only [Option.bind_eq_bind, Option.bind_some, h1, h2, and_self, if_true, List.cons_append]
  rw [parseUnit_unitText (by omega)]
  simp only [Option.bind_some, h3, h4, and_self, if_true]

/-- What the text of a character can be: a short escape, one unit or two, or the character. -/
theorem escape_cases {P : List Char → Prop} (ascii : Bool) (c : Char)
    (short : ∀ d, (∀ r, parseChar ('\\' :: d :: r) = some (c, r)) → P ['\\', d])
    (unit : c.toNat < 65536 → P (unitText c.toNat))
    (pair : 65536 ≤ c.toNat → P (unitText (55296 + (c.toNat - 65536) / 1024) ++
      unitText (56320 + (c.toNat - 65536) % 1024)))
    (plain : c ≠ '"' → c ≠ '\\' → 32 ≤ c.toNat → P [c]) : P (escape ascii c) := by
  have control : ∀ n d, c.toNat = n → (∀ r, parseChar ('\\' :: d :: r) = some (.ofNat n, r)) →
      P ['\\', d] := by
    intro n d hc hd
    rw [← hc, Char.ofNat_toNat] at hd
    exact short d hd
  unfold escape
  refine iteInduction (fun h => ?_) fun hquote => ?_
  · exact short '"' fun r => by rw [h]; rfl
  refine iteInduction (fun h => ?_) fun hbackslash => ?_
  · exact short '\\' fun r => by rw [h]; rfl
  refine iteInduction (fun h => ?_) fun _ => ?_
  · exact short 'n' fun r => h ▸ rfl
  refine iteInduction (fun h => ?_) fun _ => ?_
  · exact short 'r' fun r => h ▸ rfl
  refine iteInduction (fun h => ?_) fun _ => ?_
  · exact short 't' fun r => h ▸ rfl
  refine iteInduction (fun h => ?_) fun _ => ?_
  · exact control 8 'b' h fun r => rfl
  refine iteInduction (fun h => ?_) fun _ => ?_
  · exact control 12 'f' h fun r => rfl
  refine iteInduction (fun h => ?_) fun hblank => ?_
  · exact unit (by omega)
  refine iteInduction (fun _ => ?_) fun _ => ?_
  · exact iteInduction unit fun h => pair (not_lt.mp h)
  · exact plain hquote hbackslash (not_lt.mp hblank)

/-- One printed character parses back. -/
theorem parseChar_escape (ascii : Bool) (c : Char) (r : List Char) :
    parseChar (escape ascii c ++ r) = some (c, r) := by
  refine escape_cases (P := fun text => parseChar (text ++ r) = some (c, r)) ascii c
    (fun d hd => hd r) (fun hc => ?_) (fun hc => ?_) fun _ hbackslash hblank => ?_
  · rw [unitText_eq]
    simp only [List.cons_append, parseChar]
    exact parseUnicode_unitText hc r
  · rw [unitText_eq, List.append_assoc]
    simp only [List.cons_append, parseChar]
    have hv := toNat_cases c
    apply (parseUnicode_pair (by omega) (by omega) (by omega) (by omega) r).trans
    rw [show 65536 + 1024 * (55296 + (c.toNat - 65536) / 1024 - 55296) +
      (56320 + (c.toNat - 65536) % 1024 - 56320) = c.toNat by omega, Char.ofNat_toNat]
  · simp [parseChar, hbackslash, not_lt.mpr hblank]

/-- A printed character does not start with the quote that would end the string. -/
theorem escape_head (ascii : Bool) (c : Char) :
    ∃ d ds, escape ascii c = d :: ds ∧ d ≠ '"' := by
  have hne : '\\' ≠ '"' := by decide
  exact escape_cases (P := fun text => ∃ d ds, text = d :: ds ∧ d ≠ '"') ascii c
    (fun d _ => ⟨_, _, rfl, hne⟩) (fun _ => ⟨_, _, rfl, hne⟩) (fun _ => ⟨_, _, rfl, hne⟩)
    fun hquote _ _ => ⟨_, _, rfl, hquote⟩

/-- Characters are read back from the tail of a string text, in either style. -/
theorem parseChars_stringTail (ascii : Bool) (s : List Char) (r : List Char) (n : ℕ)
    (hn : s.length < n) : parseChars n (stringTail ascii s ++ r) = some (s, r) := by
  induction s generalizing n with
  | nil =>
      obtain ⟨n, rfl⟩ := Nat.exists_eq_succ_of_ne_zero (by omega : n ≠ 0)
      simp [stringTail, parseChars]
  | cons c s ih =>
      obtain ⟨n, rfl⟩ := Nat.exists_eq_succ_of_ne_zero (by omega : n ≠ 0)
      obtain ⟨d, ds, hd, hq⟩ := escape_head ascii c
      have hchar := parseChar_escape ascii c (stringTail ascii s ++ r)
      rw [stringTail, List.append_assoc]
      rw [hd] at hchar ⊢
      simp only [List.cons_append] at hchar ⊢
      rw [parseChars]
      · simp [hchar, ih n (by simpa using hn)]
      · simpa using hq

/-- A string text is longer than the string, so its length is fuel enough. -/
theorem length_lt_stringTail (ascii : Bool) (s : List Char) :
    s.length < (stringTail ascii s).length := by
  induction s with
  | nil => simp [stringTail]
  | cons c s ih =>
      obtain ⟨d, ds, hd, -⟩ := escape_head ascii c
      simp only [stringTail, hd, List.length_append, List.length_cons]
      omega

/-- A string is read back from its text after the opening quote. -/
theorem parseString_stringTail (ascii : Bool) (s : String) (r : List Char) :
    parseString (stringTail ascii s.toList ++ r) = some (s, r) := by
  have h := length_lt_stringTail ascii s.toList
  unfold parseString
  rw [parseChars_stringTail ascii s.toList r _ (by rw [List.length_append]; omega)]
  simp

/-! ## Values -/

mutual

/-- No token for a non-number occurs in the value: its text is JSON by the standard. -/
def Value.Strict : Value → Prop
  | .nonFinite _ => False
  | .arr xs => StrictElems xs
  | .obj ms => StrictMembers ms
  | _ => True

/-- `Value.Strict` over the elements of an array. -/
def StrictElems : List Value → Prop
  | [] => True
  | x :: xs => x.Strict ∧ StrictElems xs

/-- `Value.Strict` over the members of an object. -/
def StrictMembers : List (String × Value) → Prop
  | [] => True
  | (_, x) :: ms => x.Strict ∧ StrictMembers ms

end

mutual

/-- The depth of descent that parsing the text of a value takes at most. -/
def size : Value → ℕ
  | .arr (x :: xs) => 1 + size x + sizeElems xs
  | .obj ((_, x) :: ms) => 2 + size x + sizeMembers ms
  | _ => 1

/-- `size` over the elements of an array. -/
def sizeElems : List Value → ℕ
  | [] => 1
  | x :: xs => 1 + size x + sizeElems xs

/-- `size` over the members of an object. -/
def sizeMembers : List (String × Value) → ℕ
  | [] => 1
  | (_, x) :: ms => 2 + size x + sizeMembers ms

end

/-- The gap of a style is skipped. -/
theorem skipBlanks_gap (st : Style) (cs : List Char) :
    skipBlanks (st.gap ++ cs) = skipBlanks cs := by
  unfold Style.gap
  split_ifs <;> simp [skipBlanks, isBlank]

/-- A character that is no blank is not skipped. -/
theorem skipBlanks_cons {c : Char} (h : isBlank c = false) (cs : List Char) :
    skipBlanks (c :: cs) = c :: cs := by
  simp [skipBlanks, h]

/-- A digit is no blank. -/
theorem isBlank_digitChar (d : Fin 10) : isBlank (digitChar d) = false := by
  revert d
  decide

/-- The text of a value starts with a character that is no blank and closes nothing. -/
theorem print_head (st : Style) (v : Value) :
    ∃ c cs, print st v = c :: cs ∧ isBlank c = false ∧ c ≠ ']' ∧ c ≠ '}' := by
  cases v with
  | null => exact ⟨_, _, rfl, by decide, by decide, by decide⟩
  | bool b => cases b <;> exact ⟨_, _, rfl, by decide, by decide, by decide⟩
  | num n =>
      obtain ⟨d, hd, -⟩ := exists_digits n.int
      rcases hn : n.negative with _ | _
      · refine ⟨digitChar d.first, _, by simp [print, NumLit.text, hn, hd, Digits.text]; rfl,
          isBlank_digitChar _, ?_, ?_⟩ <;> intro h <;> have := isDigit_digitChar d.first <;>
          rw [h] at this <;> exact absurd this (by decide)
      · exact ⟨'-', _, by simp [print, NumLit.text, hn]; rfl, by decide, by decide, by decide⟩
  | nonFinite x => cases x <;> exact ⟨_, _, rfl, by decide, by decide, by decide⟩
  | str s => exact ⟨_, _, rfl, by decide, by decide, by decide⟩
  | arr xs => cases xs <;> exact ⟨_, _, rfl, by decide, by decide, by decide⟩
  | obj ms =>
      rcases ms with _ | ⟨⟨k, x⟩, ms⟩ <;> exact ⟨_, _, rfl, by decide, by decide, by decide⟩

/-- A value's text begins with no blank. -/
theorem skipBlanks_print (st : Style) (v : Value) (r : List Char) :
    skipBlanks (print st v ++ r) = print st v ++ r := by
  obtain ⟨c, cs, h, hb, -⟩ := print_head st v
  rw [h, List.cons_append, skipBlanks_cons hb]

/-- A value may stand after a gap. -/
theorem parseValue_gap (ext : Bool) (st : Style) (n : ℕ) (cs : List Char) :
    parseValue ext n (st.gap ++ cs) = parseValue ext n cs := by
  cases n with
  | zero => rfl
  | succ n => rw [parseValue, parseValue, skipBlanks_gap]

/-- A member may stand after a gap. -/
theorem parseMember_gap (ext : Bool) (st : Style) (n : ℕ) (cs : List Char) :
    parseMember ext n (st.gap ++ cs) = parseMember ext n cs := by
  cases n with
  | zero => rfl
  | succ n => rw [parseMember, parseMember, skipBlanks_gap]

/-- A number token is read by the last two branches of the value parser. -/
theorem parseValue_num (ext : Bool) (k : ℕ) (n : NumLit) {r : List Char} (hr : NoNumber r) :
    parseValue ext (k + 1) (n.text ++ r) = some (.num n, r) := by
  have hp := parseUnsigned_text n hr
  obtain ⟨d, hd, -⟩ := exists_digits n.int
  have htext : n.text ++ r = (if n.negative then ['-'] else []) ++
      (Nat.toDigits 10 n.int ++
        ((match n.frac with | none => [] | some d => '.' :: d.text) ++
          ((match n.exp with | none => [] | some e => e.text) ++ r))) :=
    (List.append_assoc ..).trans ((List.append_assoc ..).trans (List.append_assoc ..))
  rw [htext]
  rw [hd, Digits.text, List.cons_append] at hp ⊢
  rcases hn : n.negative with _ | _
  · rw [hn] at hp
    simp only [Bool.false_eq_true, if_false, List.nil_append]
    rw [parseValue, skipBlanks_cons (isBlank_digitChar _)]
    generalize hrest : d.rest.map digitChar ++ _ = rest at hp ⊢
    generalize d.first = f at hp ⊢
    fin_cases f <;>
      exact congrArg (Option.map fun p : NumLit × List Char => (Value.num p.1, p.2)) hp
  · rw [hn] at hp
    simp only [if_true, List.cons_append, List.nil_append]
    rw [parseValue, skipBlanks_cons (by decide)]
    generalize hrest : d.rest.map digitChar ++ _ = rest at hp ⊢
    generalize d.first = f at hp ⊢
    fin_cases f <;>
      exact congrArg (Option.map fun p : NumLit × List Char => (Value.num p.1, p.2)) hp

/-- What follows an element of an array does not go on a number. -/
theorem noNumber_printElems (st : Style) (xs : List Value) (r : List Char) :
    NoNumber (printElems st xs ++ r) := by
  intro c hc
  cases xs <;> simp [printElems] at hc <;> rw [← hc] <;> decide

/-- What follows a member of an object does not go on a number. -/
theorem noNumber_printMembers (st : Style) (ms : List (String × Value)) (r : List Char) :
    NoNumber (printMembers st ms ++ r) := by
  intro c hc
  cases ms <;> simp [printMembers] at hc <;> rw [← hc] <;> decide

/-- The parser takes the tokens of the value: it is the extended one, or there are none. -/
def Admits (ext : Bool) (strict : Prop) : Prop := ext = true ∨ strict

/-- A reader admits what is implied by what it admits. -/
theorem Admits.imp {ext : Bool} {p q : Prop} (h : Admits ext p) (hpq : p → q) : Admits ext q :=
  Or.imp_right hpq h

section Values

variable {ext : Bool} {st : Style}

/-- The extended reader reads `NaN` and the infinities back. -/
theorem parseValue_nonFinite {x : NonFinite} (h : ext = true) (n : ℕ) (r : List Char) :
    parseValue ext (n + 1) (x.text ++ r) = some (.nonFinite x, r) := by
  subst h
  cases x <;> rfl

mutual

/-- Over the tree, with any text after the value that does not prolong a number. -/
theorem parseValue_print (v : Value) (n : ℕ) (r : List Char) (hn : size v ≤ n) (hr : NoNumber r)
    (h : Admits ext v.Strict) : parseValue ext n (print st v ++ r) = some (v, r) := by
  obtain ⟨n, rfl⟩ : ∃ m, n = m + 1 := by
    refine ⟨n - 1, ?_⟩
    have : 1 ≤ size v := by unfold size; split <;> omega
    omega
  cases v with
  | null => rfl
  | bool b => cases b <;> rfl
  | num a => exact parseValue_num ext n a hr
  | nonFinite x => exact parseValue_nonFinite (h.resolve_right (by simp [Value.Strict])) n r
  | str s =>
      have hs := parseString_stringTail st.ascii s r
      simp only [print, stringText, List.cons_append]
      rw [parseValue, skipBlanks_cons (by decide)]
      simp only [hs, Option.map_some]
  | arr xs =>
      cases xs with
      | nil => rfl
      | cons x xs =>
          rw [size] at hn
          have hx := parseValue_print x n (printElems st xs ++ r) (by omega)
            (noNumber_printElems st xs r) (h.imp fun h => h.1)
          have hxs := parseElems_print xs n r (by omega) (h.imp fun h => h.2)
          obtain ⟨c, cs, hc, -, hne, -⟩ := print_head st x
          simp only [print, List.cons_append, List.append_assoc]
          rw [parseValue, skipBlanks_cons (by decide)]
          simp only [skipBlanks_print]
          rw [hc, List.cons_append] at hx ⊢
          split
          · rename_i heq
            exact absurd (List.cons.inj heq).1 hne
          · simp only [hx, Option.bind_eq_bind, Option.bind_some, hxs]
  | obj ms =>
      cases ms with
      | nil => rfl
      | cons m ms =>
          obtain ⟨k, x⟩ := m
          rw [size] at hn
          have hx := parseMember_print k x n (printMembers st ms ++ r) (by omega)
            (noNumber_printMembers st ms r) (h.imp fun h => h.1)
          have hms := parseMembers_print ms n r (by omega) (h.imp fun h => h.2)
          simp only [print, stringText, List.cons_append, List.append_assoc] at hx ⊢
          rw [parseValue, skipBlanks_cons (by decide)]
          simp only [skipBlanks_cons (show isBlank '"' = false by decide)]
          split
          · rename_i heq
            exact absurd (List.cons.inj heq).1 (by decide)
          · simp only [hx, Option.bind_eq_bind, Option.bind_some, hms]
termination_by n

/-- A member is read back from its text, given fuel for its value. -/
theorem parseMember_print (k : String) (x : Value) (n : ℕ) (r : List Char) (hn : size x + 1 ≤ n)
    (hr : NoNumber r) (h : Admits ext x.Strict) :
    parseMember ext n (stringText st k ++ ':' :: (st.gap ++ (print st x ++ r))) =
      some ((k, x), r) := by
  obtain ⟨n, rfl⟩ : ∃ m, n = m + 1 := ⟨n - 1, by omega⟩
  have hx := parseValue_print x n r (by omega) hr h
  have hk := parseString_stringTail st.ascii k (':' :: (st.gap ++ (print st x ++ r)))
  simp only [stringText, List.cons_append]
  rw [parseMember, skipBlanks_cons (by decide)]
  simp only [hk, Option.bind_eq_bind, Option.bind_some,
    skipBlanks_cons (show isBlank ':' = false by decide), parseValue_gap, hx]
termination_by n

/-- The elements of an array are read back from their text, given fuel for all of them. -/
theorem parseElems_print (xs : List Value) (n : ℕ) (r : List Char) (hn : sizeElems xs ≤ n)
    (h : Admits ext (StrictElems xs)) :
    parseElems ext n (printElems st xs ++ r) = some (xs, r) := by
  cases xs with
  | nil =>
      obtain ⟨n, rfl⟩ : ∃ m, n = m + 1 := ⟨n - 1, by rw [sizeElems] at hn; omega⟩
      rfl
  | cons x xs =>
      rw [sizeElems] at hn
      obtain ⟨n, rfl⟩ : ∃ m, n = m + 1 := ⟨n - 1, by omega⟩
      have hx := parseValue_print x n (printElems st xs ++ r) (by omega)
        (noNumber_printElems st xs r) (h.imp fun h => h.1)
      have hxs := parseElems_print xs n r (by omega) (h.imp fun h => h.2)
      simp only [printElems, List.cons_append, List.append_assoc]
      rw [parseElems, skipBlanks_cons (by decide)]
      simp only [parseValue_gap, hx, Option.bind_eq_bind, Option.bind_some, hxs]
termination_by n

/-- The members of an object are read back from their text, given fuel for all of them. -/
theorem parseMembers_print (ms : List (String × Value)) (n : ℕ) (r : List Char)
    (hn : sizeMembers ms ≤ n) (h : Admits ext (StrictMembers ms)) :
    parseMembers ext n (printMembers st ms ++ r) = some (ms, r) := by
  cases ms with
  | nil =>
      obtain ⟨n, rfl⟩ : ∃ m, n = m + 1 := ⟨n - 1, by rw [sizeMembers] at hn; omega⟩
      rfl
  | cons m ms =>
      obtain ⟨k, x⟩ := m
      rw [sizeMembers] at hn
      obtain ⟨n, rfl⟩ : ∃ m, n = m + 1 := ⟨n - 1, by omega⟩
      have hx := parseMember_print k x n (printMembers st ms ++ r) (by omega)
        (noNumber_printMembers st ms r) (h.imp fun h => h.1)
      have hms := parseMembers_print ms n r (by omega) (h.imp fun h => h.2)
      simp only [printMembers, List.cons_append, List.append_assoc]
      rw [parseMembers, skipBlanks_cons (by decide)]
      simp only [parseMember_gap, hx, Option.bind_eq_bind, Option.bind_some, hms]
termination_by n

end

mutual

/-- The text of a value is long enough to be its fuel. -/
theorem size_le_length_print (v : Value) : size v ≤ (print st v).length := by
  cases v with
  | arr xs =>
      cases xs with
      | nil => simp [size, print]
      | cons x xs =>
          have hx := size_le_length_print x
          have hxs := sizeElems_le_length_print xs
          simp only [size, print, List.length_cons, List.length_append]
          omega
  | obj ms =>
      cases ms with
      | nil => simp [size, print]
      | cons m ms =>
          have hx := size_le_length_print m.2
          have hms := sizeMembers_le_length_print ms
          simp only [size, print, List.length_cons, List.length_append]
          omega
  | _ =>
      obtain ⟨c, cs, hc, -⟩ := print_head st _
      rw [hc]
      simp [size]

/-- The text of the elements is long enough to be their fuel. -/
theorem sizeElems_le_length_print (xs : List Value) :
    sizeElems xs ≤ (printElems st xs).length := by
  cases xs with
  | nil => simp [sizeElems, printElems]
  | cons x xs =>
      have hx := size_le_length_print x
      have hxs := sizeElems_le_length_print xs
      simp only [sizeElems, printElems, List.length_cons, List.length_append]
      omega

/-- The text of the members is long enough to be their fuel. -/
theorem sizeMembers_le_length_print (ms : List (String × Value)) :
    sizeMembers ms ≤ (printMembers st ms).length := by
  cases ms with
  | nil => simp [sizeMembers, printMembers]
  | cons m ms =>
      have hx := size_le_length_print m.2
      have hms := sizeMembers_le_length_print ms
      simp only [sizeMembers, printMembers, List.length_cons, List.length_append]
      omega

end

/-- The text of a value parses to that value, in any layout. -/
theorem parse_print (v : Value) (h : Admits ext v.Strict) :
    parse ext (print st v) = some v := by
  have hsize : size v ≤ (print st v).length := size_le_length_print v
  have hparse : parseValue ext ((print st v).length + 1) (print st v ++ []) = some (v, []) :=
    parseValue_print v _ [] (by omega) noNumber_nil h
  rw [List.append_nil] at hparse
  rw [parse, hparse]
  rfl

end Values

end Lib.Json
