import Mathlib.Data.Rat.Defs
import Mathlib.Algebra.Order.Field.Power
import Mathlib.Algebra.Order.Ring.Rat

/-!
# JSON texts

The abstract syntax of JSON, a printer and a parser. Number tokens keep their digits, so that
every text of the grammar has its own syntax tree and a number is read only where a program asks
for its value (`NumLit.value`). Python and its libraries read and write three tokens that the
standard has not, `NaN`, `Infinity` and `-Infinity`; they are trees of their own (`NonFinite`) and
the parser takes a flag for them, so `parse false` is the strict parser.

* `Value`, `NumLit`, `Digits`: the syntax. A digit string is never empty and an integer part has
  no leading zero, by the types.
* `Value.depth`, `Value.largestInt`: what the parsers of libraries set limits to.
* `print`: the text of a tree; `Style` says whether a blank follows `,` and `:`, and whether
  characters outside ASCII are escaped.
* `parse`: recursive descent over the characters, with a bound on the depth that the length of the
  text always covers.
-/

set_option autoImplicit false

namespace Lib.Json

/-! ## Syntax -/

/-- A digit string, never empty. -/
structure Digits where
  first : Fin 10
  rest : List (Fin 10)
deriving DecidableEq

/-- The exponent part of a number token, as it is written. -/
structure Exponent where
  upper : Bool
  /-- `none` without a sign, `some true` with a minus. -/
  sign : Option Bool
  digits : Digits
deriving DecidableEq

/-- A number token. -/
structure NumLit where
  negative : Bool
  int : ℕ
  frac : Option Digits
  exp : Option Exponent
deriving DecidableEq

/-- The tokens for floats that are not numbers. -/
inductive NonFinite
  | nan
  | infinity
  | negInfinity
deriving DecidableEq

/-- A JSON value; an object is the list of its members as written. -/
inductive Value
  | null
  | bool (b : Bool)
  | num (n : NumLit)
  | nonFinite (x : NonFinite)
  | str (s : String)
  | arr (xs : List Value)
  | obj (members : List (String × Value))

/-- The natural number a digit string denotes. -/
def Digits.toNat (d : Digits) : ℕ :=
  (d.first :: d.rest).foldl (fun (n : ℕ) (x : Fin 10) => 10 * n + x) 0

/-- The token of a natural number. -/
def NumLit.ofNat (n : ℕ) : NumLit := ⟨false, n, none, none⟩

/-- Whether a number token is written as an integer. -/
def NumLit.isInt (n : NumLit) : Bool := n.frac.isNone && n.exp.isNone

/-- The integer an integer token denotes. -/
def NumLit.toInt (n : NumLit) : ℤ := if n.negative then -(n.int : ℤ) else n.int

/-- The exponent an exponent part denotes. -/
def Exponent.toInt (e : Exponent) : ℤ :=
  if e.sign = some true then -(e.digits.toNat : ℤ) else e.digits.toNat

/-- The exact number a token denotes. -/
def NumLit.value (n : NumLit) : ℚ :=
  let frac : ℚ := match n.frac with
    | none => 0
    | some d => d.toNat / 10 ^ (d.rest.length + 1)
  let exp : ℤ := match n.exp with
    | none => 0
    | some e => e.toInt
  (if n.negative then -1 else 1) * (n.int + frac) * 10 ^ exp

/-! ## The size of a value -/

mutual

/-- How many containers that are not empty stand in one another. -/
def Value.depth : Value → ℕ
  | .arr (x :: xs) => max x.depth (elemsDepth xs) + 1
  | .obj ((_, x) :: ms) => max x.depth (membersDepth ms) + 1
  | _ => 0

/-- The largest depth of the elements of an array. -/
def elemsDepth : List Value → ℕ
  | [] => 0
  | x :: xs => max x.depth (elemsDepth xs)

/-- The largest depth of the members of an object. -/
def membersDepth : List (String × Value) → ℕ
  | [] => 0
  | (_, x) :: ms => max x.depth (membersDepth ms)

end

mutual

/-- The largest integer part of the numbers in a value. -/
def Value.largestInt : Value → ℕ
  | .num n => n.int
  | .arr xs => elemsLargestInt xs
  | .obj ms => membersLargestInt ms
  | _ => 0

/-- `Value.largestInt` over the elements of an array. -/
def elemsLargestInt : List Value → ℕ
  | [] => 0
  | x :: xs => max x.largestInt (elemsLargestInt xs)

/-- `Value.largestInt` over the members of an object. -/
def membersLargestInt : List (String × Value) → ℕ
  | [] => 0
  | (_, x) :: ms => max x.largestInt (membersLargestInt ms)

end

/-- Members nest up to a depth when each of their values does. -/
theorem membersDepth_le_iff {ms : List (String × Value)} {d : ℕ} :
    membersDepth ms ≤ d ↔ ∀ m ∈ ms, m.2.depth ≤ d := by
  induction ms with
  | nil => simp [membersDepth]
  | cons m ms ih => rw [membersDepth, max_le_iff, ih, List.forall_mem_cons]

/-- An object is one deeper than its members. -/
theorem Value.depth_obj_le {ms : List (String × Value)} {d : ℕ} (h : ∀ m ∈ ms, m.2.depth ≤ d) :
    (Value.obj ms).depth ≤ d + 1 := by
  have hmembers := membersDepth_le_iff.mpr h
  cases ms with
  | nil => exact Nat.zero_le _
  | cons m ms => exact Nat.succ_le_succ hmembers

/-! ## Printing -/

/-- How a printer lays a text out. -/
structure Style where
  /-- A blank after `,` and `:`. -/
  spaced : Bool
  /-- Characters outside printable ASCII are escaped. -/
  ascii : Bool

/-- What stands after a comma or a colon. -/
def Style.gap (st : Style) : List Char := if st.spaced then [' '] else []

/-- The character of a digit. -/
def digitChar (d : Fin 10) : Char := Nat.digitChar d

/-- A digit run as text. -/
def Digits.text (d : Digits) : List Char := digitChar d.first :: d.rest.map digitChar

/-- An exponent as text. -/
def Exponent.text (e : Exponent) : List Char :=
  (if e.upper then 'E' else 'e') ::
    (match e.sign with
      | none => []
      | some true => ['-']
      | some false => ['+']) ++ e.digits.text

/-- A number literal as text. -/
def NumLit.text (n : NumLit) : List Char :=
  (if n.negative then ['-'] else []) ++ Nat.toDigits 10 n.int ++
    (match n.frac with
      | none => []
      | some d => '.' :: d.text) ++
    (match n.exp with
      | none => []
      | some e => e.text)

/-- The three texts that strict JSON does not have. -/
def NonFinite.text : NonFinite → List Char
  | .nan => ['N', 'a', 'N']
  | .infinity => ['I', 'n', 'f', 'i', 'n', 'i', 't', 'y']
  | .negInfinity => ['-', 'I', 'n', 'f', 'i', 'n', 'i', 't', 'y']

/-- A lower-case hexadecimal digit. -/
def hexChar (n : ℕ) : Char := Nat.digitChar (n % 16)

/-- The escape `\uXXXX` of a code unit. -/
def unitText (n : ℕ) : List Char :=
  ['\\', 'u', hexChar (n / 4096), hexChar (n / 256), hexChar (n / 16), hexChar n]

/-- The text of one character of a string. -/
def escape (ascii : Bool) (c : Char) : List Char :=
  if c = '"' then ['\\', '"']
  else if c = '\\' then ['\\', '\\']
  else if c = '\n' then ['\\', 'n']
  else if c = '\r' then ['\\', 'r']
  else if c = '\t' then ['\\', 't']
  else if c.toNat = 8 then ['\\', 'b']
  else if c.toNat = 12 then ['\\', 'f']
  else if c.toNat < 32 then unitText c.toNat
  else if ascii && 127 ≤ c.toNat then
    if c.toNat < 65536 then unitText c.toNat
    else unitText (55296 + (c.toNat - 65536) / 1024) ++
      unitText (56320 + (c.toNat - 65536) % 1024)
  else [c]

/-- The text of the characters of a string and its closing quote. -/
def stringTail (ascii : Bool) : List Char → List Char
  | [] => ['"']
  | c :: cs => escape ascii c ++ stringTail ascii cs

/-- A string as text, with its quotes. -/
def stringText (st : Style) (s : String) : List Char := '"' :: stringTail st.ascii s.toList

mutual

/-- The text of a value. -/
def print (st : Style) : Value → List Char
  | .null => ['n', 'u', 'l', 'l']
  | .bool true => ['t', 'r', 'u', 'e']
  | .bool false => ['f', 'a', 'l', 's', 'e']
  | .num n => n.text
  | .nonFinite x => x.text
  | .str s => stringText st s
  | .arr [] => ['[', ']']
  | .arr (x :: xs) => '[' :: (print st x ++ printElems st xs)
  | .obj [] => ['{', '}']
  | .obj ((k, x) :: ms) =>
      '{' :: (stringText st k ++ ':' :: (st.gap ++ (print st x ++ printMembers st ms)))

/-- The text of the elements after the first and the closing bracket. -/
def printElems (st : Style) : List Value → List Char
  | [] => [']']
  | x :: xs => ',' :: (st.gap ++ (print st x ++ printElems st xs))

/-- The text of the members after the first and the closing brace. -/
def printMembers (st : Style) : List (String × Value) → List Char
  | [] => ['}']
  | (k, x) :: ms =>
      ',' :: (st.gap ++ (stringText st k ++ ':' :: (st.gap ++ (print st x ++ printMembers st ms))))

end

/-! ## Parsing -/

/-- The blanks that JSON allows between its tokens. -/
def isBlank (c : Char) : Bool := c = ' ' || c = '\t' || c = '\n' || c = '\r'

/-- The text after its leading blanks. -/
def skipBlanks (cs : List Char) : List Char := cs.dropWhile isBlank

/-- The digit a character stands for. -/
def digitVal (c : Char) : Fin 10 := Fin.ofNat 10 (c.toNat - 48)

/-- The longest run of digits at the start. -/
def takeDigits : List Char → List (Fin 10) × List Char
  | [] => ([], [])
  | c :: cs =>
      if c.isDigit then (digitVal c :: (takeDigits cs).1, (takeDigits cs).2) else ([], c :: cs)

/-- Reads a run of at least one digit. -/
def parseDigits (cs : List Char) : Option (Digits × List Char) :=
  match takeDigits cs with
  | ([], _) => none
  | (d :: ds, rest) => some (⟨d, ds⟩, rest)

/-- The integer part of a number; no leading zero. -/
def parseInt (cs : List Char) : Option (ℕ × List Char) := do
  let (d, rest) ← parseDigits cs
  if d.first = 0 ∧ d.rest ≠ [] then none else some (d.toNat, rest)

/-- Reads an optional fraction. -/
def parseFrac : List Char → Option (Option Digits × List Char)
  | '.' :: cs => do
      let (d, rest) ← parseDigits cs
      some (some d, rest)
  | cs => some (none, cs)

/-- The exponent part after its letter. -/
def parseExpDigits (upper : Bool) : List Char → Option (Option Exponent × List Char)
  | '-' :: cs => do
      let (d, rest) ← parseDigits cs
      some (some ⟨upper, some true, d⟩, rest)
  | '+' :: cs => do
      let (d, rest) ← parseDigits cs
      some (some ⟨upper, some false, d⟩, rest)
  | cs => do
      let (d, rest) ← parseDigits cs
      some (some ⟨upper, none, d⟩, rest)

/-- Reads an optional exponent. -/
def parseExp : List Char → Option (Option Exponent × List Char)
  | 'e' :: cs => parseExpDigits false cs
  | 'E' :: cs => parseExpDigits true cs
  | cs => some (none, cs)

/-- A number without its sign. -/
def parseUnsigned (negative : Bool) (cs : List Char) : Option (NumLit × List Char) := do
  let (int, cs) ← parseInt cs
  let (frac, cs) ← parseFrac cs
  let (exp, cs) ← parseExp cs
  some (⟨negative, int, frac, exp⟩, cs)

/-- The value of a hexadecimal digit. -/
def hexVal (c : Char) : Option ℕ :=
  if c.isDigit then some (c.toNat - 48)
  else if 'a' ≤ c ∧ c ≤ 'f' then some (c.toNat - 87)
  else if 'A' ≤ c ∧ c ≤ 'F' then some (c.toNat - 55)
  else none

/-- The code unit of four hexadecimal digits. -/
def parseUnit : List Char → Option (ℕ × List Char)
  | a :: b :: c :: d :: cs => do
      let a ← hexVal a
      let b ← hexVal b
      let c ← hexVal c
      let d ← hexVal d
      some (4096 * a + 256 * b + 16 * c + d, cs)
  | _ => none

/-- The character after `\u`: one code unit, or a high surrogate and the low one escaped after it;
a surrogate alone is refused. -/
def parseUnicode (cs : List Char) : Option (Char × List Char) := do
  let (n, cs) ← parseUnit cs
  if 55296 ≤ n ∧ n < 56320 then
    match cs with
    | '\\' :: 'u' :: cs => do
        let (m, cs) ← parseUnit cs
        if 56320 ≤ m ∧ m < 57344 then
          some (Char.ofNat (65536 + 1024 * (n - 55296) + (m - 56320)), cs)
        else none
    | _ => none
  else if 56320 ≤ n ∧ n < 57344 then none
  else some (Char.ofNat n, cs)

/-- One character of a string, escaped or not. -/
def parseChar : List Char → Option (Char × List Char)
  | '\\' :: '"' :: cs => some ('"', cs)
  | '\\' :: '\\' :: cs => some ('\\', cs)
  | '\\' :: '/' :: cs => some ('/', cs)
  | '\\' :: 'n' :: cs => some ('\n', cs)
  | '\\' :: 'r' :: cs => some ('\r', cs)
  | '\\' :: 't' :: cs => some ('\t', cs)
  | '\\' :: 'b' :: cs => some (Char.ofNat 8, cs)
  | '\\' :: 'f' :: cs => some (Char.ofNat 12, cs)
  | '\\' :: 'u' :: cs => parseUnicode cs
  | '\\' :: _ => none
  | c :: cs => if c.toNat < 32 then none else some (c, cs)
  | [] => none

/-- The characters of a string up to its closing quote; the first argument bounds their number. -/
def parseChars : ℕ → List Char → Option (List Char × List Char)
  | 0, _ => none
  | _ + 1, '"' :: cs => some ([], cs)
  | n + 1, cs => do
      let (c, cs) ← parseChar cs
      let (s, cs) ← parseChars n cs
      some (c :: s, cs)

/-- A string after its opening quote. -/
def parseString (cs : List Char) : Option (String × List Char) := do
  let (s, cs) ← parseChars cs.length cs
  some (String.ofList s, cs)

/-- What is left after a fixed text. -/
def expect : List Char → List Char → Option (List Char)
  | [], cs => some cs
  | t :: ts, c :: cs => if t = c then expect ts cs else none
  | _ :: _, [] => none

mutual

/-- A value; the first argument bounds the depth of the descent, `ext` allows the tokens for
floats that are not numbers. -/
def parseValue (ext : Bool) : ℕ → List Char → Option (Value × List Char)
  | 0, _ => none
  | n + 1, cs =>
      match skipBlanks cs with
      | 'n' :: cs => (expect ['u', 'l', 'l'] cs).map fun cs => (.null, cs)
      | 't' :: cs => (expect ['r', 'u', 'e'] cs).map fun cs => (.bool true, cs)
      | 'f' :: cs => (expect ['a', 'l', 's', 'e'] cs).map fun cs => (.bool false, cs)
      | '"' :: cs => (parseString cs).map fun p => (.str p.1, p.2)
      | '[' :: cs =>
          match skipBlanks cs with
          | ']' :: cs => some (.arr [], cs)
          | cs => do
              let (x, cs) ← parseValue ext n cs
              let (xs, cs) ← parseElems ext n cs
              some (.arr (x :: xs), cs)
      | '{' :: cs =>
          match skipBlanks cs with
          | '}' :: cs => some (.obj [], cs)
          | cs => do
              let (m, cs) ← parseMember ext n cs
              let (ms, cs) ← parseMembers ext n cs
              some (.obj (m :: ms), cs)
      | 'N' :: cs =>
          if ext then (expect ['a', 'N'] cs).map fun cs => (.nonFinite .nan, cs) else none
      | 'I' :: cs =>
          if ext then (expect ['n', 'f', 'i', 'n', 'i', 't', 'y'] cs).map fun cs =>
            (.nonFinite .infinity, cs)
          else none
      | '-' :: 'I' :: cs =>
          if ext then (expect ['n', 'f', 'i', 'n', 'i', 't', 'y'] cs).map fun cs =>
            (.nonFinite .negInfinity, cs)
          else none
      | '-' :: cs => (parseUnsigned true cs).map fun p => (.num p.1, p.2)
      | cs => (parseUnsigned false cs).map fun p => (.num p.1, p.2)

/-- The elements after the first, up to the closing bracket. -/
def parseElems (ext : Bool) : ℕ → List Char → Option (List Value × List Char)
  | 0, _ => none
  | n + 1, cs =>
      match skipBlanks cs with
      | ']' :: cs => some ([], cs)
      | ',' :: cs => do
          let (x, cs) ← parseValue ext n cs
          let (xs, cs) ← parseElems ext n cs
          some (x :: xs, cs)
      | _ => none

/-- One member of an object. -/
def parseMember (ext : Bool) : ℕ → List Char → Option ((String × Value) × List Char)
  | 0, _ => none
  | n + 1, cs =>
      match skipBlanks cs with
      | '"' :: cs => do
          let (k, cs) ← parseString cs
          match skipBlanks cs with
          | ':' :: cs => do
              let (x, cs) ← parseValue ext n cs
              some ((k, x), cs)
          | _ => none
      | _ => none

/-- The members after the first, up to the closing brace. -/
def parseMembers (ext : Bool) : ℕ → List Char → Option (List (String × Value) × List Char)
  | 0, _ => none
  | n + 1, cs =>
      match skipBlanks cs with
      | '}' :: cs => some ([], cs)
      | ',' :: cs => do
          let (m, cs) ← parseMember ext n cs
          let (ms, cs) ← parseMembers ext n cs
          some (m :: ms, cs)
      | _ => none

end

/-- The value of a whole text. -/
def parse (ext : Bool) (text : List Char) : Option Value :=
  match parseValue ext (text.length + 1) text with
  | some (x, rest) => if skipBlanks rest = [] then some x else none
  | none => none

end Lib.Json
