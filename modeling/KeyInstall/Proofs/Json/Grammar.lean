import KeyInstall.Json.Parser
import KeyInstall.Proofs.Json.Enclosed
import KeyInstall.Proofs.Table

/-!
# The grammar of JSON

The texts of RFC 8259 as a relation: `Derives text tree` says that a text is a
value with layout around it, and how it is built. The tree is a value as it is
written, in which an object may have a key twice; `Json.meaning` is the value
that it stands for.

Nothing here is about a reader. That texts of the grammar are what is read is
shown in the two modules after this one.
-/

namespace KeyInstall.Json

namespace Grammar

/-- Space, tab, line feed and carriage return. -/
def Blanks (text : List Char) : Prop := ∀ c ∈ text, c ∈ [' ', '\t', '\n', '\r']

/-! ## Numbers -/

/-- An exponent: either letter, a sign or none, and digits. -/
inductive ExponentToken : List Char → Option Exponent → Prop
  | none : ExponentToken [] none
  | unsigned {letter : Char} {digits : List Char} : letter = 'e' ∨ letter = 'E' →
      AreDigits digits → ExponentToken (letter :: digits) (some ⟨false, digits⟩)
  | plus {letter : Char} {digits : List Char} : letter = 'e' ∨ letter = 'E' →
      AreDigits digits → ExponentToken (letter :: '+' :: digits) (some ⟨false, digits⟩)
  | minus {letter : Char} {digits : List Char} : letter = 'e' ∨ letter = 'E' →
      AreDigits digits → ExponentToken (letter :: '-' :: digits) (some ⟨true, digits⟩)

/-- A number: a minus or none, digits without idle zeros, and a fraction and an
exponent or none. -/
inductive NumberToken : List Char → Number → Prop
  | mk {negative : Bool} {whole exponentText : List Char} {fraction : Option (List Char)}
      {exponent : Option Exponent} : IsWhole whole →
      (∀ digits, fraction = some digits → AreDigits digits) →
      ExponentToken exponentText exponent →
      NumberToken
        ((if negative then ['-'] else []) ++
          (whole ++ (Number.fractionText fraction ++ exponentText)))
        ⟨negative, whole, fraction, exponent⟩

/-! ## Strings -/

/-- The escapes with a letter of their own, and what they stand for. -/
def escapeLetters : List (Char × Char) :=
  [('"', '"'), ('\\', '\\'), ('/', '/'), ('b', '\x08'), ('f', '\x0c'), ('n', '\n'),
    ('r', '\r'), ('t', '\t')]

/-- A hexadecimal digit, in either case. -/
def HexDigit (c : Char) (value : Nat) : Prop :=
  "0123456789abcdef".toList[value]? = some c ∨ "0123456789ABCDEF".toList[value]? = some c

/-- Four hexadecimal digits, which give a unit of UTF-16. -/
inductive HexUnit : List Char → Nat → Prop
  | mk {a b c d : Char} {first second third fourth : Nat} : HexDigit a first →
      HexDigit b second → HexDigit c third → HexDigit d fourth →
      HexUnit [a, b, c, d] (((first * 16 + second) * 16 + third) * 16 + fourth)

/-- An escape without its backslash. A character is given by its unit, or by two
escapes with the units of a surrogate pair: there is no other use for a
surrogate. -/
inductive Escape : List Char → Char → Prop
  | letter {letter c : Char} : (letter, c) ∈ escapeLetters → Escape [letter] c
  | unit {digits : List Char} {c : Char} : HexUnit digits c.toNat → Escape ('u' :: digits) c
  | pair {first second : List Char} {high low : Nat} {c : Char} : HexUnit first high →
      HexUnit second low → 0xD800 ≤ high → high ≤ 0xDBFF → 0xDC00 ≤ low → low ≤ 0xDFFF →
      c.toNat = 0x10000 + (high - 0xD800) * 0x400 + (low - 0xDC00) →
      Escape ('u' :: (first ++ '\\' :: 'u' :: second)) c

/-- What stands between the quotes of a string: characters from U+0020 on other
than the quote and the backslash, and escapes. -/
inductive StringBody : List Char → List Char → Prop
  | nil : StringBody [] []
  | plain {c : Char} {body characters : List Char} : ' ' ≤ c → c ≠ '"' → c ≠ '\\' →
      StringBody body characters → StringBody (c :: body) (c :: characters)
  | escape {escape body characters : List Char} {c : Char} : Escape escape c →
      StringBody body characters → StringBody ('\\' :: (escape ++ body)) (c :: characters)

/-! ## Values -/

/-- A member of an object as it is written: layout, the key between its quotes,
layout, a colon, and a value with the layout around it. -/
structure Member where
  before : List Char
  body : List Char
  after : List Char
  text : List Char
  key : String
  value : Json

/-- The characters of a member. -/
def Member.chars (part : Member) : List Char :=
  part.before ++ '"' :: (part.body ++ '"' :: (part.after ++ ':' :: part.text))

/-- What a member stands for. -/
def Member.field (part : Member) : String × Json := (part.key, part.value)

/-- Everything but the value of a member is well formed. -/
structure Member.Keyed (part : Member) : Prop where
  before : Blanks part.before
  key : StringBody part.body part.key.toList
  after : Blanks part.after

/-- Parts with commas between them. -/
def separated (parts : List (List Char)) : List Char := [','].intercalate parts

/-- A text is a value, with or without layout around it. -/
inductive Derives : List Char → Json → Prop
  | null : Derives ['n', 'u', 'l', 'l'] .null
  | isTrue : Derives ['t', 'r', 'u', 'e'] (.bool true)
  | isFalse : Derives ['f', 'a', 'l', 's', 'e'] (.bool false)
  | number {token : List Char} {number : Number} : NumberToken token number →
      Derives token (.number number)
  | string {body : List Char} {text : String} : StringBody body text.toList →
      Derives ('"' :: (body ++ ['"'])) (.string text)
  | emptyArray {inside : List Char} : Blanks inside → Derives ('[' :: (inside ++ [']'])) (.array [])
  | array {parts : List (List Char × Json)} : parts ≠ [] →
      (∀ part ∈ parts, Derives part.1 part.2) →
      Derives ('[' :: (separated (parts.map (·.1)) ++ [']'])) (.array (parts.map (·.2)))
  | emptyObject {inside : List Char} : Blanks inside →
      Derives ('{' :: (inside ++ ['}'])) (.object [])
  | object {parts : List Member} : parts ≠ [] → (∀ part ∈ parts, part.Keyed) →
      (∀ part ∈ parts, Derives part.text part.value) →
      Derives ('{' :: (separated (parts.map Member.chars) ++ ['}']))
        (.object (parts.map Member.field))
  | padded {before text after : List Char} {tree : Json} : Blanks before → Derives text tree →
      Blanks after → Derives (before ++ (text ++ after)) tree

end Grammar

/-! ## Trees -/

/-- At most `levels` containers enclose one another in a tree. -/
inductive Nests : Nat → Json → Prop
  | null {levels : Nat} : Nests levels .null
  | bool {levels : Nat} (value : Bool) : Nests levels (.bool value)
  | number {levels : Nat} (value : Number) : Nests levels (.number value)
  | string {levels : Nat} (text : String) : Nests levels (.string text)
  | array {levels : Nat} {items : List Json} :
      (∀ item ∈ items, Nests levels item) → Nests (levels + 1) (.array items)
  | object {levels : Nat} {fields : List (String × Json)} :
      (∀ field ∈ fields, Nests levels field.2) → Nests (levels + 1) (.object fields)

/-- No object of a tree begins with the key that makes it a number. -/
inductive Untagged : Json → Prop
  | null : Untagged .null
  | bool (value : Bool) : Untagged (.bool value)
  | number (value : Number) : Untagged (.number value)
  | string (text : String) : Untagged (.string text)
  | array {items : List Json} : (∀ item ∈ items, Untagged item) → Untagged (.array items)
  | object {fields : List (String × Json)} :
      (Table.keys fields).head? ≠ some "$serde_json::private::Number" →
      (∀ field ∈ fields, Untagged field.2) → Untagged (.object fields)

mutual

/-- The value that a tree stands for: of a repeated key, the first place and the
last value count. -/
def meaning : Json → Json
  | .array items => .array (meaningItems items)
  | .object fields => .object (Table.lastValues (meaningFields fields))
  | .null => .null
  | .bool value => .bool value
  | .number value => .number value
  | .string text => .string text

def meaningItems : List Json → List Json
  | [] => []
  | item :: items => item.meaning :: meaningItems items

def meaningFields : List (String × Json) → List (String × Json)
  | [] => []
  | (key, value) :: fields => (key, value.meaning) :: meaningFields fields

end

theorem meaningItems_eq (items : List Json) : meaningItems items = items.map meaning := by
  induction items with
  | nil => rfl
  | cons item items ih => rw [meaningItems, ih, List.map_cons]

theorem meaningFields_eq (fields : List (String × Json)) :
    meaningFields fields = fields.map fun field => (field.1, field.2.meaning) := by
  induction fields with
  | nil => rfl
  | cons field fields ih =>
    obtain ⟨key, value⟩ := field
    rw [meaningFields, ih, List.map_cons]

/-! ## Layout and separators -/

namespace Grammar

theorem blanks_iff {text : List Char} : Blanks text ↔ AreLayout text := by
  refine forall_congr' fun c => forall_congr' fun _ => ?_
  simp only [isLayout, List.mem_cons, List.not_mem_nil, or_false, Bool.or_eq_true, beq_iff_eq]
  constructor
  · rintro (rfl | rfl | rfl | rfl) <;> decide
  · rintro (((rfl | rfl) | rfl) | rfl) <;> decide

theorem blanks_nil : Blanks [] := List.forall_mem_nil _

theorem Blanks.append {first second : List Char} (one : Blanks first) (two : Blanks second) :
    Blanks (first ++ second) := by
  intro c member
  exact (List.mem_append.mp member).elim (one c) (two c)

/-- A text is its layout, and what it has from its first token on. -/
theorem exists_blanks (text : List Char) :
    ∃ line, Blanks line ∧ text = line ++ skipLayout text := by
  refine ⟨text.takeWhile isLayout, blanks_iff.mpr ?_, ?_⟩
  · exact fun c member => List.all_eq_true.mp List.all_takeWhile c member
  · exact List.takeWhile_append_dropWhile.symm

theorem separated_singleton (part : List Char) : separated [part] = part := by
  simp [separated]

theorem separated_cons (part next : List Char) (parts : List (List Char)) :
    separated (part :: next :: parts) = part ++ ',' :: separated (next :: parts) := by
  simp [separated]

end Grammar

end KeyInstall.Json
