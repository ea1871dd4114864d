import KeyInstall.Text.Size

/-!
# Faults in a JSON text

A reader that refuses a text gives a *cause* and a *site*. The site is said by
what was left of the text when the fault was noticed, not by a count, so it
does not depend on what was read before; `Site.position` turns it into a line
and a column of the whole text, both counted in bytes of its UTF-8 form.
-/

namespace KeyInstall.Json

open KeyInstall.Text (byteSize)

/-! ## Causes -/

/-- What stands in the place of the text of a tagged number. -/
inductive Misplaced where
  | null
  | boolean (value : Bool)
  /-- A number without a point or exponent that fits into 64 bits. -/
  | integer (digits : List Char)
  | number
  | sequence
  | map
  deriving DecidableEq, Repr

/-- How such a thing is called in a message. -/
def Misplaced.name : Misplaced → String
  | .null => "null"
  | .boolean true => "boolean `true`"
  | .boolean false => "boolean `false`"
  | .integer digits => "integer `" ++ String.ofList digits ++ "`"
  | .number => "number"
  | .sequence => "sequence"
  | .map => "map"

/-- Why a text is refused. -/
inductive Cause where
  | endOfValue
  | endOfList
  | endOfString
  | endOfObject
  | expectedIdent
  | expectedValue
  | expectedColon
  | expectedListSeparator
  | expectedObjectSeparator
  | keyNotString
  | invalidEscape
  | invalidNumber
  | controlCharacter
  | loneSurrogate
  | endOfHexEscape
  | nestingLimit
  | trailingComma
  | trailingCharacters
  | notNumberText (found : Misplaced)
  deriving DecidableEq, Repr

/-- The wording of a cause. -/
def Cause.message : Cause → String
  | .endOfValue => "EOF while parsing a value"
  | .endOfList => "EOF while parsing a list"
  | .endOfString => "EOF while parsing a string"
  | .endOfObject => "EOF while parsing an object"
  | .expectedIdent => "expected ident"
  | .expectedValue => "expected value"
  | .expectedColon => "expected `:`"
  | .expectedListSeparator => "expected `,` or `]`"
  | .expectedObjectSeparator => "expected `,` or `\x7d`"
  | .keyNotString => "key must be a string"
  | .invalidEscape => "invalid escape"
  | .invalidNumber => "invalid number"
  | .controlCharacter => "control character (\\u0000-\\u001F) found while parsing a string"
  | .loneSurrogate => "lone leading surrogate in hex escape"
  | .endOfHexEscape => "unexpected end of hex escape"
  | .nestingLimit => "recursion limit exceeded"
  | .trailingComma => "trailing comma"
  | .trailingCharacters => "trailing characters"
  | .notNumberText found =>
    "invalid type: " ++ found.name ++ ", expected string containing a number"

/-! ## Positions and sites -/

/-- A line, counted from one, and the number of bytes before a place in it. -/
structure Position where
  line : Nat
  column : Nat
  deriving DecidableEq, Repr

/-- The place `count` bytes further on in a text that follows a position. -/
def Position.advance (start : Position) : List Char → Nat → Position
  | [], _ => start
  | c :: rest, count =>
    if count = 0 then start
    else if c = '\n' then Position.advance ⟨start.line + 1, 0⟩ rest (count - 1)
    else if count < c.utf8Size then ⟨start.line, start.column + count⟩
    else Position.advance ⟨start.line, start.column + c.utf8Size⟩ rest (count - c.utf8Size)

/-- The position after the first `count` bytes of a text. -/
def Position.ofOffset (text : List Char) (count : Nat) : Position :=
  Position.advance ⟨1, 0⟩ text count

/-- Where a fault is noticed. -/
inductive Site where
  /-- The next byte was looked at and left where it is; it counts as reached. -/
  | before (rest : List Char)
  /-- The first `taken` bytes of the rest were taken. -/
  | after (rest : List Char) (taken : Nat)
  /-- At a position of a text that stands inside a string. -/
  | inside (position : Position)
  deriving DecidableEq, Repr

/-- The number of bytes that a rest of a text comes after. -/
def offset (text rest : List Char) : Nat := byteSize text - byteSize rest

/-- The position of a site in the whole text. -/
def Site.position (text : List Char) : Site → Position
  | .before [] => Position.ofOffset text (byteSize text)
  | .before (c :: rest) => Position.ofOffset text (offset text (c :: rest) + 1)
  | .after rest taken => Position.ofOffset text (offset text rest + taken)
  | .inside position => position

/-- The site of what follows the place where a reading stopped, if anything
does. -/
def Site.leftover? : Site → Option Site
  | .before [] => none
  | .before (c :: rest) => some (.before (c :: rest))
  | .after rest taken =>
    if taken < byteSize rest then some (.after rest (taken + 1)) else none
  | .inside _ => none

/-! ## Faults -/

/-- A cause at a site. -/
structure Fault where
  cause : Cause
  site : Site
  deriving DecidableEq, Repr

/-- A cause at a position of the text: what a person is told. -/
structure ParseError where
  cause : Cause
  position : Position
  deriving DecidableEq, Repr

/-- The fault of a text as it is reported. -/
def Fault.report (text : List Char) (fault : Fault) : ParseError :=
  ⟨fault.cause, fault.site.position text⟩

/-- The wording of a refusal. -/
def ParseError.message (error : ParseError) : String :=
  error.cause.message ++ " at line " ++ toString error.position.line ++
    " column " ++ toString error.position.column

/-- The end of the text where more is needed. -/
def Fault.atEnd (cause : Cause) : Fault := ⟨cause, .after [] 0⟩

/-! ## Readings that succeed -/

/-- A mapped reading succeeds exactly if the reading does. -/
theorem map_eq_ok_iff {ε α β : Type} {reading : Except ε α} {f : α → β} {b : β} :
    reading.map f = .ok b ↔ ∃ a, reading = .ok a ∧ f a = b := by
  cases reading <;> simp [Except.map]

/-- A reading with another value leaves the same rest. -/
theorem mapValue_eq_ok_iff {ε α β ρ : Type} {reading : Except ε (α × ρ)} {f : α → β}
    {value : β} {rest : ρ} :
    (reading.map fun (found, more) => (f found, more)) = .ok (value, rest) ↔
      ∃ found, reading = .ok (found, rest) ∧ f found = value := by
  rw [map_eq_ok_iff]
  constructor
  · rintro ⟨⟨found, more⟩, read, equal⟩
    cases equal
    exact ⟨found, read, rfl⟩
  · rintro ⟨found, read, rfl⟩
    exact ⟨(found, rest), read, rfl⟩

/-- A reading that goes on succeeds exactly if both of its parts do. -/
theorem bind_eq_ok_iff {ε α β : Type} {reading : Except ε α} {f : α → Except ε β} {b : β} :
    reading >>= f = .ok b ↔ ∃ a, reading = .ok a ∧ f a = .ok b := by
  cases reading <;> simp [bind, Except.bind]

end KeyInstall.Json
