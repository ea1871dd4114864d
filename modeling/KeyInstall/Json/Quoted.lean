import KeyInstall.Json.Fault

/-!
# Quoted strings

`Quoted.encode` writes the characters of a string between quotes: the quote,
the backslash and the characters below U+0020 are escaped, every other
character stands for itself. `Quoted.decode` takes the characters up to the
closing quote off the front of a text and undoes the escapes, of which it knows
more than are ever written: any character may be given by four hexadecimal
digits, or by eight in two escapes that form a surrogate pair.
-/

namespace KeyInstall.Json.Quoted

open KeyInstall.Text (byteSize)

/-! ## Writing -/

/-- The letter of an escape that has one. -/
def escapeLetter? (c : Char) : Option Char :=
  if c = '"' then some '"'
  else if c = '\\' then some '\\'
  else if c = '\x08' then some 'b'
  else if c = '\t' then some 't'
  else if c = '\n' then some 'n'
  else if c = '\x0c' then some 'f'
  else if c = '\r' then some 'r'
  else none

/-- A character inside quotes. -/
def encodeChar (c : Char) : List Char :=
  match escapeLetter? c with
  | some letter => ['\\', letter]
  | none =>
    if c < ' ' then
      ['\\', 'u', '0', '0', Nat.digitChar (c.toNat / 16), Nat.digitChar (c.toNat % 16)]
    else [c]

/-- Characters inside quotes. -/
def encode (text : List Char) : List Char := text.flatMap encodeChar

/-- A string with its quotes. -/
def quote (text : String) : List Char := '"' :: encode text.toList ++ ['"']

/-! ## Reading escapes -/

/-- The character that an escape letter stands for. -/
def letterValue? (letter : Char) : Option Char :=
  if letter = '"' then some '"'
  else if letter = '\\' then some '\\'
  else if letter = '/' then some '/'
  else if letter = 'b' then some '\x08'
  else if letter = 'f' then some '\x0c'
  else if letter = 'n' then some '\n'
  else if letter = 'r' then some '\r'
  else if letter = 't' then some '\t'
  else none

/-- The value of a hexadecimal digit, in either case. -/
def hexValue? (c : Char) : Option Nat :=
  if '0' ≤ c ∧ c ≤ '9' then some (c.toNat - '0'.toNat)
  else if 'a' ≤ c ∧ c ≤ 'f' then some (c.toNat - 'a'.toNat + 10)
  else if 'A' ≤ c ∧ c ≤ 'F' then some (c.toNat - 'A'.toNat + 10)
  else none

/-- The fault of four bytes that are not hexadecimal digits, or of fewer. -/
def hexFault (text : List Char) : Fault :=
  if byteSize text < 4 then .atEnd .endOfString else ⟨.invalidEscape, .after text 4⟩

/-- The number that four hexadecimal digits give. -/
def readHex : List Char → Except Fault (Nat × List Char)
  | a :: b :: c :: d :: rest =>
    match hexValue? a, hexValue? b, hexValue? c, hexValue? d with
    | some a, some b, some c, some d => .ok (((a * 16 + b) * 16 + c) * 16 + d, rest)
    | _, _, _, _ => .error (hexFault (a :: b :: c :: d :: rest))
  | text => .error (hexFault text)

/-- The second escape of a pair has to begin with the given character. -/
def expectPair (wanted : Char) : List Char → Except Fault (List Char)
  | [] => .error (.atEnd .endOfString)
  | c :: rest =>
    if c = wanted then .ok rest else .error ⟨.endOfHexEscape, .after (c :: rest) 1⟩

/-- The first half of a surrogate pair. -/
def isHighSurrogate (unit : Nat) : Bool := 0xD800 ≤ unit && unit ≤ 0xDBFF

/-- The second half of a surrogate pair. -/
def isLowSurrogate (unit : Nat) : Bool := 0xDC00 ≤ unit && unit ≤ 0xDFFF

/-- The character that a surrogate pair stands for. -/
def pairValue (high low : Nat) : Char :=
  Char.ofNat (0x10000 + (high - 0xD800) * 0x400 + (low - 0xDC00))

/-- A character given by hexadecimal digits: the text follows the letter. -/
def readUnicode (text : List Char) : Except Fault (Char × List Char) := do
  let (high, rest) ← readHex text
  if isLowSurrogate high then .error ⟨.loneSurrogate, .after rest 0⟩
  else if isHighSurrogate high then
    let rest ← expectPair '\\' rest
    let rest ← expectPair 'u' rest
    let (low, rest) ← readHex rest
    if isLowSurrogate low then .ok (pairValue high low, rest)
    else .error ⟨.loneSurrogate, .after rest 0⟩
  else .ok (Char.ofNat high, rest)

/-- The character that an escape stands for: the text follows the backslash. -/
def readEscape : List Char → Except Fault (Char × List Char)
  | [] => .error (.atEnd .endOfString)
  | letter :: rest =>
    if letter = 'u' then readUnicode rest
    else
      match letterValue? letter with
      | some c => .ok (c, rest)
      | none => .error ⟨.invalidEscape, .after (letter :: rest) 1⟩

/-! ## Progress of an escape -/

theorem length_readHex {text rest : List Char} {value : Nat}
    (read : readHex text = .ok (value, rest)) : rest.length < text.length := by
  unfold readHex at read
  split at read
  · split at read
    · simp only [Except.ok.injEq, Prod.mk.injEq] at read
      simp only [← read.2, List.length_cons]
      omega
    · simp at read
  · simp at read

theorem length_expectPair {wanted : Char} {text rest : List Char}
    (read : expectPair wanted text = .ok rest) : rest.length < text.length := by
  unfold expectPair at read
  split at read
  · simp at read
  · split at read
    · simp_all
    · simp at read

theorem length_readUnicode {text rest : List Char} {c : Char}
    (read : readUnicode text = .ok (c, rest)) : rest.length < text.length := by
  obtain ⟨⟨high, afterHigh⟩, highRead, read⟩ := bind_eq_ok_iff.mp read
  have first := length_readHex highRead
  simp only at read
  split at read
  · simp at read
  · split at read
    · obtain ⟨afterSlash, slashRead, read⟩ := bind_eq_ok_iff.mp read
      obtain ⟨afterLetter, letterRead, read⟩ := bind_eq_ok_iff.mp read
      obtain ⟨⟨low, afterLow⟩, lowRead, read⟩ := bind_eq_ok_iff.mp read
      have second := length_expectPair slashRead
      have third := length_expectPair letterRead
      have fourth := length_readHex lowRead
      simp only at read
      split at read
      · simp only [Except.ok.injEq, Prod.mk.injEq] at read
        rw [← read.2]
        omega
      · simp at read
    · simp only [Except.ok.injEq, Prod.mk.injEq] at read
      rw [← read.2]
      exact first

theorem length_readEscape {text rest : List Char} {c : Char}
    (read : readEscape text = .ok (c, rest)) : rest.length < text.length := by
  unfold readEscape at read
  split at read
  · simp at read
  · split at read
    · have := length_readUnicode read
      simp only [List.length_cons]
      omega
    · split at read
      · simp_all
      · simp at read

/-! ## Reading a string -/

/-- The characters up to the closing quote, and what follows it. -/
def decode (text : List Char) : Except Fault (List Char × List Char) :=
  match text with
  | [] => .error (.atEnd .endOfString)
  | c :: rest =>
    if c = '"' then .ok ([], rest)
    else if c = '\\' then
      match found : readEscape rest with
      | .error fault => .error fault
      | .ok (value, more) =>
        have : more.length < rest.length := length_readEscape found
        (decode more).map fun (values, tail) => (value :: values, tail)
    else if c < ' ' then .error ⟨.controlCharacter, .after (c :: rest) 1⟩
    else (decode rest).map fun (values, tail) => (c :: values, tail)
termination_by text.length

/-- The closing quote at least is taken. -/
theorem length_decode {text rest : List Char} {values : List Char}
    (read : decode text = .ok (values, rest)) : rest.length < text.length := by
  fun_induction decode text generalizing values with
  | case1 => simp at read
  | case2 => simp_all
  | case3 => simp at read
  | case4 tail value more found shorter _ ih =>
    obtain ⟨inner, innerRead, -⟩ := mapValue_eq_ok_iff.mp read
    have := ih innerRead
    simp only [List.length_cons]
    omega
  | case5 => simp at read
  | case6 _ tail _ _ _ ih =>
    obtain ⟨inner, innerRead, -⟩ := mapValue_eq_ok_iff.mp read
    have := ih innerRead
    simp only [List.length_cons]
    omega

end KeyInstall.Json.Quoted
