import KeyInstall.Json.Basic
import KeyInstall.Json.Fault

/-!
# The text of a number

A number is kept as it is written, whatever its size, with one normal form for
its exponent: the letter `e` and a sign, always. `Number.read` takes a number
off the front of a text and `Number.text` writes one; `Number.ofText` wants
the whole of a text to be one number.
-/

namespace KeyInstall.Json

/-! ## Writing -/

/-- An exponent is written with its sign. -/
def Exponent.text (exponent : Exponent) : List Char :=
  'e' :: (if exponent.negative then '-' else '+') :: exponent.digits

namespace Number

/-- The text of a fraction, with its point. -/
def fractionText : Option (List Char) → List Char
  | some digits => '.' :: digits
  | none => []

/-- The text of an exponent, if there is one. -/
def exponentText : Option Exponent → List Char
  | some exponent => exponent.text
  | none => []

/-- The characters of a number. -/
def text (number : Number) : List Char :=
  (if number.negative then ['-'] else []) ++
    (number.whole ++ (fractionText number.fraction ++ exponentText number.exponent))

/-! ## Reading -/

/-- A number begins with a sign or a digit. -/
def starts (c : Char) : Bool := c == '-' || c.isDigit

/-- The digits before the point: a zero alone, or digits that begin with
another one. -/
def readWhole : List Char → Except Fault (List Char × List Char)
  | [] => .error (.atEnd .endOfValue)
  | c :: rest =>
    if c = '0' then
      if rest.head?.any Char.isDigit then .error ⟨.invalidNumber, .before rest⟩
      else .ok ([c], rest)
    else if c.isDigit then
      .ok (c :: rest.takeWhile Char.isDigit, rest.dropWhile Char.isDigit)
    else .error ⟨.invalidNumber, .after (c :: rest) 1⟩

/-- The point and the digits after it, of which there is at least one. -/
def readFraction : List Char → Except Fault (Option (List Char) × List Char)
  | [] => .ok (none, [])
  | c :: rest =>
    if c = '.' then
      match rest with
      | [] => .error ⟨.endOfValue, .before []⟩
      | d :: more =>
        if d.isDigit then
          .ok (some (d :: more.takeWhile Char.isDigit), more.dropWhile Char.isDigit)
        else .error ⟨.invalidNumber, .before (d :: more)⟩
    else .ok (none, c :: rest)

/-- The sign of an exponent: whether it is a minus, and what follows. -/
def readSign : List Char → Bool × List Char
  | [] => (false, [])
  | c :: rest =>
    if c = '-' then (true, rest) else if c = '+' then (false, rest) else (false, c :: rest)

/-- The exponent: either letter, a sign or none, and at least one digit. -/
def readExponent : List Char → Except Fault (Option Exponent × List Char)
  | [] => .ok (none, [])
  | c :: rest =>
    if c = 'e' ∨ c = 'E' then
      let (negative, unsigned) := readSign rest
      match unsigned with
      | [] => .error (.atEnd .endOfValue)
      | d :: more =>
        if d.isDigit then
          .ok (some ⟨negative, d :: more.takeWhile Char.isDigit⟩,
            more.dropWhile Char.isDigit)
        else .error ⟨.invalidNumber, .after (d :: more) 1⟩
    else .ok (none, c :: rest)

/-- A number without its sign. -/
def readUnsigned (negative : Bool) (text : List Char) :
    Except Fault (Number × List Char) := do
  let (whole, rest) ← readWhole text
  let (fraction, rest) ← readFraction rest
  let (exponent, rest) ← readExponent rest
  return (⟨negative, whole, fraction, exponent⟩, rest)

/-- The number at the front of a text. What follows it is for the reader of
whatever holds the number. -/
def read : List Char → Except Fault (Number × List Char)
  | [] => readUnsigned false []
  | c :: rest => if c = '-' then readUnsigned true rest else readUnsigned false (c :: rest)

/-- The one number that a text consists of. Something left over counts before
the fault of the number itself. -/
def ofText : List Char → Except Fault Number
  | [] => .error (.atEnd .endOfValue)
  | c :: rest =>
    if starts c then
      match read (c :: rest) with
      | .ok (found, []) => .ok found
      | .ok (_, more) => .error ⟨.invalidNumber, .before more⟩
      | .error fault =>
        match fault.site.leftover? with
        | some site => .error ⟨.invalidNumber, site⟩
        | none => .error fault
    else .error ⟨.invalidNumber, .before (c :: rest)⟩

/-! ## Whole numbers of 64 bits -/

/-- The value of decimal digits. -/
def digitsValue (digits : List Char) : Nat :=
  digits.foldl (fun value c => value * 10 + (c.toNat - '0'.toNat)) 0

/-- A whole number that a machine integer of 64 bits can hold: without a sign
up to `2 ^ 64 - 1`, with one down to `- 2 ^ 63`, and not a zero with a sign. -/
def fitsInteger (number : Number) : Bool :=
  number.fraction.isNone && number.exponent.isNone &&
    if number.negative then
      let value := digitsValue number.whole
      value != 0 && value ≤ Nat.pow 2 63
    else digitsValue number.whole < Nat.pow 2 64

/-! ## Progress -/

theorem length_readWhole {text rest digits : List Char}
    (read : readWhole text = .ok (digits, rest)) : rest.length < text.length := by
  cases text with
  | nil => simp [readWhole] at read
  | cons c tail =>
    have shorter : (tail.dropWhile Char.isDigit).length ≤ tail.length :=
      (List.dropWhile_sublist _).length_le
    simp only [readWhole] at read
    split at read
    · split at read
      · simp at read
      · simp only [Except.ok.injEq, Prod.mk.injEq] at read
        simp only [← read.2, List.length_cons]
        omega
    · split at read
      · simp only [Except.ok.injEq, Prod.mk.injEq] at read
        simp only [← read.2, List.length_cons]
        omega
      · simp at read

theorem length_readFraction {text rest : List Char} {fraction : Option (List Char)}
    (read : readFraction text = .ok (fraction, rest)) : rest.length ≤ text.length := by
  unfold readFraction at read
  split at read
  · simp_all
  · split at read
    · split at read
      · simp at read
      · rename_i d more
        have shorter : (more.dropWhile Char.isDigit).length ≤ more.length :=
          (List.dropWhile_sublist _).length_le
        split at read
        · simp only [Except.ok.injEq, Prod.mk.injEq] at read
          simp only [← read.2, List.length_cons]
          omega
        · simp at read
    · simp_all

theorem length_readSign (text : List Char) : (readSign text).2.length ≤ text.length := by
  unfold readSign
  split
  · simp
  · split
    · simp
    · split <;> simp

theorem length_readExponent {text rest : List Char} {exponent : Option Exponent}
    (read : readExponent text = .ok (exponent, rest)) : rest.length ≤ text.length := by
  unfold readExponent at read
  split at read
  · simp_all
  · rename_i c tail
    split at read
    · have signed := length_readSign tail
      simp only at read
      split at read
      · simp at read
      · rename_i d more equal
        have shorter : (more.dropWhile Char.isDigit).length ≤ more.length :=
          (List.dropWhile_sublist _).length_le
        split at read
        · simp only [Except.ok.injEq, Prod.mk.injEq] at read
          rw [equal] at signed
          simp only [List.length_cons] at signed
          simp only [← read.2, List.length_cons]
          omega
        · simp at read
    · simp_all

theorem length_readUnsigned {negative : Bool} {text rest : List Char} {number : Number}
    (read : readUnsigned negative text = .ok (number, rest)) :
    rest.length < text.length := by
  obtain ⟨⟨whole, afterWhole⟩, wholeRead, read⟩ := bind_eq_ok_iff.mp read
  obtain ⟨⟨fraction, afterFraction⟩, fractionRead, read⟩ := bind_eq_ok_iff.mp read
  obtain ⟨⟨exponent, afterExponent⟩, exponentRead, read⟩ := bind_eq_ok_iff.mp read
  have one := length_readWhole wholeRead
  have two := length_readFraction fractionRead
  have three := length_readExponent exponentRead
  simp only [pure, Except.pure, Except.ok.injEq, Prod.mk.injEq] at read
  rw [← read.2]
  omega

/-- A number takes at least one character. -/
theorem length_read {text rest : List Char} {number : Number}
    (found : read text = .ok (number, rest)) : rest.length < text.length := by
  unfold read at found
  split at found
  · exact length_readUnsigned found
  · split at found
    · have := length_readUnsigned found
      simp only [List.length_cons]
      omega
    · exact length_readUnsigned found

end Number

end KeyInstall.Json
