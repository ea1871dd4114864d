import KeyInstall.Json.Scalar
import KeyInstall.Proofs.Json.Number
import KeyInstall.Proofs.Json.Settling

/-!
# Numbers and literals are settled

A number at the end of a text may go on, so the digits of a number are settled
only if something else follows them (`settles_run`). All the rest of a number
and of a literal depends on one character at a time (`settles_readScalar`).
-/

namespace KeyInstall.Json

open KeyInstall.Text (byteSize)

variable {α : Type} {whole text : List Char}

/-! ## Runs of characters -/

/-- Characters of one kind and what follows them. -/
theorem settles_run (p : Char → Bool) (value : List Char → α) (inside : text <:+ whole) :
    Settles whole fun more =>
      .ok (value ((text ++ more).takeWhile p), (text ++ more).dropWhile p) := by
  have inside : text.takeWhile p ++ text.dropWhile p <:+ whole := by
    rwa [List.takeWhile_append_dropWhile]
  have all : ∀ c ∈ text.takeWhile p, p c = true := List.all_eq_true.mp List.all_takeWhile
  cases left : text.dropWhile p with
  | nil =>
    refine .exhausts ?_
    rw [List.append_nil, left]
    exact .taken _
  | cons c rest =>
    have stop : ∀ more, ∀ d ∈ (text.dropWhile p ++ more).head?, p d = false := by
      intro more d first
      have other := List.head?_dropWhile_not p text
      rw [left, List.cons_append, List.head?_cons, Option.mem_some_iff] at first
      rw [left, List.head?_cons] at other
      exact first ▸ other
    rw [left] at inside stop
    refine .takes (value (text.takeWhile p)) (suffix_of_append inside) fun more => ?_
    have split : text ++ more = text.takeWhile p ++ (c :: rest ++ more) := by
      rw [← left, ← List.append_assoc, List.takeWhile_append_dropWhile]
    rw [split, takeWhile_append_stop all (stop more), dropWhile_append_stop all (stop more)]

/-! ## Numbers -/

namespace Number

theorem settles_readWhole (inside : text <:+ whole) :
    Settles whole fun more => readWhole (text ++ more) := by
  cases text with
  | nil => exact .exhausts (exhausted_atEnd .value)
  | cons c rest =>
    have suffix := suffix_of_cons inside
    by_cases zero : c = '0'
    · cases rest with
      | nil =>
        refine .exhausts ?_
        simp only [readWhole, zero]
        exact .taken _
      | cons d rest =>
        cases digit : d.isDigit with
        | true =>
          refine .refuses ⟨.invalidNumber, .before (d :: rest)⟩ suffix fun more => ?_
          simp [readWhole, zero, digit, Fault.extend, Site.extend]
        | false =>
          exact .takes [c] suffix fun more => by simp [readWhole, zero, digit]
    · cases digit : c.isDigit with
      | true =>
        refine (settles_run Char.isDigit (c :: ·) suffix).congr fun more => ?_
        simp [readWhole, zero, digit]
      | false =>
        refine .refuses ⟨.invalidNumber, .after (c :: rest) 1⟩
          ⟨inside, one_le_byteSize c rest⟩ fun more => ?_
        simp [readWhole, zero, digit, Fault.extend, Site.extend]

theorem settles_readFraction (inside : text <:+ whole) :
    Settles whole fun more => readFraction (text ++ more) := by
  cases text with
  | nil => exact .exhausts (.taken none)
  | cons c rest =>
    have suffix := suffix_of_cons inside
    by_cases point : c = '.'
    · cases rest with
      | nil =>
        refine .exhausts ?_
        simp only [readFraction, point]
        exact exhausted_before .value
      | cons d rest =>
        cases digit : d.isDigit with
        | true =>
          refine (settles_run Char.isDigit (fun digits => some (d :: digits))
            (suffix_of_cons suffix)).congr fun more => ?_
          simp [readFraction, point, digit]
        | false =>
          refine .refuses ⟨.invalidNumber, .before (d :: rest)⟩ suffix fun more => ?_
          simp [readFraction, point, digit, Fault.extend, Site.extend]
    · exact .takes none inside fun more => by simp [readFraction, point]

theorem suffix_readSign (text : List Char) : (readSign text).2 <:+ text := by
  unfold readSign
  split
  · exact List.suffix_rfl
  · split
    · exact List.suffix_cons _ _
    · split
      · exact List.suffix_cons _ _
      · exact List.suffix_rfl

theorem readSign_append {d : Char} {rest : List Char} (found : (readSign text).2 = d :: rest)
    (more : List Char) : readSign (text ++ more) = ((readSign text).1, d :: (rest ++ more)) := by
  cases text with
  | nil => cases found
  | cons c text =>
    by_cases minus : c = '-'
    · simp_all [readSign]
    · by_cases plus : c = '+' <;> simp_all [readSign]

theorem settles_readExponent (inside : text <:+ whole) :
    Settles whole fun more => readExponent (text ++ more) := by
  cases text with
  | nil => exact .exhausts (.taken none)
  | cons c rest =>
    by_cases letter : c = 'e' ∨ c = 'E'
    · have suffix := (suffix_readSign rest).trans (suffix_of_cons inside)
      cases unsigned : (readSign rest).2 with
      | nil =>
        refine .exhausts ?_
        simp only [List.append_nil, readExponent, letter, if_true, unsigned]
        exact exhausted_atEnd .value
      | cons d rest' =>
        have signed := readSign_append unsigned
        rw [unsigned] at suffix
        cases digit : d.isDigit with
        | true =>
          refine (settles_run Char.isDigit
            (fun digits => some ⟨(readSign rest).1, d :: digits⟩)
            (suffix_of_cons suffix)).congr fun more => ?_
          simp [readExponent, letter, signed, digit]
        | false =>
          refine .refuses ⟨.invalidNumber, .after (d :: rest') 1⟩
            ⟨suffix, one_le_byteSize d rest'⟩ fun more => ?_
          simp [readExponent, letter, signed, digit, Fault.extend, Site.extend]
    · exact .takes none inside fun more => by simp [readExponent, letter]

theorem settles_readUnsigned (negative : Bool) (inside : text <:+ whole) :
    Settles whole fun more => readUnsigned negative (text ++ more) := by
  refine (settles_readWhole inside).bind ?_ fun _ => .taken _
  intro digits afterWhole _ suffix
  refine (settles_readFraction suffix).bind ?_ fun _ => .taken _
  intro fraction afterFraction _ suffix
  refine (settles_readExponent suffix).bind ?_ fun _ => .taken _
  intro exponent afterExponent _ suffix
  exact .takes _ suffix fun _ => rfl

theorem settles_read {c : Char} {rest : List Char} (inside : c :: rest <:+ whole) :
    Settles whole fun more => read (c :: (rest ++ more)) := by
  by_cases minus : c = '-'
  · refine (settles_readUnsigned true (suffix_of_cons inside)).congr fun more => ?_
    rw [read, if_pos minus]
  · refine (settles_readUnsigned false inside).congr fun more => ?_
    rw [read, if_neg minus, List.cons_append]

end Number

/-! ## Literals -/

theorem settles_readLetters (found : α) (letters : List Char) (inside : text <:+ whole) :
    Settles whole fun more =>
      (readLetters letters (text ++ more)).map fun rest => (found, rest) := by
  induction letters generalizing text with
  | nil => exact .takes found inside fun _ => rfl
  | cons letter letters ih =>
    cases text with
    | nil => exact .exhausts (exhausted_atEnd .value)
    | cons c rest =>
      by_cases same : c = letter
      · refine (ih (suffix_of_cons inside)).congr fun more => ?_
        rw [List.cons_append, readLetters, if_pos same]
      · refine .refuses ⟨.expectedIdent, .after (c :: rest) 1⟩
          ⟨inside, one_le_byteSize c rest⟩ fun more => ?_
        rw [List.cons_append, readLetters, if_neg same]
        rfl

theorem settles_readScalar {c : Char} {rest : List Char} (inside : c :: rest <:+ whole) :
    Settles whole fun more => readScalar c (rest ++ more) := by
  have suffix := suffix_of_cons inside
  unfold readScalar
  split
  · exact settles_readLetters Scalar.null ['u', 'l', 'l'] suffix
  · split
    · exact settles_readLetters (Scalar.bool true) ['r', 'u', 'e'] suffix
    · split
      · exact settles_readLetters (Scalar.bool false) ['a', 'l', 's', 'e'] suffix
      · split
        · exact (Number.settles_read inside).map Scalar.number
        · exact .refuses ⟨.expectedValue, .before (c :: rest)⟩ inside fun _ => rfl

end KeyInstall.Json
