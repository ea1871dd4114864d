import KeyInstall.Json.Number

/-!
# Numbers that are read as they were written

`Number.Grammatical` is the shape of every number that a reader gives: a whole
part without idle zeros and at least one digit wherever digits are asked for.
The main statements say that readers give nothing else
(`grammatical_of_read`, `grammatical_of_ofText`) and that the text of such a
number is read as that number, as long as what follows it cannot be mistaken
for a part of it (`read_text`).
-/

namespace KeyInstall.Json

/-! ## The shape of a number -/

/-- At least one digit, and nothing else. -/
def AreDigits (text : List Char) : Prop := text ≠ [] ∧ ∀ c ∈ text, c.isDigit = true

/-- A zero alone, or digits that begin with another one. -/
def IsWhole (text : List Char) : Prop :=
  text = ['0'] ∨ (AreDigits text ∧ text.head? ≠ some '0')

/-- The parts of a number are digits where they have to be. -/
structure Number.Grammatical (number : Number) : Prop where
  whole : IsWhole number.whole
  fraction : ∀ digits, number.fraction = some digits → AreDigits digits
  exponent : ∀ exponent, number.exponent = some exponent → AreDigits exponent.digits

/-- What may follow a number: nothing that goes on with it. -/
def EndsNumber (rest : List Char) : Prop :=
  ∀ c ∈ rest.head?, c.isDigit = false ∧ c ≠ '.' ∧ c ≠ 'e' ∧ c ≠ 'E'

theorem endsNumber_nil : EndsNumber [] := by
  intro c member
  simp at member

theorem endsNumber_cons {c : Char} (rest : List Char)
    (ends : c.isDigit = false ∧ c ≠ '.' ∧ c ≠ 'e' ∧ c ≠ 'E') : EndsNumber (c :: rest) := by
  intro d member
  rw [List.head?_cons, Option.mem_some_iff] at member
  exact member ▸ ends

/-! ## Runs of digits -/

/-- Digits are a first one and others. -/
theorem AreDigits.exists_cons {digits : List Char} (are : AreDigits digits) :
    ∃ c more, digits = c :: more ∧ c.isDigit = true ∧ ∀ d ∈ more, d.isDigit = true := by
  obtain ⟨nonempty, all⟩ := are
  cases digits with
  | nil => exact absurd rfl nonempty
  | cons c more =>
    exact ⟨c, more, rfl, all c List.mem_cons_self,
      fun d member => all d (List.mem_cons_of_mem _ member)⟩

/-- No digit comes first. -/
def NoDigitFirst (rest : List Char) : Prop := ∀ c ∈ rest.head?, c.isDigit = false

theorem EndsNumber.noDigitFirst {rest : List Char} (ends : EndsNumber rest) :
    NoDigitFirst rest := fun c member => (ends c member).1

section

variable {p : Char → Bool} {front rest : List Char}

/-- A run of characters of one kind is taken up to the first of another kind. -/
theorem takeWhile_append_stop (all : ∀ c ∈ front, p c = true)
    (stop : ∀ c ∈ rest.head?, p c = false) : (front ++ rest).takeWhile p = front := by
  rw [List.takeWhile_append_of_pos all]
  cases rest with
  | nil => simp
  | cons c rest => simp [stop c rfl]

theorem dropWhile_append_stop (all : ∀ c ∈ front, p c = true)
    (stop : ∀ c ∈ rest.head?, p c = false) : (front ++ rest).dropWhile p = rest := by
  rw [List.dropWhile_append_of_pos all]
  cases rest with
  | nil => rfl
  | cons c rest => simp [stop c rfl]

end

/-- A digit and all that follow it are digits. -/
theorem areDigits_cons_takeWhile {c : Char} (digit : c.isDigit = true) (rest : List Char) :
    AreDigits (c :: rest.takeWhile Char.isDigit) := by
  refine ⟨List.cons_ne_nil _ _, ?_⟩
  intro d member
  rcases List.mem_cons.mp member with rfl | member
  · exact digit
  · exact List.all_eq_true.mp List.all_takeWhile d member

namespace Number

/-! ## Readers give grammatical numbers -/

theorem whole_of_readWhole {text digits rest : List Char}
    (found : readWhole text = .ok (digits, rest)) : text = digits ++ rest ∧ IsWhole digits := by
  cases text with
  | nil => simp [readWhole] at found
  | cons c tail =>
    simp only [readWhole] at found
    split at found
    · rename_i zero
      split at found
      · simp at found
      · simp only [Except.ok.injEq, Prod.mk.injEq] at found
        obtain ⟨rfl, rfl⟩ := found
        exact ⟨rfl, .inl (by rw [zero])⟩
    · rename_i other
      split at found
      · rename_i digit
        simp only [Except.ok.injEq, Prod.mk.injEq] at found
        obtain ⟨rfl, rfl⟩ := found
        refine ⟨?_, .inr ⟨areDigits_cons_takeWhile digit tail, by simpa using other⟩⟩
        rw [List.cons_append, List.takeWhile_append_dropWhile]
      · simp at found

theorem fraction_of_readFraction {text rest : List Char} {fraction : Option (List Char)}
    (found : readFraction text = .ok (fraction, rest)) :
    text = fractionText fraction ++ rest ∧ ∀ digits, fraction = some digits → AreDigits digits := by
  unfold readFraction at found
  split at found
  · simp only [Except.ok.injEq, Prod.mk.injEq] at found
    obtain ⟨rfl, rfl⟩ := found
    exact ⟨rfl, by simp⟩
  · split at found
    · rename_i point
      split at found
      · simp at found
      · rename_i d more
        split at found
        · rename_i digit
          simp only [Except.ok.injEq, Prod.mk.injEq] at found
          obtain ⟨rfl, rfl⟩ := found
          refine ⟨by simp [fractionText, point, List.takeWhile_append_dropWhile], ?_⟩
          rintro digits ⟨⟩
          exact areDigits_cons_takeWhile digit more
        · simp at found
    · simp only [Except.ok.injEq, Prod.mk.injEq] at found
      obtain ⟨rfl, rfl⟩ := found
      exact ⟨rfl, by simp⟩

/-- How an exponent stands at the front of a text, or none. -/
inductive ExponentAt : List Char → Option Exponent → List Char → Prop
  | none (text : List Char) : ExponentAt text none text
  | some {c d : Char} {tail more : List Char} : c = 'e' ∨ c = 'E' →
      (readSign tail).2 = d :: more → d.isDigit = true →
      ExponentAt (c :: tail) (some ⟨(readSign tail).1, d :: more.takeWhile Char.isDigit⟩)
        (more.dropWhile Char.isDigit)

theorem exponentAt_of_readExponent {text rest : List Char} {exponent : Option Exponent}
    (found : readExponent text = .ok (exponent, rest)) : ExponentAt text exponent rest := by
  unfold readExponent at found
  split at found
  · simp only [Except.ok.injEq, Prod.mk.injEq] at found
    obtain ⟨rfl, rfl⟩ := found
    exact .none []
  · split at found
    · rename_i letter
      simp only at found
      split at found
      · simp at found
      · rename_i unsigned
        split at found
        · rename_i digit
          simp only [Except.ok.injEq, Prod.mk.injEq] at found
          obtain ⟨rfl, rfl⟩ := found
          exact .some letter unsigned digit
        · simp at found
    · simp only [Except.ok.injEq, Prod.mk.injEq] at found
      obtain ⟨rfl, rfl⟩ := found
      exact .none _

theorem areDigits_of_exponentAt {text rest : List Char} {exponent : Exponent}
    (found : ExponentAt text (some exponent) rest) : AreDigits exponent.digits := by
  cases found with
  | some _ _ digit => exact areDigits_cons_takeWhile digit _

theorem grammatical_of_readUnsigned {negative : Bool} {text rest : List Char} {number : Number}
    (found : readUnsigned negative text = .ok (number, rest)) : number.Grammatical := by
  obtain ⟨⟨whole, afterWhole⟩, wholeRead, found⟩ := bind_eq_ok_iff.mp found
  obtain ⟨⟨fraction, afterFraction⟩, fractionRead, found⟩ := bind_eq_ok_iff.mp found
  obtain ⟨⟨exponent, afterExponent⟩, exponentRead, found⟩ := bind_eq_ok_iff.mp found
  simp only [pure, Except.pure, Except.ok.injEq, Prod.mk.injEq] at found
  rw [← found.1]
  refine ⟨(whole_of_readWhole wholeRead).2, (fraction_of_readFraction fractionRead).2, ?_⟩
  rintro found rfl
  exact areDigits_of_exponentAt (exponentAt_of_readExponent exponentRead)

/-- What is read is a number. -/
theorem grammatical_of_read {text rest : List Char} {number : Number}
    (found : read text = .ok (number, rest)) : number.Grammatical := by
  unfold read at found
  split at found
  · exact grammatical_of_readUnsigned found
  · split at found
    · exact grammatical_of_readUnsigned found
    · exact grammatical_of_readUnsigned found

/-- Only a number that leaves nothing over is taken for the whole of a text. -/
theorem read_of_ofText {text : List Char} {number : Number} (found : ofText text = .ok number) :
    read text = .ok (number, []) := by
  unfold ofText at found
  split at found
  · simp at found
  · split at found
    · split at found
      · rename_i numberRead
        simp only [Except.ok.injEq] at found
        rw [numberRead, found]
      · simp at found
      · split at found <;> simp at found
    · simp at found

/-- What a whole text gives is a number. -/
theorem grammatical_of_ofText {text : List Char} {number : Number}
    (found : ofText text = .ok number) : number.Grammatical :=
  grammatical_of_read (read_of_ofText found)

/-! ## What is written is read -/

theorem readWhole_append {digits rest : List Char} (whole : IsWhole digits)
    (stop : NoDigitFirst rest) : readWhole (digits ++ rest) = .ok (digits, rest) := by
  rcases whole with rfl | ⟨are, first⟩
  · have follows : rest.head?.any Char.isDigit = false := by
      cases rest with
      | nil => rfl
      | cons c rest => simpa using stop c rfl
    simp [readWhole, follows]
  · obtain ⟨c, more, rfl, digit, others⟩ := are.exists_cons
    have other : c ≠ '0' := by simpa using first
    simp [readWhole, other, digit, takeWhile_append_stop others stop,
      dropWhile_append_stop others stop]

theorem readFraction_append {fraction : Option (List Char)} {rest : List Char}
    (digits : ∀ digits, fraction = some digits → AreDigits digits)
    (stop : NoDigitFirst rest) (point : rest.head? ≠ some '.') :
    readFraction (fractionText fraction ++ rest) = .ok (fraction, rest) := by
  cases fraction with
  | none =>
    cases rest with
    | nil => rfl
    | cons c rest =>
      have other : c ≠ '.' := by simpa using point
      simp [fractionText, readFraction, other]
  | some found =>
    obtain ⟨d, more, rfl, digit, others⟩ := (digits found rfl).exists_cons
    simp [fractionText, readFraction, digit, takeWhile_append_stop others stop,
      dropWhile_append_stop others stop]

theorem readSign_signed (negative : Bool) (rest : List Char) :
    readSign ((if negative then '-' else '+') :: rest) = (negative, rest) := by
  cases negative <;> simp [readSign]

theorem readExponent_append {exponent : Option Exponent} {rest : List Char}
    (digits : ∀ found, exponent = some found → AreDigits found.digits)
    (ends : EndsNumber rest) :
    readExponent (exponentText exponent ++ rest) = .ok (exponent, rest) := by
  cases exponent with
  | none =>
    cases rest with
    | nil => rfl
    | cons c rest =>
      obtain ⟨-, -, small, large⟩ := ends c rfl
      simp [exponentText, readExponent, small, large]
  | some found =>
    obtain ⟨negative, text⟩ := found
    obtain ⟨d, more, rfl, digit, others⟩ := (digits ⟨negative, text⟩ rfl).exists_cons
    simp [exponentText, Exponent.text, readExponent, readSign_signed, digit,
      takeWhile_append_stop others ends.noDigitFirst, dropWhile_append_stop others ends.noDigitFirst]

/-- An exponent begins with its letter, so neither a digit nor a point comes
before it. -/
theorem head?_exponentText (exponent : Option Exponent) {rest : List Char}
    (ends : EndsNumber rest) :
    NoDigitFirst (exponentText exponent ++ rest) ∧
      (exponentText exponent ++ rest).head? ≠ some '.' := by
  cases exponent with
  | none =>
    refine ⟨ends.noDigitFirst, ?_⟩
    intro point
    exact (ends '.' point).2.1 rfl
  | some found => simp [exponentText, Exponent.text, NoDigitFirst]

theorem noDigitFirst_fractionText (fraction : Option (List Char)) {rest : List Char}
    (stop : NoDigitFirst rest) : NoDigitFirst (fractionText fraction ++ rest) := by
  cases fraction with
  | none => exact stop
  | some digits => simp [fractionText, NoDigitFirst]

theorem readUnsigned_append {number : Number} (grammatical : number.Grammatical)
    {rest : List Char} (ends : EndsNumber rest) :
    readUnsigned number.negative (number.whole ++ (fractionText number.fraction ++
      (exponentText number.exponent ++ rest))) = .ok (number, rest) := by
  -- From the end on: what follows a part cannot be mistaken for more of it.
  obtain ⟨noDigit, noPoint⟩ := head?_exponentText number.exponent ends
  have whole := readWhole_append grammatical.whole
    (noDigitFirst_fractionText number.fraction noDigit)
  have fraction := readFraction_append grammatical.fraction noDigit noPoint
  have exponent := readExponent_append grammatical.exponent ends
  simp only [readUnsigned, whole, fraction, exponent, bind, Except.bind, pure, Except.pure]

/-- A whole part begins with a digit. -/
theorem head_of_isWhole {digits : List Char} (whole : IsWhole digits) :
    ∃ c more, digits = c :: more ∧ c.isDigit = true := by
  rcases whole with rfl | ⟨are, -⟩
  · exact ⟨'0', [], rfl, rfl⟩
  · obtain ⟨c, more, equal, digit, -⟩ := are.exists_cons
    exact ⟨c, more, equal, digit⟩

/-- The text of a number is read as that number. -/
theorem read_text {number : Number} (grammatical : number.Grammatical) {rest : List Char}
    (ends : EndsNumber rest) : read (number.text ++ rest) = .ok (number, rest) := by
  have unsigned := readUnsigned_append grammatical ends
  simp only [text, List.append_assoc]
  cases negative : number.negative with
  | true =>
    rw [negative] at unsigned
    simpa [read] using unsigned
  | false =>
    obtain ⟨c, more, equal, digit⟩ := head_of_isWhole grammatical.whole
    have unequal : c ≠ '-' := by
      rintro rfl
      exact absurd digit (by decide)
    rw [negative, equal] at unsigned
    simpa [read, equal, unequal] using unsigned

/-- The text of a number begins as a number does. -/
theorem starts_text {number : Number} (grammatical : number.Grammatical) :
    ∃ c more, number.text = c :: more ∧ starts c = true := by
  rw [text]
  cases number.negative with
  | true => exact ⟨'-', _, rfl, rfl⟩
  | false =>
    obtain ⟨c, more, equal, digit⟩ := head_of_isWhole grammatical.whole
    exact ⟨c, _, by rw [equal]; rfl, by simp [starts, digit]⟩

end Number

end KeyInstall.Json
