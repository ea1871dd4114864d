import KeyInstall.Proofs.Json.Grammar
import KeyInstall.Proofs.Json.NumberText

/-!
# Numbers are read as the grammar has them

What the reader of a number takes is a number of the grammar
(`numberToken_of_read`), and a number of the grammar is taken, as long as what
follows it cannot be mistaken for a part of it (`read_of_numberToken`). So a
number of the grammar has the text of its token, but for the form of its
exponent (`text_of_numberToken`).
-/

namespace KeyInstall.Json.Grammar

open Number

variable {text rest : List Char}

/-! ## What is taken -/

theorem exponentToken_of_exponentAt {exponent : Option Exponent}
    (found : ExponentAt text exponent rest) :
    ∃ token, text = token ++ rest ∧ ExponentToken token exponent := by
  cases found with
  | none => exact ⟨[], rfl, .none⟩
  | @some c d tail more letter unsigned digit =>
    have digits := areDigits_cons_takeWhile digit more
    have whole : d :: more =
        (d :: more.takeWhile Char.isDigit) ++ more.dropWhile Char.isDigit := by
      rw [List.cons_append, List.takeWhile_append_dropWhile]
    cases tail with
    | nil => simp [readSign] at unsigned
    | cons sign tail =>
      by_cases minus : sign = '-'
      · simp only [readSign, minus, if_true] at unsigned ⊢
        refine ⟨c :: '-' :: (d :: more.takeWhile Char.isDigit), ?_, .minus letter digits⟩
        rw [unsigned, whole]
        rfl
      · by_cases plus : sign = '+'
        · simp only [readSign, plus, show ('+' : Char) ≠ '-' by decide, if_true, if_false]
            at unsigned ⊢
          refine ⟨c :: '+' :: (d :: more.takeWhile Char.isDigit), ?_, .plus letter digits⟩
          rw [unsigned, whole]
          rfl
        · simp only [readSign, minus, plus, if_false] at unsigned ⊢
          refine ⟨c :: (d :: more.takeWhile Char.isDigit), ?_, .unsigned letter digits⟩
          rw [unsigned, whole]
          rfl

/-- The sign, and then the parts one after the other. -/
theorem numberToken_of_readUnsigned {negative : Bool} {number : Number}
    (found : readUnsigned negative text = .ok (number, rest)) :
    ∃ token, (if negative then ['-'] else []) ++ text = token ++ rest ∧
      NumberToken token number := by
  obtain ⟨⟨whole, afterWhole⟩, wholeRead, found⟩ := bind_eq_ok_iff.mp found
  obtain ⟨⟨fraction, afterFraction⟩, fractionRead, found⟩ := bind_eq_ok_iff.mp found
  obtain ⟨⟨exponent, afterExponent⟩, exponentRead, found⟩ := bind_eq_ok_iff.mp found
  simp only [pure, Except.pure, Except.ok.injEq, Prod.mk.injEq] at found
  obtain ⟨rfl, rfl⟩ := found
  obtain ⟨rfl, isWhole⟩ := whole_of_readWhole wholeRead
  obtain ⟨rfl, digits⟩ := fraction_of_readFraction fractionRead
  obtain ⟨token, rfl, derived⟩ :=
    exponentToken_of_exponentAt (exponentAt_of_readExponent exponentRead)
  exact ⟨_, by simp only [List.append_assoc], .mk isWhole digits derived⟩

theorem numberToken_of_read {number : Number} (found : Number.read text = .ok (number, rest)) :
    ∃ token, text = token ++ rest ∧ NumberToken token number := by
  unfold Number.read at found
  split at found
  · exact numberToken_of_readUnsigned found
  · split at found
    · rename_i minus
      rw [minus]
      exact numberToken_of_readUnsigned found
    · exact numberToken_of_readUnsigned found

/-! ## What is derived -/

theorem exponentToken_first {token : List Char} {exponent : Option Exponent}
    (derived : ExponentToken token exponent) (ends : EndsNumber rest) :
    NoDigitFirst (token ++ rest) ∧ (token ++ rest).head? ≠ some '.' := by
  have first : ∀ {letter : Char} (more : List Char), letter = 'e' ∨ letter = 'E' →
      NoDigitFirst (letter :: more) ∧ (letter :: more).head? ≠ some '.' := by
    rintro letter more (rfl | rfl) <;> simp [NoDigitFirst]
  cases derived with
  | none =>
    refine ⟨ends.noDigitFirst, fun point => ?_⟩
    exact (ends '.' point).2.1 rfl
  | unsigned letter _ | plus letter _ | minus letter _ => exact first _ letter

theorem readExponent_of_token {token : List Char} {exponent : Option Exponent}
    (derived : ExponentToken token exponent) (ends : EndsNumber rest) :
    readExponent (token ++ rest) = .ok (exponent, rest) := by
  have stop := ends.noDigitFirst
  cases derived with
  | none =>
    cases rest with
    | nil => rfl
    | cons c rest =>
      obtain ⟨-, -, small, large⟩ := ends c rfl
      simp [readExponent, small, large]
  | unsigned letter digits =>
    obtain ⟨d, more, rfl, digit, others⟩ := digits.exists_cons
    have notMinus : d ≠ '-' := by
      rintro rfl
      exact absurd digit (by decide)
    have notPlus : d ≠ '+' := by
      rintro rfl
      exact absurd digit (by decide)
    simp [readExponent, letter, readSign, notMinus, notPlus, digit,
      takeWhile_append_stop others stop, dropWhile_append_stop others stop]
  | plus letter digits | minus letter digits =>
    obtain ⟨d, more, rfl, digit, others⟩ := digits.exists_cons
    simp [readExponent, letter, readSign, digit, takeWhile_append_stop others stop,
      dropWhile_append_stop others stop]

theorem read_of_numberToken {token : List Char} {number : Number}
    (derived : NumberToken token number) (ends : EndsNumber rest) :
    Number.read (token ++ rest) = .ok (number, rest) := by
  cases derived with
  | @mk negative whole exponentText fraction exponent isWhole digits exponentDerived =>
    -- From the end on: what follows a part cannot be mistaken for more of it.
    obtain ⟨noDigit, noPoint⟩ := exponentToken_first exponentDerived ends
    have wholeRead := readWhole_append isWhole (noDigitFirst_fractionText fraction noDigit)
    have fractionRead := readFraction_append digits noDigit noPoint
    have exponentRead := readExponent_of_token exponentDerived ends
    have unsigned : ∀ negative, readUnsigned negative
        (whole ++ (fractionText fraction ++ (exponentText ++ rest))) =
          .ok (⟨negative, whole, fraction, exponent⟩, rest) := by
      intro negative
      simp only [readUnsigned, wholeRead, fractionRead, exponentRead, bind, Except.bind, pure,
        Except.pure]
    simp only [List.append_assoc]
    cases negative with
    | true => simpa [Number.read] using unsigned true
    | false =>
      obtain ⟨c, more, equal, digit⟩ := head_of_isWhole isWhole
      have unequal : c ≠ '-' := by
        rintro rfl
        exact absurd digit (by decide)
      have plain := unsigned false
      rw [equal] at plain ⊢
      simpa [Number.read, unequal] using plain

theorem text_of_numberToken {token : List Char} {number : Number}
    (derived : NumberToken token number) : number.text = normalExponent token := by
  have found := read_of_numberToken derived endsNumber_nil
  obtain ⟨taken, whole, -, -, normal⟩ := Number.exists_of_read found
  rw [List.append_nil, List.append_nil] at whole
  rw [whole, normal]

/-- A number begins as numbers do. -/
theorem exists_starts {token : List Char} {number : Number} (derived : NumberToken token number) :
    ∃ c more, token = c :: more ∧ starts c = true := by
  cases derived with
  | @mk negative whole exponentText fraction exponent isWhole _ _ =>
    cases negative with
    | true => exact ⟨'-', _, rfl, rfl⟩
    | false =>
      obtain ⟨c, more, equal, digit⟩ := head_of_isWhole isWhole
      exact ⟨c, _, by rw [equal]; rfl, by simp [starts, digit]⟩

end KeyInstall.Json.Grammar
