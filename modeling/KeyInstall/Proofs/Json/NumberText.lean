import KeyInstall.Proofs.Json.Number
import KeyInstall.Proofs.Json.Respelling

/-!
# The characters of a number

A number that is read takes characters that belong to no other token, and these
are its text, but for the form of the exponent (`exists_of_read`,
`normalExponent_of_ofText`).
-/

namespace KeyInstall.Json

/-! ## Characters of numbers -/

/-- The characters of a number before its exponent. -/
def isMantissa (c : Char) : Bool := c.isDigit || c == '-' || c == '.'

theorem isBare_of_isMantissa {c : Char} (mantissa : isMantissa c = true) : isBare c = true := by
  have other : ∀ mark ∈ [' ', '\n', '\r', '\t', ',', ':', '[', ']', '{', '}', '"'], c ≠ mark := by
    rintro mark member rfl
    simp only [List.mem_cons, List.not_mem_nil, or_false] at member
    rcases member with rfl | rfl | rfl | rfl | rfl | rfl | rfl | rfl | rfl | rfl | rfl <;>
    · exact absurd mantissa (by decide)
  simp only [List.mem_cons, List.not_mem_nil, or_false, forall_eq_or_imp, forall_eq] at other
  simp [isBare, isLayout, Mark.of?, other]

theorem isMantissa_of_isDigit {c : Char} (digit : c.isDigit = true) : isMantissa c = true := by
  simp [isMantissa, digit]

theorem normalExponent_append {front : List Char} (mantissa : ∀ c ∈ front, isMantissa c = true)
    (rest : List Char) : normalExponent (front ++ rest) = front ++ normalExponent rest := by
  induction front with
  | nil => rfl
  | cons c front ih =>
    have first := mantissa c List.mem_cons_self
    have small : c ≠ 'e' := by
      rintro rfl
      exact absurd first (by decide)
    have large : c ≠ 'E' := by
      rintro rfl
      exact absurd first (by decide)
    have others := ih fun d member => mantissa d (List.mem_cons_of_mem c member)
    simp [normalExponent, small, large, others]

namespace Number

/-- The sign before a digit, or none, is what that digit is given a sign by. -/
theorem exists_of_readSign {text more : List Char} {d : Char}
    (found : (readSign text).2 = d :: more) (digit : d.isDigit = true) :
    ∃ sign, text = sign ++ d :: more ∧ (∀ c ∈ sign, isBare c = true) ∧
      ∀ rest, signed (sign ++ d :: rest) =
        (if (readSign text).1 then '-' else '+') :: d :: rest := by
  have unsigned : d ≠ '-' ∧ d ≠ '+' := by
    constructor <;>
    · rintro rfl
      exact absurd digit (by decide)
  cases text with
  | nil => simp [readSign] at found
  | cons c text =>
    by_cases minus : c = '-'
    · subst minus
      obtain rfl : text = d :: more := by simpa [readSign] using found
      exact ⟨['-'], rfl, List.all_eq_true.mp rfl, fun rest => by simp [readSign, signed]⟩
    · by_cases plus : c = '+'
      · subst plus
        obtain rfl : text = d :: more := by simpa [readSign] using found
        exact ⟨['+'], rfl, List.all_eq_true.mp rfl, fun rest => by simp [readSign, signed]⟩
      · obtain ⟨rfl, rfl⟩ : c = d ∧ text = more := by simpa [readSign, minus, plus] using found
        exact ⟨[], rfl, by simp, fun rest => by simp [readSign, signed, minus, plus]⟩

theorem taken_of_exponentAt {text rest : List Char} {exponent : Option Exponent}
    (found : ExponentAt text exponent rest) :
    ∃ taken, text = taken ++ rest ∧ (∀ c ∈ taken, isBare c = true) ∧
      normalExponent taken = exponentText exponent := by
  cases found with
  | none => exact ⟨[], rfl, by simp, rfl⟩
  | @some c d tail more letter unsigned digit =>
    obtain ⟨sign, rfl, bare, signed⟩ := exists_of_readSign unsigned digit
    obtain ⟨-, digits⟩ := areDigits_cons_takeWhile digit more
    refine ⟨c :: (sign ++ d :: more.takeWhile Char.isDigit), ?_, ?_, ?_⟩
    · simp [List.takeWhile_append_dropWhile]
    · intro x member
      rcases List.mem_cons.mp member with rfl | member
      · rcases letter with rfl | rfl <;> decide
      · rcases List.mem_append.mp member with member | member
        · exact bare x member
        · exact isBare_of_isMantissa (isMantissa_of_isDigit (digits x member))
    · rw [normalExponent, if_pos letter, signed]
      rfl

theorem isMantissa_of_isWhole {digits : List Char} (whole : IsWhole digits) :
    ∀ c ∈ digits, isMantissa c = true := by
  rcases whole with rfl | ⟨⟨-, all⟩, -⟩
  · exact List.all_eq_true.mp rfl
  · exact fun c member => isMantissa_of_isDigit (all c member)

theorem isMantissa_of_fraction {fraction : Option (List Char)}
    (digits : ∀ digits, fraction = some digits → AreDigits digits) :
    ∀ c ∈ fractionText fraction, isMantissa c = true := by
  cases fraction with
  | none => simp [fractionText]
  | some found =>
    intro c member
    rcases List.mem_cons.mp member with rfl | member
    · decide
    · exact isMantissa_of_isDigit ((digits found rfl).2 c member)

/-- The characters of a number are its text, but for the form of its exponent. -/
theorem exists_of_readUnsigned {negative : Bool} {text rest : List Char} {number : Number}
    (found : readUnsigned negative text = .ok (number, rest)) :
    ∃ front taken, text = front ++ (taken ++ rest) ∧ (∀ c ∈ front, isMantissa c = true) ∧
      front.head?.any Char.isDigit = true ∧ (∀ c ∈ taken, isBare c = true) ∧
      number.text = (if negative then ['-'] else []) ++ (front ++ normalExponent taken) := by
  obtain ⟨⟨whole, afterWhole⟩, wholeRead, found⟩ := bind_eq_ok_iff.mp found
  obtain ⟨⟨fraction, afterFraction⟩, fractionRead, found⟩ := bind_eq_ok_iff.mp found
  obtain ⟨⟨exponent, afterExponent⟩, exponentRead, found⟩ := bind_eq_ok_iff.mp found
  simp only [pure, Except.pure, Except.ok.injEq, Prod.mk.injEq] at found
  obtain ⟨rfl, rfl⟩ := found
  obtain ⟨rfl, isWhole⟩ := whole_of_readWhole wholeRead
  obtain ⟨rfl, digits⟩ := fraction_of_readFraction fractionRead
  obtain ⟨taken, rfl, bare, normal⟩ :=
    taken_of_exponentAt (exponentAt_of_readExponent exponentRead)
  refine ⟨whole ++ fractionText fraction, taken, by rw [List.append_assoc], ?_, ?_, bare, ?_⟩
  · intro c member
    rcases List.mem_append.mp member with member | member
    · exact isMantissa_of_isWhole isWhole c member
    · exact isMantissa_of_fraction digits c member
  · obtain ⟨c, more, rfl, digit⟩ := head_of_isWhole isWhole
    simpa using digit
  · rw [text, normal, List.append_assoc]

theorem taken_of_front {front taken : List Char} (mantissa : ∀ c ∈ front, isMantissa c = true)
    (first : front.head?.any starts = true) (bare : ∀ c ∈ taken, isBare c = true) :
    AreBare (front ++ taken) ∧ (front ++ taken).head?.any starts = true ∧
      normalExponent (front ++ taken) = front ++ normalExponent taken := by
  refine ⟨⟨?_, ?_⟩, ?_, normalExponent_append mantissa taken⟩
  · cases front with
    | nil => simp at first
    | cons c front => simp
  · intro c member
    rcases List.mem_append.mp member with member | member
    · exact isBare_of_isMantissa (mantissa c member)
    · exact bare c member
  · cases front with
    | nil => simp at first
    | cons c front => exact first

/-- A number takes characters of its own, which are its text but for the form of
the exponent. -/
theorem exists_of_read {text rest : List Char} {number : Number}
    (found : read text = .ok (number, rest)) :
    ∃ taken, text = taken ++ rest ∧ AreBare taken ∧ taken.head?.any starts = true ∧
      normalExponent taken = number.text := by
  have unsigned : ∀ {text}, readUnsigned false text = .ok (number, rest) →
      ∃ taken, text = taken ++ rest ∧ AreBare taken ∧ taken.head?.any starts = true ∧
        normalExponent taken = number.text := by
    intro text found
    obtain ⟨front, taken, rfl, mantissa, digit, bare, same⟩ := exists_of_readUnsigned found
    have first : front.head?.any starts = true := by
      cases front with
      | nil => simp at digit
      | cons c front => simp_all [starts]
    obtain ⟨areBare, begins, normal⟩ := taken_of_front mantissa first bare
    exact ⟨front ++ taken, by simp, areBare, begins, by rw [normal, same]; rfl⟩
  cases text with
  | nil => exact unsigned found
  | cons c text =>
    rw [read] at found
    split at found
    · rename_i minus
      obtain ⟨front, taken, rfl, mantissa, -, bare, same⟩ := exists_of_readUnsigned found
      have mantissa' : ∀ d ∈ '-' :: front, isMantissa d = true := by
        intro d member
        rcases List.mem_cons.mp member with rfl | member
        · decide
        · exact mantissa d member
      obtain ⟨areBare, begins, normal⟩ := taken_of_front mantissa' rfl bare
      exact ⟨('-' :: front) ++ taken, by simp [minus], areBare, begins, by rw [normal, same]; rfl⟩
    · exact unsigned found

theorem normalExponent_of_ofText {text : List Char} {number : Number}
    (found : ofText text = .ok number) : normalExponent text = number.text := by
  obtain ⟨taken, whole, -, -, normal⟩ := exists_of_read (read_of_ofText found)
  rw [whole, List.append_nil, normal]

end Number

end KeyInstall.Json
