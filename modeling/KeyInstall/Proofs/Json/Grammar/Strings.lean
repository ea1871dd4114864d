import KeyInstall.Proofs.Json.Grammar
import KeyInstall.Proofs.Json.Quoted

/-!
# Strings are read as the grammar has them

For each reader of a string or of a part of one, what it takes off the front of
a text is exactly what the grammar derives there: a hexadecimal digit
(`hexValue?_eq_some_iff`), four of them (`readHex_eq_ok_iff`), an escape
(`readEscape_eq_ok_iff`) and a whole string (`decode_eq_ok_iff`).
-/

namespace KeyInstall.Json.Grammar

open Quoted

/-! ## Hexadecimal digits -/

instance (c : Char) (value : Nat) : Decidable (HexDigit c value) :=
  inferInstanceAs (Decidable (_ ∨ _))

/-- The digits of sixteen are in ASCII, so there are few to look at. -/
theorem hexValue?_eq_some_iff {c : Char} {value : Nat} :
    hexValue? c = some value ↔ HexDigit c value := by
  constructor
  · intro found
    have ascii : c.toNat < 128 := by
      by_contra large
      have high : ∀ bound : Char, bound.toNat < 128 → ¬ c ≤ bound := by
        intro bound small below
        exact absurd (Nat.lt_of_le_of_lt below small) large
      have nine := high '9' (by decide)
      have f := high 'f' (by decide)
      have F := high 'F' (by decide)
      simp [hexValue?, nine, f, F] at found
    have listed : ∀ n < 128, ∀ value ∈ hexValue? (Char.ofNat n), HexDigit (Char.ofNat n) value := by
      decide +kernel
    have here := listed c.toNat ascii
    rw [Char.ofNat_toNat] at here
    exact here value found
  · have lower : ∀ place : Fin 16, hexValue? ("0123456789abcdef".toList.get place) = some place := by
      decide
    have upper : ∀ place : Fin 16, hexValue? ("0123456789ABCDEF".toList.get place) = some place := by
      decide
    rintro (digit | digit)
    · obtain ⟨bound, rfl⟩ := List.getElem?_eq_some_iff.mp digit
      exact lower ⟨value, bound⟩
    · obtain ⟨bound, rfl⟩ := List.getElem?_eq_some_iff.mp digit
      exact upper ⟨value, bound⟩

theorem HexDigit.lt {c : Char} {value : Nat} (digit : HexDigit c value) : value < 16 := by
  rcases digit with digit | digit
  · exact (List.getElem?_eq_some_iff.mp digit).1
  · exact (List.getElem?_eq_some_iff.mp digit).1

theorem HexUnit.lt {digits : List Char} {unit : Nat} (hex : HexUnit digits unit) :
    unit < 0x10000 := by
  cases hex with
  | mk a b c d =>
    have first := a.lt
    have second := b.lt
    have third := c.lt
    have fourth := d.lt
    omega

variable {text rest : List Char}

theorem readHex_eq_ok_iff {unit : Nat} :
    readHex text = .ok (unit, rest) ↔ ∃ digits, text = digits ++ rest ∧ HexUnit digits unit := by
  constructor
  · intro read
    unfold readHex at read
    split at read
    · split at read
      · rename_i first second third fourth
        cases read
        rw [hexValue?_eq_some_iff] at first second third fourth
        exact ⟨[_, _, _, _], rfl, .mk first second third fourth⟩
      · cases read
    · cases read
  · rintro ⟨digits, rfl, hex⟩
    cases hex with
    | mk a b c d =>
      simp only [← hexValue?_eq_some_iff] at a b c d
      simp [readHex, a, b, c, d]

/-! ## Escapes -/

theorem letterValue?_eq_some_iff {letter c : Char} :
    letterValue? letter = some c ↔ (letter, c) ∈ escapeLetters := by
  constructor
  · intro found
    have listed : ∀ other value, letterValue? other = some value →
        other ∈ escapeLetters.map (·.1) := by
      intro other value known
      by_contra absent
      simp only [escapeLetters, List.map_cons, List.map_nil, List.mem_cons, List.not_mem_nil,
        or_false, not_or] at absent
      simp [letterValue?, absent] at known
    have values : ∀ entry ∈ escapeLetters, letterValue? entry.1 = some entry.2 := by decide
    obtain ⟨entry, member, rfl⟩ := List.mem_map.mp (listed letter c found)
    rw [values entry member, Option.some.injEq] at found
    rwa [← found]
  · have values : ∀ entry ∈ escapeLetters, letterValue? entry.1 = some entry.2 := by decide
    exact fun member => values _ member

theorem letter_ne_u {letter c : Char} (member : (letter, c) ∈ escapeLetters) : letter ≠ 'u' := by
  have others : ∀ entry ∈ escapeLetters, entry.1 ≠ 'u' := by decide
  exact others _ member

theorem expectPair_eq_ok_iff {wanted : Char} :
    expectPair wanted text = .ok rest ↔ text = wanted :: rest := by
  cases text with
  | nil => simp [expectPair]
  | cons c tail =>
    by_cases same : c = wanted
    · simp [expectPair, same]
    · simp [expectPair, same]

theorem toNat_ofNat {value : Nat} (valid : value.isValidChar) :
    (Char.ofNat value).toNat = value := by
  rw [Char.ofNat, dif_pos valid]
  rfl

/-- A unit that is no surrogate is the number of a character. -/
theorem toNat_ofNat_of_unit {unit : Nat} (small : unit < 0x10000)
    (notLow : isLowSurrogate unit = false) (notHigh : isHighSurrogate unit = false) :
    (Char.ofNat unit).toNat = unit := by
  simp only [isLowSurrogate, isHighSurrogate, Bool.and_eq_false_iff,
    decide_eq_false_iff_not] at notLow notHigh
  refine toNat_ofNat ?_
  unfold Nat.isValidChar
  omega

/-- So is what a surrogate pair gives. -/
theorem toNat_pairValue {high low : Nat} (isHigh : isHighSurrogate high = true)
    (isLow : isLowSurrogate low = true) :
    (pairValue high low).toNat = 0x10000 + (high - 0xD800) * 0x400 + (low - 0xDC00) := by
  simp only [isHighSurrogate, isLowSurrogate, Bool.and_eq_true, decide_eq_true_eq] at isHigh isLow
  refine toNat_ofNat ?_
  unfold Nat.isValidChar
  omega

/-- No character is a surrogate. -/
theorem not_surrogate (c : Char) :
    isLowSurrogate c.toNat = false ∧ isHighSurrogate c.toNat = false := by
  have valid : c.toNat.isValidChar := c.valid
  unfold Nat.isValidChar at valid
  constructor
  · simp only [isLowSurrogate, Bool.and_eq_false_iff, decide_eq_false_iff_not]
    omega
  · simp only [isHighSurrogate, Bool.and_eq_false_iff, decide_eq_false_iff_not]
    omega

theorem escape_of_readUnicode {c : Char} (read : readUnicode text = .ok (c, rest)) :
    ∃ escape, 'u' :: text = escape ++ rest ∧ Escape escape c := by
  obtain ⟨⟨high, afterHigh⟩, highRead, started⟩ := bind_eq_ok_iff.mp read
  obtain ⟨first, split, firstUnit⟩ := readHex_eq_ok_iff.mp highRead
  simp only at started
  split at started
  · cases started
  · rename_i notLow
    split at started
    · -- A first half needs an escape with a second half at once.
      rename_i isHigh
      obtain ⟨afterSlash, slashRead, slashed⟩ := bind_eq_ok_iff.mp started
      obtain ⟨afterLetter, letterRead, lettered⟩ := bind_eq_ok_iff.mp slashed
      obtain ⟨⟨low, afterLow⟩, lowRead, ended⟩ := bind_eq_ok_iff.mp lettered
      obtain ⟨second, splitLow, secondUnit⟩ := readHex_eq_ok_iff.mp lowRead
      rw [expectPair_eq_ok_iff] at slashRead letterRead
      simp only at ended
      split at ended
      · rename_i isLow
        simp only [Except.ok.injEq, Prod.mk.injEq] at ended
        obtain ⟨rfl, rfl⟩ := ended
        have value := toNat_pairValue isHigh isLow
        simp only [isHighSurrogate, isLowSurrogate, Bool.and_eq_true, decide_eq_true_eq]
          at isHigh isLow
        refine ⟨'u' :: (first ++ '\\' :: 'u' :: second), ?_,
          .pair firstUnit secondUnit isHigh.1 isHigh.2 isLow.1 isLow.2 value⟩
        rw [split, slashRead, letterRead, splitLow]
        simp
      · cases ended
    · rename_i notHigh
      cases started
      have value := toNat_ofNat_of_unit firstUnit.lt (eq_false_of_ne_true notLow)
        (eq_false_of_ne_true notHigh)
      exact ⟨'u' :: first, by rw [split, List.cons_append], .unit (by rwa [value])⟩

theorem readUnicode_of_unit {digits : List Char} {c : Char} (hex : HexUnit digits c.toNat)
    (rest : List Char) : readUnicode (digits ++ rest) = .ok (c, rest) := by
  have read : readHex (digits ++ rest) = .ok (c.toNat, rest) :=
    readHex_eq_ok_iff.mpr ⟨digits, rfl, hex⟩
  obtain ⟨notLow, notHigh⟩ := not_surrogate c
  simp [readUnicode, read, bind, Except.bind, notLow, notHigh, Char.ofNat_toNat]

theorem readUnicode_of_pair {first second : List Char} {high low : Nat} {c : Char}
    (firstUnit : HexUnit first high) (secondUnit : HexUnit second low)
    (isHigh : isHighSurrogate high = true) (isLow : isLowSurrogate low = true)
    (value : c.toNat = 0x10000 + (high - 0xD800) * 0x400 + (low - 0xDC00)) (rest : List Char) :
    readUnicode (first ++ '\\' :: 'u' :: (second ++ rest)) = .ok (c, rest) := by
  have highRead : readHex (first ++ '\\' :: 'u' :: (second ++ rest)) =
      .ok (high, '\\' :: 'u' :: (second ++ rest)) :=
    readHex_eq_ok_iff.mpr ⟨first, rfl, firstUnit⟩
  have lowRead : readHex (second ++ rest) = .ok (low, rest) :=
    readHex_eq_ok_iff.mpr ⟨second, rfl, secondUnit⟩
  have notLow : isLowSurrogate high = false := by
    simp only [isHighSurrogate, Bool.and_eq_true, decide_eq_true_eq] at isHigh
    simp only [isLowSurrogate, Bool.and_eq_false_iff, decide_eq_false_iff_not]
    omega
  have same : pairValue high low = c := by
    rw [← toNat_pairValue isHigh isLow] at value
    rw [← Char.ofNat_toNat c, value, Char.ofNat_toNat]
  simp [readUnicode, highRead, lowRead, bind, Except.bind, notLow, isHigh, isLow, expectPair, same]

theorem readEscape_eq_ok_iff {c : Char} :
    readEscape text = .ok (c, rest) ↔ ∃ escape, text = escape ++ rest ∧ Escape escape c := by
  constructor
  · intro read
    unfold readEscape at read
    split at read
    · cases read
    · rename_i letter tail
      split at read
      · rename_i unicode
        rw [unicode]
        exact escape_of_readUnicode read
      · split at read
        · rename_i value found
          cases read
          exact ⟨[letter], rfl, .letter (letterValue?_eq_some_iff.mp found)⟩
        · cases read
  · rintro ⟨escape, rfl, escapes⟩
    cases escapes with
    | letter member =>
      have found := letterValue?_eq_some_iff.mpr member
      simp [readEscape, letter_ne_u member, found]
    | unit hex => simpa [readEscape] using readUnicode_of_unit hex rest
    | pair firstUnit secondUnit highFrom highTo lowFrom lowTo value =>
      have read := readUnicode_of_pair firstUnit secondUnit
        (by simp [isHighSurrogate, highFrom, highTo]) (by simp [isLowSurrogate, lowFrom, lowTo])
        value rest
      simpa [readEscape] using read

/-! ## Strings -/

theorem stringBody_of_decode {characters : List Char}
    (read : decode text = .ok (characters, rest)) :
    ∃ body, text = body ++ '"' :: rest ∧ StringBody body characters := by
  fun_induction decode text generalizing characters with
  | case1 => cases read
  | case2 tail => cases read; exact ⟨[], rfl, .nil⟩
  | case3 => cases read
  | case4 tail value more found _ _ ih =>
    obtain ⟨inner, innerRead, rfl⟩ := mapValue_eq_ok_iff.mp read
    obtain ⟨escape, rfl, escapes⟩ := readEscape_eq_ok_iff.mp found
    obtain ⟨body, rfl, derived⟩ := ih innerRead
    exact ⟨'\\' :: (escape ++ body), by simp, .escape escapes derived⟩
  | case5 => cases read
  | case6 c tail notQuote notSlash visible ih =>
    obtain ⟨inner, innerRead, rfl⟩ := mapValue_eq_ok_iff.mp read
    obtain ⟨body, rfl, derived⟩ := ih innerRead
    exact ⟨c :: body, rfl, .plain (Char.not_lt.mp visible) notQuote notSlash derived⟩

theorem decode_of_stringBody {body characters : List Char} (derived : StringBody body characters)
    (rest : List Char) : decode (body ++ '"' :: rest) = .ok (characters, rest) := by
  induction derived with
  | nil => simp [decode]
  | @plain c body characters visible notQuote notSlash _ ih =>
    rw [List.cons_append, decode]
    simp [notQuote, notSlash, Char.not_lt.mpr visible, ih, Except.map]
  | @escape escape body characters c escapes _ ih =>
    have found : readEscape (escape ++ (body ++ '"' :: rest)) = .ok (c, body ++ '"' :: rest) :=
      readEscape_eq_ok_iff.mpr ⟨escape, rfl, escapes⟩
    rw [List.cons_append, List.append_assoc, decode_escape found, ih]
    rfl

/-- A string is taken up to its closing quote exactly as the grammar has it. -/
theorem decode_eq_ok_iff {characters : List Char} :
    decode text = .ok (characters, rest) ↔
      ∃ body, text = body ++ '"' :: rest ∧ StringBody body characters := by
  constructor
  · exact stringBody_of_decode
  · rintro ⟨body, rfl, derived⟩
    exact decode_of_stringBody derived rest

end KeyInstall.Json.Grammar
