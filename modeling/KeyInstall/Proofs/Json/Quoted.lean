import KeyInstall.Json.Quoted

/-!
# Strings that are read as they were written

Every escape that is written stands for the character that it was made from
(`decode_encodeChar`), so a quoted text of any characters is read as that text,
whatever follows its closing quote (`decode_encode`).
-/

namespace KeyInstall.Json.Quoted

/-! ## Escapes with a letter -/

/-- The characters whose escape has a letter. -/
def lettered : List Char := ['"', '\\', '\x08', '\t', '\n', '\x0c', '\r']

theorem mem_lettered_of_escapeLetter? {c letter : Char}
    (found : escapeLetter? c = some letter) : c ∈ lettered := by
  refine Decidable.byContradiction fun other => ?_
  simp only [lettered, List.mem_cons, not_or] at other
  simp [escapeLetter?, other] at found

/-- The letter of an escape stands for the character that it was chosen for. -/
theorem letterValue?_of_escapeLetter? {c letter : Char}
    (found : escapeLetter? c = some letter) :
    letter ≠ 'u' ∧ letterValue? letter = some c := by
  have member := mem_lettered_of_escapeLetter? found
  simp only [lettered, List.mem_cons, List.not_mem_nil, or_false] at member
  rcases member with rfl | rfl | rfl | rfl | rfl | rfl | rfl <;>
  · simp [escapeLetter?] at found
    subst found
    exact ⟨by simp, rfl⟩

/-! ## Escapes with digits -/

/-- A digit of sixteen has its value. -/
theorem hexValue?_digitChar : ∀ value < 16, hexValue? (Nat.digitChar value) = some value := by
  decide

/-- A character below U+0020 is found again in its four digits. -/
theorem readUnicode_control {c : Char} (control : c < ' ') (rest : List Char) :
    readUnicode ('0' :: '0' :: Nat.digitChar (c.toNat / 16) ::
      Nat.digitChar (c.toNat % 16) :: rest) = .ok (c, rest) := by
  have small : c.toNat < 32 := control
  have zero : hexValue? '0' = some 0 := by decide
  have high := hexValue?_digitChar (c.toNat / 16) (by omega)
  have low := hexValue?_digitChar (c.toNat % 16) (by omega)
  have whole : ((0 * 16 + 0) * 16 + c.toNat / 16) * 16 + c.toNat % 16 = c.toNat := by omega
  have notLow : isLowSurrogate c.toNat = false := by
    simp only [isLowSurrogate, Bool.and_eq_false_iff, decide_eq_false_iff_not]
    omega
  have notHigh : isHighSurrogate c.toNat = false := by
    simp only [isHighSurrogate, Bool.and_eq_false_iff, decide_eq_false_iff_not]
    omega
  simp only [readUnicode, readHex, zero, high, low, whole, bind, Except.bind, notLow, notHigh,
    Bool.false_eq_true, if_false, Char.ofNat_toNat]

/-! ## Characters and texts -/

/-- A backslash and what it needs are taken as one character. -/
theorem decode_escape {c : Char} {escape rest : List Char}
    (found : readEscape escape = .ok (c, rest)) :
    decode ('\\' :: escape) = (decode rest).map fun (values, tail) => (c :: values, tail) := by
  rw [decode]
  simp only [show ('\\' : Char) ≠ '"' by decide, if_false, if_true]
  split
  · rename_i fault other
    rw [found] at other
    simp at other
  · rename_i value more other
    rw [found] at other
    simp only [Except.ok.injEq, Prod.mk.injEq] at other
    rw [other.1, other.2]

/-- A written character is read as that character. -/
theorem decode_encodeChar (c : Char) (rest : List Char) :
    decode (encodeChar c ++ rest) =
      (decode rest).map fun (values, tail) => (c :: values, tail) := by
  unfold encodeChar
  split
  · rename_i letter found
    obtain ⟨notUnicode, value⟩ := letterValue?_of_escapeLetter? found
    exact decode_escape (by simp [readEscape, notUnicode, value])
  · rename_i plain
    split
    · rename_i control
      exact decode_escape (by simpa [readEscape] using readUnicode_control control rest)
    · rename_i visible
      have notQuote : c ≠ '"' := by
        rintro rfl
        simp [escapeLetter?] at plain
      have notSlash : c ≠ '\\' := by
        rintro rfl
        simp [escapeLetter?] at plain
      rw [List.singleton_append, decode]
      simp [notQuote, notSlash, visible]

/-- A written text is read as that text, up to its closing quote. -/
theorem decode_encode (text rest : List Char) :
    decode (encode text ++ '"' :: rest) = .ok (text, rest) := by
  induction text with
  | nil => simp [encode, decode]
  | cons c text ih =>
    have split : encode (c :: text) ++ '"' :: rest =
        encodeChar c ++ (encode text ++ '"' :: rest) := by
      simp [encode]
    rw [split, decode_encodeChar, ih]
    rfl

end KeyInstall.Json.Quoted
