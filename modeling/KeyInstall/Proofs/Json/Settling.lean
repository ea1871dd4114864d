import KeyInstall.Proofs.Json.Grammar.Strings
import KeyInstall.Proofs.Json.Position

/-!
# Readings that are settled

A reading of a text is looked at together with the readings of all texts that
begin with it: `reading more` is what is read when `more` follows. `Settles`
says that the reading without more has one of three ends. Something is taken,
and is taken whatever follows; something is refused, and is refused in the same
way at the same place; or the text is `Exhausted`, so that what follows may
change everything.

The statements here are about readings in a row (`Settles.bind`) and about
strings (`settles_decode`).
-/

namespace KeyInstall.Json

open KeyInstall.Text (byteSize)

/-- A mapped reading fails exactly as the reading does. -/
theorem map_eq_error_iff {ε α β : Type} {reading : Except ε α} {f : α → β} {fault : ε} :
    reading.map f = .error fault ↔ reading = .error fault := by
  cases reading <;> simp [Except.map]

/-! ## Ends of readings -/

/-- The text ends where more is needed. -/
inductive Cause.AtEnd : Cause → Prop
  | value : AtEnd .endOfValue
  | list : AtEnd .endOfList
  | string : AtEnd .endOfString
  | object : AtEnd .endOfObject

/-- Such a cause is told by its wording. -/
theorem Cause.AtEnd.message {cause : Cause} (atEnd : cause.AtEnd) :
    "EOF while parsing ".toList <+: cause.message.toList := by
  cases atEnd <;> decide

section

variable {α β : Type} {whole : List Char}

theorem suffix_of_append {front rest : List Char} (inside : front ++ rest <:+ whole) :
    rest <:+ whole :=
  (List.suffix_append front rest).trans inside

theorem suffix_of_cons {c : Char} {rest : List Char} (inside : c :: rest <:+ whole) :
    rest <:+ whole :=
  (List.suffix_cons c rest).trans inside

theorem one_le_byteSize (c : Char) (rest : List Char) : 1 ≤ byteSize (c :: rest) := by
  have := c.utf8Size_pos
  rw [Text.byteSize_cons]
  omega

/-- A reading comes to the end of the whole text: it leaves nothing, or needs
more. -/
inductive Exhausted (whole : List Char) : Except Fault (α × List Char) → Prop
  | taken (value : α) : Exhausted whole (.ok (value, []))
  | needs {fault : Fault} : fault.cause.AtEnd → fault.site.Within whole →
      Exhausted whole (.error fault)

/-- How a reading of an end of the whole text may go. -/
inductive Settles (whole : List Char) (reading : List Char → Except Fault (α × List Char)) : Prop
  | takes (value : α) {rest : List Char} : rest <:+ whole →
      (∀ more, reading more = .ok (value, rest ++ more)) → Settles whole reading
  | refuses (fault : Fault) : fault.site.Within whole →
      (∀ more, reading more = .error (fault.extend more)) → Settles whole reading
  | exhausts : Exhausted whole (reading []) → Settles whole reading

theorem exhausted_atEnd {cause : Cause} (atEnd : cause.AtEnd) :
    Exhausted (α := α) whole (.error (.atEnd cause)) :=
  .needs atEnd ⟨List.nil_suffix, Nat.zero_le _⟩

theorem exhausted_before {cause : Cause} (atEnd : cause.AtEnd) :
    Exhausted (α := α) whole (.error ⟨cause, .before []⟩) :=
  .needs atEnd List.nil_suffix

theorem Exhausted.map {result : Except Fault (α × List Char)} (exhausted : Exhausted whole result)
    (f : α → β) : Exhausted whole (result.map fun (value, rest) => (f value, rest)) := by
  cases exhausted with
  | taken value => exact .taken (f value)
  | needs atEnd within => exact .needs atEnd within

/-! ## Readings in a row -/

variable {first : List Char → Except Fault (α × List Char)}
  {reading : List Char → Except Fault (β × List Char)}

theorem Settles.congr {other : List Char → Except Fault (β × List Char)}
    (settles : Settles whole other) (same : ∀ more, reading more = other more) :
    Settles whole reading := by
  rwa [show reading = other from funext same]

theorem Settles.map (settles : Settles whole first) (f : α → β) :
    Settles whole fun more => (first more).map fun (value, rest) => (f value, rest) := by
  cases settles with
  | takes value suffix takes => exact .takes (f value) suffix fun more => by rw [takes]; rfl
  | refuses fault within refuses => exact .refuses fault within fun more => by rw [refuses]; rfl
  | exhausts exhausted => exact .exhausts (exhausted.map f)

/-- A reading fails because the text ends, or in the same way whatever follows. -/
theorem Settles.fails (settles : Settles whole first) {fault : Fault}
    (failed : first [] = .error fault) :
    (fault.cause.AtEnd ∧ fault.site.Within whole) ∨
      ∃ fault : Fault, fault.site.Within whole ∧ ∀ more, first more = .error (fault.extend more) := by
  cases settles with
  | takes value suffix takes =>
    rw [takes] at failed
    cases failed
  | refuses fault within refuses => exact .inr ⟨fault, within, refuses⟩
  | exhausts exhausted =>
    rw [failed] at exhausted
    cases exhausted with
    | needs atEnd within => exact .inl ⟨atEnd, within⟩

/-- A reading that passes on the faults of a first one is settled where the first
one fails. -/
theorem Settles.of_error (settles : Settles whole first) {fault : Fault}
    (failed : first [] = .error fault)
    (through : ∀ more fault, first more = .error fault → reading more = .error fault) :
    Settles whole reading := by
  rcases settles.fails failed with ⟨atEnd, within⟩ | ⟨fault, within, always⟩
  · refine .exhausts ?_
    rw [through [] fault failed]
    exact .needs atEnd within
  · exact .refuses fault within fun more => through more _ (always more)

/-- A reading that begins with a first one goes on from what that leaves, and says
what happens if that is nothing. -/
theorem Settles.onward (settles : Settles whole first)
    (through : ∀ more fault, first more = .error fault → reading more = .error fault)
    (later : ∀ {value rest}, rest <:+ whole → (∀ more, first more = .ok (value, rest ++ more)) →
      Settles whole reading)
    (exhausted : ∀ {value}, first [] = .ok (value, []) → Exhausted whole (reading [])) :
    Settles whole reading := by
  cases settles with
  | takes value suffix takes => exact later suffix takes
  | refuses fault within refuses =>
    exact .refuses fault within fun more => through more _ (refuses more)
  | exhausts ended =>
    refine .exhausts ?_
    cases result : first [] with
    | ok found =>
      rw [result] at ended
      cases ended
      exact exhausted result
    | error fault =>
      rw [result] at ended
      rw [through [] fault result]
      cases ended with
      | needs atEnd within => exact .needs atEnd within

variable {next : α × List Char → Except Fault (β × List Char)}

/-- A second reading goes on from what a first one leaves. -/
theorem Settles.bind (settles : Settles whole first)
    (later : ∀ {value rest}, first [] = .ok (value, rest) → rest <:+ whole →
      Settles whole fun more => next (value, rest ++ more))
    (exhausted : ∀ {value}, first [] = .ok (value, []) → Exhausted whole (next (value, []))) :
    Settles whole fun more => first more >>= next := by
  refine settles.onward ?_ ?_ ?_
  · intro more fault failed
    rw [failed]
    rfl
  · intro value rest suffix takes
    have here : first [] = .ok (value, rest) := by rw [takes, List.append_nil]
    refine (later here suffix).congr fun more => ?_
    rw [takes]
    rfl
  · intro value taken
    rw [taken]
    exact exhausted taken

/-- If a first reading takes the same whatever follows, a second one may go on
from nothing, too. -/
theorem Settles.bind_of_takes (settles : Settles whole first)
    (takes : ∀ {value rest}, first [] = .ok (value, rest) →
      rest <:+ whole ∧ ∀ more, first more = .ok (value, rest ++ more))
    (later : ∀ {value rest}, first [] = .ok (value, rest) → rest <:+ whole →
      Settles whole fun more => next (value, rest ++ more)) :
    Settles whole fun more => first more >>= next := by
  cases result : first [] with
  | ok found =>
    obtain ⟨suffix, always⟩ := takes result
    exact (later result suffix).congr fun more => by rw [always]; rfl
  | error fault => exact settles.of_error result fun more fault failed => by rw [failed]; rfl

end

/-! ## Hexadecimal digits -/

namespace Quoted

variable {whole text : List Char}

theorem readHex_append {unit : Nat} {rest : List Char} (read : readHex text = .ok (unit, rest))
    (more : List Char) : readHex (text ++ more) = .ok (unit, rest ++ more) := by
  obtain ⟨digits, rfl, hex⟩ := Grammar.readHex_eq_ok_iff.mp read
  exact Grammar.readHex_eq_ok_iff.mpr ⟨digits, List.append_assoc _ _ _, hex⟩

theorem eq_hexFault {fault : Fault} (read : readHex text = .error fault) :
    fault = hexFault text := by
  unfold readHex at read
  split at read
  · split at read
    · cases read
    · cases read
      rfl
  · cases read
    rfl

theorem utf8Size_of_hexDigit {c : Char} {value : Nat} (digit : Grammar.HexDigit c value) :
    c.utf8Size = 1 := by
  have lower : "0123456789abcdef".toList.all (·.utf8Size == 1) = true := by decide
  have upper : "0123456789ABCDEF".toList.all (·.utf8Size == 1) = true := by decide
  rcases digit with digit | digit
  · exact beq_iff_eq.mp (List.all_eq_true.mp lower c (List.mem_of_getElem? digit))
  · exact beq_iff_eq.mp (List.all_eq_true.mp upper c (List.mem_of_getElem? digit))

theorem byteSize_of_hexUnit {digits : List Char} {unit : Nat} (hex : Grammar.HexUnit digits unit) :
    byteSize digits = 4 := by
  cases hex with
  | mk a b c d =>
    simp only [Text.byteSize_cons, Text.byteSize_nil, utf8Size_of_hexDigit a,
      utf8Size_of_hexDigit b, utf8Size_of_hexDigit c, utf8Size_of_hexDigit d]

theorem eq_nil_of_byteSize {text : List Char} (empty : byteSize text = 0) : text = [] := by
  cases text with
  | nil => rfl
  | cons c text =>
    have := c.utf8Size_pos
    rw [Text.byteSize_cons] at empty
    omega

/-- Four bytes that are not four digits do not become digits by what follows. -/
theorem readHex_append_of_error {fault : Fault} (read : readHex text = .error fault)
    (large : 4 ≤ byteSize text) (more : List Char) :
    readHex (text ++ more) = .error (hexFault (text ++ more)) := by
  cases again : readHex (text ++ more) with
  | error fault => rw [eq_hexFault again]
  | ok found =>
    obtain ⟨unit, rest⟩ := found
    obtain ⟨digits, split, hex⟩ := Grammar.readHex_eq_ok_iff.mp again
    have four := byteSize_of_hexUnit hex
    have known : ∃ left, text = digits ++ left := by
      rcases List.append_eq_append_iff.mp split with ⟨left, rfl, -⟩ | ⟨left, rfl, -⟩
      · rw [Text.byteSize_append] at four
        have empty : left = [] := eq_nil_of_byteSize (by omega)
        exact ⟨[], by rw [empty, List.append_nil, List.append_nil]⟩
      · exact ⟨left, rfl⟩
    obtain ⟨left, rfl⟩ := known
    rw [Grammar.readHex_eq_ok_iff.mpr ⟨digits, rfl, hex⟩] at read
    cases read

theorem settles_readHex (inside : text <:+ whole) :
    Settles whole fun more => readHex (text ++ more) := by
  cases read : readHex text with
  | ok found =>
    obtain ⟨unit, rest⟩ := found
    obtain ⟨digits, rfl, -⟩ := Grammar.readHex_eq_ok_iff.mp read
    exact .takes unit (suffix_of_append inside) (readHex_append read)
  | error fault =>
    rcases Nat.lt_or_ge (byteSize text) 4 with small | large
    · refine .exhausts ?_
      rw [List.append_nil, read, eq_hexFault read, hexFault, if_pos small]
      exact exhausted_atEnd .string
    · refine .refuses ⟨.invalidEscape, .after text 4⟩ ⟨inside, large⟩ fun more => ?_
      rw [readHex_append_of_error read large, hexFault, if_neg]
      · rfl
      · rw [Text.byteSize_append]
        omega

/-! ## Escapes -/

/-- The character that is expected, or the end of the text. -/
theorem settles_expectPair {α : Type} {wanted : Char}
    {next : List Char → Except Fault (α × List Char)} (inside : text <:+ whole)
    (later : ∀ {rest}, text = wanted :: rest → Settles whole fun more => next (rest ++ more)) :
    Settles whole fun more => expectPair wanted (text ++ more) >>= next := by
  cases text with
  | nil => exact .exhausts (exhausted_atEnd .string)
  | cons c rest =>
    by_cases same : c = wanted
    · subst same
      exact (later rfl).congr fun more => by simp [expectPair, bind, Except.bind]
    · refine .refuses ⟨.endOfHexEscape, .after (c :: rest) 1⟩
        ⟨inside, one_le_byteSize c rest⟩ fun more => ?_
      simp [expectPair, same, bind, Except.bind, Fault.extend, Site.extend]

/-- Four digits, or the end of the text. -/
theorem settles_digits {α : Type} {next : Nat × List Char → Except Fault (α × List Char)}
    (inside : text <:+ whole)
    (later : ∀ {unit rest}, rest <:+ whole → Settles whole fun more => next (unit, rest ++ more)) :
    Settles whole fun more => readHex (text ++ more) >>= next := by
  refine (settles_readHex inside).bind_of_takes ?_ fun _ suffix => later suffix
  intro unit rest read
  rw [List.append_nil] at read
  obtain ⟨digits, rfl, -⟩ := Grammar.readHex_eq_ok_iff.mp read
  exact ⟨suffix_of_append inside, readHex_append read⟩

theorem settles_loneSurrogate {α : Type} {rest : List Char} (suffix : rest <:+ whole) :
    Settles (α := α) whole fun more => .error ⟨.loneSurrogate, .after (rest ++ more) 0⟩ :=
  .refuses ⟨.loneSurrogate, .after rest 0⟩ ⟨suffix, Nat.zero_le _⟩ fun _ => rfl

/-- The second half of a surrogate pair follows at once. -/
theorem settles_secondHalf (high : Nat) (inside : text <:+ whole) :
    Settles whole fun more => (do
      let rest ← expectPair '\\' (text ++ more)
      let rest ← expectPair 'u' rest
      let (low, rest) ← readHex rest
      if isLowSurrogate low then .ok (pairValue high low, rest)
      else .error ⟨.loneSurrogate, .after rest 0⟩) := by
  refine settles_expectPair inside ?_
  rintro afterSlash rfl
  have suffix := suffix_of_cons inside
  refine settles_expectPair suffix ?_
  rintro afterLetter rfl
  refine settles_digits (suffix_of_cons suffix) fun {low rest} left => ?_
  cases isLow : isLowSurrogate low with
  | true =>
    refine .takes (pairValue high low) left fun more => ?_
    simp only [isLow, if_true]
  | false =>
    refine (settles_loneSurrogate left).congr fun more => ?_
    simp only [isLow, Bool.false_eq_true, if_false]

theorem settles_readUnicode (inside : text <:+ whole) :
    Settles whole fun more => readUnicode (text ++ more) := by
  refine settles_digits inside fun {high rest} left => ?_
  cases isLow : isLowSurrogate high with
  | true =>
    refine (settles_loneSurrogate left).congr fun more => ?_
    simp only [isLow, if_true]
  | false =>
    cases isHigh : isHighSurrogate high with
    | true =>
      refine (settles_secondHalf high left).congr fun more => ?_
      simp only [isLow, isHigh, Bool.false_eq_true, if_true, if_false]
    | false =>
      refine .takes (Char.ofNat high) left fun more => ?_
      simp only [isLow, isHigh, Bool.false_eq_true, if_false]

theorem settles_readEscape (inside : text <:+ whole) :
    Settles whole fun more => readEscape (text ++ more) := by
  cases text with
  | nil => exact .exhausts (exhausted_atEnd .string)
  | cons letter rest =>
    have suffix := suffix_of_cons inside
    by_cases unicode : letter = 'u'
    · exact (settles_readUnicode suffix).congr fun more => by simp [readEscape, unicode]
    · cases value : letterValue? letter with
      | some c =>
        exact .takes c suffix fun more => by simp [readEscape, unicode, value]
      | none =>
        refine .refuses ⟨.invalidEscape, .after (letter :: rest) 1⟩
          ⟨inside, one_le_byteSize letter rest⟩ fun more => ?_
        simp [readEscape, unicode, value, Fault.extend, Site.extend]

theorem readEscape_append {c : Char} {rest : List Char} (read : readEscape text = .ok (c, rest))
    (more : List Char) : readEscape (text ++ more) = .ok (c, rest ++ more) := by
  obtain ⟨escape, rfl, escapes⟩ := Grammar.readEscape_eq_ok_iff.mp read
  exact Grammar.readEscape_eq_ok_iff.mpr ⟨escape, List.append_assoc _ _ _, escapes⟩

/-! ## Strings -/

theorem decode_escape_of_error {fault : Fault} (failed : readEscape text = .error fault) :
    decode ('\\' :: text) = .error fault := by
  rw [decode]
  simp only [show ('\\' : Char) ≠ '"' by decide, if_false, if_true]
  split
  · rename_i other
    rw [failed] at other
    cases other
    rfl
  · rename_i other
    rw [failed] at other
    cases other

/-- A string is taken up to its closing quote, whatever follows. -/
theorem decode_append {characters rest : List Char} (read : decode text = .ok (characters, rest))
    (more : List Char) : decode (text ++ more) = .ok (characters, rest ++ more) := by
  obtain ⟨body, rfl, string⟩ := Grammar.decode_eq_ok_iff.mp read
  exact Grammar.decode_eq_ok_iff.mpr ⟨body, by simp, string⟩

theorem settles_decode (inside : text <:+ whole) :
    Settles whole fun more => decode (text ++ more) := by
  fun_induction decode text with
  | case1 =>
    refine .exhausts ?_
    rw [List.append_nil, decode]
    exact exhausted_atEnd .string
  | case2 rest =>
    exact .takes [] (suffix_of_cons inside) fun more => by simp [decode]
  | case3 rest _ fault failed =>
    have suffix := suffix_of_cons inside
    refine (settles_readEscape suffix).of_error (by rwa [List.append_nil]) ?_
    exact fun more fault failed => decode_escape_of_error failed
  | case4 rest value left found _ _ ih =>
    obtain ⟨escape, rfl, -⟩ := Grammar.readEscape_eq_ok_iff.mp found
    have suffix := suffix_of_append (suffix_of_cons inside)
    refine ((ih suffix).map (value :: ·)).congr fun more => ?_
    exact decode_escape (readEscape_append found more)
  | case5 c rest notQuote notSlash control =>
    refine .refuses ⟨.controlCharacter, .after (c :: rest) 1⟩
      ⟨inside, one_le_byteSize c rest⟩ fun more => ?_
    simp [decode, notQuote, notSlash, control, Fault.extend, Site.extend]
  | case6 c rest notQuote notSlash visible ih =>
    refine ((ih (suffix_of_cons inside)).map (c :: ·)).congr fun more => ?_
    rw [List.cons_append, decode]
    simp [notQuote, notSlash, visible]

end Quoted

end KeyInstall.Json
