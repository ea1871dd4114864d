import KeyInstall.Proofs.Json.Settling.Scalars
import KeyInstall.Proofs.Json.StringLiterals

/-!
# Values are settled

A reader is `Steady` if its readings of texts without the tag are settled. The
readers of items, members and objects are steady if the readers of their parts
are, so the readers of values are, level by level (`steady_valueReader`), and
with them the reading of a whole text (`settles_readText`). A text refused before
its end is then refused in the same way with any text after it (`parse_of_error`).
-/

namespace KeyInstall.Json

variable {α β : Type} {whole text rest : List Char}

/-! ## Layout -/

theorem suffix_skipLayout (text : List Char) : skipLayout text <:+ text :=
  List.dropWhile_suffix isLayout

/-- The next token is the same when more text follows. -/
theorem skipLayout_append_of_cons {c : Char} (next : skipLayout text = c :: rest)
    (more : List Char) : skipLayout (text ++ more) = c :: (rest ++ more) := by
  have next : text.dropWhile isLayout = c :: rest := next
  rw [skipLayout, List.dropWhile_append, next]
  rfl

theorem suffix_of_next {c : Char} (inside : text <:+ whole) (next : skipLayout text = c :: rest) :
    c :: rest <:+ whole :=
  next ▸ (suffix_skipLayout text).trans inside

theorem TagFree.next {c : Char} (free : TagFree text) (next : Json.skipLayout text = c :: rest) :
    TagFree (c :: rest) :=
  next ▸ free.skipLayout

/-! ## Colons -/

theorem settles_readColon {next : List Char → Except Fault (α × List Char)}
    (inside : text <:+ whole)
    (later : ∀ {rest}, skipLayout text = ':' :: rest →
      Settles whole fun more => next (rest ++ more)) :
    Settles whole fun more => readColon (text ++ more) >>= next := by
  cases token : skipLayout text with
  | nil =>
    refine .exhausts ?_
    rw [List.append_nil, readColon, token]
    exact exhausted_before .object
  | cons c rest =>
    have again := skipLayout_append_of_cons token
    by_cases colon : c = ':'
    · subst colon
      refine (later token).congr fun more => ?_
      rw [readColon, again]
      rfl
    · refine .refuses ⟨.expectedColon, .before (c :: rest)⟩ (suffix_of_next inside token)
        fun more => ?_
      rw [readColon, again]
      simp [colon, bind, Except.bind, Fault.extend, Site.extend]

/-! ## Items -/

/-- What the reader of an item owes to the reader of a container. -/
structure Steady (item : Reader α) : Prop where
  settles : ∀ {whole text}, text <:+ whole → TagFree text →
    Settles whole fun more => item.run (text ++ more)
  leaves : item.TakesLiterals
  /-- There is nothing to take from an empty text. -/
  needs : ∀ whole, Exhausted whole (item.run [])

section

variable {item : Reader α} {enclosure : Enclosure}

/-- The end of a text inside a container. -/
theorem exhausted_readItems (steady : Steady item) (whole : List Char) :
    Exhausted whole (readItems item enclosure []) := by
  have needs := steady.needs whole
  cases found : item.run [] with
  | ok result => exact absurd (item.shorter found) (Nat.not_lt_zero _)
  | error fault =>
    rw [found] at needs
    rw [readItems_of_error found]
    cases needs with
    | needs atEnd within => exact .needs atEnd within

theorem readSeparator_nil (enclosure : Enclosure) :
    readSeparator enclosure [] = .error ⟨enclosure.unclosed, .before []⟩ := rfl

theorem settles_readSeparator (unclosed : enclosure.unclosed.AtEnd) (inside : rest <:+ whole) :
    Settles whole fun more => readSeparator enclosure (rest ++ more) := by
  cases next : skipLayout rest with
  | nil =>
    refine .exhausts ?_
    simp only [List.append_nil, readSeparator, next]
    exact exhausted_before unclosed
  | cons c tail =>
    have again := skipLayout_append_of_cons next
    have suffix := suffix_of_next inside next
    by_cases close : c = enclosure.close
    · refine .takes .close (suffix_of_cons suffix) fun more => ?_
      exact readSeparator_close (close ▸ again more)
    · by_cases comma : c = ','
      · subst comma
        cases after : skipLayout tail with
        | nil =>
          -- What follows may close the container, or be an item.
          refine .exhausts ?_
          have goesOn : (skipLayout tail).head? ≠ some enclosure.close := by simp [after]
          rw [List.append_nil, readSeparator_comma (Ne.symm close) next goesOn, after]
          exact .taken Separator.comma
        | cons d others =>
          have onward := skipLayout_append_of_cons after
          have suffixAfter := suffix_of_next (suffix_of_cons suffix) after
          by_cases trailing : d = enclosure.close
          · refine .refuses ⟨.trailingComma, .before (d :: others)⟩ suffixAfter fun more => ?_
            simp [readSeparator, again, close, onward, trailing, Fault.extend, Site.extend]
          · refine .takes .comma suffixAfter fun more => ?_
            simp [readSeparator, again, close, onward, trailing]
      · refine .refuses ⟨enclosure.unseparated, .before (c :: tail)⟩ suffix fun more => ?_
        simp [readSeparator, again, close, comma, Fault.extend, Site.extend]

theorem settles_readItems (steady : Steady item) (unclosed : enclosure.unclosed.AtEnd)
    {text : List Char} (inside : text <:+ whole) (free : TagFree text) :
    Settles whole fun more => readItems item enclosure (text ++ more) := by
  refine (steady.settles inside free).onward ?_ ?_ ?_
  · intro more fault failed
    exact readItems_of_error failed
  · intro value rest suffix found
    have taken : item.run text = .ok (value, rest) := by simpa using found []
    refine (settles_readSeparator unclosed suffix).onward ?_ ?_ ?_
    · intro more fault failed
      exact readItems_of_unseparated (found more) failed
    · intro separator next suffixNext separated
      cases separator with
      | close => exact .takes [value] suffixNext fun more =>
          readItems_of_close (found more) (separated more)
      | comma =>
        have comma : readSeparator enclosure rest = .ok (.comma, next) := by simpa using separated []
        have shorter := Nat.lt_trans (length_readSeparator comma) (item.shorter taken)
        obtain ⟨tail, after, rfl⟩ := skipLayout_of_comma comma
        have notQuote : (',' : Char) ≠ '"' := by decide
        have left := (free.of_suffix (steady.leaves taken).2).next after
        refine ((settles_readItems steady unclosed suffixNext
          (left.tail notQuote).skipLayout).map (value :: ·)).congr fun more => ?_
        exact readItems_of_comma (found more) (separated more)
    · intro separator separated
      cases separator with
      | close =>
        rw [readItems_of_close (found []) separated]
        exact .taken [value]
      | comma =>
        rw [readItems_of_comma (found []) separated]
        exact (exhausted_readItems steady whole).map (value :: ·)
  · intro value found
    rw [readItems_of_unseparated found (readSeparator_nil enclosure)]
    exact exhausted_before unclosed
termination_by text.length
decreasing_by exact shorter

theorem settles_readEnclosed (steady : Steady item) (unclosed : enclosure.unclosed.AtEnd)
    (inside : text <:+ whole) (free : TagFree text) :
    Settles whole fun more => readEnclosed item enclosure (text ++ more) := by
  cases next : skipLayout text with
  | nil =>
    refine .exhausts ?_
    rw [List.append_nil, readEnclosed, next]
    exact exhausted_before unclosed
  | cons c rest =>
    have again := skipLayout_append_of_cons next
    have suffix := suffix_of_next inside next
    by_cases close : c = enclosure.close
    · refine .takes [] (suffix_of_cons suffix) fun more => ?_
      rw [readEnclosed, again]
      simp [close]
    · refine (settles_readItems steady unclosed suffix (free.next next)).congr fun more => ?_
      rw [readEnclosed, again]
      simp [close]

end

/-! ## Members and objects -/

theorem settles_readMember {value : Reader Json} (steady : Steady value) (inside : text <:+ whole)
    (free : TagFree text) : Settles whole fun more => readMember value (text ++ more) := by
  cases text with
  | nil => exact .exhausts (exhausted_before .value)
  | cons c quoted =>
    by_cases quote : c = '"'
    · subst quote
      have suffix := suffix_of_cons inside
      have member : Settles whole fun more =>
          Quoted.decode (quoted ++ more) >>= fun key =>
            readColon key.2 >>= fun rest =>
              value.run rest >>= fun found => .ok ((String.ofList key.1, found.1), found.2) := by
        refine (Quoted.settles_decode suffix).bind ?_ ?_
        · intro key afterKey keyRead suffix
          rw [List.append_nil] at keyRead
          show Settles whole fun more => readColon (afterKey ++ more) >>= fun rest =>
            value.run rest >>= fun found => .ok ((String.ofList key, found.1), found.2)
          refine settles_readColon suffix fun {afterColon} next => ?_
          have colon : (':' : Char) ≠ '"' := by decide
          have after := ((free.quoted keyRead).2.next next).tail colon
          refine (steady.settles (suffix_of_cons (suffix_of_next suffix next)) after).bind ?_ ?_
          · exact fun {found rest} _ suffix => .takes (String.ofList key, found) suffix fun _ => rfl
          · exact fun _ => .taken _
        · intro key _
          exact exhausted_before .object
      exact member
    · refine .refuses ⟨.keyNotString, .before (c :: quoted)⟩ inside fun more => ?_
      simp [readMember, quote, Fault.extend, Site.extend]

theorem steady_memberReader {levels : Nat} (steady : Steady (valueReader levels)) :
    Steady (memberReader (valueReader levels)) where
  settles := settles_readMember steady
  leaves := takesLiterals_memberReader levels
  needs _ := exhausted_before .value

/-- What follows an opening brace is no number in disguise if it begins with no
key, or with another one. -/
theorem tagged?_eq_none_of_next {c : Char} (next : skipLayout text = c :: rest)
    (ordinary : c = '"' → ∀ key after, Quoted.decode rest = .ok (key, after) →
      key ≠ numberTag.toList) : tagged? text = none := by
  by_cases quote : c = '"'
  · cases read : Quoted.decode rest with
    | ok found => simp [tagged?, next, quote, read, ordinary quote found.1 found.2 read]
    | error fault => simp [tagged?, next, quote, read]
  · simp [tagged?, next, quote]

/-- A first item that is not read makes the container fail. -/
theorem readEnclosed_of_error {item : Reader α} {enclosure : Enclosure} {c : Char} {fault : Fault}
    (next : skipLayout text = c :: rest) (notClose : c ≠ enclosure.close)
    (failed : item.run (c :: rest) = .error fault) :
    readEnclosed item enclosure text = .error fault := by
  rw [readEnclosed, next]
  simp only [notClose, if_false]
  exact readItems_of_error failed

section

variable {value : Reader Json}

theorem readObject_of_untagged (untagged : tagged? text = none) :
    readObject value text = (readEnclosed (memberReader value) objectEnclosure text).map
      fun (members, rest) => (.object (Table.ofSettings members), rest) := by
  rw [readObject, untagged]

/-- Where no continuation is a number in disguise, an object is read by its
members. -/
theorem settles_untagged (steady : Steady (memberReader value)) (inside : text <:+ whole)
    (free : TagFree text) (untagged : ∀ more, tagged? (text ++ more) = none) :
    Settles whole fun more => readObject value (text ++ more) := by
  have unclosed : objectEnclosure.unclosed.AtEnd := .object
  have members := (settles_readEnclosed steady unclosed inside free).map
    fun members => Json.object (Table.ofSettings members)
  exact members.congr fun more => readObject_of_untagged (untagged more)

/-- The text ends inside the first key, which may still become the tag. -/
theorem exhausted_readObject {fault : Fault} (next : skipLayout text = '"' :: rest)
    (failed : Quoted.decode rest = .error fault) (atEnd : fault.cause.AtEnd)
    (within : fault.site.Within whole) : Exhausted whole (readObject value text) := by
  have untagged : tagged? text = none := by
    refine tagged?_eq_none_of_next next fun _ key after read => ?_
    rw [failed] at read
    cases read
  have member : (memberReader value).run ('"' :: rest) = .error fault := by
    show readMember value ('"' :: rest) = .error fault
    simp [readMember, failed, bind, Except.bind]
  rw [readObject_of_untagged untagged, readEnclosed_of_error next (by decide) member]
  exact .needs atEnd within

theorem settles_readObject (steady : Steady (memberReader value)) (inside : text <:+ whole)
    (free : TagFree text) : Settles whole fun more => readObject value (text ++ more) := by
  cases next : skipLayout text with
  | nil =>
    have untagged : tagged? text = none := by rw [tagged?, next]
    refine .exhausts ?_
    rw [List.append_nil, readObject_of_untagged untagged, readEnclosed, next]
    exact exhausted_before .object
  | cons c rest =>
    have again := skipLayout_append_of_cons next
    by_cases quote : c = '"'
    · subst quote
      have suffix := suffix_of_cons (suffix_of_next inside next)
      cases keyRead : Quoted.decode rest with
      | ok found =>
        obtain ⟨key, afterKey⟩ := found
        have ordinary := ((free.next next).quoted keyRead).1
        refine settles_untagged steady inside free fun more => ?_
        refine tagged?_eq_none_of_next (again more) fun _ other after read => ?_
        rw [Quoted.decode_append keyRead] at read
        cases read
        exact ordinary
      | error fault =>
        rcases (Quoted.settles_decode suffix).fails (by rwa [List.append_nil]) with
          ⟨atEnd, within⟩ | ⟨_, _, always⟩
        · refine .exhausts ?_
          rw [List.append_nil]
          exact exhausted_readObject next keyRead atEnd within
        · refine settles_untagged steady inside free fun more => ?_
          refine tagged?_eq_none_of_next (again more) fun _ other after read => ?_
          rw [always] at read
          cases read
    · refine settles_untagged steady inside free fun more => ?_
      exact tagged?_eq_none_of_next (again more) fun same => absurd same quote

end

/-! ## Values -/

theorem settles_readValue {inner : Option (Reader Json)}
    (parts : ∀ value ∈ inner, Steady value ∧ Steady (memberReader value))
    (inside : text <:+ whole) (free : TagFree text) :
    Settles whole fun more => readValue inner (text ++ more) := by
  cases next : skipLayout text with
  | nil =>
    refine .exhausts ?_
    rw [List.append_nil, readValue, next]
    exact exhausted_before .value
  | cons c rest =>
    have again := skipLayout_append_of_cons next
    have here := suffix_of_next inside next
    have suffix := suffix_of_cons here
    by_cases quote : c = '"'
    · refine ((Quoted.settles_decode suffix).map fun text => Json.string (String.ofList text)).congr
        fun more => ?_
      rw [readValue, again]
      simp [quote]
    · have after := (free.next next).tail quote
      by_cases list : c = '['
      · subst list
        cases inner with
        | none =>
          refine .refuses ⟨.nestingLimit, .before ('[' :: rest)⟩ here fun more => ?_
          rw [readValue, again]
          rfl
        | some value =>
          have unclosed : listEnclosure.unclosed.AtEnd := .list
          refine ((settles_readEnclosed (parts value rfl).1 unclosed suffix after).map
            Json.array).congr fun more => ?_
          rw [readValue, again]
          rfl
      · by_cases object : c = '{'
        · subst object
          cases inner with
          | none =>
            refine .refuses ⟨.nestingLimit, .before ('{' :: rest)⟩ here fun more => ?_
            rw [readValue, again]
            rfl
          | some value =>
            refine (settles_readObject (parts value rfl).2 suffix after).congr fun more => ?_
            rw [readValue, again]
            rfl
        · refine ((settles_readScalar here).map Scalar.json).congr fun more => ?_
          rw [readValue, again]
          simp [quote, list, object]

theorem steady_valueReader (levels : Nat) : Steady (valueReader levels) := by
  -- The reader of the parts has one level less.
  have steady : ∀ {levels : Nat},
      (∀ value ∈ partReader? levels, Steady value ∧ Steady (memberReader value)) →
      Steady (valueReader levels) := by
    intro levels parts
    refine ⟨?_, takesLiterals_valueReader levels, ?_⟩
    · intro whole text inside free
      rw [run_eq]
      exact settles_readValue parts inside free
    · intro whole
      rw [run_eq]
      exact exhausted_before .value
  induction levels with
  | zero => exact steady (by simp [partReader?])
  | succ levels ih =>
    refine steady ?_
    rintro value ⟨⟩
    exact ⟨ih, steady_memberReader ih⟩

/-! ## Texts -/

/-- Nothing is left of a text that is read as a whole. -/
theorem settles_readText (free : TagFree text) :
    Settles text fun more => (readText (text ++ more)).map fun found => (found, []) := by
  have value := (steady_valueReader nestingLimit).settles List.suffix_rfl free
  have ending : Settles text fun more =>
      (valueReader nestingLimit).run (text ++ more) >>= fun found =>
        if skipLayout found.2 = [] then .ok (found.1, [])
        else .error ⟨.trailingCharacters, .before (skipLayout found.2)⟩ := by
    refine value.bind ?_ fun {found} _ => .taken found
    intro found rest _ suffix
    cases next : skipLayout rest with
    | nil =>
      refine .exhausts ?_
      simp only [List.append_nil, next, if_true]
      exact .taken found
    | cons c tail =>
      refine .refuses ⟨.trailingCharacters, .before (c :: tail)⟩ (suffix_of_next suffix next)
        fun more => ?_
      simp only [skipLayout_append_of_cons next, reduceCtorEq, if_false]
      rfl
  refine ending.congr fun more => ?_
  rw [readText]
  cases (valueReader nestingLimit).run (text ++ more) with
  | error fault => rfl
  | ok result =>
    obtain ⟨found, rest⟩ := result
    cases next : skipLayout rest with
    | nil => simp [bind, Except.bind, Except.map, next, pure, Except.pure]
    | cons c tail => simp [bind, Except.bind, Except.map, next]

theorem parse_eq_error_iff {text : String} {error : ParseError} :
    parse text = .error error ↔
      ∃ fault, readText text.toList = .error fault ∧ fault.report text.toList = error := by
  rw [parse]
  cases readText text.toList <;> simp [Except.mapError]

/-- Where a text is refused lies in the text, and unless it ended too early, it is
refused there with any text after it. -/
theorem parse_of_error {text : String} {error : ParseError} (failed : parse text = .error error)
    (free : TagFree text.toList) :
    (∃ before, before <+: bytes text.toList ∧ error.position = .afterBytes before) ∧
      (error.cause.AtEnd ∨ ∀ more, parse (text ++ more) = .error error) := by
  obtain ⟨fault, read, rfl⟩ := parse_eq_error_iff.mp failed
  have refused : (readText (text.toList ++ [])).map (fun found => (found, ([] : List Char))) =
      .error fault := by
    rw [List.append_nil, map_eq_error_iff, read]
  rcases (settles_readText free).fails refused with ⟨atEnd, within⟩ | ⟨other, within, always⟩
  · exact ⟨within.exists_position_eq, .inl atEnd⟩
  · have again : ∀ more, parse (text ++ more) =
        .error ⟨other.cause, other.site.position text.toList⟩ := by
      intro more
      refine parse_eq_error_iff.mpr ⟨other.extend more.toList, ?_, ?_⟩
      · rw [String.toList_append]
        exact map_eq_error_iff.mp (always more.toList)
      · rw [String.toList_append, Fault.report, Fault.extend, within.position_extend]
    have here := again ""
    rw [String.append_empty, failed, Except.error.injEq] at here
    rw [here]
    exact ⟨within.exists_position_eq, .inr again⟩

end KeyInstall.Json
