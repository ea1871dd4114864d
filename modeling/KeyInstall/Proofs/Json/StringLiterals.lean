import KeyInstall.Proofs.Json.Grammar.Soundness
import KeyInstall.Proofs.Json.Literal
import KeyInstall.Proofs.Json.NumberText

/-!
# The string literals of a text

`stringLiterals` finds the strings between quotes in any text, also in one that
is no JSON. In a text of the grammar these are the keys and strings of its tree
(`stringLiterals_of_derives`). A reader takes whole literals off the front of a
text, so that what it leaves has no others (`takesLiterals_valueReader`).
-/

namespace KeyInstall.Json

/-! ## Literals -/

/-- What the string literals of a text stand for, from the front to the end, or
to the first one that is not well formed. -/
def stringLiterals (text : List Char) : List String :=
  match text with
  | [] => []
  | c :: rest =>
    if c = '"' then
      match found : Quoted.decode rest with
      | .error _ => []
      | .ok (characters, more) =>
        have : more.length < rest.length := Quoted.length_decode found
        String.ofList characters :: stringLiterals more
    else stringLiterals rest
termination_by text.length

variable {rest : List Char}

theorem stringLiterals_cons {c : Char} (notQuote : c ≠ '"') (rest : List Char) :
    stringLiterals (c :: rest) = stringLiterals rest := by
  rw [stringLiterals, if_neg notQuote]

theorem stringLiterals_quote {quoted characters : List Char}
    (read : Quoted.decode quoted = .ok (characters, rest)) :
    stringLiterals ('"' :: quoted) = String.ofList characters :: stringLiterals rest := by
  rw [stringLiterals, if_pos rfl]
  split
  · rename_i other
    rw [read] at other
    cases other
  · rename_i other
    rw [read] at other
    cases other
    rfl

theorem stringLiterals_append {front : List Char} (notQuotes : ∀ c ∈ front, c ≠ '"')
    (rest : List Char) : stringLiterals (front ++ rest) = stringLiterals rest := by
  induction front with
  | nil => rfl
  | cons c front ih =>
    rw [List.forall_mem_cons] at notQuotes
    rw [List.cons_append, stringLiterals_cons notQuotes.1, ih notQuotes.2]

theorem ne_quote_of_blanks {line : List Char} (blank : Grammar.Blanks line) :
    ∀ c ∈ line, c ≠ '"' := by
  rintro c member rfl
  exact absurd (blank _ member) (by decide)

theorem stringLiterals_skipLayout (text : List Char) :
    stringLiterals (skipLayout text) = stringLiterals text := by
  obtain ⟨line, blank, split⟩ := Grammar.exists_blanks text
  have literals := stringLiterals_append (ne_quote_of_blanks blank) (skipLayout text)
  rw [← split] at literals
  exact literals.symm

/-! ## Literals of the grammar -/

namespace Grammar

theorem stringLiterals_string {body characters : List Char} (string : StringBody body characters)
    (rest : List Char) :
    stringLiterals ('"' :: (body ++ '"' :: rest)) =
      String.ofList characters :: stringLiterals rest :=
  stringLiterals_quote (decode_of_stringBody string rest)

theorem ne_quote_of_numberToken {token : List Char} {number : Number}
    (derived : NumberToken token number) : ∀ c ∈ token, c ≠ '"' := by
  obtain ⟨taken, whole, ⟨-, bare⟩, -⟩ :=
    Number.exists_of_read (read_of_numberToken derived endsNumber_nil)
  rw [List.append_nil, List.append_nil] at whole
  rintro c member rfl
  exact absurd (bare _ (whole ▸ member)) (by decide)

theorem stringLiterals_separated {α : Type} {chars : α → List Char} {textsOf : α → List String}
    {parts : List α}
    (each : ∀ part ∈ parts, ∀ rest,
      stringLiterals (chars part ++ rest) = textsOf part ++ stringLiterals rest)
    (rest : List Char) :
    stringLiterals (separated (parts.map chars) ++ rest) =
      parts.flatMap textsOf ++ stringLiterals rest := by
  induction parts with
  | nil => rfl
  | cons part parts ih =>
    rw [List.forall_mem_cons] at each
    have others := ih each.2
    cases parts with
    | nil => simpa [separated_singleton] using each.1 rest
    | cons next parts =>
      have comma : (',' : Char) ≠ '"' := by decide
      rw [List.map_cons, List.map_cons, separated_cons, List.append_assoc, each.1,
        List.cons_append, stringLiterals_cons comma, ← List.map_cons, others]
      simp only [List.flatMap_cons, List.append_assoc]

theorem stringLiterals_member {part : Member} (keyed : part.Keyed)
    (value : ∀ rest, stringLiterals (part.text ++ rest) = part.value.texts ++ stringLiterals rest)
    (rest : List Char) :
    stringLiterals (part.chars ++ rest) = fieldTexts part.field ++ stringLiterals rest := by
  have before := ne_quote_of_blanks keyed.before
  have after := ne_quote_of_blanks keyed.after
  have colon : (':' : Char) ≠ '"' := by decide
  simp only [Member.chars, List.append_assoc, List.cons_append]
  rw [stringLiterals_append before, stringLiterals_string keyed.key, stringLiterals_append after,
    stringLiterals_cons colon, value, String.ofList_toList]
  rfl

/-- The literals of a text of the grammar are the keys and strings of its tree. -/
theorem stringLiterals_of_derives {text : List Char} {tree : Json} (derived : Derives text tree)
    (rest : List Char) : stringLiterals (text ++ rest) = tree.texts ++ stringLiterals rest := by
  have mark : ∀ {c : Char}, c ∈ ['[', ']', '{', '}'] → c ≠ '"' := by
    rintro c member rfl
    exact absurd member (by decide)
  induction derived generalizing rest with
  | null | isTrue | isFalse => exact stringLiterals_append (by simp) rest
  | number token => exact stringLiterals_append (ne_quote_of_numberToken token) rest
  | @string body text string =>
    have literals := stringLiterals_string string rest
    simpa [texts] using literals
  | emptyArray blank =>
    rw [List.cons_append, stringLiterals_cons (mark (by simp)), List.append_assoc,
      stringLiterals_append (ne_quote_of_blanks blank), List.singleton_append,
      stringLiterals_cons (mark (by simp))]
    rfl
  | @array parts _ _ ih =>
    rw [List.cons_append, stringLiterals_cons (mark (by simp)), List.append_assoc,
      stringLiterals_separated ih, List.singleton_append, stringLiterals_cons (mark (by simp)),
      texts, textsOfItems_eq, List.flatMap_map]
  | emptyObject blank =>
    rw [List.cons_append, stringLiterals_cons (mark (by simp)), List.append_assoc,
      stringLiterals_append (ne_quote_of_blanks blank), List.singleton_append,
      stringLiterals_cons (mark (by simp))]
    rfl
  | @object parts _ keyed _ ih =>
    have each := fun part member => stringLiterals_member (keyed part member) (ih part member)
    rw [List.cons_append, stringLiterals_cons (mark (by simp)), List.append_assoc,
      stringLiterals_separated each, List.singleton_append, stringLiterals_cons (mark (by simp)),
      texts, textsOfFields_eq, List.flatMap_map]
  | padded blankBefore _ blankAfter ih =>
    have before := ne_quote_of_blanks blankBefore
    have after := ne_quote_of_blanks blankAfter
    rw [List.append_assoc, stringLiterals_append before, List.append_assoc, ih,
      stringLiterals_append after]

end Grammar

/-! ## Literals that are left -/

/-- A reader leaves an end of the text, and of its literals. -/
def Reader.TakesLiterals {α : Type} (item : Reader α) : Prop :=
  ∀ {text rest : List Char} {value : α}, item.run text = .ok (value, rest) →
    rest <:+ text ∧ stringLiterals rest <:+ stringLiterals text

theorem takesLiterals_valueReader (levels : Nat) : (valueReader levels).TakesLiterals := by
  intro text rest value read
  obtain ⟨token, rfl, tree, derived, -⟩ := (Grammar.takes_valueReader levels).taken read
  exact ⟨List.suffix_append token rest, tree.texts,
    (Grammar.stringLiterals_of_derives derived rest).symm⟩

theorem takesLiterals_memberReader (levels : Nat) :
    (memberReader (valueReader levels)).TakesLiterals := by
  intro text rest value read
  obtain ⟨token, rfl, part, rfl, keyed, derived, -⟩ :=
    (Grammar.takes_memberReader (Grammar.takes_valueReader levels)).taken read
  exact ⟨List.suffix_append part.chars rest, fieldTexts part.field,
    (Grammar.stringLiterals_member keyed (Grammar.stringLiterals_of_derives derived) rest).symm⟩

/-! ## Texts without the tag -/

/-- No string literal of a text is the key that makes an object a number. -/
def TagFree (text : List Char) : Prop := numberTag ∉ stringLiterals text

theorem TagFree.of_suffix {text : List Char} (free : TagFree text)
    (suffix : stringLiterals rest <:+ stringLiterals text) : TagFree rest :=
  fun member => free (suffix.subset member)

theorem TagFree.tail {c : Char} (free : TagFree (c :: rest)) (notQuote : c ≠ '"') :
    TagFree rest := by
  rwa [TagFree, ← stringLiterals_cons notQuote]

theorem TagFree.skipLayout {text : List Char} (free : TagFree text) :
    TagFree (skipLayout text) := by
  rwa [TagFree, stringLiterals_skipLayout]

/-- After a string literal that is not the tag the text goes on without it. -/
theorem TagFree.quoted {quoted characters : List Char} (free : TagFree ('"' :: quoted))
    (read : Quoted.decode quoted = .ok (characters, rest)) :
    characters ≠ numberTag.toList ∧ TagFree rest := by
  rw [TagFree, stringLiterals_quote read, List.mem_cons, not_or] at free
  refine ⟨?_, free.2⟩
  rintro rfl
  exact free.1 String.ofList_toList.symm

end KeyInstall.Json
