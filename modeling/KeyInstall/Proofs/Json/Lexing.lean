import KeyInstall.Proofs.Json.NumberText
import KeyInstall.Proofs.Json.RoundTrip

/-!
# Tokens of texts that are read and written

The reader of values takes a text token by token, and the value that it gives has
the tokens that are left when these are respelled, as long as no key comes twice
(`tokens?_of_parse`). The writer puts the tokens of a value one after the other,
with layout between them (`tokens?_render`).
-/

namespace KeyInstall.Json

/-! ## Items that are read -/

/-- Layout ends a number or a word. -/
theorem endsBare_of_skipLayout {rest : List Char} (ends : EndsBare (skipLayout rest)) :
    EndsBare rest := by
  cases rest with
  | nil => simp [EndsBare]
  | cons c rest =>
    cases layout : isLayout c with
    | true => simp [EndsBare, isBare, layout]
    | false => rwa [skipLayout_cons layout] at ends

theorem endsBare_of_nil {rest : List Char} (next : skipLayout rest = []) : EndsBare rest :=
  endsBare_of_skipLayout (by simp [next, EndsBare])

/-- Before a mark, every number and word has come to its end. -/
theorem endsBare_of_mark {c : Char} {rest more : List Char} {mark : Mark}
    (next : skipLayout rest = c :: more) (found : Mark.of? c = some mark) : EndsBare rest :=
  endsBare_of_skipLayout (by simp [next, EndsBare, isBare, found])

section

variable {α : Type} {item : Reader α} {enclosure : Enclosure} {closing : Mark}
  {spells : α → List Token → Prop} {text rest : List Char} {values : List α}

/-- A reader takes tokens that spell what it reads. -/
def Reader.Takes (item : Reader α) (spells : α → List Token → Prop) : Prop :=
  ∀ {text rest : List Char} {value : α}, item.run text = .ok (value, rest) → EndsBare rest →
    ∃ source, spells value source ∧ Lexes text source rest

theorem lexes_of_readItems (takes : item.Takes spells)
    (closes : Mark.of? enclosure.close = some closing)
    (read : readItems item enclosure text = .ok (values, rest)) :
    ∃ first others, List.Forall₂ spells values (first :: others) ∧
      Lexes text (separated (first :: others) ++ [.mark closing]) rest := by
  -- An item ends before the bracket that closes the container, or before a comma.
  fun_induction readItems item enclosure text generalizing values with
  | case1 => cases read
  | case2 => cases read
  | case3 text value more found last closed =>
    cases read
    have next := skipLayout_of_close closed
    obtain ⟨source, spelled, lexes⟩ := takes found (endsBare_of_mark next closes)
    refine ⟨source, [], .cons spelled .nil, ?_⟩
    simpa [separated] using lexes.trans (lexes_mark next closes)
  | case4 text value more found _ separator _ ih =>
    obtain ⟨inner, innerRead, rfl⟩ := mapValue_eq_ok_iff.mp read
    obtain ⟨first, others, innerSpelled, innerLexes⟩ := ih innerRead
    obtain ⟨tail, next, rfl⟩ := skipLayout_of_comma separator
    have comma : Mark.of? ',' = some .comma := rfl
    obtain ⟨source, spelled, lexes⟩ := takes found (endsBare_of_mark next comma)
    refine ⟨source, first :: others, .cons spelled innerSpelled, ?_⟩
    have whole := (lexes.trans (lexes_mark next comma)).trans
      ((lexes_skipLayout tail).trans innerLexes)
    simpa [separated] using whole

theorem lexes_of_readEnclosed (takes : item.Takes spells)
    (closes : Mark.of? enclosure.close = some closing)
    (read : readEnclosed item enclosure text = .ok (values, rest)) :
    ∃ sources, List.Forall₂ spells values sources ∧
      Lexes text (separated sources ++ [.mark closing]) rest := by
  unfold readEnclosed at read
  split at read
  · simp at read
  · rename_i c tail next
    split at read
    · rename_i close
      simp only [Except.ok.injEq, Prod.mk.injEq] at read
      obtain ⟨rfl, rfl⟩ := read
      exact ⟨[], .nil, lexes_mark next (close ▸ closes)⟩
    · obtain ⟨first, others, spelled, lexes⟩ := lexes_of_readItems takes closes read
      exact ⟨first :: others, spelled, (next ▸ lexes_skipLayout text).trans lexes⟩

end

/-! ## Values that are read -/

theorem lexes_of_readColon {text rest : List Char} (read : readColon text = .ok rest) :
    Lexes text [.mark .colon] rest :=
  lexes_mark (next_of_readColon read) rfl

theorem takes_memberReader {value : Reader Json} (takes : value.Takes Spells) :
    (memberReader value).Takes SpellsField := by
  intro text rest member read ends
  obtain ⟨quoted, key, afterKey, afterColon, rfl, keyRead, colonRead, valueRead, name⟩ :=
    exists_of_memberReader read
  obtain ⟨inner, spelled, lexes⟩ := takes valueRead ends
  have quote : isLayout '"' = false := rfl
  have first := lexes_string (skipLayout_cons quote quoted) keyRead
  exact ⟨_, ⟨inner, name ▸ rfl, spelled⟩,
    (first.trans (lexes_of_readColon colonRead)).trans lexes⟩

theorem lexes_word {first : Char} {letters rest : List Char}
    (bare : (first :: letters).all isBare = true) (begins : Number.starts first = false)
    (ends : EndsBare rest) :
    Lexes (first :: (letters ++ rest)) [.word (first :: letters)] rest := by
  have lexes := lexes_bare ⟨List.cons_ne_nil first letters, List.all_eq_true.mp bare⟩ ends
  simpa [Token.ofBare, begins] using lexes

theorem lexes_of_read {text rest : List Char} {number : Number}
    (read : Number.read text = .ok (number, rest)) (ends : EndsBare rest) :
    ∃ taken, normalExponent taken = number.text ∧ Lexes text [.number taken] rest := by
  obtain ⟨taken, rfl, bare, begins, normal⟩ := Number.exists_of_read read
  have lexes := lexes_bare bare ends
  rw [Token.ofBare, if_pos begins] at lexes
  exact ⟨taken, normal, lexes⟩

theorem lexes_of_scalarAt {text rest : List Char} {scalar : Scalar}
    (found : ScalarAt text scalar rest) (ends : EndsBare rest) :
    ∃ source, Spells scalar.json source ∧ Lexes text source rest := by
  cases found with
  | null front => exact ⟨_, respells_word _, front ▸ lexes_word rfl rfl ends⟩
  | isTrue front => exact ⟨_, respells_word _, front ▸ lexes_word rfl rfl ends⟩
  | isFalse front => exact ⟨_, respells_word _, front ▸ lexes_word rfl rfl ends⟩
  | number read =>
    obtain ⟨taken, normal, lexes⟩ := lexes_of_read read ends
    exact ⟨_, spells_number normal, lexes⟩

theorem lexes_of_tagged? {text rest : List Char} (found : tagged? text = some rest) :
    Lexes text [.string numberTag] rest := by
  obtain ⟨quoted, next, keyRead⟩ := exists_of_tagged? found
  have lexes := lexes_string next keyRead
  rwa [String.ofList_toList] at lexes

/-- What follows the tag: a colon, the digits and the end of the object. -/
theorem lexes_of_readTagged {text rest : List Char} {number : Number}
    (read : readTagged text = .ok (number, rest)) :
    ∃ digits : String, normalExponent digits.toList = number.text ∧
      Lexes text [.mark .colon, .string digits, .mark .closeObject] rest := by
  obtain ⟨afterColon, afterText, colonRead, textRead, close⟩ := exists_of_readTagged read
  obtain ⟨quoted, digits, next, digitsRead, found⟩ := exists_of_readNumberText textRead
  have closes : Mark.of? '}' = some .closeObject := rfl
  refine ⟨String.ofList digits, ?_, ?_⟩
  · rw [String.toList_ofList]
    exact Number.normalExponent_of_ofText found
  · exact ((lexes_of_readColon colonRead).trans (lexes_string next digitsRead)).trans
      (lexes_mark close closes)

theorem lexes_of_objectAt {value : Reader Json} (takes : value.Takes Spells)
    {text rest : List Char} {found : Json} (object : ObjectAt value text found rest) :
    ∃ source, Spells found (.mark .openObject :: source) ∧ Lexes text source rest := by
  cases object with
  | tagged tag taggedRead =>
    obtain ⟨digits, normal, lexes⟩ := lexes_of_readTagged taggedRead
    exact ⟨_, spells_tagged normal, (lexes_of_tagged? tag).trans lexes⟩
  | fields ordinary enclosedRead =>
    have closes : Mark.of? objectEnclosure.close = some .closeObject := rfl
    obtain ⟨sources, spelled, lexes⟩ :=
      lexes_of_readEnclosed (takes_memberReader takes) closes enclosedRead
    exact ⟨_, spells_object (untagged_of_readEnclosed ordinary enclosedRead) spelled, lexes⟩

theorem lexes_of_readValue {inner : Option (Reader Json)}
    (takes : ∀ value ∈ inner, value.Takes Spells) {text rest : List Char} {found : Json}
    (read : readValue inner text = .ok (found, rest)) (ends : EndsBare rest) :
    ∃ source, Spells found source ∧ Lexes text source rest := by
  cases valueAt_of_readValue read with
  | string next stringRead => exact ⟨_, spells_string _, lexes_string next stringRead⟩
  | @array value _ _ _ next inside listRead =>
    have opens : Mark.of? '[' = some .openList := rfl
    have closes : Mark.of? listEnclosure.close = some .closeList := rfl
    obtain ⟨sources, spelled, lexes⟩ := lexes_of_readEnclosed (takes value inside) closes listRead
    exact ⟨_, spells_array spelled, (lexes_mark next opens).trans lexes⟩
  | @object value _ _ _ next inside object =>
    have opens : Mark.of? '{' = some .openObject := rfl
    obtain ⟨source, spelled, lexes⟩ := lexes_of_objectAt (takes value inside) object
    exact ⟨_, spelled, (lexes_mark next opens).trans lexes⟩
  | scalar found =>
    obtain ⟨source, spelled, lexes⟩ := lexes_of_scalarAt found ends
    exact ⟨source, spelled, (lexes_skipLayout text).trans lexes⟩

theorem takes_valueReader (levels : Nat) : (valueReader levels).Takes Spells := by
  -- The reader of the parts has one level less.
  induction levels with
  | zero =>
    intro text rest found read ends
    have read : readValue none text = .ok (found, rest) := read
    exact lexes_of_readValue (by simp) read ends
  | succ levels ih =>
    intro text rest found read ends
    have read : readValue (some (valueReader levels)) text = .ok (found, rest) := read
    refine lexes_of_readValue ?_ read ends
    rintro value ⟨⟩
    exact ih

/-- A text that is read has tokens, and if no key comes twice, the value has the
same, respelled. -/
theorem tokens?_of_parse {text : String} {found : Json} (read : parse text = .ok found) :
    ∃ source, tokens? text.toList = some source ∧
      (distinctKeys source [] = true → respelled source = tokens found) := by
  obtain ⟨rest, valueRead, ends⟩ := exists_of_parse read
  obtain ⟨source, spelled, lexes⟩ := takes_valueReader nestingLimit valueRead (endsBare_of_nil ends)
  refine ⟨source, lexes.tokens?_eq ends, ?_⟩
  intro distinct
  have whole := spelled [] [] (by simp) (by rwa [List.append_nil])
  simpa [respelled] using whole.2

/-! ## Items that are written -/

section

variable {α : Type} {write : α → List Char} {tokensOf : α → List Token} {enclosure : Enclosure}
  {closing : Mark} {line last : List Char}

/-- After an item comes a comma, layout or the closing bracket. -/
theorem endsBare_itemsText (closes : Mark.of? enclosure.close = some closing) (line : List Char)
    (write : α → List Char) (blankLast : AreLayout last) (items : List α) (rest : List Char) :
    EndsBare (itemsText line write items ++ (last ++ enclosure.close :: rest)) := by
  cases items with
  | nil =>
    have next : skipLayout (last ++ enclosure.close :: rest) = enclosure.close :: rest := by
      rw [skipLayout_append blankLast, skipLayout_cons (not_isLayout_of_mark closes)]
    exact endsBare_of_mark next closes
  | cons value items =>
    have comma : Mark.of? ',' = some .comma := rfl
    exact endsBare_of_mark (skipLayout_cons (not_isLayout_of_mark comma) _) comma

theorem lexes_itemsText (closes : Mark.of? enclosure.close = some closing)
    (blankLine : AreLayout line) (blankLast : AreLayout last) (rest : List Char) {items : List α}
    (each : ∀ value ∈ items, ∀ rest, EndsBare rest →
      Lexes (write value ++ rest) (tokensOf value) rest) :
    Lexes (itemsText line write items ++ (last ++ enclosure.close :: rest))
      ((items.map tokensOf).flatMap (Token.mark .comma :: ·) ++ [.mark closing]) rest := by
  induction items with
  | nil => exact (lexes_layout blankLast _).trans (lexes_mark_cons closes rest)
  | cons value items ih =>
    have comma : Mark.of? ',' = some .comma := rfl
    have first : ∀ after, Lexes (',' :: (line ++ after)) [.mark .comma] after :=
      fun after => (lexes_mark_cons comma _).trans (lexes_layout blankLine after)
    have item := each value List.mem_cons_self _
      (endsBare_itemsText closes line write blankLast items rest)
    have later := ih fun other member => each other (List.mem_cons_of_mem _ member)
    simpa [itemsText] using (first _).trans (item.trans later)

/-- The items of a container are written token by token. -/
theorem lexes_items (closes : Mark.of? enclosure.close = some closing)
    (blankLine : AreLayout line) (blankLast : AreLayout last) (rest : List Char) {first : α}
    {items : List α}
    (each : ∀ value ∈ first :: items, ∀ rest, EndsBare rest →
      Lexes (write value ++ rest) (tokensOf value) rest) :
    Lexes (line ++ (write first ++
        (itemsText line write items ++ (last ++ enclosure.close :: rest))))
      (separated ((first :: items).map tokensOf) ++ [.mark closing]) rest := by
  have item := each first List.mem_cons_self _
    (endsBare_itemsText closes line write blankLast items rest)
  have later := lexes_itemsText closes blankLine blankLast rest
    fun value member => each value (List.mem_cons_of_mem _ member)
  simpa [separated] using (lexes_layout blankLine _).trans (item.trans later)

end

/-! ## Values that are written -/

theorem lexes_quote (text : String) (rest : List Char) :
    Lexes (Quoted.quote text ++ rest) [.string text] rest := by
  have lexes := lexes_string (skipLayout_cons (show isLayout '"' = false from rfl) _)
    (Quoted.decode_encode text.toList rest)
  rwa [String.ofList_toList, ← quote_append] at lexes

theorem lexes_text {number : Number} (grammatical : number.Grammatical) {rest : List Char}
    (ends : EndsBare rest) : Lexes (number.text ++ rest) [.number number.text] rest := by
  obtain ⟨taken, whole, bare, begins, -⟩ :=
    Number.exists_of_read (Number.read_text grammatical endsNumber_nil)
  rw [List.append_nil, List.append_nil] at whole
  have lexes := lexes_bare bare ends
  rwa [Token.ofBare, if_pos begins, ← whole] at lexes

theorem lexes_member {layout : Layout} (blank : layout.Blank) (depth : Nat)
    {field : String × Json} {rest : List Char}
    (value : Lexes (write layout depth field.2 ++ rest) (tokens field.2) rest) :
    Lexes (writeMember layout depth field ++ rest) (fieldTokens field) rest := by
  have colon : Mark.of? ':' = some .colon := rfl
  have key : ∀ after, Lexes (Quoted.quote field.1 ++ ':' :: after)
      [.string field.1, .mark .colon] after :=
    fun after => (lexes_quote field.1 _).trans (lexes_mark_cons colon after)
  simpa [writeMember, fieldTokens] using (key _).trans ((lexes_layout blank.gap _).trans value)

/-- A value is written token by token, whatever the layout. -/
theorem lexes_write {layout : Layout} (blank : layout.Blank) {levels : Nat} {value : Json}
    (storable : Storable levels value) (depth : Nat) {rest : List Char} (ends : EndsBare rest) :
    Lexes (write layout depth value ++ rest) (tokens value) rest := by
  -- The parts of a value are storable one level down, so the induction is on the derivation.
  induction storable generalizing depth rest with
  | null =>
    show Lexes ('n' :: (['u', 'l', 'l'] ++ rest)) [.word ['n', 'u', 'l', 'l']] rest
    exact lexes_word rfl rfl ends
  | bool value =>
    cases value with
    | true =>
      show Lexes ('t' :: (['r', 'u', 'e'] ++ rest)) [.word ['t', 'r', 'u', 'e']] rest
      exact lexes_word rfl rfl ends
    | false =>
      show Lexes ('f' :: (['a', 'l', 's', 'e'] ++ rest)) [.word ['f', 'a', 'l', 's', 'e']] rest
      exact lexes_word rfl rfl ends
  | number grammatical => exact lexes_text grammatical ends
  | string text => exact lexes_quote text rest
  | @array levels items storable ih =>
    have opens : Mark.of? '[' = some .openList := rfl
    have closes : Mark.of? listEnclosure.close = some .closeList := rfl
    cases items with
    | nil => exact (lexes_mark_cons opens _).trans (lexes_mark_cons closes rest)
    | cons item items =>
      have inner := lexes_items closes (blank.line (depth + 1)) (blank.line depth) rest
        fun value member _ ends => ih value member (depth + 1) ends
      rw [write_array, tokens, tokensOfItems_eq]
      exact (lexes_mark_cons opens _).trans inner
  | @object levels fields distinct untagged storable ih =>
    have opens : Mark.of? '{' = some .openObject := rfl
    have closes : Mark.of? objectEnclosure.close = some .closeObject := rfl
    cases fields with
    | nil => exact (lexes_mark_cons opens _).trans (lexes_mark_cons closes rest)
    | cons field fields =>
      have inner := lexes_items closes (blank.line (depth + 1)) (blank.line depth) rest
        fun value member _ ends => lexes_member blank (depth + 1) (ih value member (depth + 1) ends)
      rw [write_object, tokens, tokensOfFields_eq]
      exact (lexes_mark_cons opens _).trans inner

/-- The pretty text of a value has the tokens of that value. -/
theorem tokens?_render {value : Json} (storable : Storable nestingLimit value) :
    tokens? value.render.toList = some (tokens value) := by
  have ends : EndsBare [] := endsBare_of_nil rfl
  have lexes := lexes_write Layout.pretty_blank storable 0 ends
  rw [List.append_nil] at lexes
  rw [render, String.toList_ofList]
  exact lexes.tokens?_eq rfl

end KeyInstall.Json
