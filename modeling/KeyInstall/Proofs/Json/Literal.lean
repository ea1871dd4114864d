import KeyInstall.Proofs.Json.Grammar.Strings
import KeyInstall.Proofs.Json.RoundTrip

/-!
# Text that is written as it is

A `Place` is what the characters before it make of the next one: how many
brackets are open, and whether it stands in a string or is escaped there.
`Literal place text wide` says of a text from some place on that every character
`Fits` where it stands, and that `wide` are the characters beyond ASCII, in their
order. What fits is visible, a line feed with two blanks for each open bracket
after it, or an escape, by digits only for a character below U+0020.

The pretty text of a value is literal, and its characters beyond ASCII are those
of the value's texts (`literal_write`). Each statement on the way has the text
that goes on after the part that it is about, since a line feed is judged by
what follows it.
-/

namespace KeyInstall.Json

/-! ## The texts of a value -/

mutual

/-- The keys and strings of a value in the order in which they are written. -/
def texts : Json → List String
  | .string text => [text]
  | .array items => textsOfItems items
  | .object fields => textsOfFields fields
  | .null => []
  | .bool _ => []
  | .number _ => []

def textsOfItems : List Json → List String
  | [] => []
  | item :: items => item.texts ++ textsOfItems items

def textsOfFields : List (String × Json) → List String
  | [] => []
  | (key, value) :: fields => key :: value.texts ++ textsOfFields fields

end

/-- The key and the texts of a field. -/
def fieldTexts (field : String × Json) : List String := field.1 :: field.2.texts

theorem textsOfItems_eq (items : List Json) : textsOfItems items = items.flatMap texts := by
  induction items with
  | nil => rfl
  | cons item items ih => rw [textsOfItems, ih, List.flatMap_cons]

theorem textsOfFields_eq (fields : List (String × Json)) :
    textsOfFields fields = fields.flatMap fieldTexts := by
  induction fields with
  | nil => rfl
  | cons field fields ih =>
    obtain ⟨key, value⟩ := field
    rw [textsOfFields, ih, List.flatMap_cons, fieldTexts]

/-- The characters from U+0080 on. -/
def isWide (c : Char) : Bool := 0x80 ≤ c.toNat

/-- The characters from U+0080 on of some texts, one text after the other. -/
def wideOf (texts : List String) : List Char := texts.flatMap fun text => text.toList.filter isWide

theorem wideOf_append (first second : List String) :
    wideOf (first ++ second) = wideOf first ++ wideOf second :=
  List.flatMap_append

/-! ## Places in a text -/

/-- Where a character stands: how many brackets are open before it, and whether
it is in a string, and escaped there. -/
structure Place where
  depth : Nat
  quoted : Bool
  escaped : Bool

/-- The place after a character. -/
def Place.next (place : Place) (c : Char) : Place :=
  if place.quoted then
    if place.escaped then { place with escaped := false }
    else if c = '\\' then { place with escaped := true }
    else if c = '"' then { place with quoted := false }
    else place
  else if c = '"' then { place with quoted := true }
  else if c = '[' ∨ c = '{' then { place with depth := place.depth + 1 }
  else if c = ']' ∨ c = '}' then { place with depth := place.depth - 1 }
  else place

/-- The place after some characters. -/
def Place.after (place : Place) (text : List Char) : Place := text.foldl Place.next place

/-- Between tokens, or in a number or a word. -/
def Place.outside (depth : Nat) : Place := ⟨depth, false, false⟩

/-- In a string, where nothing is escaped. -/
def Place.inside (depth : Nat) : Place := ⟨depth, true, false⟩

/-- After a backslash in a string. -/
def Place.escape (depth : Nat) : Place := ⟨depth, true, true⟩

/-- How far a line is indented that begins with a character: a bracket that
closes stands as far out as the line of the one that it closes. -/
def Place.indentation (place : Place) (mark : Char) : Nat :=
  2 * if mark = ']' ∨ mark = '}' then place.depth - 1 else place.depth

/-! ## Literal texts -/

/-- A character, and what follows it, may stand at a place. -/
inductive Fits : Place → Char → List Char → Prop
  /-- From U+0020 on, and a backslash only if it is escaped itself. -/
  | visible {place : Place} {c : Char} {rest : List Char} : ' ' ≤ c →
      (c = '\\' → place.escaped = true) → Fits place c rest
  /-- A line feed outside of strings, and the indentation of the line. -/
  | line {depth : Nat} {mark : Char} {rest : List Char} : ' ' < mark →
      Fits (.outside depth) '\n'
        (List.replicate ((Place.outside depth).indentation mark) ' ' ++ mark :: rest)
  /-- An escape with a letter of its own. -/
  | letter {depth : Nat} {letter : Char} {rest : List Char} : letter ≠ 'u' →
      Fits (.inside depth) '\\' (letter :: rest)
  /-- An escape with digits. -/
  | digits {depth : Nat} {digits rest : List Char} {c : Char} : Grammar.HexUnit digits c.toNat →
      c < ' ' → Fits (.inside depth) '\\' ('u' :: (digits ++ rest))

/-- Visible characters other than the backslash fit everywhere. -/
theorem fits_of_ne {place : Place} {c : Char} (visible : ' ' ≤ c) (notSlash : c ≠ '\\')
    (rest : List Char) : Fits place c rest :=
  .visible visible fun slash => absurd slash notSlash

/-- Every character of a text fits, from a place on, and those from U+0080 on
are in strings and are these ones. -/
inductive Literal : Place → List Char → List Char → Prop
  | nil {place : Place} : Literal place [] []
  | ascii {place : Place} {c : Char} {rest wide : List Char} : isWide c = false →
      Fits place c rest → Literal (place.next c) rest wide → Literal place (c :: rest) wide
  | wide {depth : Nat} {c : Char} {rest wide : List Char} : isWide c = true →
      Literal (.inside depth) rest wide → Literal (.inside depth) (c :: rest) (c :: wide)

theorem Literal.filter_isWide {place : Place} {text wide : List Char}
    (literal : Literal place text wide) : text.filter isWide = wide := by
  induction literal with
  | nil => rfl
  | ascii narrow _ _ ih => rw [List.filter_cons_of_neg (by simp [narrow]), ih]
  | wide found _ ih => rw [List.filter_cons_of_pos found, ih]

/-- Characters from U+0080 on are neither quotes nor backslashes nor below
U+0020. -/
theorem of_isWide {c : Char} (wide : isWide c = true) : ' ' ≤ c ∧ c ≠ '"' ∧ c ≠ '\\' := by
  refine ⟨?_, ?_, ?_⟩
  · have large : 0x80 ≤ c.toNat := of_decide_eq_true wide
    show 0x20 ≤ c.toNat
    omega
  · rintro rfl
    exact absurd wide (by decide)
  · rintro rfl
    exact absurd wide (by decide)

/-- Each character of a literal text fits where it stands. -/
theorem Literal.fits {place : Place} {text wide before after : List Char} {c : Char}
    (literal : Literal place text wide) (split : text = before ++ c :: after) :
    Fits (place.after before) c after := by
  induction literal generalizing before with
  | nil => simp at split
  | @ascii place d rest wide _ fits _ ih =>
    rcases List.cons_eq_append_iff.mp split with ⟨rfl, same⟩ | ⟨before, rfl, same⟩
    · obtain ⟨rfl, rfl⟩ := List.cons.inj same
      exact fits
    · exact ih same
  | @wide depth d rest wide found _ ih =>
    obtain ⟨visible, notQuote, notSlash⟩ := of_isWide found
    rcases List.cons_eq_append_iff.mp split with ⟨rfl, same⟩ | ⟨before, rfl, same⟩
    · obtain ⟨rfl, rfl⟩ := List.cons.inj same
      exact fits_of_ne visible notSlash _
    · have stays : (Place.inside depth).next d = .inside depth := by
        simp [Place.next, Place.inside, notQuote, notSlash]
      have fits := ih same
      rwa [← stays] at fits

/-! ## Characters between strings -/

/-- Visible, in ASCII, and neither a bracket nor the beginning of a string. -/
def isPlain (c : Char) : Bool :=
  ' ' ≤ c && !isWide c && !(['"', '\\', '[', ']', '{', '}'].contains c)

variable {depth : Nat} {rest wide : List Char}

theorem of_isPlain {c : Char} (plain : isPlain c = true) :
    ' ' ≤ c ∧ isWide c = false ∧ c ≠ '"' ∧ c ≠ '\\' ∧ c ≠ '[' ∧ c ≠ ']' ∧ c ≠ '{' ∧ c ≠ '}' := by
  simp only [isPlain, Bool.and_eq_true, Bool.not_eq_true', decide_eq_true_eq,
    List.contains_eq_mem, List.mem_cons, List.not_mem_nil, or_false, decide_eq_false_iff_not,
    not_or] at plain
  obtain ⟨⟨visible, narrow⟩, others⟩ := plain
  exact ⟨visible, narrow, others⟩

theorem literal_plain {c : Char} (plain : isPlain c = true)
    (later : Literal (.outside depth) rest wide) : Literal (.outside depth) (c :: rest) wide := by
  obtain ⟨visible, narrow, notQuote, notSlash, others⟩ := of_isPlain plain
  have stays : (Place.outside depth).next c = .outside depth := by
    simp [Place.next, Place.outside, notQuote, others]
  refine .ascii narrow (fits_of_ne visible notSlash rest) ?_
  rwa [stays]

theorem literal_plains {text : List Char} (plain : ∀ c ∈ text, isPlain c = true)
    (later : Literal (.outside depth) rest wide) :
    Literal (.outside depth) (text ++ rest) wide := by
  induction text with
  | nil => exact later
  | cons c text ih =>
    exact literal_plain (plain c List.mem_cons_self)
      (ih fun d member => plain d (List.mem_cons_of_mem c member))

theorem literal_opens {c : Char} (opens : c = '[' ∨ c = '{')
    (later : Literal (.outside (depth + 1)) rest wide) :
    Literal (.outside depth) (c :: rest) wide := by
  rcases opens with rfl | rfl
  · exact .ascii rfl (fits_of_ne (by decide) (by decide) _) later
  · exact .ascii rfl (fits_of_ne (by decide) (by decide) _) later

theorem literal_closes {c : Char} (closes : c = ']' ∨ c = '}')
    (later : Literal (.outside depth) rest wide) :
    Literal (.outside (depth + 1)) (c :: rest) wide := by
  rcases closes with rfl | rfl
  · exact .ascii rfl (fits_of_ne (by decide) (by decide) _) later
  · exact .ascii rfl (fits_of_ne (by decide) (by decide) _) later

/-- A line begins with its indentation. -/
theorem literal_line {mark : Char} (begins : ' ' < mark) {level : Nat}
    (indented : (Place.outside depth).indentation mark = 2 * level)
    (later : Literal (.outside depth) (mark :: rest) wide) :
    Literal (.outside depth) (Layout.pretty.line level ++ (mark :: rest)) wide := by
  have blanks : ∀ c ∈ List.replicate (2 * level) ' ', isPlain c = true := by
    intro c member
    rw [List.eq_of_mem_replicate member]
    rfl
  have fits : Fits (.outside depth) '\n' (List.replicate (2 * level) ' ' ++ mark :: rest) :=
    indented ▸ .line begins
  exact .ascii rfl fits (literal_plains blanks later)

/-! ## Strings -/

theorem of_mem_lettered {c letter : Char} (found : Quoted.escapeLetter? c = some letter) :
    isWide c = false ∧ isWide letter = false ∧ ' ' ≤ letter := by
  have member := Quoted.mem_lettered_of_escapeLetter? found
  simp only [Quoted.lettered, List.mem_cons, List.not_mem_nil, or_false] at member
  rcases member with rfl | rfl | rfl | rfl | rfl | rfl | rfl <;>
  · simp [Quoted.escapeLetter?] at found
    subst found
    decide

/-- In a string and after a backslash every visible character but quotes and
backslashes goes on with the string. -/
theorem literal_escaped {c : Char} (narrow : isWide c = false) (visible : ' ' ≤ c)
    (later : Literal (.inside depth) rest wide) : Literal (.escape depth) (c :: rest) wide :=
  .ascii narrow (.visible visible fun _ => rfl) later

theorem literal_inside {c : Char} (narrow : isWide c = false) (visible : ' ' ≤ c)
    (notQuote : c ≠ '"') (notSlash : c ≠ '\\') (later : Literal (.inside depth) rest wide) :
    Literal (.inside depth) (c :: rest) wide := by
  have stays : (Place.inside depth).next c = .inside depth := by
    simp [Place.next, Place.inside, notQuote, notSlash]
  refine .ascii narrow (fits_of_ne visible notSlash rest) ?_
  rwa [stays]

/-- The digits of a character below U+0020. -/
theorem hexUnit_control {c : Char} (control : c < ' ') :
    Grammar.HexUnit ['0', '0', Nat.digitChar (c.toNat / 16), Nat.digitChar (c.toNat % 16)]
      c.toNat := by
  have small : c.toNat < 32 := control
  have digit : ∀ value < 16, Grammar.HexDigit (Nat.digitChar value) value := by decide
  have unit := Grammar.HexUnit.mk (digit 0 (by decide)) (digit 0 (by decide))
    (digit (c.toNat / 16) (by omega)) (digit (c.toNat % 16) (by omega))
  rwa [show ((0 * 16 + 0) * 16 + c.toNat / 16) * 16 + c.toNat % 16 = c.toNat by omega] at unit

theorem literal_control {c : Char} (control : c < ' ')
    (later : Literal (.inside depth) rest wide) :
    Literal (.inside depth)
      ('\\' :: 'u' :: '0' :: '0' :: Nat.digitChar (c.toNat / 16) ::
        Nat.digitChar (c.toNat % 16) :: rest) wide := by
  have small : c.toNat < 32 := control
  have digit : ∀ value < 16, isWide (Nat.digitChar value) = false ∧ ' ' ≤ Nat.digitChar value ∧
      Nat.digitChar value ≠ '"' ∧ Nat.digitChar value ≠ '\\' := by decide
  have literal_digit : ∀ value < 16, ∀ {rest}, Literal (.inside depth) rest wide →
      Literal (.inside depth) (Nat.digitChar value :: rest) wide := by
    intro value bound rest later
    obtain ⟨narrow, visible, notQuote, notSlash⟩ := digit value bound
    exact literal_inside narrow visible notQuote notSlash later
  refine .ascii rfl (.digits (hexUnit_control control) control) ?_
  refine literal_escaped rfl (by decide) ?_
  refine literal_digit 0 (by decide) (literal_digit 0 (by decide) ?_)
  exact literal_digit (c.toNat / 16) (by omega) (literal_digit (c.toNat % 16) (by omega) later)

theorem literal_encodeChar (c : Char) (later : Literal (.inside depth) rest wide) :
    Literal (.inside depth) (Quoted.encodeChar c ++ rest) ([c].filter isWide ++ wide) := by
  unfold Quoted.encodeChar
  split
  · rename_i letter found
    obtain ⟨narrow, narrowLetter, visible⟩ := of_mem_lettered found
    obtain ⟨notUnicode, -⟩ := Quoted.letterValue?_of_escapeLetter? found
    rw [List.filter_cons_of_neg (by simp [narrow])]
    exact .ascii rfl (.letter notUnicode) (literal_escaped narrowLetter visible later)
  · rename_i plain
    split
    · rename_i control
      have narrow : isWide c = false := by
        refine eq_false_of_ne_true fun wide => ?_
        exact absurd (of_isWide wide).1 (Char.not_le.mpr control)
      rw [List.filter_cons_of_neg (by simp [narrow])]
      exact literal_control control later
    · rename_i visible
      cases found : isWide c with
      | true =>
        rw [List.filter_cons_of_pos found]
        exact .wide found later
      | false =>
        have notQuote : c ≠ '"' := by
          rintro rfl
          simp [Quoted.escapeLetter?] at plain
        have notSlash : c ≠ '\\' := by
          rintro rfl
          simp [Quoted.escapeLetter?] at plain
        rw [List.filter_cons_of_neg (by simp [found])]
        exact literal_inside found (Char.not_lt.mp visible) notQuote notSlash later

theorem literal_encode (text : List Char) (later : Literal (.inside depth) rest wide) :
    Literal (.inside depth) (Quoted.encode text ++ rest) (text.filter isWide ++ wide) := by
  induction text with
  | nil => exact later
  | cons c text ih =>
    have first := literal_encodeChar c ih
    have split : (c :: text).filter isWide = [c].filter isWide ++ text.filter isWide := by
      rw [← List.filter_append, List.singleton_append]
    rw [split, List.append_assoc]
    rwa [Quoted.encode, List.flatMap_cons, List.append_assoc]

theorem literal_quote (text : String) (later : Literal (.outside depth) rest wide) :
    Literal (.outside depth) (Quoted.quote text ++ rest) (text.toList.filter isWide ++ wide) := by
  have closing : Literal (.inside depth) ('"' :: rest) wide :=
    .ascii rfl (fits_of_ne (by decide) (by decide) _) later
  rw [quote_append]
  exact .ascii rfl (fits_of_ne (by decide) (by decide) _) (literal_encode text.toList closing)

/-! ## Numbers -/

theorem isPlain_of_isDigit {c : Char} (digit : c.isDigit = true) : isPlain c = true := by
  simp only [Char.isDigit, Bool.and_eq_true, decide_eq_true_eq] at digit
  have from0 : 0x30 ≤ c.toNat := digit.1
  have to9 : c.toNat ≤ 0x39 := digit.2
  have visible : ' ' ≤ c := show 0x20 ≤ c.toNat by omega
  have absent : c ∉ ['"', '\\', '[', ']', '{', '}'] := by
    intro member
    simp only [List.mem_cons, List.not_mem_nil, or_false] at member
    rcases member with rfl | rfl | rfl | rfl | rfl | rfl <;> exact absurd digit (by decide)
  have narrow : isWide c = false := decide_eq_false (by omega)
  simp only [isPlain, visible, narrow, List.contains_eq_mem, absent]
  rfl

theorem isPlain_of_mem_text {number : Number} (grammatical : number.Grammatical) :
    ∀ c ∈ number.text, isPlain c = true := by
  have digits : ∀ {digits : List Char}, AreDigits digits → ∀ c ∈ digits, isPlain c = true :=
    fun are c member => isPlain_of_isDigit (are.2 c member)
  rw [Number.text]
  simp only [List.forall_mem_append]
  refine ⟨?_, ?_, ?_, ?_⟩
  · cases number.negative <;> exact List.all_eq_true.mp rfl
  · rcases grammatical.whole with zero | ⟨are, -⟩
    · rw [zero]
      exact List.all_eq_true.mp rfl
    · exact digits are
  · cases found : number.fraction with
    | none => exact List.forall_mem_nil _
    | some fraction =>
      exact List.forall_mem_cons.mpr ⟨rfl, digits (grammatical.fraction _ found)⟩
  · cases found : number.exponent with
    | none => exact List.forall_mem_nil _
    | some exponent =>
      refine List.forall_mem_cons.mpr ⟨rfl, List.forall_mem_cons.mpr ⟨?_, ?_⟩⟩
      · cases exponent.negative <;> rfl
      · exact digits (grammatical.exponent _ found)

/-! ## Items -/

section

variable {α : Type} {write : α → List Char} {textsOf : α → List String} {close : Char}

/-- What a written item is at some depth: literal, and from a character on that
a line may begin with. -/
structure WrittenAt (depth : Nat) (write : α → List Char) (textsOf : α → List String)
    (value : α) : Prop where
  begins : ∃ mark more, write value = mark :: more ∧ ' ' < mark ∧ mark ≠ ']' ∧ mark ≠ '}'
  literal : ∀ {rest wide}, Literal (.outside depth) rest wide →
    Literal (.outside depth) (write value ++ rest) (wideOf (textsOf value) ++ wide)

/-- An item on a line of its own. -/
theorem WrittenAt.line {value : α} (written : WrittenAt depth write textsOf value)
    (later : Literal (.outside depth) rest wide) :
    Literal (.outside depth) (Layout.pretty.line depth ++ (write value ++ rest))
      (wideOf (textsOf value) ++ wide) := by
  have literal := written.literal later
  obtain ⟨mark, more, equal, begins, notList, notObject⟩ := written.begins
  rw [equal, List.cons_append] at literal ⊢
  have indented : (Place.outside depth).indentation mark = 2 * depth := by
    simp [Place.indentation, notList, notObject, Place.outside]
  exact literal_line begins indented literal

theorem literal_itemsText {items : List α}
    (written : ∀ value ∈ items, WrittenAt depth write textsOf value)
    (later : Literal (.outside depth) rest wide) :
    Literal (.outside depth) (itemsText (Layout.pretty.line depth) write items ++ rest)
      (wideOf (items.flatMap textsOf) ++ wide) := by
  induction items with
  | nil => exact later
  | cons value items ih =>
    have others := ih fun other member => written other (List.mem_cons_of_mem _ member)
    have first := (written value List.mem_cons_self).line others
    rw [itemsText, List.flatMap_cons, ← itemsText, List.flatMap_cons, wideOf_append]
    simpa only [List.cons_append, List.append_assoc] using literal_plain rfl first

/-- The items of a container, up to the bracket that closes it. -/
theorem literal_items (closes : close = ']' ∨ close = '}') {first : α} {items : List α}
    (written : ∀ value ∈ first :: items, WrittenAt (depth + 1) write textsOf value)
    (later : Literal (.outside depth) rest wide) :
    Literal (.outside (depth + 1))
      (Layout.pretty.line (depth + 1) ++ (write first ++
        (itemsText (Layout.pretty.line (depth + 1)) write items ++
          (Layout.pretty.line depth ++ close :: rest))))
      (wideOf ((first :: items).flatMap textsOf) ++ wide) := by
  have visible : ' ' < close := by
    rcases closes with rfl | rfl <;> decide
  have indented : (Place.outside (depth + 1)).indentation close = 2 * depth := by
    simp [Place.indentation, closes, Place.outside]
  have last := literal_line visible indented (literal_closes closes later)
  have others := literal_itemsText
    (fun value member => written value (List.mem_cons_of_mem _ member)) last
  rw [List.flatMap_cons, wideOf_append, List.append_assoc]
  exact (written first List.mem_cons_self).line others

end

/-! ## Values -/

/-- A value is written from a character on that a line may begin with. -/
theorem write_begins {levels : Nat} {value : Json} (storable : Storable levels value)
    (layout : Layout) (depth : Nat) :
    ∃ mark more, write layout depth value = mark :: more ∧ ' ' < mark ∧ mark ≠ ']' ∧
      mark ≠ '}' := by
  cases storable with
  | null => exact ⟨'n', _, rfl, by decide⟩
  | bool value =>
    cases value with
    | true => exact ⟨'t', _, rfl, by decide⟩
    | false => exact ⟨'f', _, rfl, by decide⟩
  | number grammatical =>
    obtain ⟨c, more, equal, starts⟩ := Number.starts_text grammatical
    have plain := isPlain_of_mem_text grammatical c (equal ▸ List.mem_cons_self)
    obtain ⟨visible, -, -, -, -, notList, -, notObject⟩ := of_isPlain plain
    have notBlank : ' ' ≠ c := by
      rintro rfl
      exact absurd starts (by decide)
    exact ⟨c, more, equal, Std.lt_of_le_of_ne visible notBlank, notList, notObject⟩
  | string text => exact ⟨'"', _, rfl, by decide⟩
  | @array _ items _ =>
    cases items with
    | nil => exact ⟨'[', _, rfl, by decide⟩
    | cons item items => exact ⟨'[', _, rfl, by decide⟩
  | @object _ fields _ _ _ =>
    cases fields with
    | nil => exact ⟨'{', _, rfl, by decide⟩
    | cons field fields => exact ⟨'{', _, rfl, by decide⟩

theorem writtenAt_member {field : String × Json}
    (written : WrittenAt depth (write .pretty depth) texts field.2) :
    WrittenAt depth (writeMember .pretty depth) fieldTexts field where
  begins := ⟨'"', _, rfl, by decide⟩
  literal := by
    intro rest wide later
    have gap : ∀ c ∈ [':', ' '], isPlain c = true := List.all_eq_true.mp rfl
    have literal := literal_quote field.1 (literal_plains gap (written.literal later))
    simpa [writeMember, fieldTexts, wideOf, Layout.pretty] using literal

/-- The pretty text of a value is literal. -/
theorem literal_write {levels : Nat} {value : Json} (storable : Storable levels value)
    (depth : Nat) (later : Literal (.outside depth) rest wide) :
    Literal (.outside depth) (write .pretty depth value ++ rest) (wideOf value.texts ++ wide) := by
  -- The parts of a value are storable one level down, so the induction is on the derivation.
  induction storable generalizing depth rest wide with
  | null =>
    have plain : ∀ c ∈ ['n', 'u', 'l', 'l'], isPlain c = true := List.all_eq_true.mp rfl
    exact literal_plains plain later
  | bool value =>
    cases value with
    | true =>
      have plain : ∀ c ∈ ['t', 'r', 'u', 'e'], isPlain c = true := List.all_eq_true.mp rfl
      exact literal_plains plain later
    | false =>
      have plain : ∀ c ∈ ['f', 'a', 'l', 's', 'e'], isPlain c = true := List.all_eq_true.mp rfl
      exact literal_plains plain later
  | number grammatical => exact literal_plains (isPlain_of_mem_text grammatical) later
  | string text =>
    have literal := literal_quote text later
    rw [texts, wideOf, List.flatMap_singleton]
    exact literal
  | @array levels items storable ih =>
    cases items with
    | nil => exact literal_opens (.inl rfl) (literal_closes (.inl rfl) later)
    | cons item items =>
      have inner := literal_items (.inl rfl)
        (fun value member => ⟨write_begins (storable value member) .pretty (depth + 1),
          fun later => ih value member (depth + 1) later⟩) later
      rw [write_array, texts, textsOfItems_eq]
      exact literal_opens (.inl rfl) inner
  | @object levels fields distinct untagged storable ih =>
    cases fields with
    | nil => exact literal_opens (.inr rfl) (literal_closes (.inr rfl) later)
    | cons field fields =>
      have inner := literal_items (.inr rfl)
        (fun field member => writtenAt_member
          ⟨write_begins (storable field member) .pretty (depth + 1),
            fun later => ih field member (depth + 1) later⟩) later
      rw [write_object, texts, textsOfFields_eq]
      exact literal_opens (.inr rfl) inner

end KeyInstall.Json
