import KeyInstall.Json.Writer
import KeyInstall.Proofs.Json.Quoted
import KeyInstall.Proofs.Json.Storable

/-!
# What is written is read

A value that can be stored is read from its text as that value, with the order
of its keys, its strings and the digits of its numbers, in the pretty layout
(`parse_render`) as well as in the compact one (`parse_renderCompact`). Both are
cases of one statement about any layout that consists of layout characters and
any text that may follow a value (`run_write`).
-/

namespace KeyInstall.Json

/-! ## Layouts -/

/-- A layout puts nothing but layout between tokens. -/
structure Layout.Blank (layout : Layout) : Prop where
  line : ∀ depth, AreLayout (layout.line depth)
  gap : AreLayout layout.gap

theorem Layout.pretty_blank : Layout.pretty.Blank := by
  refine ⟨?_, ?_⟩
  · intro depth c member
    rcases List.mem_cons.mp member with rfl | member
    · rfl
    · rw [List.eq_of_mem_replicate member]
      rfl
  · simp [AreLayout, Layout.pretty, isLayout]

theorem Layout.compact_blank : Layout.compact.Blank :=
  ⟨by simp [AreLayout, Layout.compact], by simp [AreLayout, Layout.compact]⟩

/-! ## The writer in terms of items -/

theorem writeItems_eq (layout : Layout) (depth : Nat) (items : List Json) :
    writeItems layout depth items =
      itemsText (layout.line depth) (write layout depth) items := by
  induction items with
  | nil => simp [writeItems, itemsText]
  | cons item items ih =>
    rw [writeItems, ih]
    simp [itemsText]

/-- A key with its value. -/
def writeMember (layout : Layout) (depth : Nat) (field : String × Json) : List Char :=
  Quoted.quote field.1 ++ (':' :: (layout.gap ++ write layout depth field.2))

theorem writeFields_eq (layout : Layout) (depth : Nat) (fields : List (String × Json)) :
    writeFields layout depth fields =
      itemsText (layout.line depth) (writeMember layout depth) fields := by
  induction fields with
  | nil => simp [writeFields, itemsText]
  | cons field fields ih =>
    rw [writeFields, ih]
    simp [itemsText, writeMember]

theorem write_array (layout : Layout) (depth : Nat) (item : Json) (items : List Json)
    (rest : List Char) :
    write layout depth (.array (item :: items)) ++ rest =
      '[' :: (layout.line (depth + 1) ++ (write layout (depth + 1) item ++
        (itemsText (layout.line (depth + 1)) (write layout (depth + 1)) items ++
          (layout.line depth ++ listEnclosure.close :: rest)))) := by
  simp [write, writeItems_eq, listEnclosure]

theorem write_object (layout : Layout) (depth : Nat) (field : String × Json)
    (fields : List (String × Json)) (rest : List Char) :
    write layout depth (.object (field :: fields)) ++ rest =
      '{' :: (layout.line (depth + 1) ++ (writeMember layout (depth + 1) field ++
        (itemsText (layout.line (depth + 1)) (writeMember layout (depth + 1)) fields ++
          (layout.line depth ++ objectEnclosure.close :: rest)))) := by
  simp [write, writeFields_eq, writeMember, objectEnclosure]

theorem quote_append (text : String) (rest : List Char) :
    Quoted.quote text ++ rest = '"' :: (Quoted.encode text.toList ++ '"' :: rest) := by
  simp [Quoted.quote]

theorem writeMember_append (layout : Layout) (depth : Nat) (field : String × Json)
    (rest : List Char) :
    writeMember layout depth field ++ rest =
      '"' :: (Quoted.encode field.1.toList ++ '"' :: ':' ::
        (layout.gap ++ (write layout depth field.2 ++ rest))) := by
  simp [writeMember, Quoted.quote]

/-! ## First characters -/

/-- A sign or a digit is neither layout nor another mark. -/
theorem ne_of_starts {c : Char} (starts : Number.starts c = true) :
    isLayout c = false ∧ ∀ mark ∈ ['"', '[', '{', 'n', 't', 'f', ']'], c ≠ mark := by
  refine ⟨?_, ?_⟩
  · cases layout : isLayout c with
    | false => rfl
    | true =>
      simp only [isLayout, Bool.or_eq_true, beq_iff_eq] at layout
      rcases layout with ((rfl | rfl) | rfl) | rfl <;> exact absurd starts (by decide)
  · rintro mark member rfl
    simp only [List.mem_cons, List.not_mem_nil, or_false] at member
    rcases member with rfl | rfl | rfl | rfl | rfl | rfl | rfl <;>
    · exact absurd starts (by decide)

/-- Every value is written from a mark on that closes no list. -/
theorem write_mark {levels : Nat} {value : Json} (storable : Storable levels value)
    (layout : Layout) (depth : Nat) :
    ∃ c more, write layout depth value = c :: more ∧ isLayout c = false ∧ c ≠ ']' := by
  cases storable with
  | null => exact ⟨'n', _, rfl, rfl, by simp⟩
  | bool value =>
    cases value with
    | true => exact ⟨'t', _, rfl, rfl, by simp⟩
    | false => exact ⟨'f', _, rfl, rfl, by simp⟩
  | number grammatical =>
    obtain ⟨c, more, equal, starts⟩ := Number.starts_text grammatical
    obtain ⟨mark, others⟩ := ne_of_starts starts
    exact ⟨c, more, equal, mark, others ']' (by simp)⟩
  | string text => exact ⟨'"', _, rfl, rfl, by simp⟩
  | @array _ items _ =>
    cases items with
    | nil => exact ⟨'[', _, rfl, rfl, by simp⟩
    | cons item items => exact ⟨'[', _, rfl, rfl, by simp⟩
  | @object _ fields _ _ _ =>
    cases fields with
    | nil => exact ⟨'{', _, rfl, rfl, by simp⟩
    | cons field fields => exact ⟨'{', _, rfl, rfl, by simp⟩

/-! ## Values without parts -/

/-- The reader of the parts of a value. -/
def partReader? : Nat → Option (Reader Json)
  | 0 => none
  | levels + 1 => some (valueReader levels)

/-- Whatever the levels, a value is read by `readValue`. -/
theorem run_eq (levels : Nat) : (valueReader levels).run = readValue (partReader? levels) := by
  cases levels with
  | zero => rfl
  | succ levels => rfl

theorem run_layout {line : List Char} (blank : AreLayout line) (levels : Nat)
    (text : List Char) :
    (valueReader levels).run (line ++ text) = (valueReader levels).run text := by
  simp only [run_eq, readValue, skipLayout_append blank]

theorem readValue_string (inner : Option (Reader Json)) (text : String) (rest : List Char) :
    readValue inner (Quoted.quote text ++ rest) = .ok (.string text, rest) := by
  rw [quote_append, readValue, skipLayout_cons rfl]
  simp [Quoted.decode_encode, Except.map]

theorem readValue_number (inner : Option (Reader Json)) {number : Number}
    (grammatical : number.Grammatical) {rest : List Char} (ends : EndsNumber rest) :
    readValue inner (number.text ++ rest) = .ok (.number number, rest) := by
  have read := Number.read_text grammatical ends
  obtain ⟨c, more, equal, starts⟩ := Number.starts_text grammatical
  obtain ⟨mark, others⟩ := ne_of_starts starts
  rw [equal, List.cons_append] at read ⊢
  rw [readValue, skipLayout_cons mark]
  have quote := others '"' (by simp)
  have list := others '[' (by simp)
  have object := others '{' (by simp)
  have null := others 'n' (by simp)
  have yes := others 't' (by simp)
  have no := others 'f' (by simp)
  simp [quote, list, object, null, yes, no, readScalar, starts, read, Except.map, Scalar.json]

/-! ## Values with parts -/

theorem legible_item (layout : Layout) (depth : Nat) {levels : Nat} {item : Json}
    (storable : Storable levels item)
    (reads : ∀ rest, EndsNumber rest →
      (valueReader levels).run (write layout depth item ++ rest) = .ok (item, rest)) :
    Legible (valueReader levels) listEnclosure (write layout depth) item :=
  ⟨write_mark storable layout depth, reads⟩

theorem legible_member {layout : Layout} (blank : layout.Blank) (depth : Nat) {levels : Nat}
    {field : String × Json}
    (reads : ∀ rest, EndsNumber rest →
      (valueReader levels).run (write layout depth field.2 ++ rest) = .ok (field.2, rest)) :
    Legible (memberReader (valueReader levels)) objectEnclosure (writeMember layout depth)
      field := by
  refine ⟨⟨'"', _, quote_append field.1 _, rfl, by simp [objectEnclosure]⟩, ?_⟩
  intro rest ends
  have value := run_layout blank.gap levels (write layout depth field.2 ++ rest)
  rw [reads rest ends] at value
  show readMember (valueReader levels) (writeMember layout depth field ++ rest) = _
  rw [writeMember_append]
  simp only [readMember, Quoted.decode_encode, if_true, bind, Except.bind, readColon,
    skipLayout_cons (show isLayout ':' = false from rfl), value, pure, Except.pure,
    String.ofList_toList]

/-- A written object is not taken for a number unless its first key is the tag. -/
theorem tagged?_eq_none {layout : Layout} (blank : layout.Blank) (depth : Nat)
    {field : String × Json} (ordinary : field.1 ≠ numberTag) (rest : List Char) :
    tagged? (layout.line (depth + 1) ++ (writeMember layout (depth + 1) field ++ rest)) =
      none := by
  have different : field.1.toList ≠ numberTag.toList :=
    fun same => ordinary (String.toList_inj.mp same)
  rw [tagged?, skipLayout_append (blank.line _), writeMember_append,
    skipLayout_cons rfl]
  simp only [if_true, Quoted.decode_encode, different, if_false]

/-- A value that can be stored is read from its text, whatever the layout, up to
the text that follows it. -/
theorem run_write {layout : Layout} (blank : layout.Blank) {levels : Nat} {value : Json}
    (storable : Storable levels value) (depth : Nat) {rest : List Char}
    (ends : EndsNumber rest) :
    (valueReader levels).run (write layout depth value ++ rest) = .ok (value, rest) := by
  -- The parts of a value are storable one level down, so the induction is on the derivation.
  induction storable generalizing depth rest with
  | null =>
    rw [run_eq]
    rfl
  | bool value =>
    rw [run_eq]
    cases value <;> rfl
  | number grammatical =>
    rw [run_eq]
    exact readValue_number _ grammatical ends
  | string text =>
    rw [run_eq]
    exact readValue_string _ text rest
  | @array levels items storable ih =>
    show readValue (some (valueReader levels)) _ = _
    cases items with
    | nil =>
      have empty := readEnclosed_nil (valueReader levels) listEnclosure_clear rest
      rw [show listEnclosure.close = ']' from rfl] at empty
      simp [write, readValue, skipLayout_cons (show isLayout '[' = false from rfl), empty,
        Except.map]
    | cons item items =>
      have read := readEnclosed_items listEnclosure_clear (blank.line (depth + 1))
        (blank.line depth) rest fun value member => legible_item layout (depth + 1)
          (storable value member) fun _ ends => ih value member (depth + 1) ends
      rw [write_array, readValue, skipLayout_cons rfl]
      simp [read, Except.map]
  | @object levels fields distinct untagged storable ih =>
    show readValue (some (valueReader levels)) _ = _
    cases fields with
    | nil =>
      have empty := readEnclosed_nil (memberReader (valueReader levels))
        objectEnclosure_clear rest
      rw [show objectEnclosure.close = '}' from rfl] at empty
      simp [write, readValue, readObject, tagged?,
        skipLayout_cons (show isLayout '{' = false from rfl),
        skipLayout_cons (show isLayout '}' = false from rfl), empty, Except.map,
        Table.ofSettings]
    | cons field fields =>
      have read := readEnclosed_items objectEnclosure_clear (blank.line (depth + 1))
        (blank.line depth) rest fun value member => legible_member blank (depth + 1)
          fun _ ends => ih value member (depth + 1) ends
      have ordinary : field.1 ≠ numberTag := by simpa [Table.keys] using untagged
      rw [write_object, readValue, skipLayout_cons rfl]
      simp [readObject, tagged?_eq_none blank depth ordinary, read, Except.map,
        Table.ofSettings_eq_self distinct]

/-! ## Whole texts -/

theorem readText_write {layout : Layout} (blank : layout.Blank) {value : Json}
    (storable : Storable nestingLimit value) : readText (write layout 0 value) = .ok value := by
  have read := run_write blank storable 0 endsNumber_nil
  rw [List.append_nil] at read
  simp [readText, read, bind, Except.bind, skipLayout, pure, Except.pure]

/-- The pretty text of a value is read as that value. -/
theorem parse_render {value : Json} (storable : Storable nestingLimit value) :
    parse value.render = .ok value := by
  rw [parse, render, String.toList_ofList, readText_write Layout.pretty_blank storable]
  rfl

/-- So is its compact text. -/
theorem parse_renderCompact {value : Json} (storable : Storable nestingLimit value) :
    parse value.renderCompact = .ok value := by
  rw [parse, renderCompact, String.toList_ofList, readText_write Layout.compact_blank storable]
  rfl

end KeyInstall.Json
