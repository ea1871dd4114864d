import KeyInstall.Proofs.Json.Grammar.Numbers
import KeyInstall.Proofs.Json.Grammar.Strings
import KeyInstall.Proofs.Json.RoundTrip

/-!
# Texts of the grammar are read

A text that the grammar derives is read as the value that its tree stands for,
whatever its layout, its escapes and the size of its numbers (`run_of_derives`),
unless it is nested too deep or one of its objects is taken for a number. A
reader may leave layout after a value behind, so what is left is compared from
its next token on.
-/

namespace KeyInstall.Json.Grammar

variable {text rest : List Char}

/-! ## Layout -/

theorem endsNumber_append {line : List Char} (blank : Blanks line) (ends : EndsNumber rest) :
    EndsNumber (line ++ rest) := by
  cases line with
  | nil => exact ends
  | cons c line =>
    exact endsNumber_of_isLayout (blanks_iff.mp blank c List.mem_cons_self) (line ++ rest)

theorem run_skipLayout (levels : Nat) (text : List Char) :
    (valueReader levels).run (skipLayout text) = (valueReader levels).run text := by
  obtain ⟨line, blank, split⟩ := exists_blanks text
  have same := run_layout (blanks_iff.mp blank) levels (skipLayout text)
  rw [← split] at same
  exact same.symm

/-! ## Parts of a container -/

variable {α : Type} {item : Reader α} {enclosure : Enclosure}

/-- What a reader of parts owes to the text of a part: it finds a token there that
does not close the container, and reads the part up to layout. -/
structure Readable (item : Reader α) (enclosure : Enclosure) (text : List Char) (value : α) :
    Prop where
  mark : ∀ rest, ∃ c more, skipLayout (text ++ rest) = c :: more ∧ c ≠ enclosure.close
  run : ∀ rest, EndsNumber rest → ∃ left,
    item.run (skipLayout (text ++ rest)) = .ok (value, left) ∧ skipLayout left = skipLayout rest

/-- Parts begin with the first one. -/
theorem exists_separated (part : List Char) (parts : List (List Char)) :
    ∃ more, separated (part :: parts) = part ++ more := by
  cases parts with
  | nil => exact ⟨[], by rw [separated_singleton, List.append_nil]⟩
  | cons next parts => exact ⟨_, separated_cons part next parts⟩

theorem readItems_of_parts (clear : enclosure.Clear) {first : List Char × α}
    {parts : List (List Char × α)}
    (each : ∀ part ∈ first :: parts, Readable item enclosure part.1 part.2) (rest : List Char) :
    readItems item enclosure (skipLayout
        (separated ((first :: parts).map (·.1)) ++ enclosure.close :: rest)) =
      .ok ((first :: parts).map (·.2), rest) := by
  induction parts generalizing first with
  | nil =>
    obtain ⟨left, run, same⟩ := (each first List.mem_cons_self).run _ (clear.ends rest)
    rw [skipLayout_cons clear.notLayout] at same
    rw [List.map_singleton, separated_singleton]
    exact readItems_of_close run (readSeparator_close same)
  | cons second parts ih =>
    rw [List.forall_mem_cons] at each
    obtain ⟨here, others⟩ := each
    have later := ih others
    simp only [List.map_cons] at later ⊢
    rw [separated_cons, List.append_assoc, List.cons_append]
    obtain ⟨left, run, same⟩ := here.run
      (',' :: (separated (second.1 :: parts.map (·.1)) ++ enclosure.close :: rest))
      (endsNumber_cons _ (by simp))
    rw [skipLayout_cons (show isLayout ',' = false from rfl)] at same
    have goesOn : (skipLayout (separated (second.1 :: parts.map (·.1)) ++
        enclosure.close :: rest)).head? ≠ some enclosure.close := by
      obtain ⟨more, begins⟩ := exists_separated second.1 (parts.map (·.1))
      obtain ⟨c, tail, next, other⟩ := (others second List.mem_cons_self).mark
        (more ++ enclosure.close :: rest)
      rw [begins, List.append_assoc, next]
      simpa using other
    rw [readItems_of_comma run (readSeparator_comma clear.notComma same goesOn), later]
    rfl

/-- Parts with commas between them are read as those parts. -/
theorem readEnclosed_of_parts (clear : enclosure.Clear) (parts : List (List Char × α))
    (nonempty : parts ≠ []) (each : ∀ part ∈ parts, Readable item enclosure part.1 part.2)
    (rest : List Char) :
    readEnclosed item enclosure (separated (parts.map (·.1)) ++ enclosure.close :: rest) =
      .ok (parts.map (·.2), rest) := by
  cases parts with
  | nil => contradiction
  | cons first parts =>
    have items := readItems_of_parts clear each rest
    obtain ⟨more, begins⟩ := exists_separated first.1 (parts.map (·.1))
    obtain ⟨c, tail, next, other⟩ := (each first List.mem_cons_self).mark
      (more ++ enclosure.close :: rest)
    rw [← List.append_assoc, ← begins] at next
    simp only [List.map_cons] at items ⊢
    rw [next] at items
    rw [readEnclosed, next]
    simp only [other, if_false]
    exact items

theorem readEnclosed_of_blanks (clear : enclosure.Clear) {inside : List Char}
    (blank : Blanks inside) (rest : List Char) :
    readEnclosed item enclosure (inside ++ enclosure.close :: rest) = .ok ([], rest) := by
  have empty := readEnclosed_nil item clear rest
  rw [readEnclosed] at empty ⊢
  rwa [skipLayout_append (blanks_iff.mp blank)]

/-! ## First characters -/

/-- After layout, a value begins with a character that closes no list. -/
theorem exists_mark {tree : Json} (derived : Derives text tree) :
    ∃ c more, (∀ rest, skipLayout (text ++ rest) = c :: (more ++ rest)) ∧ c ≠ ']' := by
  have plain : ∀ {c : Char} (more : List Char), isLayout c = false → c ≠ ']' →
      ∃ d tail, (∀ rest, skipLayout (c :: more ++ rest) = d :: (tail ++ rest)) ∧ d ≠ ']' :=
    fun {c} more mark other => ⟨c, more, fun rest => skipLayout_cons mark _, other⟩
  induction derived with
  | null | isTrue | isFalse | string | emptyArray | array | emptyObject | object =>
    exact plain _ rfl (by decide)
  | number token =>
    obtain ⟨c, more, rfl, starts⟩ := exists_starts token
    obtain ⟨mark, others⟩ := ne_of_starts starts
    exact plain more mark (others ']' (by simp))
  | @padded before token after tree blankBefore _ _ ih =>
    obtain ⟨c, more, next, other⟩ := ih
    refine ⟨c, more ++ after, fun rest => ?_, other⟩
    rw [List.append_assoc, skipLayout_append (blanks_iff.mp blankBefore), List.append_assoc, next,
      List.append_assoc]

/-! ## Values and members -/

/-- A text is read as a value inside `levels` containers. -/
def ReadAs (levels : Nat) (text : List Char) (value : Json) : Prop :=
  ∀ rest, EndsNumber rest → ∃ left,
    (valueReader levels).run (text ++ rest) = .ok (value, left) ∧ skipLayout left = skipLayout rest

variable {levels : Nat}

/-- So it is if nothing is left of it, not even layout. -/
theorem readAs_of_run {value : Json} (run : ∀ rest, EndsNumber rest →
    (valueReader levels).run (text ++ rest) = .ok (value, rest)) : ReadAs levels text value :=
  fun rest ends => ⟨rest, run rest ends, rfl⟩

theorem readable_item {tree value : Json} (derived : Derives text tree)
    (read : ReadAs levels text value) :
    Readable (valueReader levels) listEnclosure text value := by
  refine ⟨?_, ?_⟩
  · obtain ⟨c, more, next, other⟩ := exists_mark derived
    exact fun rest => ⟨c, more ++ rest, next rest, other⟩
  · intro rest ends
    rw [run_skipLayout]
    exact read rest ends

theorem readable_member {part : Member} {value : Json} (keyed : part.Keyed)
    (read : ReadAs levels part.text value) :
    Readable (memberReader (valueReader levels)) objectEnclosure part.chars (part.key, value) := by
  have next : ∀ rest, skipLayout (part.chars ++ rest) =
      '"' :: (part.body ++ '"' :: (part.after ++ ':' :: (part.text ++ rest))) := by
    intro rest
    simp only [Member.chars, List.append_assoc, List.cons_append]
    rw [skipLayout_append (blanks_iff.mp keyed.before), skipLayout_cons rfl]
  refine ⟨fun rest => ⟨'"', _, next rest, by simp [objectEnclosure]⟩, ?_⟩
  intro rest ends
  obtain ⟨left, run, same⟩ := read rest ends
  refine ⟨left, ?_, same⟩
  have key := decode_of_stringBody keyed.key (part.after ++ ':' :: (part.text ++ rest))
  have colon : readColon (part.after ++ ':' :: (part.text ++ rest)) = .ok (part.text ++ rest) := by
    rw [readColon, skipLayout_append (blanks_iff.mp keyed.after), skipLayout_cons rfl]
    simp
  rw [next]
  simp [memberReader, readMember, key, colon, run, bind, Except.bind, pure, Except.pure]

/-- Members are not taken for a number unless the first key is the tag. -/
theorem tagged?_of_members {first : Member} (keyed : first.Keyed)
    (ordinary : first.key ≠ numberTag) (parts : List Member) (rest : List Char) :
    tagged? (separated ((first :: parts).map Member.chars) ++ rest) = none := by
  obtain ⟨more, begins⟩ := exists_separated first.chars (parts.map Member.chars)
  have different : first.key.toList ≠ numberTag.toList :=
    fun same => ordinary (String.toList_inj.mp same)
  have key := decode_of_stringBody keyed.key (first.after ++ ':' :: (first.text ++ (more ++ rest)))
  rw [List.map_cons, begins, tagged?]
  simp only [Member.chars, List.append_assoc, List.cons_append]
  rw [skipLayout_append (blanks_iff.mp keyed.before), skipLayout_cons rfl]
  simp [key, different]

/-! ## Texts -/

theorem readAs_number {number : Number} (token : NumberToken text number) :
    ReadAs levels text (.number number) := by
  refine readAs_of_run fun rest ends => ?_
  have read := read_of_numberToken token ends
  obtain ⟨c, more, rfl, starts⟩ := exists_starts token
  obtain ⟨mark, others⟩ := ne_of_starts starts
  rw [List.cons_append] at read ⊢
  rw [run_eq, readValue, skipLayout_cons mark]
  have quote := others '"' (by simp)
  have list := others '[' (by simp)
  have object := others '{' (by simp)
  have null := others 'n' (by simp)
  have yes := others 't' (by simp)
  have no := others 'f' (by simp)
  simp [quote, list, object, null, yes, no, readScalar, starts, read, Except.map, Scalar.json]

theorem readAs_string {body : List Char} {string : String}
    (derived : StringBody body string.toList) :
    ReadAs levels ('"' :: (body ++ ['"'])) (.string string) := by
  refine readAs_of_run fun rest _ => ?_
  have read := decode_of_stringBody derived rest
  rw [run_eq, List.cons_append, List.append_assoc, List.singleton_append, readValue,
    skipLayout_cons rfl]
  simp [read, Except.map]

theorem readAs_array {parts : List (List Char × Json)} (nonempty : parts ≠ [])
    (each : ∀ part ∈ parts, Readable (valueReader levels) listEnclosure part.1 part.2) :
    ReadAs (levels + 1) ('[' :: (separated (parts.map (·.1)) ++ [']']))
      (.array (parts.map (·.2))) := by
  refine readAs_of_run fun rest _ => ?_
  have read := readEnclosed_of_parts listEnclosure_clear parts nonempty each rest
  rw [run_eq, List.cons_append, List.append_assoc, readValue, skipLayout_cons rfl]
  rw [show listEnclosure.close = ']' from rfl] at read
  simp [partReader?, read, Except.map]

theorem readAs_emptyArray {inside : List Char} (blank : Blanks inside) :
    ReadAs (levels + 1) ('[' :: (inside ++ [']'])) (.array []) := by
  refine readAs_of_run fun rest _ => ?_
  have read : readEnclosed (valueReader levels) listEnclosure (inside ++ ']' :: rest) =
      .ok ([], rest) := readEnclosed_of_blanks listEnclosure_clear blank rest
  rw [run_eq, List.cons_append, List.append_assoc, readValue, skipLayout_cons rfl]
  simp [partReader?, read, Except.map]

theorem readAs_emptyObject {inside : List Char} (blank : Blanks inside) :
    ReadAs (levels + 1) ('{' :: (inside ++ ['}'])) (.object []) := by
  refine readAs_of_run fun rest _ => ?_
  have read : readEnclosed (memberReader (valueReader levels)) objectEnclosure
      (inside ++ '}' :: rest) = .ok ([], rest) :=
    readEnclosed_of_blanks objectEnclosure_clear blank rest
  have untagged : tagged? (inside ++ '}' :: rest) = none := by
    rw [tagged?, skipLayout_append (blanks_iff.mp blank), skipLayout_cons rfl]
    simp
  rw [run_eq, List.cons_append, List.append_assoc, readValue, skipLayout_cons rfl]
  simp [partReader?, readObject, untagged, read, Except.map, Table.ofSettings]

theorem readAs_object {first : Member} {parts : List Member} (value : Member → Json)
    (keyed : first.Keyed) (ordinary : first.key ≠ numberTag)
    (each : ∀ part ∈ first :: parts, Readable (memberReader (valueReader levels))
      objectEnclosure part.chars (part.key, value part)) :
    ReadAs (levels + 1) ('{' :: (separated ((first :: parts).map Member.chars) ++ ['}']))
      (.object (Table.lastValues ((first :: parts).map fun part => (part.key, value part)))) := by
  refine readAs_of_run fun rest _ => ?_
  have untagged := tagged?_of_members keyed ordinary parts ('}' :: rest)
  have read := readEnclosed_of_parts objectEnclosure_clear
    ((first :: parts).map fun part => (part.chars, (part.key, value part))) (by simp)
    (by simpa using each) rest
  simp only [List.map_map, Function.comp_def] at read
  rw [show objectEnclosure.close = '}' from rfl] at read
  rw [run_eq, List.cons_append, List.append_assoc, readValue, skipLayout_cons rfl]
  simp only [partReader?, List.singleton_append, readObject, untagged, read, Except.map,
    Table.ofSettings_eq_lastValues]
  rfl

/-- A text of the grammar is read as the value that its tree stands for. -/
theorem run_of_derives {tree : Json} (derived : Derives text tree) (nests : Nests levels tree)
    (untagged : Untagged tree) : ReadAs levels text tree.meaning := by
  -- Whatever a tree holds is read one level deeper, so the induction is on the derivation.
  induction derived generalizing levels with
  | null | isTrue | isFalse =>
    refine readAs_of_run fun rest _ => ?_
    rw [run_eq]
    rfl
  | number token => exact readAs_number token
  | string string => exact readAs_string string
  | emptyArray blank =>
    cases nests
    exact readAs_emptyArray blank
  | @array parts nonempty derived ih =>
    cases nests with
    | @array levels _ nests =>
      cases untagged with
      | array untagged =>
        have each : ∀ part ∈ parts.map fun part => (part.1, part.2.meaning),
            Readable (valueReader levels) listEnclosure part.1 part.2 := by
          intro other member
          obtain ⟨part, inside, rfl⟩ := List.mem_map.mp member
          have item : part.2 ∈ parts.map (·.2) := List.mem_map_of_mem inside
          exact readable_item (derived part inside)
            (ih part inside (nests part.2 item) (untagged part.2 item))
        have read := readAs_array (by simpa using nonempty) each
        simp only [List.map_map, Function.comp_def] at read
        rw [meaning, meaningItems_eq, List.map_map]
        exact read
  | emptyObject blank =>
    cases nests
    exact readAs_emptyObject blank
  | @object parts nonempty keyed derived ih =>
    cases parts with
    | nil => contradiction
    | cons first parts =>
      cases nests with
      | object nests =>
        cases untagged with
        | object ordinary untagged =>
          have read := readAs_object (fun part => part.value.meaning)
            (keyed first List.mem_cons_self)
            (by simpa [Table.keys, Member.field, numberTag] using ordinary)
            fun part member => readable_member (keyed part member)
              (ih part member (nests part.field (List.mem_map_of_mem member))
                (untagged part.field (List.mem_map_of_mem member)))
          rw [meaning, meaningFields_eq, List.map_map]
          exact read
  | padded blankBefore derived blankAfter ih =>
    intro rest ends
    obtain ⟨left, run, same⟩ := ih nests untagged _ (endsNumber_append blankAfter ends)
    refine ⟨left, ?_, ?_⟩
    · rw [List.append_assoc, List.append_assoc, run_layout (blanks_iff.mp blankBefore), run]
    · rw [same, skipLayout_append (blanks_iff.mp blankAfter)]

/-- A whole text of the grammar is read. -/
theorem parse_of_derives {text : String} {tree : Json} (derived : Derives text.toList tree)
    (nests : Nests nestingLimit tree) (untagged : Untagged tree) :
    parse text = .ok tree.meaning := by
  obtain ⟨left, run, same⟩ := run_of_derives derived nests untagged [] endsNumber_nil
  rw [List.append_nil] at run
  have ends : skipLayout left = [] := same
  simp [parse, readText, run, ends, bind, Except.bind, pure, Except.pure, Except.mapError]

end KeyInstall.Json.Grammar
