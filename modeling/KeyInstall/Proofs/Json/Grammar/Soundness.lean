import KeyInstall.Proofs.Json.Grammar.Numbers
import KeyInstall.Proofs.Json.Grammar.Strings
import KeyInstall.Proofs.Json.Readings
import KeyInstall.Proofs.Json.RoundTrip

/-!
# Only texts of the grammar are read

Whatever a reader takes off the front of a text is derived by the grammar, with
no more containers around one another than the reader allows (`takes_valueReader`).
So a whole text that is read is a text of the grammar (`derives_of_parse`).
-/

namespace KeyInstall.Json.Grammar

variable {text rest : List Char}

/-! ## Layout -/

/-- Layout in front of a value belongs to it. -/
theorem exists_of_skipLayout {token : List Char} {tree : Json}
    (next : skipLayout text = token ++ rest) (derived : Derives token tree) :
    ∃ whole, text = whole ++ rest ∧ Derives whole tree := by
  obtain ⟨line, blank, split⟩ := exists_blanks text
  refine ⟨line ++ (token ++ []), ?_, .padded blank derived blanks_nil⟩
  rw [List.append_nil, List.append_assoc, ← next]
  exact split

theorem separated_append (line part : List Char) (parts : List (List Char)) :
    separated ((line ++ part) :: parts) = line ++ separated (part :: parts) := by
  cases parts with
  | nil => simp [separated_singleton]
  | cons next parts => simp [separated_cons]

/-! ## Parts of a container -/

variable {α : Type} {item : Reader α} {enclosure : Enclosure} {P : List Char → Prop}

/-- What a reader takes has a property, with or without layout around it. -/
structure Takes (item : Reader α) (P : List Char → Prop) : Prop where
  taken : ∀ {text rest : List Char} {value : α}, item.run text = .ok (value, rest) →
    ∃ token, text = token ++ rest ∧ P token
  padded : ∀ {before token after : List Char}, Blanks before → P token → Blanks after →
    P (before ++ (token ++ after))

theorem exists_parts_of_readItems (takes : Takes item P) {values : List α}
    (read : readItems item enclosure text = .ok (values, rest)) :
    ∃ part parts, (∀ other ∈ part :: parts, P other) ∧
      text = separated (part :: parts) ++ enclosure.close :: rest := by
  fun_induction readItems item enclosure text generalizing values with
  | case1 => cases read
  | case2 => cases read
  | case3 text value more found last closed =>
    cases read
    obtain ⟨token, rfl, derived⟩ := takes.taken found
    obtain ⟨line, blank, split⟩ := exists_blanks more
    refine ⟨token ++ line, [], ?_, ?_⟩
    · simpa using takes.padded blanks_nil derived blank
    · rw [separated_singleton, List.append_assoc, ← skipLayout_of_close closed, ← split]
  | case4 text value more found _ separated _ ih =>
    obtain ⟨inner, innerRead, -⟩ := mapValue_eq_ok_iff.mp read
    obtain ⟨part, parts, all, split⟩ := ih innerRead
    obtain ⟨tail, next, rfl⟩ := skipLayout_of_comma separated
    obtain ⟨token, rfl, derived⟩ := takes.taken found
    obtain ⟨line, blank, before⟩ := exists_blanks more
    obtain ⟨inside, blankInside, after⟩ := exists_blanks tail
    have here : P (token ++ line) := by simpa using takes.padded blanks_nil derived blank
    have there : P (inside ++ part) := by
      simpa using takes.padded blankInside (all part List.mem_cons_self) blanks_nil
    refine ⟨token ++ line, (inside ++ part) :: parts, ?_, ?_⟩
    · simp only [List.forall_mem_cons] at all ⊢
      exact ⟨here, there, all.2⟩
    · rw [separated_cons, separated_append]
      simp only [List.append_assoc, List.cons_append]
      rw [← split, ← after, ← next, ← before]

/-- A container is empty, or it holds parts with commas between them. -/
theorem exists_parts_of_readEnclosed (takes : Takes item P) {values : List α}
    (read : readEnclosed item enclosure text = .ok (values, rest)) :
    (∃ inside, Blanks inside ∧ text = inside ++ enclosure.close :: rest) ∨
      ∃ part parts, (∀ other ∈ part :: parts, P other) ∧
        text = separated (part :: parts) ++ enclosure.close :: rest := by
  obtain ⟨line, blank, split⟩ := exists_blanks text
  unfold readEnclosed at read
  split at read
  · cases read
  · rename_i c tail next
    split at read
    · rename_i close
      cases read
      exact .inl ⟨line, blank, by rw [← close, ← next]; exact split⟩
    · obtain ⟨part, parts, all, inner⟩ := exists_parts_of_readItems takes read
      have first := takes.padded blank (all part List.mem_cons_self) blanks_nil
      rw [List.append_nil] at first
      refine .inr ⟨line ++ part, parts, ?_, ?_⟩
      · simp only [List.forall_mem_cons] at all ⊢
        exact ⟨first, all.2⟩
      · rw [separated_append, List.append_assoc, ← inner, ← next]
        exact split

/-- Choices for the members of a list make a list. -/
theorem exists_map_eq {α β : Type} {f : β → α} {q : β → Prop} {list : List α}
    (each : ∀ x ∈ list, ∃ y, f y = x ∧ q y) : ∃ ys : List β, ys.map f = list ∧ ∀ y ∈ ys, q y := by
  induction list with
  | nil => exact ⟨[], rfl, List.forall_mem_nil _⟩
  | cons x list ih =>
    rw [List.forall_mem_cons] at each
    obtain ⟨⟨y, rfl, holds⟩, others⟩ := each
    obtain ⟨ys, rfl, all⟩ := ih others
    exact ⟨y :: ys, rfl, List.forall_mem_cons.mpr ⟨holds, all⟩⟩

/-! ## Values and members -/

/-- A text of a value with at most `levels` containers around one another. -/
def ValueText (levels : Nat) (text : List Char) : Prop :=
  ∃ tree, Derives text tree ∧ Nests levels tree

/-- A text of a member with such a value. -/
def MemberText (levels : Nat) (text : List Char) : Prop :=
  ∃ part : Member, part.chars = text ∧ part.Keyed ∧ Derives part.text part.value ∧
    Nests levels part.value

variable {levels : Nat}

theorem ValueText.padded {before after : List Char} (blankBefore : Blanks before)
    (value : ValueText levels text) (blankAfter : Blanks after) :
    ValueText levels (before ++ (text ++ after)) := by
  obtain ⟨tree, derived, nests⟩ := value
  exact ⟨tree, .padded blankBefore derived blankAfter, nests⟩

theorem MemberText.padded {before after : List Char} (blankBefore : Blanks before)
    (member : MemberText levels text) (blankAfter : Blanks after) :
    MemberText levels (before ++ (text ++ after)) := by
  obtain ⟨part, rfl, keyed, derived, nests⟩ := member
  refine ⟨{ part with before := before ++ part.before, text := [] ++ (part.text ++ after) }, ?_,
    ⟨blankBefore.append keyed.before, keyed.key, keyed.after⟩,
    .padded blanks_nil derived blankAfter, nests⟩
  simp [Member.chars]

theorem memberText_of_run {value : Reader Json} (takes : Takes value (ValueText levels))
    {field : String × Json} (read : (memberReader value).run text = .ok (field, rest)) :
    ∃ token, text = token ++ rest ∧ MemberText levels token := by
  obtain ⟨quoted, key, afterKey, afterColon, rfl, keyRead, colonRead, valueRead, -⟩ :=
    exists_of_memberReader read
  obtain ⟨body, rfl, string⟩ := decode_eq_ok_iff.mp keyRead
  obtain ⟨token, rfl, tree, derived, nests⟩ := takes.taken valueRead
  obtain ⟨line, blank, split⟩ := exists_blanks afterKey
  rw [next_of_readColon colonRead] at split
  refine ⟨_, ?_, ⟨[], body, line, token, String.ofList key, tree⟩, rfl,
    ⟨blanks_nil, by simpa using string, blank⟩, derived, nests⟩
  rw [split]
  simp [Member.chars]

theorem takes_memberReader {value : Reader Json} (takes : Takes value (ValueText levels)) :
    Takes (memberReader value) (MemberText levels) :=
  ⟨memberText_of_run takes, MemberText.padded⟩

/-- Members between braces are an object. -/
theorem valueText_of_members {part : List Char} {parts : List (List Char)}
    (all : ∀ other ∈ part :: parts, MemberText levels other) :
    ValueText (levels + 1) ('{' :: (separated (part :: parts) ++ ['}'])) := by
  obtain ⟨members, same, each⟩ := exists_map_eq all
  have nonempty : members ≠ [] := by
    rintro rfl
    cases same
  refine ⟨.object (members.map Member.field), ?_, .object ?_⟩
  · rw [← same]
    exact .object nonempty (fun other member => (each other member).1)
      fun other member => (each other member).2.1
  · intro field member
    obtain ⟨other, inside, rfl⟩ := List.mem_map.mp member
    exact (each other inside).2.2

theorem valueText_of_items {part : List Char} {parts : List (List Char)}
    (all : ∀ other ∈ part :: parts, ValueText levels other) :
    ValueText (levels + 1) ('[' :: (separated (part :: parts) ++ [']'])) := by
  have chosen : ∀ other ∈ part :: parts, ∃ pair : List Char × Json, pair.1 = other ∧
      Derives pair.1 pair.2 ∧ Nests levels pair.2 := by
    intro other member
    obtain ⟨tree, derived, nests⟩ := all other member
    exact ⟨(other, tree), rfl, derived, nests⟩
  obtain ⟨pairs, same, each⟩ := exists_map_eq chosen
  have nonempty : pairs ≠ [] := by
    rintro rfl
    cases same
  refine ⟨.array (pairs.map (·.2)), ?_, .array ?_⟩
  · rw [← same]
    exact .array nonempty fun other member => (each other member).1
  · intro item member
    obtain ⟨other, inside, rfl⟩ := List.mem_map.mp member
    exact (each other inside).2

/-! ## Objects and values -/

/-- An object that is taken for a number is one member with a string. -/
theorem memberText_of_tagged {afterTag : List Char} {number : Number}
    (tagged : tagged? text = some afterTag) (read : readTagged afterTag = .ok (number, rest)) :
    ∃ token, text = token ++ '}' :: rest ∧ MemberText levels token := by
  obtain ⟨quoted, next, keyRead⟩ := exists_of_tagged? tagged
  obtain ⟨afterColon, afterText, colonRead, textRead, close⟩ := exists_of_readTagged read
  obtain ⟨inner, digits, nextText, digitsRead, -⟩ := exists_of_readNumberText textRead
  obtain ⟨key, rfl, keyString⟩ := decode_eq_ok_iff.mp keyRead
  obtain ⟨body, rfl, string⟩ := decode_eq_ok_iff.mp digitsRead
  obtain ⟨before, blankBefore, splitBefore⟩ := exists_blanks text
  obtain ⟨after, blankAfter, splitAfter⟩ := exists_blanks afterTag
  obtain ⟨front, blankFront, splitFront⟩ := exists_blanks afterColon
  obtain ⟨back, blankBack, splitBack⟩ := exists_blanks afterText
  have value : Derives ('"' :: (body ++ ['"'])) (.string (String.ofList digits)) :=
    .string (by simpa using string)
  refine ⟨_, ?_, ⟨before, key, after, front ++ ('"' :: (body ++ ['"']) ++ back), numberTag,
    .string (String.ofList digits)⟩, rfl, ⟨blankBefore, keyString, blankAfter⟩,
    .padded blankFront value blankBack, .string _⟩
  rw [splitBefore, next, splitAfter, next_of_readColon colonRead, splitFront, nextText, splitBack,
    close]
  simp [Member.chars]

/-- What an object reader takes, after the opening brace. -/
theorem valueText_of_objectAt {value : Reader Json} (takes : Takes value (ValueText levels))
    {found : Json} (object : ObjectAt value text found rest) :
    ∃ token, text = token ++ rest ∧ ValueText (levels + 1) ('{' :: token) := by
  cases object with
  | tagged tagged read =>
    obtain ⟨token, split, member⟩ : ∃ token, text = token ++ '}' :: rest ∧
      MemberText levels token := memberText_of_tagged tagged read
    have whole : ValueText (levels + 1) ('{' :: (separated [token] ++ ['}'])) :=
      valueText_of_members (by simpa using member)
    rw [separated_singleton] at whole
    exact ⟨token ++ ['}'], by simp [split], whole⟩
  | fields _ read =>
    rcases exists_parts_of_readEnclosed (takes_memberReader takes) read with
      ⟨inside, blank, rfl⟩ | ⟨part, parts, all, rfl⟩
    · exact ⟨inside ++ ['}'], by simp [objectEnclosure], .object [], .emptyObject blank,
        .object (List.forall_mem_nil _)⟩
    · exact ⟨separated (part :: parts) ++ ['}'], by simp [objectEnclosure],
        valueText_of_members all⟩

theorem derives_of_scalarAt {scalar : Scalar} (found : ScalarAt text scalar rest) :
    ∃ token, text = token ++ rest ∧ ValueText levels token := by
  cases found with
  | null split => exact ⟨_, split, _, .null, .null⟩
  | isTrue split => exact ⟨_, split, _, .isTrue, .bool true⟩
  | isFalse split => exact ⟨_, split, _, .isFalse, .bool false⟩
  | number read =>
    obtain ⟨token, rfl, derived⟩ := numberToken_of_read read
    exact ⟨token, rfl, _, .number derived, .number _⟩

/-- What a value reader takes, if it takes values one level deeper as parts. -/
theorem valueText_of_valueAt {inner : Option (Reader Json)}
    (parts : ∀ value, inner = some value → ∃ fewer, levels = fewer + 1 ∧
      Takes value (ValueText fewer)) {found : Json} (read : ValueAt inner text found rest) :
    ∃ token, text = token ++ rest ∧ ValueText levels token := by
  -- Layout in front of the value goes into its text.
  have front : ∀ token, skipLayout text = token ++ rest → ValueText levels token →
      ∃ whole, text = whole ++ rest ∧ ValueText levels whole := by
    rintro token next ⟨tree, derived, nests⟩
    obtain ⟨whole, split, derived⟩ := exists_of_skipLayout next derived
    exact ⟨whole, split, tree, derived, nests⟩
  cases read with
  | @string quoted characters _ next read =>
    obtain ⟨body, rfl, string⟩ := decode_eq_ok_iff.mp read
    refine front ('"' :: (body ++ ['"'])) (by simpa using next)
      ⟨.string (String.ofList characters), .string ?_, .string _⟩
    simpa using string
  | array next isInner read =>
    obtain ⟨fewer, rfl, takes⟩ := parts _ isInner
    rcases exists_parts_of_readEnclosed takes read with
      ⟨inside, blank, rfl⟩ | ⟨part, others, all, rfl⟩
    · exact front ('[' :: (inside ++ [']'])) (by simpa [listEnclosure] using next)
        ⟨_, .emptyArray blank, .array (List.forall_mem_nil _)⟩
    · exact front _ (by simpa [listEnclosure] using next) (valueText_of_items all)
  | object next isInner object =>
    obtain ⟨fewer, rfl, takes⟩ := parts _ isInner
    obtain ⟨token, rfl, value⟩ := valueText_of_objectAt takes object
    exact front _ next value
  | scalar found =>
    obtain ⟨token, next, value⟩ := derives_of_scalarAt found
    exact front _ next value

theorem takes_valueReader (levels : Nat) : Takes (valueReader levels) (ValueText levels) := by
  refine ⟨?_, ValueText.padded⟩
  induction levels with
  | zero =>
    intro text rest value read
    rw [run_eq] at read
    exact valueText_of_valueAt (by simp [partReader?]) (valueAt_of_readValue read)
  | succ levels ih =>
    intro text rest value read
    rw [run_eq] at read
    refine valueText_of_valueAt ?_ (valueAt_of_readValue read)
    rintro _ ⟨⟩
    exact ⟨levels, rfl, ih, ValueText.padded⟩

/-- A whole text that is read is a text of the grammar. -/
theorem derives_of_parse {text : String} {found : Json} (read : parse text = .ok found) :
    ∃ tree, Derives text.toList tree ∧ Nests nestingLimit tree := by
  obtain ⟨rest, run, ends⟩ := exists_of_parse read
  obtain ⟨token, split, tree, derived, nests⟩ := (takes_valueReader nestingLimit).taken run
  obtain ⟨line, blank, last⟩ := exists_blanks rest
  rw [ends, List.append_nil] at last
  refine ⟨tree, ?_, nests⟩
  have whole := Derives.padded blanks_nil derived (last ▸ blank)
  rw [split]
  simpa using whole

end KeyInstall.Json.Grammar
