import KeyInstall.Json.Parser

/-!
# Readings that succeed

What each reader has found when it gives a value, said once: the statements about
values that are read are case analyses over these, so they do not look into the
readers again.
-/

namespace KeyInstall.Json

variable {text rest : List Char}

/-! ## Colons and members -/

theorem next_of_readColon (read : readColon text = .ok rest) : skipLayout text = ':' :: rest := by
  unfold readColon at read
  split at read
  · simp at read
  · rename_i c more next
    split at read
    · rename_i colon
      simp only [Except.ok.injEq] at read
      rw [next, colon, read]
    · simp at read

/-- A member is a key in quotes, a colon and what the reader of its value takes. -/
theorem exists_of_memberReader {value : Reader Json} {member : String × Json}
    (read : (memberReader value).run text = .ok (member, rest)) :
    ∃ quoted key afterKey afterColon, text = '"' :: quoted ∧
      Quoted.decode quoted = .ok (key, afterKey) ∧ readColon afterKey = .ok afterColon ∧
      value.run afterColon = .ok (member.2, rest) ∧ member.1 = String.ofList key := by
  replace read : readMember value text = .ok (member, rest) := read
  unfold readMember at read
  split at read
  · simp at read
  · rename_i c quoted
    split at read
    · rename_i quote
      obtain ⟨⟨key, afterKey⟩, keyRead, read⟩ := bind_eq_ok_iff.mp read
      obtain ⟨afterColon, colonRead, read⟩ := bind_eq_ok_iff.mp read
      obtain ⟨⟨found, afterValue⟩, valueRead, read⟩ := bind_eq_ok_iff.mp read
      simp only [pure, Except.pure, Except.ok.injEq, Prod.mk.injEq] at read
      obtain ⟨rfl, rfl⟩ := read
      exact ⟨quoted, key, afterKey, afterColon, quote ▸ rfl, keyRead, colonRead, valueRead, rfl⟩
    · simp at read

/-! ## Literals and numbers -/

theorem eq_of_readLetters {letters : List Char} (read : readLetters letters text = .ok rest) :
    text = letters ++ rest := by
  fun_induction readLetters letters text with
  | case1 => simp_all
  | case2 => simp at read
  | case3 => simp_all
  | case4 => simp at read

/-- How a literal or a number stands at the front of a text. -/
inductive ScalarAt (text : List Char) : Scalar → List Char → Prop
  | null {rest : List Char} : text = ['n', 'u', 'l', 'l'] ++ rest → ScalarAt text .null rest
  | isTrue {rest : List Char} : text = ['t', 'r', 'u', 'e'] ++ rest → ScalarAt text (.bool true) rest
  | isFalse {rest : List Char} : text = ['f', 'a', 'l', 's', 'e'] ++ rest → ScalarAt text (.bool false) rest
  | number {value : Number} {rest : List Char} : Number.read text = .ok (value, rest) →
      ScalarAt text (.number value) rest

theorem scalarAt_of_readScalar {c : Char} {scalar : Scalar}
    (read : readScalar c text = .ok (scalar, rest)) : ScalarAt (c :: text) scalar rest := by
  unfold readScalar at read
  split at read
  · rename_i letter
    obtain ⟨more, found, equal⟩ := map_eq_ok_iff.mp read
    cases equal
    exact .null (by rw [letter, eq_of_readLetters found]; rfl)
  · split at read
    · rename_i letter
      obtain ⟨more, found, equal⟩ := map_eq_ok_iff.mp read
      cases equal
      exact .isTrue (by rw [letter, eq_of_readLetters found]; rfl)
    · split at read
      · rename_i letter
        obtain ⟨more, found, equal⟩ := map_eq_ok_iff.mp read
        cases equal
        exact .isFalse (by rw [letter, eq_of_readLetters found]; rfl)
      · split at read
        · obtain ⟨value, found, rfl⟩ := mapValue_eq_ok_iff.mp read
          exact .number found
        · simp at read

/-! ## Tagged numbers -/

theorem exists_of_tagged? (found : tagged? text = some rest) :
    ∃ quoted, skipLayout text = '"' :: quoted ∧
      Quoted.decode quoted = .ok (numberTag.toList, rest) := by
  unfold tagged? at found
  split at found
  · simp at found
  · rename_i c quoted next
    split at found
    · rename_i quote
      split at found
      · rename_i keyRead
        split at found
        · rename_i tag
          simp only [Option.some.injEq] at found
          exact ⟨quoted, quote ▸ next, tag ▸ found ▸ keyRead⟩
        · simp at found
      · simp at found
    · simp at found

theorem exists_of_readNumberText {value : Number}
    (read : readNumberText text = .ok (value, rest)) :
    ∃ quoted digits, skipLayout text = '"' :: quoted ∧
      Quoted.decode quoted = .ok (digits, rest) ∧ Number.ofText digits = .ok value := by
  unfold readNumberText at read
  split at read
  · simp at read
  · rename_i c quoted next
    split at read
    · rename_i quote
      obtain ⟨⟨digits, after⟩, digitsRead, read⟩ := bind_eq_ok_iff.mp read
      simp only [pure, Except.pure] at read
      split at read
      · rename_i found
        simp only [Except.ok.injEq, Prod.mk.injEq] at read
        obtain ⟨rfl, rfl⟩ := read
        exact ⟨quoted, digits, quote ▸ next, digitsRead, found⟩
      · simp at read
    · split at read
      · simp at read
      · split at read
        · simp at read
        · obtain ⟨scalar, -, read⟩ := bind_eq_ok_iff.mp read
          simp at read

/-- After the tag come a colon, the text of the number and the end of the object. -/
theorem exists_of_readTagged {value : Number} (read : readTagged text = .ok (value, rest)) :
    ∃ afterColon afterText, readColon text = .ok afterColon ∧
      readNumberText afterColon = .ok (value, afterText) ∧ skipLayout afterText = '}' :: rest := by
  obtain ⟨afterColon, colonRead, read⟩ := bind_eq_ok_iff.mp read
  obtain ⟨⟨found, afterText⟩, textRead, read⟩ := bind_eq_ok_iff.mp read
  simp only [pure, Except.pure] at read
  split at read
  · simp at read
  · rename_i c more next
    split at read
    · rename_i close
      simp only [Except.ok.injEq, Prod.mk.injEq] at read
      obtain ⟨rfl, rfl⟩ := read
      exact ⟨afterColon, afterText, colonRead, textRead, close ▸ next⟩
    · split at read <;> simp at read

/-! ## Values -/

/-- How an object goes on after its opening bracket. -/
inductive ObjectAt (value : Reader Json) (text : List Char) : Json → List Char → Prop
  | tagged {afterTag rest : List Char} {number : Number} : tagged? text = some afterTag →
      readTagged afterTag = .ok (number, rest) → ObjectAt value text (.number number) rest
  | fields {members : List (String × Json)} {rest : List Char} : tagged? text = none →
      readEnclosed (memberReader value) objectEnclosure text = .ok (members, rest) →
      ObjectAt value text (.object (Table.ofSettings members)) rest

theorem objectAt_of_readObject {value : Reader Json} {found : Json}
    (read : readObject value text = .ok (found, rest)) : ObjectAt value text found rest := by
  unfold readObject at read
  split at read
  · rename_i tagged
    obtain ⟨number, taggedRead, rfl⟩ := mapValue_eq_ok_iff.mp read
    exact .tagged tagged taggedRead
  · rename_i ordinary
    obtain ⟨members, enclosedRead, rfl⟩ :=
      (mapValue_eq_ok_iff (f := fun members => Json.object (Table.ofSettings members))).mp read
    exact .fields ordinary enclosedRead

/-- How a value stands at the front of a text, after layout. -/
inductive ValueAt (inner : Option (Reader Json)) (text : List Char) : Json → List Char → Prop
  | string {quoted characters rest : List Char} : skipLayout text = '"' :: quoted →
      Quoted.decode quoted = .ok (characters, rest) →
      ValueAt inner text (.string (String.ofList characters)) rest
  | array {value : Reader Json} {items : List Json} {more rest : List Char} :
      skipLayout text = '[' :: more → inner = some value →
      readEnclosed value listEnclosure more = .ok (items, rest) →
      ValueAt inner text (.array items) rest
  | object {value : Reader Json} {found : Json} {more rest : List Char} :
      skipLayout text = '{' :: more → inner = some value →
      ObjectAt value more found rest → ValueAt inner text found rest
  | scalar {scalar : Scalar} {rest : List Char} : ScalarAt (skipLayout text) scalar rest →
      ValueAt inner text scalar.json rest

theorem valueAt_of_readValue {inner : Option (Reader Json)} {found : Json}
    (read : readValue inner text = .ok (found, rest)) : ValueAt inner text found rest := by
  unfold readValue at read
  split at read
  · simp at read
  · rename_i c more next
    split at read
    · rename_i quote
      obtain ⟨characters, stringRead, rfl⟩ :=
        (mapValue_eq_ok_iff (f := fun text => Json.string (String.ofList text))).mp read
      exact .string (quote ▸ next) stringRead
    · split at read
      · rename_i opens
        split at read
        · simp at read
        · obtain ⟨items, listRead, rfl⟩ := mapValue_eq_ok_iff.mp read
          exact .array (opens ▸ next) rfl listRead
      · split at read
        · rename_i opens
          split at read
          · simp at read
          · exact .object (opens ▸ next) rfl (objectAt_of_readObject read)
        · obtain ⟨scalar, scalarRead, rfl⟩ := mapValue_eq_ok_iff.mp read
          exact .scalar (next ▸ scalarAt_of_readScalar scalarRead)

/-- A text that is read holds one value, and layout after it. -/
theorem exists_of_parse {text : String} {found : Json} (read : parse text = .ok found) :
    ∃ rest, (valueReader nestingLimit).run text.toList = .ok (found, rest) ∧
      skipLayout rest = [] := by
  unfold parse at read
  cases result : readText text.toList with
  | error fault =>
    rw [result] at read
    cases read
  | ok value =>
    rw [result] at read
    cases read
    obtain ⟨⟨inner, rest⟩, valueRead, result⟩ := bind_eq_ok_iff.mp result
    simp only [pure, Except.pure] at result
    split at result
    · rename_i ends
      cases result
      exact ⟨rest, valueRead, ends⟩
    · simp at result

end KeyInstall.Json
