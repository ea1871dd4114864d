import KeyInstall.Json.Quoted
import KeyInstall.Json.Reader
import KeyInstall.Json.Scalar

/-!
# Numbers in disguise

An object whose first key is `numberTag` is a number: the value of that key is
a string, and the string is the text of the number. Nothing else may stand in
such an object. At a later place the key is an ordinary one.
-/

namespace KeyInstall.Json

/-- The key that makes an object a number, when it comes first. -/
def numberTag : String := "$serde_json::private::Number"

/-- What follows the first key of an object, when that key is `numberTag`: the
text follows the opening bracket. -/
def tagged? (text : List Char) : Option (List Char) :=
  match skipLayout text with
  | [] => none
  | c :: rest =>
    if c = '"' then
      match Quoted.decode rest with
      | .ok (key, more) => if key = numberTag.toList then some more else none
      | .error _ => none
    else none

/-- The string that holds the text of a number. A fault of the number is placed
inside the string. -/
def readNumberText (text : List Char) : Except Fault (Number × List Char) :=
  match skipLayout text with
  | [] => .error ⟨.endOfValue, .before []⟩
  | c :: rest =>
    if c = '"' then do
      let (digits, more) ← Quoted.decode rest
      match Number.ofText digits with
      | .ok value => return (value, more)
      | .error fault => .error ⟨fault.cause, .inside (fault.site.position digits)⟩
    else if c = '[' then .error ⟨.notNumberText .sequence, .after (c :: rest) 0⟩
    else if c = '{' then .error ⟨.notNumberText .map, .after (c :: rest) 0⟩
    else do
      let (scalar, more) ← readScalar c rest
      .error ⟨.notNumberText scalar.misplaced, .after more 0⟩

/-- What follows the tag: the number, and the end of the object. -/
def readTagged (text : List Char) : Except Fault (Number × List Char) := do
  let rest ← readColon text
  let (value, rest) ← readNumberText rest
  match skipLayout rest with
  | [] => .error ⟨.endOfObject, .before []⟩
  | c :: more =>
    if c = '}' then return (value, more)
    else if c = ',' then .error ⟨.trailingComma, .before (c :: more)⟩
    else .error ⟨.trailingCharacters, .before (c :: more)⟩

/-! ## Progress -/

theorem length_tagged {text rest : List Char} (found : tagged? text = some rest) :
    rest.length < text.length := by
  have layout := length_skipLayout text
  unfold tagged? at found
  split at found
  · simp at found
  · rename_i next
    rw [next, List.length_cons] at layout
    split at found
    · split at found
      · rename_i key more keyRead
        have := Quoted.length_decode keyRead
        split at found
        · simp only [Option.some.injEq] at found
          rw [← found]
          omega
        · simp at found
      · simp at found
    · simp at found

theorem length_readNumberText {text rest : List Char} {value : Number}
    (read : readNumberText text = .ok (value, rest)) : rest.length < text.length := by
  have layout := length_skipLayout text
  unfold readNumberText at read
  split at read
  · simp at read
  · rename_i next
    rw [next, List.length_cons] at layout
    split at read
    · obtain ⟨⟨digits, more⟩, digitsRead, read⟩ := bind_eq_ok_iff.mp read
      have := Quoted.length_decode digitsRead
      simp only [pure, Except.pure] at read
      split at read
      · simp only [Except.ok.injEq, Prod.mk.injEq] at read
        rw [← read.2]
        omega
      · simp at read
    · split at read
      · simp at read
      · split at read
        · simp at read
        · obtain ⟨scalar, scalarRead, read⟩ := bind_eq_ok_iff.mp read
          simp at read

theorem length_readTagged {text rest : List Char} {value : Number}
    (read : readTagged text = .ok (value, rest)) : rest.length < text.length := by
  obtain ⟨afterColon, colonRead, read⟩ := bind_eq_ok_iff.mp read
  obtain ⟨⟨found, afterText⟩, textRead, read⟩ := bind_eq_ok_iff.mp read
  have one := length_readColon colonRead
  have two := length_readNumberText textRead
  have layout := length_skipLayout afterText
  simp only [pure, Except.pure] at read
  split at read
  · simp at read
  · rename_i next
    rw [next, List.length_cons] at layout
    split at read
    · simp only [Except.ok.injEq, Prod.mk.injEq] at read
      rw [← read.2]
      omega
    · split at read <;> simp at read

end KeyInstall.Json
