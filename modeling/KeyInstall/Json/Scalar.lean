import KeyInstall.Json.Basic
import KeyInstall.Json.Number

/-!
# Values without brackets or quotes

The three literals and the numbers: values that a text shows by their first
character and that need no closing mark.
-/

namespace KeyInstall.Json

/-- A literal or a number. -/
inductive Scalar where
  | null
  | bool (value : Bool)
  | number (value : Number)

/-- A scalar as a value. -/
def Scalar.json : Scalar → Json
  | .null => .null
  | .bool value => .bool value
  | .number value => .number value

/-- A scalar in the place of a number's text. -/
def Scalar.misplaced : Scalar → Misplaced
  | .null => .null
  | .bool value => .boolean value
  | .number value => if value.fitsInteger then .integer value.text else .number

/-- The text goes on with the given letters. -/
def readLetters : List Char → List Char → Except Fault (List Char)
  | [], text => .ok text
  | _ :: _, [] => .error (.atEnd .endOfValue)
  | letter :: letters, c :: rest =>
    if c = letter then readLetters letters rest
    else .error ⟨.expectedIdent, .after (c :: rest) 1⟩

/-- The literal or number that begins with `c`. -/
def readScalar (c : Char) (rest : List Char) : Except Fault (Scalar × List Char) :=
  if c = 'n' then (readLetters ['u', 'l', 'l'] rest).map fun more => (.null, more)
  else if c = 't' then (readLetters ['r', 'u', 'e'] rest).map fun more => (.bool true, more)
  else if c = 'f' then
    (readLetters ['a', 'l', 's', 'e'] rest).map fun more => (.bool false, more)
  else if Number.starts c then
    (Number.read (c :: rest)).map fun (value, more) => (.number value, more)
  else .error ⟨.expectedValue, .before (c :: rest)⟩

/-! ## Progress -/

theorem length_readLetters {letters text rest : List Char}
    (read : readLetters letters text = .ok rest) : rest.length ≤ text.length := by
  fun_induction readLetters letters text with
  | case1 => simp_all
  | case2 => simp at read
  | case3 _ _ _ ih =>
    have := ih read
    simp only [List.length_cons]
    omega
  | case4 => simp at read

theorem length_readScalar {c : Char} {text rest : List Char} {scalar : Scalar}
    (read : readScalar c text = .ok (scalar, rest)) : rest.length ≤ text.length := by
  have letters : ∀ {word : List Char} {found : Scalar},
      (readLetters word text).map (fun more => (found, more)) = .ok (scalar, rest) →
        rest.length ≤ text.length := by
    intro word found mapped
    obtain ⟨more, lettersRead, equal⟩ := map_eq_ok_iff.mp mapped
    simp only [Prod.mk.injEq] at equal
    rw [← equal.2]
    exact length_readLetters lettersRead
  unfold readScalar at read
  split at read
  · exact letters read
  · split at read
    · exact letters read
    · split at read
      · exact letters read
      · split at read
        · obtain ⟨value, numberRead, -⟩ := mapValue_eq_ok_iff.mp read
          have := Number.length_read numberRead
          rw [List.length_cons] at this
          omega
        · simp at read

end KeyInstall.Json
