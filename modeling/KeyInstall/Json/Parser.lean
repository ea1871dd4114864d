import KeyInstall.Json.Basic
import KeyInstall.Json.Quoted
import KeyInstall.Json.Reader
import KeyInstall.Json.Scalar
import KeyInstall.Json.Tagged

/-!
# Reading a JSON text

`Json.parse` reads a text that holds one value. Containers may be nested up to
`nestingLimit` deep: the reader of a value is built level by level, each level
from the reader of the values inside its containers, so its recursion is over
the levels that are left.
-/

namespace KeyInstall.Json

/-- The number of containers that may enclose one another. -/
def nestingLimit : Nat := 127

/-- How lists are written. -/
def listEnclosure : Enclosure := ⟨']', .endOfList, .expectedListSeparator⟩

/-- How objects are written. -/
def objectEnclosure : Enclosure := ⟨'}', .endOfObject, .expectedObjectSeparator⟩

/-! ## Fields -/

/-- A key with its value: the text begins with the key's quote. -/
def readMember (value : Reader Json) :
    List Char → Except Fault ((String × Json) × List Char)
  | [] => .error ⟨.endOfValue, .before []⟩
  | c :: rest =>
    if c = '"' then do
      let (key, rest) ← Quoted.decode rest
      let rest ← readColon rest
      let (found, rest) ← value.run rest
      return ((String.ofList key, found), rest)
    else .error ⟨.keyNotString, .before (c :: rest)⟩

theorem length_readMember {value : Reader Json} {text rest : List Char}
    {member : String × Json} (read : readMember value text = .ok (member, rest)) :
    rest.length < text.length := by
  unfold readMember at read
  split at read
  · simp at read
  · split at read
    · obtain ⟨⟨key, afterKey⟩, keyRead, read⟩ := bind_eq_ok_iff.mp read
      obtain ⟨afterColon, colonRead, read⟩ := bind_eq_ok_iff.mp read
      obtain ⟨⟨found, afterValue⟩, valueRead, read⟩ := bind_eq_ok_iff.mp read
      have first := Quoted.length_decode keyRead
      have second := length_readColon colonRead
      have third := value.shorter valueRead
      simp only [pure, Except.pure, Except.ok.injEq, Prod.mk.injEq] at read
      rw [← read.2, List.length_cons]
      omega
    · simp at read

/-- The reader of a key with its value. -/
def memberReader (value : Reader Json) : Reader (String × Json) :=
  ⟨readMember value, length_readMember⟩

/-! ## Values -/

/-- The object that follows an opening bracket. -/
def readObject (value : Reader Json) (text : List Char) : Except Fault (Json × List Char) :=
  match tagged? text with
  | some rest => (readTagged rest).map fun (found, more) => (.number found, more)
  | none =>
    (readEnclosed (memberReader value) objectEnclosure text).map
      fun (members, more) => (.object (Table.ofSettings members), more)

/-- A value whose containers hold what `inner` reads. Without `inner` no
container may be opened any more. -/
def readValue (inner : Option (Reader Json)) (text : List Char) :
    Except Fault (Json × List Char) :=
  match skipLayout text with
  | [] => .error ⟨.endOfValue, .before []⟩
  | c :: rest =>
    if c = '"' then
      (Quoted.decode rest).map fun (found, more) => (.string (String.ofList found), more)
    else if c = '[' then
      match inner with
      | none => .error ⟨.nestingLimit, .before (c :: rest)⟩
      | some value =>
        (readEnclosed value listEnclosure rest).map fun (items, more) => (.array items, more)
    else if c = '{' then
      match inner with
      | none => .error ⟨.nestingLimit, .before (c :: rest)⟩
      | some value => readObject value rest
    else (readScalar c rest).map fun (scalar, more) => (scalar.json, more)

theorem length_readObject {value : Reader Json} {text rest : List Char} {found : Json}
    (read : readObject value text = .ok (found, rest)) : rest.length < text.length := by
  unfold readObject at read
  split at read
  · rename_i tail tagged
    obtain ⟨number, taggedRead, -⟩ := mapValue_eq_ok_iff.mp read
    have first := length_tagged tagged
    have second := length_readTagged taggedRead
    omega
  · obtain ⟨members, enclosedRead, -⟩ :=
      (mapValue_eq_ok_iff (f := fun members => Json.object (Table.ofSettings members))).mp read
    exact length_readEnclosed enclosedRead

theorem length_readValue {inner : Option (Reader Json)} {text rest : List Char} {found : Json}
    (read : readValue inner text = .ok (found, rest)) : rest.length < text.length := by
  have layout := length_skipLayout text
  unfold readValue at read
  split at read
  · simp at read
  · rename_i c tail next
    rw [next, List.length_cons] at layout
    split at read
    · obtain ⟨text, stringRead, -⟩ :=
        (mapValue_eq_ok_iff (f := fun text => Json.string (String.ofList text))).mp read
      have := Quoted.length_decode stringRead
      omega
    · split at read
      · split at read
        · simp at read
        · obtain ⟨items, listRead, -⟩ := mapValue_eq_ok_iff.mp read
          have := length_readEnclosed listRead
          omega
      · split at read
        · split at read
          · simp at read
          · have := length_readObject read
            omega
        · obtain ⟨scalar, scalarRead, -⟩ := mapValue_eq_ok_iff.mp read
          have := length_readScalar scalarRead
          omega

/-- The reader of a value inside which `levels` containers may enclose one
another. -/
def valueReader : Nat → Reader Json
  | 0 => ⟨readValue none, length_readValue⟩
  | levels + 1 => ⟨readValue (some (valueReader levels)), length_readValue⟩

/-! ## Texts -/

/-- The value that a text consists of, with layout around it. -/
def readText (text : List Char) : Except Fault Json := do
  let (value, rest) ← (valueReader nestingLimit).run text
  match skipLayout rest with
  | [] => return value
  | c :: more => .error ⟨.trailingCharacters, .before (c :: more)⟩

/-- Reads a text, or says where and why it is no JSON. -/
def parse (text : String) : Except ParseError Json :=
  (readText text.toList).mapError (Fault.report text.toList)

end KeyInstall.Json
