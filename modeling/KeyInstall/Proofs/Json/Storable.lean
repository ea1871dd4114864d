import KeyInstall.Proofs.Json.Enclosed
import KeyInstall.Proofs.Json.Readings
import KeyInstall.Proofs.Table

/-!
# Values that can be stored

Not every value survives being written and read: a number with idle zeros, an
object with a key twice, an object whose first key is `numberTag` and a nesting
that is too deep all come back as something else, or not at all.
`Storable levels value` rules these out, and it holds of every value that a
reader gives (`storable_of_parse`) and of everything that is put into such a
value field by field (`StorableFields.set`). Such a value is also the same as
itself when it is compared as data (`Storable.same_self`).
-/

namespace KeyInstall.Json

/-! ## The invariant -/

/-- A value that comes back when it is written and read with `levels` containers
allowed around its parts. -/
inductive Storable : Nat → Json → Prop
  | null {levels} : Storable levels .null
  | bool {levels} (value : Bool) : Storable levels (.bool value)
  | number {levels} {value : Number} : value.Grammatical → Storable levels (.number value)
  | string {levels} (text : String) : Storable levels (.string text)
  | array {levels} {items : List Json} :
      (∀ item ∈ items, Storable levels item) → Storable (levels + 1) (.array items)
  | object {levels} {fields : Table String Json} : (Table.keys fields).Nodup →
      (Table.keys fields).head? ≠ some numberTag →
      (∀ field ∈ fields, Storable levels field.2) → Storable (levels + 1) (.object fields)

/-- The fields of an object that can be stored. -/
structure StorableFields (levels : Nat) (fields : Table String Json) : Prop where
  distinct : (Table.keys fields).Nodup
  untagged : (Table.keys fields).head? ≠ some numberTag
  values : ∀ field ∈ fields, Storable levels field.2

theorem StorableFields.object {levels : Nat} {fields : Table String Json}
    (storable : StorableFields levels fields) : Storable (levels + 1) (.object fields) :=
  .object storable.distinct storable.untagged storable.values

theorem Storable.fields {levels : Nat} {fields : Table String Json}
    (storable : Storable (levels + 1) (.object fields)) : StorableFields levels fields := by
  cases storable with
  | object distinct untagged values => exact ⟨distinct, untagged, values⟩

theorem StorableFields.nil (levels : Nat) : StorableFields levels [] :=
  ⟨List.nodup_nil, by simp [Table.keys], by simp⟩

/-- Any key but the tag may be given any value that can be stored. -/
theorem StorableFields.set {levels : Nat} {fields : Table String Json}
    (storable : StorableFields levels fields) {key : String} (ordinary : key ≠ numberTag)
    {value : Json} (stored : Storable levels value) :
    StorableFields levels (Table.set key value fields) := by
  refine ⟨Table.nodup_keys_set storable.distinct, ?_, ?_⟩
  · rw [Table.head?_keys_set]
    have untagged := storable.untagged
    cases first : (Table.keys fields).head? with
    | none => simpa using ordinary
    | some name =>
      rw [first] at untagged
      exact untagged
  · intro field member
    rcases Table.mem_set member with rfl | member
    · exact stored
    · exact storable.values field member

/-- What is found under a key can be stored one level deeper. -/
theorem StorableFields.get? {levels : Nat} {fields : Table String Json}
    (storable : StorableFields levels fields) {key : String} {value : Json}
    (found : Table.get? key fields = some value) : Storable levels value :=
  storable.values (key, value) (Table.mem_of_get? found)

/-! ## Compared as data -/

theorem sameItems_self {items : List Json} (same : ∀ item ∈ items, Json.same item item = true) :
    sameItems items items = true := by
  induction items with
  | nil => rfl
  | cons item items ih =>
    rw [sameItems, same item List.mem_cons_self, Bool.true_and]
    exact ih fun other member => same other (List.mem_cons_of_mem _ member)

/-- Fields that a table has under their own keys are the same there. -/
theorem sameFields_of_get? {fields : List (String × Json)} {table : Table String Json}
    (found : ∀ field ∈ fields, Table.get? field.1 table = some field.2)
    (same : ∀ field ∈ fields, Json.same field.2 field.2 = true) :
    sameFields fields table = true := by
  induction fields with
  | nil => rfl
  | cons field fields ih =>
    obtain ⟨key, value⟩ := field
    rw [sameFields, found (key, value) List.mem_cons_self]
    simp only [same (key, value) List.mem_cons_self, Bool.true_and]
    exact ih (fun other member => found other (List.mem_cons_of_mem _ member))
      (fun other member => same other (List.mem_cons_of_mem _ member))

/-- A value that can be stored is the same as itself: none of its keys hides
another field with that key. -/
theorem Storable.same_self {levels : Nat} {value : Json} (storable : Storable levels value) :
    value.same value = true := by
  induction storable with
  | null => rfl
  | bool value => simp [Json.same]
  | number grammatical => simp [Json.same]
  | string text => simp [Json.same]
  | array storable ih =>
    rw [Json.same]
    exact sameItems_self ih
  | object distinct untagged storable ih =>
    rw [Json.same, beq_self_eq_true, Bool.true_and]
    exact sameFields_of_get? (fun field member => Table.get?_of_mem distinct member) ih

/-! ## What readers give -/

theorem grammatical_of_readTagged {text rest : List Char} {value : Number}
    (read : readTagged text = .ok (value, rest)) : value.Grammatical := by
  obtain ⟨afterColon, afterText, -, textRead, -⟩ := exists_of_readTagged read
  obtain ⟨quoted, digits, -, -, found⟩ := exists_of_readNumberText textRead
  exact Number.grammatical_of_ofText found

theorem storable_of_scalarAt {levels : Nat} {text rest : List Char} {scalar : Scalar}
    (found : ScalarAt text scalar rest) : Storable levels scalar.json := by
  cases found with
  | null => exact .null
  | isTrue | isFalse => exact .bool _
  | number read => exact .number (Number.grammatical_of_read read)

/-- An object that is not read as a number does not begin with the tag. -/
theorem untagged_of_readEnclosed {value : Reader Json} {text rest : List Char}
    {members : List (String × Json)} (ordinary : tagged? text = none)
    (read : readEnclosed (memberReader value) objectEnclosure text = .ok (members, rest)) :
    (Table.keys members).head? ≠ some numberTag := by
  unfold readEnclosed at read
  split at read
  · simp at read
  · rename_i c tail next
    split at read
    · simp only [Except.ok.injEq, Prod.mk.injEq] at read
      simp [← read.1, Table.keys]
    · -- The key that was looked at for the tag is the key of the first member.
      obtain ⟨first, others, after, equal, firstRead⟩ := exists_run_of_readItems read
      obtain ⟨quoted, key, afterKey, -, front, keyRead, -, -, name⟩ :=
        exists_of_memberReader firstRead
      rw [List.cons.injEq] at front
      simp only [tagged?, next, front, if_true, keyRead] at ordinary
      intro tag
      rw [equal, Table.keys, List.map_cons, List.head?_cons, Option.some.injEq, name] at tag
      have same : key = numberTag.toList := by rw [← tag, String.toList_ofList]
      simp [same] at ordinary

theorem storable_of_objectAt {levels : Nat} {value : Reader Json}
    (inner : ∀ {text rest : List Char} {found : Json},
      value.run text = .ok (found, rest) → Storable levels found)
    {text rest : List Char} {found : Json} (object : ObjectAt value text found rest) :
    Storable (levels + 1) found := by
  cases object with
  | tagged _ taggedRead => exact .number (grammatical_of_readTagged taggedRead)
  | @fields members _ ordinary enclosedRead =>
    refine .object (Table.nodup_keys_ofSettings members) ?_ ?_
    · -- A key that comes again keeps its place, so the first member stays in front.
      have untagged := untagged_of_readEnclosed ordinary enclosedRead
      cases members with
      | nil => simp [Table.ofSettings, Table.keys]
      | cons first others =>
        rw [Table.head?_keys_ofSettings]
        simpa [Table.keys] using untagged
    · intro field member
      obtain ⟨before, after, memberRead⟩ := exists_run_of_mem_readEnclosed enclosedRead field
        (Table.mem_of_mem_ofSettings member)
      obtain ⟨_, _, _, _, -, -, -, valueRead, -⟩ := exists_of_memberReader memberRead
      exact inner valueRead

/-- Without the levels below it, a reader gives what has no parts; with them,
containers of what they give. -/
theorem storable_of_readValue {levels : Nat} {inner : Option (Reader Json)}
    (below : ∀ value ∈ inner, ∃ fewer, levels = fewer + 1 ∧
      ∀ {text rest : List Char} {found : Json},
        value.run text = .ok (found, rest) → Storable fewer found)
    {text rest : List Char} {found : Json} (read : readValue inner text = .ok (found, rest)) :
    Storable levels found := by
  cases valueAt_of_readValue read with
  | string => exact .string _
  | @array value _ _ _ _ inside listRead =>
    obtain ⟨fewer, rfl, itemStorable⟩ := below value inside
    refine .array fun item member => ?_
    obtain ⟨before, after, itemRead⟩ := exists_run_of_mem_readEnclosed listRead item member
    exact itemStorable itemRead
  | @object value _ _ _ _ inside object =>
    obtain ⟨fewer, rfl, valueStorable⟩ := below value inside
    exact storable_of_objectAt valueStorable object
  | scalar found => exact storable_of_scalarAt found

/-- A reader with `levels` levels gives what can be stored in them. -/
theorem storable_of_run {levels : Nat} {text rest : List Char} {found : Json}
    (read : (valueReader levels).run text = .ok (found, rest)) : Storable levels found := by
  -- The reader of the parts has one level less.
  induction levels generalizing text rest found with
  | zero =>
    have read : readValue none text = .ok (found, rest) := read
    exact storable_of_readValue (by simp) read
  | succ levels ih =>
    have read : readValue (some (valueReader levels)) text = .ok (found, rest) := read
    refine storable_of_readValue ?_ read
    rintro value ⟨⟩
    exact ⟨levels, rfl, ih⟩

/-- What a text is read as can be stored. -/
theorem storable_of_parse {text : String} {found : Json} (read : parse text = .ok found) :
    Storable nestingLimit found := by
  obtain ⟨rest, valueRead, -⟩ := exists_of_parse read
  exact storable_of_run valueRead

end KeyInstall.Json
