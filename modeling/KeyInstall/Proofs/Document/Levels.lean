import KeyInstall.Document
import KeyInstall.Proofs.Table

/-!
# The objects on the way down to an entry

Equations for the work that is done inside nested objects. Whether a key is
absent or holds an object makes no difference to the work, which then starts
from no fields: `Document.fieldsUnder?` says which fields it starts from, and
`within_of_fields` and `within_of_obstacle` say all that `within` does. In the
same way `writeEntry` comes down to the fields of an entry's headers, and the
entry that is written to comes down to the fields of the servers.
-/

namespace KeyInstall.Document

/-! ## Work inside an object -/

/-- The fields of the object under a key: none yet if the key is absent, and no
answer if something else than an object is there. -/
def fieldsUnder? (key : String) (fields : Table String Json) : Option (Table String Json) :=
  match Table.get? key fields with
  | none => some []
  | some value => value.fields?

variable {α : Type} {key : String} {level : Level} {fields inner : Table String Json}

theorem within_of_fields (work : Table String Json → Except Level α × Table String Json)
    (found : fieldsUnder? key fields = some inner) :
    within key level work fields =
      ((work inner).1, Table.set key (.object (work inner).2) fields) := by
  unfold fieldsUnder? at found
  unfold within
  cases here : Table.get? key fields with
  | none =>
    rw [here] at found
    cases found
    rfl
  | some value =>
    rw [here] at found
    cases value with
    | object fields =>
      cases found
      rfl
    | null | bool | number | string | array => simp [Json.fields?] at found

theorem within_of_obstacle (work : Table String Json → Except Level α × Table String Json)
    (obstacle : fieldsUnder? key fields = none) :
    within key level work fields = (.error level, fields) := by
  unfold fieldsUnder? at obstacle
  unfold within
  cases here : Table.get? key fields with
  | none => simp [here] at obstacle
  | some value =>
    rw [here] at obstacle
    cases value with
    | object fields => simp [Json.fields?] at obstacle
    | null | bool | number | string | array => rfl

/-- Work inside an object succeeds exactly if there is one or none is needed
yet, and the work itself does. -/
theorem within_eq_ok_iff {work : Table String Json → Except Level α × Table String Json}
    {value : α} :
    (within key level work fields).1 = .ok value ↔
      ∃ inner, fieldsUnder? key fields = some inner ∧ (work inner).1 = .ok value := by
  cases found : fieldsUnder? key fields with
  | none => simp [within_of_obstacle work found]
  | some inner => simp [within_of_fields work found]

/-- The fields under a key that was just given an object. -/
@[simp]
theorem fieldsUnder?_set_self (key : String) (inner fields : Table String Json) :
    fieldsUnder? key (Table.set key (.object inner) fields) = some inner := by
  simp [fieldsUnder?, Json.fields?]

/-- Other keys hold what they held. -/
theorem fieldsUnder?_set_of_ne {other : String} (different : other ≠ key) (value : Json)
    (fields : Table String Json) :
    fieldsUnder? other (Table.set key value fields) = fieldsUnder? other fields := by
  simp only [fieldsUnder?, Table.get?_set_of_ne different]

/-- A field inside an object is a field of the fields under its key. -/
theorem bind_field?_of_fields (found : fieldsUnder? key fields = some inner) (name : String) :
    (Table.get? key fields).bind (Json.field? name) = Table.get? name inner := by
  unfold fieldsUnder? at found
  cases here : Table.get? key fields with
  | none =>
    rw [here] at found
    cases found
    rfl
  | some value =>
    rw [here] at found
    simp only [Option.bind_some, Json.field?, found]

/-! ## Writing an entry -/

/-- An entry with its headers, endpoint and description set. -/
def written (entry : Entry) (headers server : Table String Json) : Table String Json :=
  Table.set "description" (.string entry.description)
    (Table.set "url" (.string entry.url)
      (Table.set headersKey (.object (Table.set keyHeader (.string entry.apiKey) headers))
        server))

variable {headers server : Table String Json}

theorem writeEntry_of_fields (name : ServerName) (entry : Entry)
    (found : fieldsUnder? headersKey server = some headers) :
    writeEntry name entry server = (.ok name, written entry headers server) := by
  rw [writeEntry, within_of_fields _ found]
  rfl

theorem writeEntry_of_obstacle (name : ServerName) (entry : Entry)
    (obstacle : fieldsUnder? headersKey server = none) :
    writeEntry name entry server = (.error (.headers name), server) := by
  rw [writeEntry, within_of_obstacle _ obstacle]

/-! ## The entry that is written to -/

/-- An entry of a value. -/
def serverOf? (root : Json) (name : ServerName) : Option Json :=
  (root.field? serversKey).bind (Json.field? name.text)

/-- The older name counts only where the other one is absent. -/
theorem targetOf_eq (root : Json) :
    targetOf root =
      if (serverOf? root .easygrid).isNone ∧ (serverOf? root .easygridMcp).isSome then
        .easygridMcp
      else .easygrid := by
  unfold targetOf serverOf? Json.field?
  cases root.fields?.bind (Table.get? serversKey) with
  | none => rfl
  | some value =>
    cases value with
    | object servers => rfl
    | null | bool | number | string | array => rfl

theorem targetOf_object {servers : Table String Json}
    (found : fieldsUnder? serversKey fields = some servers) :
    targetOf (.object fields) = targetAmong servers := by
  have names : ∀ name : ServerName,
      serverOf? (.object fields) name = Table.get? name.text servers :=
    fun name => bind_field?_of_fields found name.text
  rw [targetOf_eq, names, names]
  rfl

/-- Installing an entry works on the servers, and there on the target. -/
theorem installIn_object (entry : Entry) (fields : Table String Json) :
    installIn entry (.object fields) =
      ((within serversKey .servers
          (within (targetOf (.object fields)).text (.server (targetOf (.object fields)))
            (writeEntry (targetOf (.object fields)) entry)) fields).1,
        .object (within serversKey .servers
          (within (targetOf (.object fields)).text (.server (targetOf (.object fields)))
            (writeEntry (targetOf (.object fields)) entry)) fields).2) := rfl

theorem install_eq (entry : Entry) (document : Document) :
    document.install entry =
      ((installIn entry document.root).1.mapError
          fun level => .unexpectedShape document.path level.label,
        ⟨document.path, (installIn entry document.root).2⟩) := rfl

/-- An installation tells the name of the target. -/
theorem eq_targetOf_of_installIn {entry : Entry} {root : Json} {name : ServerName}
    (succeeded : (installIn entry root).1 = .ok name) : name = targetOf root := by
  cases root with
  | object fields =>
    rw [installIn_object] at succeeded
    obtain ⟨servers, -, worked⟩ := within_eq_ok_iff.mp succeeded
    obtain ⟨server, -, wrote⟩ := within_eq_ok_iff.mp worked
    cases found : fieldsUnder? headersKey server with
    | none => simp [writeEntry_of_obstacle _ entry found] at wrote
    | some headers =>
      rw [writeEntry_of_fields _ entry found] at wrote
      exact (Except.ok.inj wrote).symm
  | null | bool | number | string | array => simp [installIn] at succeeded

theorem install_eq_ok_iff {entry : Entry} {document : Document} {name : ServerName} :
    (document.install entry).1 = .ok name ↔ (installIn entry document.root).1 = .ok name := by
  rw [install_eq]
  cases (installIn entry document.root).1 <;> simp [Except.mapError]

theorem eq_target_of_install {entry : Entry} {document : Document} {name : ServerName}
    (succeeded : (document.install entry).1 = .ok name) : name = document.target :=
  eq_targetOf_of_installIn (install_eq_ok_iff.mp succeeded)

end KeyInstall.Document
