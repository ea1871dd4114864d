import KeyInstall.Proofs.Document.Levels
import KeyInstall.Proofs.Json.RoundTrip

/-!
# Installing again

Of two entries that are installed one after the other only the second one
counts (`install_install`), however the first one went: the second finds the
objects that the first has made, sets every key that the first has set, and
works on the same target (`target_install`). Whether an entry can be installed
at all is a matter of the document's shape alone (`installIn_fst`).

The last section is about texts: a document that was read from a text is read
from its own text again (`parse_render`), and stays so (`storable_install`).
-/

namespace KeyInstall.Document

variable {α : Type} {key : String} {level : Level} {fields : Table String Json}

/-! ## Work done twice -/

/-- If a second piece of work wipes out a first one, it does so inside an
object too. -/
theorem within_within {first second : Table String Json → Except Level α × Table String Json}
    (absorbs : ∀ inner, second (first inner).2 = second inner) :
    within key level second (within key level first fields).2 =
      within key level second fields := by
  cases found : fieldsUnder? key fields with
  | none => rw [within_of_obstacle first found]
  | some inner =>
    -- The second piece of work finds the object that the first one left.
    rw [within_of_fields first found,
      within_of_fields second (fieldsUnder?_set_self key _ fields),
      within_of_fields second found, absorbs inner, Table.set_set]

/-- How work inside an object ends is how the work itself ends. -/
theorem within_fst {first second : Table String Json → Except Level α × Table String Json}
    (alike : ∀ inner, (first inner).1 = (second inner).1) :
    (within key level first fields).1 = (within key level second fields).1 := by
  cases found : fieldsUnder? key fields with
  | none => rw [within_of_obstacle first found, within_of_obstacle second found]
  | some inner => rw [within_of_fields first found, within_of_fields second found, alike inner]

/-- The settings of a second entry wipe out those of a first one. -/
theorem written_written (first second : Entry) (headers server : Table String Json) :
    written second (Table.set keyHeader (.string first.apiKey) headers)
      (written first headers server) = written second headers server := by
  unfold written
  rw [Table.set_set]
  -- Every key of the first round is there, so a setting of the second round can be moved inwards
  -- to the one that it repeats.
  rw [← Table.set_comm_of_mem (show headersKey ≠ "description" by decide),
    ← Table.set_comm_of_mem (show headersKey ≠ "url" by decide), Table.set_set]
  · rw [← Table.set_comm_of_mem (show "url" ≠ "description" by decide), Table.set_set,
      Table.set_set]
    exact Table.mem_keys_set_self _ _ _
  · exact Table.mem_keys_set_self _ _ _
  · exact Table.mem_keys_set_of_mem (Table.mem_keys_set_self _ _ _) _ _

theorem writeEntry_writeEntry (name : ServerName) (first second : Entry)
    (server : Table String Json) :
    writeEntry name second (writeEntry name first server).2 = writeEntry name second server := by
  cases found : fieldsUnder? headersKey server with
  | none => rw [writeEntry_of_obstacle name first found]
  | some headers =>
    have again : fieldsUnder? headersKey (written first headers server) =
        some (Table.set keyHeader (.string first.apiKey) headers) := by
      rw [written, fieldsUnder?_set_of_ne (by decide), fieldsUnder?_set_of_ne (by decide),
        fieldsUnder?_set_self]
    rw [writeEntry_of_fields name first found, writeEntry_of_fields name second again,
      writeEntry_of_fields name second found, written_written]

theorem writeEntry_fst (name : ServerName) (first second : Entry) (server : Table String Json) :
    (writeEntry name first server).1 = (writeEntry name second server).1 := by
  cases found : fieldsUnder? headersKey server with
  | none => rw [writeEntry_of_obstacle name first found, writeEntry_of_obstacle name second found]
  | some headers =>
    rw [writeEntry_of_fields name first found, writeEntry_of_fields name second found]

/-! ## The target stays -/

/-- Setting the target among the servers leaves it the target. -/
theorem targetAmong_set (servers : Table String Json) (value : Json) :
    targetAmong (Table.set (targetAmong servers).text value servers) = targetAmong servers := by
  have different : ServerName.easygrid.text ≠ ServerName.easygridMcp.text := by decide
  -- The older name is the target only without the newer one, and setting it brings no newer one.
  by_cases legacy : (Table.get? ServerName.easygrid.text servers).isNone ∧
      (Table.get? ServerName.easygridMcp.text servers).isSome
  · have target : targetAmong servers = .easygridMcp := if_pos legacy
    rw [target, targetAmong, Table.get?_set_self, Table.get?_set_of_ne different]
    exact if_pos ⟨legacy.1, rfl⟩
  · have target : targetAmong servers = .easygrid := if_neg legacy
    rw [target, targetAmong, Table.get?_set_self]
    exact if_neg fun both => absurd both.1 (by simp)

theorem targetOf_installIn (entry : Entry) (root : Json) :
    targetOf (installIn entry root).2 = targetOf root := by
  cases root with
  | object fields =>
    rw [installIn_object]
    cases found : fieldsUnder? serversKey fields with
    | none => rw [within_of_obstacle _ found]
    | some servers =>
      rw [within_of_fields _ found, targetOf_object (fieldsUnder?_set_self _ _ _),
        targetOf_object found]
      cases inner : fieldsUnder? (targetAmong servers).text servers with
      | none => rw [within_of_obstacle _ inner]
      | some server => rw [within_of_fields _ inner, targetAmong_set]
  | null | bool | number | string | array => rfl

/-! ## Installing twice -/

theorem installIn_installIn (first second : Entry) (root : Json) :
    installIn second (installIn first root).2 = installIn second root := by
  cases root with
  | object fields =>
    have target := targetOf_installIn first (.object fields)
    rw [installIn_object] at target ⊢
    rw [installIn_object, target, installIn_object, within_within]
    intro servers
    rw [within_within]
    exact writeEntry_writeEntry _ first second
  | null | bool | number | string | array => rfl

theorem installIn_fst (first second : Entry) (root : Json) :
    (installIn first root).1 = (installIn second root).1 := by
  cases root with
  | object fields =>
    rw [installIn_object, installIn_object]
    exact within_fst fun servers => within_fst fun server => writeEntry_fst _ first second server
  | null | bool | number | string | array => rfl

/-- Of two entries only the last one counts. -/
theorem install_install (first second : Entry) (document : Document) :
    (document.install first).2.install second = document.install second := by
  simp only [install_eq, installIn_installIn]

/-- The entry that is written to stays the same. -/
theorem target_install (entry : Entry) (document : Document) :
    (document.install entry).2.target = document.target :=
  targetOf_installIn entry document.root

/-- Whether an entry can be installed does not depend on the entry. -/
theorem install_fst (first second : Entry) (document : Document) :
    (document.install first).1 = (document.install second).1 := by
  rw [install_eq, install_eq, installIn_fst first second]

/-! ## Some entries, one after the other -/

/-- What a document becomes by some entries, the last one first. -/
def latest (document : Document) : List Entry → Document
  | [] => document
  | last :: _ => (document.install last).2

/-- An entry has the same effect on the first document and on a later one. -/
theorem install_latest (document : Document) (written : List Entry) (entry : Entry) :
    (document.latest written).install entry = document.install entry := by
  cases written with
  | nil => rfl
  | cons last earlier => exact install_install last entry document

theorem target_latest (document : Document) (written : List Entry) :
    (document.latest written).target = document.target := by
  cases written with
  | nil => rfl
  | cons last earlier => exact target_install last document

/-! ## Documents that are read from their text -/

open Json (Storable StorableFields numberTag nestingLimit)

theorem storableFields_of_fieldsUnder? {levels : Nat} {inner : Table String Json}
    (storable : StorableFields (levels + 1) fields)
    (found : fieldsUnder? key fields = some inner) : StorableFields levels inner := by
  unfold fieldsUnder? at found
  cases here : Table.get? key fields with
  | none =>
    rw [here] at found
    cases found
    exact .nil levels
  | some value =>
    rw [here] at found
    cases value with
    | object fields =>
      cases found
      exact (storable.get? here).fields
    | null | bool | number | string | array => simp [Json.fields?] at found

/-- Work that keeps fields storable does so inside an object too. -/
theorem storable_within {levels : Nat}
    {work : Table String Json → Except Level α × Table String Json}
    (keeps : ∀ inner, StorableFields levels inner → StorableFields levels (work inner).2)
    (ordinary : key ≠ numberTag) (storable : StorableFields (levels + 1) fields) :
    StorableFields (levels + 1) (within key level work fields).2 := by
  cases found : fieldsUnder? key fields with
  | none =>
    rw [within_of_obstacle work found]
    exact storable
  | some inner =>
    rw [within_of_fields work found]
    have kept := keeps inner (storableFields_of_fieldsUnder? storable found)
    exact storable.set ordinary kept.object

theorem storable_writeEntry {levels : Nat} (name : ServerName) (entry : Entry)
    {server : Table String Json} (storable : StorableFields (levels + 1) server) :
    StorableFields (levels + 1) (writeEntry name entry server).2 := by
  cases found : fieldsUnder? headersKey server with
  | none =>
    rw [writeEntry_of_obstacle name entry found]
    exact storable
  | some headers =>
    rw [writeEntry_of_fields name entry found]
    have inner := storableFields_of_fieldsUnder? storable found
    have header := inner.set (show keyHeader ≠ numberTag by decide)
      (Storable.string entry.apiKey)
    have first := storable.set (show headersKey ≠ numberTag by decide) header.object
    have second := first.set (show "url" ≠ numberTag by decide) (.string entry.url)
    exact second.set (show "description" ≠ numberTag by decide) (.string entry.description)

/-- An installation needs four levels of nesting and keeps them. -/
theorem storable_installIn {levels : Nat} (entry : Entry) {root : Json}
    (storable : Storable (levels + 4) root) :
    Storable (levels + 4) (installIn entry root).2 := by
  cases root with
  | object fields =>
    have names : ∀ name : ServerName, name.text ≠ numberTag := by
      intro name
      cases name <;> decide
    rw [installIn_object]
    -- Each object on the way takes one of the levels.
    refine StorableFields.object (storable_within ?_ (by decide) storable.fields)
    intro servers storable
    refine storable_within ?_ (names _) storable
    intro server storable
    exact storable_writeEntry _ entry storable
  | null | bool | number | string | array => exact storable

/-- A document that is read can be stored. -/
theorem storable_of_parse {path : Path} {text : String} {document : Document}
    (read : parse path text = .ok document) : Storable nestingLimit document.root := by
  unfold parse at read
  split at read
  · simp at read
  · rename_i found
    cases read
    exact Json.storable_of_parse found

/-- A document is read from its own text, under any path. -/
theorem parse_render {document : Document} (storable : Storable nestingLimit document.root)
    (path : Path) : parse path document.render = .ok ⟨path, document.root⟩ := by
  rw [parse, render, Json.parse_render storable]

theorem storable_install (entry : Entry) {document : Document}
    (storable : Storable nestingLimit document.root) :
    Storable nestingLimit (document.install entry).2.root :=
  storable_installIn entry (show Storable (123 + 4) document.root from storable)

theorem storable_latest {document : Document} (storable : Storable nestingLimit document.root)
    (entries : List Entry) : Storable nestingLimit (document.latest entries).root := by
  cases entries with
  | nil => exact storable
  | cons last earlier => exact storable_install last storable

end KeyInstall.Document
