import KeyInstall.Proofs.Document.Levels

/-!
# The header that carries the key

Two entries that differ in their keys alone make documents that differ in one
header alone (`installIn_eq_replaceAt`): the second document is the first one
with another value under the keys that lead down to that header.
-/

namespace KeyInstall

/-- Gives another value to what some keys lead to, one inside the other. Where
they lead to nothing, nothing changes. -/
def Json.replaceAt (keys : List String) (value root : Json) : Json :=
  match keys, root with
  | [], _ => value
  | key :: keys, .object fields =>
    match Table.get? key fields with
    | some inner => .object (Table.set key (replaceAt keys value inner) fields)
    | none => root
  | _ :: _, _ => root

theorem Json.replaceAt_object {key : String} {fields : Table String Json} {inner : Json}
    (found : Table.get? key fields = some inner) (keys : List String) (value : Json) :
    replaceAt (key :: keys) value (.object fields) =
      .object (Table.set key (replaceAt keys value inner) fields) := by
  simp only [replaceAt, found]

namespace Document

/-- The keys that lead to the header with the key of an entry. -/
def keyPlace (name : ServerName) : List String :=
  [serversKey, name.text, headersKey, keyHeader]

/-- The headers of an entry are in front of what is set after them. -/
theorem get?_headers_written (entry : Entry) (headers server : Table String Json) :
    Table.get? headersKey (written entry headers server) =
      some (.object (Table.set keyHeader (.string entry.apiKey) headers)) := by
  rw [written, Table.get?_set_of_ne (by decide), Table.get?_set_of_ne (by decide),
    Table.get?_set_self]

/-- Of two entries with one endpoint and one description, the second is the first
one with its own headers. -/
theorem set_headers_written {first second : Entry} (url : second.url = first.url)
    (description : second.description = first.description) (headers server : Table String Json) :
    Table.set headersKey (.object (Table.set keyHeader (.string second.apiKey) headers))
        (written first headers server) = written second headers server := by
  have present : headersKey ∈ Table.keys (Table.set headersKey
      (.object (Table.set keyHeader (.string first.apiKey) headers)) server) :=
    Table.mem_keys_set_self _ _ _
  -- The headers have their place, so they can be set again before what follows them.
  rw [written, written, url, description,
    ← Table.set_comm_of_mem (show headersKey ≠ "description" by decide),
    ← Table.set_comm_of_mem (show headersKey ≠ "url" by decide), Table.set_set]
  · exact present
  · exact Table.mem_keys_set_of_mem present _ _

theorem replaceAt_written {first second : Entry} (url : second.url = first.url)
    (description : second.description = first.description) (headers server : Table String Json) :
    Json.replaceAt [headersKey, keyHeader] (.string second.apiKey)
        (.object (written first headers server)) = .object (written second headers server) := by
  rw [Json.replaceAt_object (get?_headers_written first headers server),
    Json.replaceAt_object (Table.get?_set_self _ _ _), Json.replaceAt, Table.set_set,
    set_headers_written url description]

/-- Of two entries with one endpoint and one description, the second is installed
as the first one with another key in its header. -/
theorem installIn_eq_replaceAt {first second : Entry} (url : second.url = first.url)
    (description : second.description = first.description) {root : Json} {name : ServerName}
    (installed : (installIn first root).1 = .ok name) :
    (installIn second root).2 =
      Json.replaceAt (keyPlace name) (.string second.apiKey) (installIn first root).2 := by
  have target := eq_targetOf_of_installIn installed
  cases root with
  | object fields =>
    rw [installIn_object, ← target] at installed
    obtain ⟨servers, foundServers, worked⟩ := within_eq_ok_iff.mp installed
    obtain ⟨server, foundServer, wrote⟩ := within_eq_ok_iff.mp worked
    cases foundHeaders : fieldsUnder? headersKey server with
    | none => simp [writeEntry_of_obstacle name first foundHeaders] at wrote
    | some headers =>
      -- Both entries are written into the same three objects.
      have wrote : ∀ entry, (installIn entry (.object fields)).2 =
          .object (Table.set serversKey (.object (Table.set name.text
            (.object (written entry headers server)) servers)) fields) := by
        intro entry
        rw [installIn_object, ← target, within_of_fields _ foundServers,
          within_of_fields _ foundServer, writeEntry_of_fields _ entry foundHeaders]
      rw [wrote first, wrote second, keyPlace, Json.replaceAt_object (Table.get?_set_self _ _ _),
        Json.replaceAt_object (Table.get?_set_self _ _ _), replaceAt_written url description,
        Table.set_set, Table.set_set]
  | null | bool | number | string | array => simp [installIn] at installed

end Document

end KeyInstall
