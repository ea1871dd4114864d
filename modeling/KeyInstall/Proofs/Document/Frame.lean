import KeyInstall.Proofs.Document.Levels

/-!
# What an installed entry leaves alone

An entry that is installed changes a document at four levels, one inside the
other, and at each of them only the keys on its way: `Changed` says so for the
whole document, level by level and with the order of the keys, and
`install_frame` that every successful installation is of this kind.
-/

namespace KeyInstall.Document

open Table (Framed)

/-! ## Levels of a change -/

/-- The object under `key`, or no fields if the key was absent, has become an
object that is related to it by `change`. -/
def Inside (key : String) (change : Table String Json → Table String Json → Prop)
    (before after : Table String Json) : Prop :=
  ∃ old new, fieldsUnder? key before = some old ∧
    Table.get? key after = some (.object new) ∧ change old new

/-- The headers of an entry: one of them carries the key. -/
structure HeadersChanged (entry : Entry) (before after : Table String Json) : Prop where
  frame : Framed [keyHeader] before after
  apiKey : Table.get? keyHeader after = some (.string entry.apiKey)

/-- An entry: its headers, endpoint and description are those that were given. -/
structure ServerChanged (entry : Entry) (before after : Table String Json) : Prop where
  frame : Framed [headersKey, "url", "description"] before after
  headers : Inside headersKey (HeadersChanged entry) before after
  url : Table.get? "url" after = some (.string entry.url)
  description : Table.get? "description" after = some (.string entry.description)

/-- The servers: only the entry called `name` is touched. -/
structure ServersChanged (entry : Entry) (name : ServerName)
    (before after : Table String Json) : Prop where
  frame : Framed [name.text] before after
  server : Inside name.text (ServerChanged entry) before after

/-- The fields of a document: only the servers are touched. -/
structure RootChanged (entry : Entry) (name : ServerName)
    (before after : Table String Json) : Prop where
  frame : Framed [serversKey] before after
  servers : Inside serversKey (ServersChanged entry name) before after

/-- From `before` to `after`, `entry` was written into the entry `name` of a
document, and nothing else was changed. -/
structure Changed (entry : Entry) (name : ServerName) (before after : Document) : Prop where
  target : name = before.target
  path : after.path = before.path
  /-- Both documents are objects, and their fields differ by the change. -/
  root : ∃ old new, before.root = .object old ∧ after.root = .object new ∧
    RootChanged entry name old new
  /-- The older entry is untouched beside the other one. -/
  legacyKept : serverOf? before.root .easygrid ≠ none →
    serverOf? after.root .easygridMcp = serverOf? before.root .easygridMcp
  /-- The newer entry is not created beside the older one. -/
  primaryAbsent : serverOf? before.root .easygrid = none →
    serverOf? before.root .easygridMcp ≠ none → serverOf? after.root .easygrid = none

/-! ## One level at a time -/

/-- Work inside an object changes that object and frames the rest. -/
theorem within_changes {α : Type} {key : String} {level : Level}
    {work : Table String Json → Except Level α × Table String Json}
    {change : Table String Json → Table String Json → Prop} {fields : Table String Json}
    {value : α} (works : ∀ inner, (work inner).1 = .ok value → change inner (work inner).2)
    (succeeded : (within key level work fields).1 = .ok value) :
    Framed [key] fields (within key level work fields).2 ∧
      Inside key change fields (within key level work fields).2 := by
  obtain ⟨inner, found, worked⟩ := within_eq_ok_iff.mp succeeded
  rw [within_of_fields work found]
  refine ⟨Framed.set _ _ _, inner, (work inner).2, found, ?_, works inner worked⟩
  exact Table.get?_set_self _ _ _

/-- The four settings of an entry follow one another. -/
theorem written_changes {entry : Entry} {headers server : Table String Json}
    (found : fieldsUnder? headersKey server = some headers) :
    ServerChanged entry server (written entry headers server) := by
  have headersFrame := Framed.set keyHeader (Json.string entry.apiKey) headers
  have apart : ∀ {key other : String}, other ≠ key → ∀ name ∈ [key], name ∉ [other] := by
    intro key other different name member
    rw [List.mem_singleton] at member ⊢
    exact member ▸ different.symm
  refine ⟨?_, ?_, ?_, ?_⟩
  · have first := Framed.set headersKey
      (Json.object (Table.set keyHeader (.string entry.apiKey) headers)) server
    have second := first.trans (apart (by decide)) (Framed.set "url" (Json.string entry.url) _)
    refine second.trans ?_ (Framed.set "description" (Json.string entry.description) _)
    decide
  · refine ⟨headers, _, found, ?_, headersFrame, Table.get?_set_self _ _ _⟩
    rw [written, Table.get?_set_of_ne (by decide), Table.get?_set_of_ne (by decide),
      Table.get?_set_self]
  · rw [written, Table.get?_set_of_ne (by decide), Table.get?_set_self]
  · rw [written, Table.get?_set_self]

theorem writeEntry_changes {name result : ServerName} {entry : Entry}
    {server : Table String Json} (succeeded : (writeEntry name entry server).1 = .ok result) :
    ServerChanged entry server (writeEntry name entry server).2 := by
  cases found : fieldsUnder? headersKey server with
  | none => simp [writeEntry_of_obstacle name entry found] at succeeded
  | some headers =>
    rw [writeEntry_of_fields name entry found]
    exact written_changes found

/-- The fields of a value before and after a successful installation. -/
theorem installIn_changes {entry : Entry} {root : Json} {name : ServerName}
    (succeeded : (installIn entry root).1 = .ok name) :
    ∃ old new, root = .object old ∧ (installIn entry root).2 = .object new ∧
      RootChanged entry name old new := by
  have target := eq_targetOf_of_installIn succeeded
  cases root with
  | object fields =>
    rw [installIn_object, ← target] at succeeded ⊢
    refine ⟨fields, _, rfl, rfl, ?_⟩
    have levels := within_changes (fun servers worked => ServersChanged.mk
      (within_changes (fun server => writeEntry_changes) worked).1
      (within_changes (fun server => writeEntry_changes) worked).2) succeeded
    exact ⟨levels.1, levels.2⟩
  | null | bool | number | string | array => simp [installIn] at succeeded

/-- Two entries have two keys. -/
theorem text_ne_of_ne {name other : ServerName} (different : other ≠ name) :
    other.text ≠ name.text := by
  cases name <;> cases other <;> simp_all [ServerName.text]

/-- Every other entry is the one that it was. -/
theorem RootChanged.serverOf?_of_ne {entry : Entry} {name other : ServerName}
    {old new : Table String Json} (changed : RootChanged entry name old new)
    (different : other ≠ name) :
    serverOf? (.object new) other = serverOf? (.object old) other := by
  obtain ⟨servers, servers', found, here, inner⟩ := changed.servers
  have names : other.text ∉ [name.text] :=
    fun member => text_ne_of_ne different (List.mem_singleton.mp member)
  calc serverOf? (.object new) other
      = Table.get? other.text servers' := by
        show (Table.get? serversKey new).bind (Json.field? other.text) = _
        rw [here]
        rfl
    _ = Table.get? other.text servers := inner.frame.get? names
    _ = serverOf? (.object old) other := (bind_field?_of_fields found other.text).symm

/-! ## The whole document -/

/-- An entry that is installed is written into the target of the document, and
at every level on the way all other keys keep their places and values. -/
theorem install_frame {entry : Entry} {document : Document} {name : ServerName}
    (succeeded : (document.install entry).1 = .ok name) :
    Changed entry name document (document.install entry).2 := by
  rw [install_eq_ok_iff] at succeeded
  have target := eq_targetOf_of_installIn succeeded
  obtain ⟨old, new, before, after, changed⟩ := installIn_changes succeeded
  have left : (document.install entry).2.root = .object new := after
  refine ⟨target, rfl, ⟨old, new, before, left, changed⟩, ?_, ?_⟩
  -- In either case the entry in question is not the target.
  · intro present
    have primary : name = .easygrid := by
      rw [target, targetOf_eq, if_neg]
      simp [present]
    rw [left, before]
    exact changed.serverOf?_of_ne (by rw [primary]; decide)
  · intro absent legacy
    have older : name = .easygridMcp := by
      rw [target, targetOf_eq, if_pos]
      exact ⟨by simp [absent], Option.isSome_iff_ne_none.mpr legacy⟩
    rw [left, ← absent, before]
    exact changed.serverOf?_of_ne (by rw [older]; decide)

/-- A document whose only entry has the older name, with headers of its own and
fields around them. -/
def legacySample : Document :=
  ⟨⟨"mcp.json"⟩, .object [("a", .null), (serversKey, .object [("b", .bool true),
    ("easygrid-mcp", .object [("description", .string "old"), ("type", .string "http"),
      (headersKey, .object [("Accept", .string "*")])])]), ("z", .array [])]⟩

/-- The frame at a document with the older name. -/
theorem install_frame_legacySample :
    (legacySample.install (.ofKey "k")).1 = .ok .easygridMcp ∧
      Changed (.ofKey "k") .easygridMcp legacySample (legacySample.install (.ofKey "k")).2 :=
  ⟨rfl, install_frame rfl⟩

end KeyInstall.Document
