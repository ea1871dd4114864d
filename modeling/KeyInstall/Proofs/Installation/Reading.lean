import KeyInstall.KeyFile
import KeyInstall.Proofs.Disk.Lookup
import KeyInstall.Proofs.Document.Overwriting
import KeyInstall.Proofs.Text.Blank

/-!
# Reading the two files

What it takes to read a key and a document, and how a reading can fail. The key
is what is between the white space at the ends of its file
(`KeyFile.read_trims`). A document is read from the place where its own text was
put (`Document.read_ofText`).
-/

namespace KeyInstall

open Json (bind_eq_ok_iff)

/-! ## Files and texts -/

/-- Only files hold texts. -/
theorem Node.eq_file_of_text {node : Node} {text : String} (read : node.text = .ok text) :
    ∃ content, node = .file content := by
  cases node with
  | directory => simp [Node.text] at read
  | file content => exact ⟨content, rfl⟩

/-- A path leads to a file with a text. -/
def Disk.Holds (disk : Disk) (path : Path) (text : String) : Prop :=
  ∃ content, disk.find? path = some (.file content) ∧ String.fromUTF8? content = some text

/-- A file holds one text. -/
theorem Disk.Holds.unique {disk : Disk} {path : Path} {text other : String}
    (one : disk.Holds path text) (two : disk.Holds path other) : text = other := by
  obtain ⟨content, found, decoded⟩ := one
  obtain ⟨again, foundAgain, decodedAgain⟩ := two
  rw [found, Option.some.injEq, Node.file.injEq] at foundAgain
  rw [← foundAgain, decoded, Option.some.injEq] at decodedAgain
  exact decodedAgain

theorem Disk.holds_iff {disk : Disk} {path : Path} {text : String} :
    disk.Holds path text ↔ ∃ node, disk.find? path = some node ∧ node.text = .ok text := by
  constructor
  · rintro ⟨content, found, decoded⟩
    exact ⟨_, found, by rw [Node.text, decoded]⟩
  · rintro ⟨node, found, read⟩
    obtain ⟨content, rfl⟩ := Node.eq_file_of_text read
    refine ⟨content, found, ?_⟩
    rw [Node.text] at read
    split at read
    · rename_i decoded
      rw [decoded, Except.ok.inj read]
    · cases read

/-- A text is read exactly where a file holds it. -/
theorem readText_eq_ok_iff {disk : Disk} {path : Path} {missing : Failure} {text : String} :
    readText disk path missing = .ok text ↔ disk.Holds path text := by
  rw [Disk.holds_iff, readText]
  cases disk.find? path with
  | none => simp
  | some node => cases decoded : node.text <;> simp [Except.mapError, decoded]

/-- What fails is the looking up, or the reading. -/
theorem eq_of_readText_error {disk : Disk} {path : Path} {missing failure : Failure}
    (failed : readText disk path missing = .error failure) :
    failure = missing ∨ ∃ fault, failure = .unreadable path fault := by
  unfold readText at failed
  split at failed
  · cases failed
    exact .inl rfl
  · rename_i node _
    cases decoded : node.text with
    | ok text =>
      rw [decoded] at failed
      cases failed
    | error fault =>
      rw [decoded] at failed
      cases failed
      exact .inr ⟨fault, rfl⟩

/-- Paths lead to the same things if the directories and the place are the same. -/
theorem Disk.SameDirectories.find?_eq {before after : Disk} (same : SameDirectories before after)
    {path : Path} (kept : ∀ place, before.locate path = .ok place →
      after.node? place = before.node? place) :
    after.find? path = before.find? path := by
  cases located : before.locate path with
  | ok place =>
    have again := (same.locate_eq_ok_iff path place).mpr located
    simp only [find?, located, again]
    exact kept place located
  | error fault =>
    -- Neither path leads anywhere, whatever the faults are.
    have nowhere : ∀ place, after.locate path ≠ .ok place := by
      intro place again
      rw [same.locate_eq_ok_iff, located] at again
      simp at again
    cases again : after.locate path with
    | ok place => exact absurd again (nowhere place)
    | error other => simp only [find?, located, again]

/-! ## Keys -/

namespace KeyFile

/-- A key is what is left of a text between the blanks at its ends. -/
theorem key?_eq_some_iff {text key : String} :
    key? text = some key ↔
      Text.trim text.toList ≠ [] ∧ key = String.ofList (Text.trim text.toList) := by
  unfold key?
  cases Text.trim text.toList with
  | nil => simp
  | cons c rest => simp [eq_comm]

theorem keyIn_eq_ok_iff {path : Path} {text key : String} :
    keyIn path text = .ok key ↔ key? text = some key := by
  unfold keyIn
  cases key? text <;> simp

theorem read_eq_ok_iff {disk : Disk} {path : Path} {key : String} :
    read disk path = .ok key ↔ ∃ node text, disk.find? path = some node ∧
      node.text = .ok text ∧ key? text = some key := by
  simp only [read, bind_eq_ok_iff, readText_eq_ok_iff, Disk.holds_iff, keyIn_eq_ok_iff]
  constructor
  · rintro ⟨text, ⟨node, found, holds⟩, isKey⟩
    exact ⟨node, text, found, holds, isKey⟩
  · rintro ⟨node, text, found, holds, isKey⟩
    exact ⟨text, ⟨node, found, holds⟩, isKey⟩

/-- The failures of a key file. -/
inductive Unusable (path : Path) : Failure → Prop
  | missing : Unusable path (.missingKeyFile path)
  | empty : Unusable path (.emptyKey path)
  | unreadable (fault : DiskFault) : Unusable path (.unreadable path fault)

theorem unusable_of_read {disk : Disk} {path : Path} {failure : Failure}
    (failed : read disk path = .error failure) : Unusable path failure := by
  unfold read at failed
  cases opened : readText disk path (.missingKeyFile path) with
  | error other =>
    rw [opened] at failed
    cases failed
    rcases eq_of_readText_error opened with rfl | ⟨fault, rfl⟩
    · exact .missing
    · exact .unreadable fault
  | ok text =>
    rw [opened] at failed
    have empty : keyIn path text = .error failure := failed
    unfold keyIn at empty
    split at empty
    · cases empty
      exact .empty
    · cases empty

theorem read_of_holds {disk : Disk} {path : Path} {text : String} (holds : disk.Holds path text) :
    read disk path = keyIn path text := by
  rw [read, readText_eq_ok_iff.mpr holds]
  rfl

/-- The key is the same if what its path leads to is the same. -/
theorem read_congr {before after : Disk} {path : Path}
    (same : after.find? path = before.find? path) : read after path = read before path := by
  rw [read, read, readText, readText, same]

/-- A key is the core of the text. -/
theorem key?_eq_some_iff_between {text key : String} :
    key? text = some key ↔
      ∃ before after, Text.Between before key.toList after text.toList := by
  rw [key?_eq_some_iff]
  constructor
  · rintro ⟨left, rfl⟩
    rw [String.toList_ofList]
    exact Text.exists_between left
  · rintro ⟨before, after, between⟩
    obtain ⟨c, first, -⟩ := between.first
    have nonempty : key.toList ≠ [] := by
      intro empty
      rw [empty] at first
      cases first
    rw [between.trim_eq, String.ofList_toList]
    exact ⟨nonempty, rfl⟩

theorem key?_eq_none_iff {text : String} :
    key? text = none ↔ ∀ c ∈ text.toList, Text.WhiteSpace c := by
  have blank : key? text = none ↔ Text.trim text.toList = [] := by
    unfold key?
    split <;> simp [*]
  simp only [blank, Text.trim_eq_nil_iff, Text.isBlank_iff]

/-- What is read where a file holds a text: what is between the white space at its
ends. -/
structure Trims (disk : Disk) (path : Path) (text : String) : Prop where
  /-- Between white space and white space, the text is the key, which neither begins nor
  ends with any. -/
  key : ∀ key, read disk path = .ok key ↔
    ∃ before after, Text.Between before key.toList after text.toList
  /-- There is no other way to take the text apart like that. -/
  unique : ∀ {before core after before' core' after' : List Char},
    Text.Between before core after text.toList → Text.Between before' core' after' text.toList →
      before = before' ∧ core = core' ∧ after = after'
  /-- There is no key exactly if all is white space. -/
  empty : read disk path = .error (.emptyKey path) ↔ ∀ c ∈ text.toList, Text.WhiteSpace c
  /-- There is no third way to end. -/
  ends : (∃ key, read disk path = .ok key) ∨ read disk path = .error (.emptyKey path)
  /-- White space that is put around the text makes no difference. -/
  padded : ∀ (other : Disk) (before after : String), (∀ c ∈ before.toList, Text.WhiteSpace c) →
    (∀ c ∈ after.toList, Text.WhiteSpace c) → other.Holds path (before ++ text ++ after) →
      read other path = read disk path
  /-- What only looks like white space is kept, at the ends too, and so is all between them. -/
  lookAlikes : ∀ before core after : String, text = before ++ core ++ after →
    (∀ c ∈ before.toList, Text.WhiteSpace c) → (∀ c ∈ after.toList, Text.WhiteSpace c) →
    (∃ c ∈ Text.lookAlikes, core.toList.head? = some c) →
    (∃ c ∈ Text.lookAlikes, core.toList.getLast? = some c) → read disk path = .ok core

/-- A key file is read as the text between the white space at its ends. -/
theorem read_trims {disk : Disk} {path : Path} {text : String} (holds : disk.Holds path text) :
    Trims disk path text := by
  have read_ok : ∀ key, read disk path = .ok key ↔
      ∃ before after, Text.Between before key.toList after text.toList := by
    intro key
    rw [read_of_holds holds, ← key?_eq_some_iff_between, keyIn]
    cases key? text <;> simp
  have read_error : read disk path = .error (.emptyKey path) ↔
      ∀ c ∈ text.toList, Text.WhiteSpace c := by
    rw [read_of_holds holds, ← key?_eq_none_iff, keyIn]
    cases key? text <;> simp
  refine ⟨read_ok, fun one two => one.unique two, read_error, ?_, ?_, ?_⟩
  · rw [read_of_holds holds, keyIn]
    cases key? text <;> simp
  · intro other before after blankBefore blankAfter holdsOther
    have same : key? (before ++ text ++ after) = key? text := by
      rw [key?, key?, String.toList_append, String.toList_append,
        Text.trim_padded blankBefore blankAfter]
    rw [read_of_holds holds, read_of_holds holdsOther, keyIn, keyIn, same]
  · rintro before core after rfl blankBefore blankAfter ⟨c, alike, first⟩ ⟨d, alike', last⟩
    refine (read_ok core).mpr ⟨before.toList, after.toList, ?_, blankBefore, blankAfter, ?_, ?_⟩
    · simp
    · exact ⟨c, first, Text.not_whiteSpace_of_mem_lookAlikes alike⟩
    · exact ⟨d, last, Text.not_whiteSpace_of_mem_lookAlikes alike'⟩

/-- A disk with a key whose ends are not seen, among more white space. -/
def unseenEndsDisk : Disk where
  current := ["home"]
  nodes := [(["home"], .directory),
    (["home", "key"], .ofText "\u2003\u200bkey\u00a0id\ufeff\u0085\n")]
  inside := Disk.inside_of_nodes rfl

theorem holds_unseenEndsDisk :
    unseenEndsDisk.Holds ⟨"key"⟩ "\u2003\u200bkey\u00a0id\ufeff\u0085\n" :=
  Disk.holds_iff.mpr ⟨_, rfl, Node.text_ofText _⟩

/-- Neither end of the key is taken for white space. -/
theorem read_trims_unseenEnds :
    unseenEndsDisk.Holds ⟨"key"⟩ "\u2003\u200bkey\u00a0id\ufeff\u0085\n" ∧
      Trims unseenEndsDisk ⟨"key"⟩ "\u2003\u200bkey\u00a0id\ufeff\u0085\n" ∧
      read unseenEndsDisk ⟨"key"⟩ = .ok "\u200bkey\u00a0id\ufeff" := by
  have trims := read_trims holds_unseenEndsDisk
  refine ⟨holds_unseenEndsDisk, trims, ?_⟩
  refine trims.lookAlikes "\u2003" "\u200bkey\u00a0id\ufeff" "\u0085\n" rfl ?_ ?_ ?_ ?_
  · simp [Text.WhiteSpace]
  · simp [Text.WhiteSpace]
  · exact ⟨'\u200b', by decide, rfl⟩
  · exact ⟨'\ufeff', by decide, rfl⟩

end KeyFile

/-! ## Documents -/

namespace Document

theorem read_eq_ok_iff {disk : Disk} {path : Path} {document : Document} :
    read disk path = .ok document ↔ ∃ node text, disk.find? path = some node ∧
      node.text = .ok text ∧ parse path text = .ok document := by
  simp only [read, bind_eq_ok_iff, readText_eq_ok_iff, Disk.holds_iff]
  constructor
  · rintro ⟨text, ⟨node, found, holds⟩, parsed⟩
    exact ⟨node, text, found, holds, parsed⟩
  · rintro ⟨node, text, found, holds, parsed⟩
    exact ⟨text, ⟨node, found, holds⟩, parsed⟩

/-- The document is the same if what its path leads to is the same. -/
theorem read_congr {before after : Disk} {path : Path}
    (same : after.find? path = before.find? path) : read after path = read before path := by
  rw [read, read, readText, readText, same]

/-- A document is read from a file. -/
theorem exists_file_of_read {disk : Disk} {path : Path} {document : Document}
    (read : read disk path = .ok document) :
    ∃ place content, disk.locate path = .ok place ∧ disk.node? place = some (.file content) := by
  obtain ⟨node, text, found, holds, -⟩ := read_eq_ok_iff.mp read
  obtain ⟨content, rfl⟩ := Node.eq_file_of_text holds
  obtain ⟨place, located, here⟩ := Disk.find?_eq_some_iff.mp found
  exact ⟨place, content, located, here⟩

theorem storable_of_read {disk : Disk} {path : Path} {document : Document}
    (read : read disk path = .ok document) :
    Json.Storable Json.nestingLimit document.root := by
  obtain ⟨_, _, -, -, parsed⟩ := read_eq_ok_iff.mp read
  exact storable_of_parse parsed

/-- A document has the path that it was read from. -/
theorem path_of_read {disk : Disk} {path : Path} {document : Document}
    (read : read disk path = .ok document) : document.path = path := by
  obtain ⟨_, text, -, -, parsed⟩ := read_eq_ok_iff.mp read
  unfold parse at parsed
  split at parsed
  · simp at parsed
  · cases parsed
    rfl

/-- A document is read where its text was put, under any path. -/
theorem read_ofText {disk : Disk} {path : Path} {document : Document}
    (storable : Json.Storable Json.nestingLimit document.root)
    (found : disk.find? path = some (.ofText document.render)) :
    read disk path = .ok ⟨path, document.root⟩ :=
  read_eq_ok_iff.mpr ⟨_, _, found, Node.text_ofText _, parse_render storable path⟩

end Document

end KeyInstall
