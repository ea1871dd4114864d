import KeyInstall.Proofs.Disk.Sibling
import KeyInstall.Proofs.Document.Obstacle
import KeyInstall.Proofs.Installation.Endings

/-!
# What a run needs

A run needs a number of things, one after the other: a key file that is there,
is a file, holds a text and in it a key; a document likewise, with an object
wherever one is expected; and, unless it is dry, room for the backup. It succeeds
exactly if it has them all, and otherwise it tells what the first one that it
lacks is (`Job.run_settled`).

Each stage of a run is settled by needs of its own (`Settled`), and stages one
after the other by their needs one after the other (`Settled.stop`,
`Settled.next`).
-/

namespace KeyInstall

/-! ## Needs -/

/-- The files that a run reads. -/
inductive Source where
  | key
  | config
  deriving DecidableEq, Repr

/-- What a run needs. -/
inductive Need where
  /-- The path of a file leads to something. -/
  | found (source : Source)
  /-- That is a file. -/
  | isFile (source : Source)
  /-- The file holds a text. -/
  | isText (source : Source)
  /-- The text of the key file holds a key. -/
  | key
  /-- The text of the configuration is that of a value. -/
  | json
  /-- Nothing but objects stands where the entry goes. -/
  | shape
  /-- The path of the backup is not too long. -/
  | backupPath
  /-- The name of the backup is not too long. -/
  | backupName
  /-- No directory has the name of the backup. -/
  | backupFree
  deriving DecidableEq, Repr

namespace Job

/-- Where a job reads. -/
def path (job : Job) : Source → Path
  | .key => job.keyFile
  | .config => job.configFile

/-- The value in the configuration. -/
def Reads (job : Job) (disk : Disk) (root : Json) : Prop :=
  ∃ text, disk.Holds job.configFile text ∧ Json.parse text = .ok root

/-- What it means that a need is met. -/
def Met (job : Job) (disk : Disk) : Need → Prop
  | .found source => ∃ node, disk.find? (job.path source) = some node
  | .isFile source => ∃ content, disk.find? (job.path source) = some (.file content)
  | .isText source => ∃ text, disk.Holds (job.path source) text
  | .key => ∃ text, disk.Holds job.keyFile text ∧ ∃ c ∈ text.toList, Text.isBlank c = false
  | .json => ∃ root, job.Reads disk root
  | .shape => ∃ root, job.Reads disk root ∧
      ∀ level ∈ Document.levels root, Document.Unobstructed root level
  | .backupPath => Text.byteSize job.configFile.backup.text.toList ≤ Disk.pathLimit
  | .backupName => ∃ directory name, disk.locate job.configFile = .ok (directory ++ [name]) ∧
      Text.byteSize (name ++ Path.backupSuffix).toList ≤ Disk.nameLimit
  | .backupFree => ∃ directory name, disk.locate job.configFile = .ok (directory ++ [name]) ∧
      disk.node? (directory ++ [name ++ Path.backupSuffix]) ≠ some .directory

/-- What a run tells of a need that is not met. -/
inductive Tells (job : Job) (disk : Disk) : Need → Failure → Prop
  | noKey : Tells job disk (.found .key) (.missingKeyFile job.keyFile)
  | noConfig : Tells job disk (.found .config) (.missingConfig job.configFile)
  | notFile (source : Source) :
    Tells job disk (.isFile source) (.unreadable (job.path source) .isDirectory)
  | notText (source : Source) :
    Tells job disk (.isText source) (.unreadable (job.path source) .notUtf8)
  | emptyKey : Tells job disk .key (.emptyKey job.keyFile)
  | notJson {text : String} {error : Json.ParseError} : disk.Holds job.configFile text →
    Json.parse text = .error error → Tells job disk .json (.invalidConfig job.configFile error)
  /-- The outermost value that is in the way is told. -/
  | notObject {root : Json} {level : Level} : job.Reads disk root →
    FirstWithout (Document.Unobstructed root) (Document.levels root) level →
    Tells job disk .shape (.unexpectedShape job.configFile level.label)
  | longPath : Tells job disk .backupPath (.unwritable job.configFile.backup .nameTooLong)
  | longName : Tells job disk .backupName (.unwritable job.configFile.backup .nameTooLong)
  | notFree : Tells job disk .backupFree (.unwritable job.configFile.backup .isDirectory)

/-- What it takes to read a file. -/
def readingNeeds (source : Source) : List Need := [.found source, .isFile source, .isText source]

/-- What it takes to work out the new document. -/
def preparingNeeds : List Need :=
  readingNeeds .key ++ [.key] ++ (readingNeeds .config ++ [.json] ++ [.shape])

/-- What it takes to keep the previous document. -/
def backupNeeds : List Need := [.backupPath, .backupName, .backupFree]

/-- All that a run needs, in order. -/
def needs (job : Job) : List Need := preparingNeeds ++ if job.dryRun then [] else backupNeeds

end Job

variable {job : Job} {disk : Disk}

/-! ## Settled results -/

theorem Job.Reads.unique {root other : Json} (one : job.Reads disk root)
    (two : job.Reads disk other) : root = other := by
  obtain ⟨text, holds, parsed⟩ := one
  obtain ⟨again, holdsAgain, parsedAgain⟩ := two
  rw [← holds.unique holdsAgain, parsed, Except.ok.injEq] at parsedAgain
  exact parsedAgain

theorem Job.Tells.unique {need : Need} {failure other : Failure}
    (one : job.Tells disk need failure) (two : job.Tells disk need other) : failure = other := by
  cases one with
  | noKey | noConfig | notFile | notText | emptyKey | longPath | longName | notFree =>
    cases two
    rfl
  | notJson holds failed =>
    cases two with
    | notJson holdsAgain failedAgain =>
      rw [← holds.unique holdsAgain, failed, Except.error.injEq] at failedAgain
      rw [failedAgain]
  | notObject reads first =>
    cases two with
    | notObject readsAgain firstAgain =>
      cases reads.unique readsAgain
      rw [first.unique firstAgain]

/-- A result is a matter of needs: the first one that is not met is told, or all
are met. -/
inductive Settled (job : Job) (disk : Disk) {α : Type} (needs : List Need) :
    Except Failure α → Prop
  | lacking {need : Need} {failure : Failure} : FirstWithout (job.Met disk) needs need →
      job.Tells disk need failure → Settled job disk needs (.error failure)
  | met (result : α) : (∀ need ∈ needs, job.Met disk need) → Settled job disk needs (.ok result)

namespace Settled

variable {α β : Type} {first second : List Need} {failure : Failure} {result : Except Failure α}

theorem of_error (settled : Settled job disk first (.error failure : Except Failure α)) :
    ∃ need, FirstWithout (job.Met disk) first need ∧ job.Tells disk need failure := by
  cases settled with
  | lacking lacks tells => exact ⟨_, lacks, tells⟩

theorem of_ok {x : α} (settled : Settled job disk first (.ok x)) :
    ∀ need ∈ first, job.Met disk need := by
  cases settled with
  | met _ all => exact all

/-- A stage that fails leaves the needs of the later ones alone. -/
theorem stop (settled : Settled job disk first (.error failure : Except Failure α)) :
    Settled job disk (first ++ second) (.error failure : Except Failure β) := by
  obtain ⟨need, lacks, tells⟩ := settled.of_error
  exact .lacking (lacks.append_left second) tells

/-- After a stage that succeeds, the next one settles the result. -/
theorem next (all : ∀ need ∈ first, job.Met disk need)
    (settled : Settled job disk second result) : Settled job disk (first ++ second) result := by
  cases settled with
  | lacking lacks tells => exact .lacking (.append_right all lacks) tells
  | met x rest => exact .met x fun need member => (List.mem_append.mp member).elim (all _) (rest _)

/-- Two stages in a row. -/
theorem bind {use : α → Except Failure β} (settled : Settled job disk first result)
    (used : ∀ {x}, result = .ok x → Settled job disk second (use x)) :
    Settled job disk (first ++ second) (result >>= use) := by
  cases settled with
  | lacking lacks tells => exact .lacking (lacks.append_left second) tells
  | met x all => exact .next all (used rfl)

/-- A stage with one need. -/
theorem single_met {need : Need} (x : α) (met : job.Met disk need) :
    Settled job disk [need] (.ok x) :=
  .met x fun _ member => List.mem_singleton.mp member ▸ met

theorem ok_iff (settled : Settled job disk first result) :
    (∃ x, result = .ok x) ↔ ∀ need ∈ first, job.Met disk need := by
  cases settled with
  | lacking lacks _ =>
    constructor
    · rintro ⟨x, equal⟩
      cases equal
    · exact fun all => absurd all lacks.not_forall
  | met x all => exact ⟨fun _ => all, fun _ => ⟨x, rfl⟩⟩

theorem error_iff (settled : Settled job disk first result) :
    result = .error failure ↔
      ∃ need, FirstWithout (job.Met disk) first need ∧ job.Tells disk need failure := by
  cases settled with
  | lacking lacks tells =>
    constructor
    · rintro ⟨⟩
      exact ⟨_, lacks, tells⟩
    · rintro ⟨need, lacksAgain, tellsAgain⟩
      cases lacks.unique lacksAgain
      rw [tells.unique tellsAgain]
  | met x all =>
    constructor
    · intro equal
      cases equal
    · rintro ⟨need, lacks, -⟩
      exact absurd all lacks.not_forall

end Settled

/-! ## Stages -/

theorem settled_readText {source : Source} {missing : Failure}
    (told : job.Tells disk (.found source) missing) :
    Settled job disk (Job.readingNeeds source) (readText disk (job.path source) missing) := by
  rw [readText]
  cases found : disk.find? (job.path source) with
  | none =>
    refine .lacking (.here ?_) told
    rintro ⟨node, present⟩
    simp [found] at present
  | some node =>
    have present : job.Met disk (.found source) := ⟨node, found⟩
    cases node with
    | directory =>
      refine .lacking (.later present (.here ?_)) (.notFile source)
      rintro ⟨content, file⟩
      simp [found] at file
    | file content =>
      have file : job.Met disk (.isFile source) := ⟨content, found⟩
      cases decoded : String.fromUTF8? content with
      | none =>
        simp only [Node.text, decoded]
        refine .lacking (.later present (.later file (.here ?_))) (.notText source)
        rintro ⟨text, again, foundAgain, decodedAgain⟩
        rw [found, Option.some.injEq, Node.file.injEq] at foundAgain
        simp [← foundAgain, decoded] at decodedAgain
      | some text =>
        simp only [Node.text, decoded]
        refine .met text ?_
        simp only [Job.readingNeeds, List.forall_mem_cons]
        exact ⟨present, file, ⟨text, content, found, decoded⟩, List.forall_mem_nil _⟩

theorem settled_keyIn {text : String} (holds : disk.Holds job.keyFile text) :
    Settled job disk [.key] (KeyFile.keyIn job.keyFile text) := by
  rw [KeyFile.keyIn]
  cases found : KeyFile.key? text with
  | none =>
    have blank := KeyFile.key?_eq_none_iff.mp found
    refine .lacking (.here ?_) .emptyKey
    rintro ⟨other, holdsAgain, c, member, visible⟩
    rw [← holds.unique holdsAgain] at member
    rw [Text.isBlank_iff.mpr (blank c member)] at visible
    cases visible
  | some key =>
    have left := (KeyFile.key?_eq_some_iff.mp found).1
    rw [Ne, Text.trim_eq_nil_iff] at left
    push Not at left
    obtain ⟨c, member, visible⟩ := left
    exact .single_met key ⟨text, holds, c, member, eq_false_of_ne_true visible⟩

theorem settled_parse {text : String} (holds : disk.Holds job.configFile text) :
    Settled job disk [.json] (Document.parse job.configFile text) := by
  rw [Document.parse]
  cases parsed : Json.parse text with
  | error error =>
    refine .lacking (.here ?_) (.notJson holds parsed)
    rintro ⟨root, other, holdsAgain, parsedAgain⟩
    rw [← holds.unique holdsAgain, parsed] at parsedAgain
    cases parsedAgain
  | ok root => exact .single_met _ ⟨root, text, holds, parsed⟩

theorem settled_readKey (job : Job) (disk : Disk) :
    Settled job disk (Job.readingNeeds .key ++ [.key]) (KeyFile.read disk job.keyFile) :=
  (settled_readText .noKey).bind fun opened => settled_keyIn (readText_eq_ok_iff.mp opened)

theorem settled_readDocument (job : Job) (disk : Disk) :
    Settled job disk (Job.readingNeeds .config ++ [.json])
      (Document.read disk job.configFile) :=
  (settled_readText .noConfig).bind fun opened => settled_parse (readText_eq_ok_iff.mp opened)

/-- The value of a document is the one in the configuration. -/
theorem reads_of_read {document : Document} (read : Document.read disk job.configFile = .ok document) :
    job.Reads disk document.root := by
  obtain ⟨node, text, found, holds, parsed⟩ := Document.read_eq_ok_iff.mp read
  refine ⟨text, Disk.holds_iff.mpr ⟨node, found, holds⟩, ?_⟩
  unfold Document.parse at parsed
  split at parsed
  · cases parsed
  · rename_i root value
    cases parsed
    exact value

theorem settled_install {document : Document}
    (read : Document.read disk job.configFile = .ok document) (entry : Entry) :
    Settled job disk [.shape] (document.install entry).1 := by
  have reads := reads_of_read read
  have path := Document.path_of_read read
  rw [Document.install]
  cases ends : Document.installIn entry document.root with
  | mk result root =>
    have first : (Document.installIn entry document.root).1 = result := by rw [ends]
    cases result with
    | error level =>
      have obstructed := Document.installIn_eq_error_iff.mp first
      simp only [Except.mapError, path]
      refine .lacking (.here ?_) (.notObject reads obstructed)
      rintro ⟨other, readsAgain, clear⟩
      cases reads.unique readsAgain
      exact obstructed.not_forall clear
    | ok server =>
      exact .single_met server ⟨document.root, reads, (Document.installIn_eq_ok_iff.mp first).2⟩

theorem settled_prepare (job : Job) (disk : Disk) :
    Settled job disk Job.preparingNeeds (prepare disk job).1 := by
  have keyed := settled_readKey job disk
  have read := settled_readDocument job disk
  unfold prepare Job.preparingNeeds
  cases key : KeyFile.read disk job.keyFile with
  | error failure =>
    rw [key] at keyed
    exact keyed.stop
  | ok apiKey =>
    rw [key] at keyed
    refine .next keyed.of_ok ?_
    cases opened : Document.read disk job.configFile with
    | error failure =>
      rw [opened] at read
      exact read.stop
    | ok document =>
      rw [opened] at read
      refine .next read.of_ok ?_
      have installed := settled_install opened (job.entry apiKey)
      cases ends : document.install (job.entry apiKey) with
      | mk result updated =>
        rw [ends] at installed
        simp only [ends]
        cases result with
        | error failure =>
          obtain ⟨need, lacks, tells⟩ := installed.of_error
          exact .lacking lacks tells
        | ok server => exact .met _ installed.of_ok

/-- Once the document was read, the backup is a matter of its place. -/
theorem settled_backup {document : Document}
    (read : Document.read disk job.configFile = .ok document) (text : String) :
    Settled job disk Job.backupNeeds
      ((disk.write job.configFile.backup text).mapError (.unwritable job.configFile.backup)) := by
  obtain ⟨place, content, located, here⟩ := Document.exists_file_of_read read
  have other : disk.node? place ≠ some .directory := by
    rw [here]
    simp
  obtain ⟨directory, name, rfl, -, backup⟩ := Disk.locate_backup_eq located other
  -- The place of the document is one, so its directory and its name are.
  have single : ∀ {around : Location} {last : String},
      disk.locate job.configFile = .ok (around ++ [last]) → around = directory ∧ last = name := by
    intro around last again
    rw [located, Except.ok.injEq] at again
    exact (List.append_singleton_inj.mp again.symm)
  by_cases longPath : Disk.pathLimit < Text.byteSize job.configFile.backup.text.toList
  · rw [if_pos longPath] at backup
    rw [Disk.write_of_locate_error text backup]
    exact .lacking (.here (Nat.not_le.mpr longPath)) .longPath
  · rw [if_neg longPath] at backup
    have path : job.Met disk .backupPath := Nat.not_lt.mp longPath
    by_cases longName : Disk.nameLimit < Text.byteSize (name ++ Path.backupSuffix).toList
    · rw [if_pos longName] at backup
      rw [Disk.write_of_locate_error text backup]
      refine .lacking (.later path (.here ?_)) .longName
      rintro ⟨around, last, again, short⟩
      obtain ⟨rfl, rfl⟩ := single again
      exact absurd short (Nat.not_le.mpr longName)
    · rw [if_neg longName] at backup
      have named : job.Met disk .backupName :=
        ⟨directory, name, located, Nat.not_lt.mp longName⟩
      by_cases occupied :
          disk.node? (directory ++ [name ++ Path.backupSuffix]) = some .directory
      · rw [Disk.write_of_directory text backup occupied]
        refine .lacking (.later path (.later named (.here ?_))) .notFree
        rintro ⟨around, last, again, free⟩
        obtain ⟨rfl, rfl⟩ := single again
        exact free occupied
      · rw [Disk.write_of_locate text backup occupied]
        refine .met _ ?_
        simp only [Job.backupNeeds, List.forall_mem_cons]
        exact ⟨path, named, ⟨directory, name, located, occupied⟩, List.forall_mem_nil _⟩

/-! ## Whole runs -/

theorem Job.settled (job : Job) (disk : Disk) :
    Settled job disk job.needs (job.run disk).result := by
  have preparing := settled_prepare job disk
  have ending := job.ending_run disk
  generalize job.run disk = report at ending ⊢
  rw [Job.needs]
  cases ending with
  | stopped failed =>
    rw [failed] at preparing
    exact preparing.stop
  | previewed dry ready =>
    rw [ready] at preparing
    rw [dry]
    exact .next preparing.of_ok (.met _ (List.forall_mem_nil _))
  | @refused plan fault wet ready refused =>
    rw [ready] at preparing
    rw [wet]
    obtain ⟨key, document, prepared⟩ := exists_prepared ready
    have backup := settled_backup prepared.read plan.previous
    rw [refused] at backup
    obtain ⟨need, lacks, tells⟩ := backup.of_error
    exact .next preparing.of_ok (.lacking lacks tells)
  | @replaced plan kept written wet ready backedUp wrote =>
    rw [ready] at preparing
    rw [wet]
    obtain ⟨key, document, prepared⟩ := exists_prepared ready
    have backup := settled_backup prepared.read plan.previous
    rw [backedUp] at backup
    exact .next preparing.of_ok (.met _ backup.of_ok)

/-- A run succeeds exactly if all that it needs is there, and it fails exactly with
what is told of the first need that is not met. -/
theorem Job.run_settled (job : Job) (disk : Disk) :
    ((∃ outcome, (job.run disk).result = .ok outcome) ↔
        ∀ need ∈ job.needs, job.Met disk need) ∧
      ∀ failure, (job.run disk).result = .error failure ↔
        ∃ need, FirstWithout (job.Met disk) job.needs need ∧ job.Tells disk need failure :=
  ⟨(job.settled disk).ok_iff, fun _ => (job.settled disk).error_iff⟩

/-- A disk with a null for an entry, and with a directory in the place of the
backup. -/
def nullEntryDisk : Disk where
  current := ["home"]
  nodes := [(["home"], .directory), (["home", "api-key"], .ofText "abc\n"),
    (["home", "mcp.json"], .ofText "\x7b\"mcpServers\":\x7b\"easygrid\":null\x7d\x7d"),
    (["home", "mcp.json.bak"], .directory)]
  inside := Disk.inside_of_nodes rfl

/-- The shape is the first need that is not met there. -/
theorem Job.run_settled_nullEntryDisk :
    ∃ need, FirstWithout ((Job.ofFiles ⟨"api-key"⟩ ⟨"mcp.json"⟩).Met nullEntryDisk)
        (Job.ofFiles ⟨"api-key"⟩ ⟨"mcp.json"⟩).needs need ∧
      (Job.ofFiles ⟨"api-key"⟩ ⟨"mcp.json"⟩).Tells nullEntryDisk need
        (.unexpectedShape ⟨"mcp.json"⟩ "mcpServers.easygrid") := by
  have settled := Job.run_settled (Job.ofFiles ⟨"api-key"⟩ ⟨"mcp.json"⟩) nullEntryDisk
  exact (settled.2 _).mp (by decide +kernel)

/-! ## The limit on whole paths -/

/-- A path into a directory and out of it again, with more slashes than it
takes. -/
def detour (slashes : Nat) : Path :=
  ⟨String.ofList ('d' :: '/' :: (List.replicate slashes '/' ++ "../mcp.json".toList))⟩

theorem byteSize_replicate_slash (count : Nat) :
    Text.byteSize (List.replicate count '/') = count := by
  induction count with
  | zero => rfl
  | succ count ih =>
    rw [List.replicate_succ, Text.byteSize_cons, ih, Nat.add_comm]
    rfl

theorem byteSize_detour (slashes : Nat) :
    Text.byteSize (detour slashes).text.toList = slashes + 13 := by
  rw [detour, String.toList_ofList, Text.byteSize_cons, Text.byteSize_cons, Text.byteSize_append,
    byteSize_replicate_slash]
  show 1 + (1 + (slashes + 11)) = _
  omega

/-- Slashes that follow one another have nothing between them. -/
theorem pieces_detour (slashes : Nat) :
    Path.pieces (detour slashes).text.toList =
      (['d'], List.replicate slashes [] ++ ["..".toList, "mcp.json".toList]) := by
  have inner : Path.allPieces (List.replicate slashes '/' ++ "../mcp.json".toList) =
      List.replicate slashes [] ++ ["..".toList, "mcp.json".toList] := by
    induction slashes with
    | zero => decide
    | succ slashes ih =>
      rw [List.replicate_succ, List.cons_append, Path.allPieces_slash, ih, List.replicate_succ,
        List.cons_append]
  rw [detour, String.toList_ofList, ← inner]
  rfl

/-- The backup keeps the slashes, which stand before something else than the
name. -/
theorem byteSize_backup_detour (slashes : Nat) :
    Text.byteSize (detour slashes).backup.text.toList = slashes + 17 := by
  have between : (List.replicate slashes ([] : List Char)).flatMap ('/' :: ·) =
      List.replicate slashes '/' := by
    induction slashes with
    | zero => rfl
    | succ slashes ih => rw [List.replicate_succ, List.flatMap_cons, ih, List.replicate_succ]; rfl
  have named : (List.replicate slashes ([] : List Char) ++ ["..".toList, "mcp.json".toList]).reverse =
      "mcp.json".toList :: "..".toList :: List.replicate slashes [] := by
    simp
  have text : (detour slashes).backup.text.toList =
      Path.joinPieces ['d'] (List.replicate slashes [] ++ ["..".toList, "mcp.json.bak".toList]) := by
    have last : Path.isIdle "mcp.json".toList = false := by decide
    have before : Path.isIdle "..".toList = false := by decide
    have isName : Path.isName "mcp.json".toList = true := by decide
    simp only [Path.backup, pieces_detour, named, List.dropWhile_cons, last, before, isName,
      Bool.false_eq_true, if_false, if_true, String.toList_ofList, List.reverse_cons,
      List.reverse_replicate, List.append_assoc, List.singleton_append]
    rfl
  rw [text, Path.joinPieces, List.flatMap_append, between, Text.byteSize_append,
    Text.byteSize_append, byteSize_replicate_slash]
  show 1 + (slashes + 16) = _
  omega

/-- A disk with a directory for the detour. -/
def detourDisk : Disk where
  current := ["home"]
  nodes := [(["home"], .directory), (["home", "d"], .directory),
    (["home", "api-key"], .ofText "abc\n"), (["home", "mcp.json"], .ofText "\x7b\x7d")]
  inside := Disk.inside_of_nodes rfl

theorem locate_detour {slashes : Nat} (short : slashes + 13 ≤ Disk.pathLimit) :
    detourDisk.locate (detour slashes) = .ok ["home", "mcp.json"] := by
  have nonempty : (detour slashes).text.toList ≠ [] := by
    rw [detour, String.toList_ofList]
    exact List.cons_ne_nil _ _
  have noNul : '\x00' ∉ (detour slashes).text.toList := by
    rw [detour, String.toList_ofList, List.mem_cons, List.mem_cons, List.mem_append,
      List.mem_replicate]
    rintro (equal | equal | ⟨-, equal⟩ | member)
    · exact absurd equal (by decide)
    · exact absurd equal (by decide)
    · exact absurd equal (by decide)
    · exact absurd member (by decide)
  have idle : ∀ count : Nat, (List.replicate count []).foldlM detourDisk.step ["home", "d"] =
      .ok ["home", "d"] := by
    intro count
    induction count with
    | zero => rfl
    | succ count ih => exact ih
  rw [Disk.locate_eq nonempty noNul, byteSize_detour, if_neg (Nat.not_lt.mpr short), Disk.walk,
    Path.trail, Path.allPieces, pieces_detour, List.foldlM_cons]
  show (List.replicate slashes [] ++ ["..".toList, "mcp.json".toList]).foldlM detourDisk.step
    ["home", "d"] = _
  rw [List.foldlM_append, idle]
  rfl

/-- All that a run needs on the disk is there, and the path of its backup is too
long. -/
theorem Job.run_refused_detour :
    (∀ need ∈ (Job.ofFiles ⟨"api-key"⟩ (detour 4082)).needs, need ≠ .backupPath →
        (Job.ofFiles ⟨"api-key"⟩ (detour 4082)).Met detourDisk need) ∧
      ((Job.ofFiles ⟨"api-key"⟩ (detour 4082)).run detourDisk).result =
        .error (.unwritable (detour 4082).backup .nameTooLong) := by
  have located : detourDisk.locate (detour 4082) = .ok (["home"] ++ ["mcp.json"]) :=
    locate_detour (by decide)
  have keyed : detourDisk.Holds ⟨"api-key"⟩ "abc\n" := ⟨_, rfl, rfl⟩
  have config : detourDisk.Holds (detour 4082) "\x7b\x7d" :=
    ⟨_, Disk.find?_eq_some_iff.mpr ⟨_, located, rfl⟩, rfl⟩
  have reads : (Job.ofFiles ⟨"api-key"⟩ (detour 4082)).Reads detourDisk (.object []) :=
    ⟨_, config, rfl⟩
  have clear : ∀ level ∈ Document.levels (.object []), Document.Unobstructed (.object []) level :=
    (Document.installIn_eq_ok_iff.mp
      (show (Document.installIn (.ofKey "") (.object [])).1 = .ok .easygrid from rfl)).2
  have preparing : ∀ need ∈ preparingNeeds,
      (Job.ofFiles ⟨"api-key"⟩ (detour 4082)).Met detourDisk need := by
    have keyFile := keyed.choose_spec.1
    have configFile := config.choose_spec.1
    have visible : ∃ c ∈ "abc\n".toList, Text.isBlank c = false := ⟨'a', by decide, by decide⟩
    simp only [preparingNeeds, readingNeeds, List.cons_append, List.nil_append,
      List.forall_mem_cons]
    exact ⟨⟨_, keyFile⟩, ⟨_, keyFile⟩, ⟨_, keyed⟩, ⟨_, keyed, visible⟩,
      ⟨_, configFile⟩, ⟨_, configFile⟩, ⟨_, config⟩, ⟨_, reads⟩, ⟨_, reads, clear⟩,
      List.forall_mem_nil _⟩
  refine ⟨?_, ?_⟩
  · intro need member other
    rcases List.mem_append.mp member with before | backup
    · exact preparing need before
    · have rest : need = .backupPath ∨ need = .backupName ∨ need = .backupFree := by
        simpa [ofFiles, backupNeeds] using backup
      rcases rest with rfl | rfl | rfl
      · exact absurd rfl other
      · exact ⟨["home"], "mcp.json", located, by decide⟩
      · exact ⟨["home"], "mcp.json", located, by decide⟩
  · have long : ¬ (Job.ofFiles ⟨"api-key"⟩ (detour 4082)).Met detourDisk .backupPath := by
      show ¬ Text.byteSize (detour 4082).backup.text.toList ≤ Disk.pathLimit
      rw [byteSize_backup_detour]
      decide
    exact (Job.settled _ detourDisk).error_iff.mpr
      ⟨.backupPath, .append_right preparing (.here long), .longPath⟩

end KeyInstall
