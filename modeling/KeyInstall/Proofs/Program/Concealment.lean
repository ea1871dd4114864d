import KeyInstall.Program
import KeyInstall.Proofs.Installation.Log
import KeyInstall.Proofs.Installation.Secrecy

/-!
# The key is not told

Whoever sees the exit code, the outputs and the files of a run, but neither the
key file nor the document, learns nothing of the key but its length, and that
from the log alone (`Program.run_conceals`). The statement is about two runs of
one command line in surroundings with two keys.

A key may lie where the backup goes. A run that succeeds puts the previous
document there, but one that fails leaves the key where it is
(`Program.run_leaves_key`).
-/

namespace KeyInstall.Program

/-! ## What a command line asks for -/

/-- The job that a command line asks for, with the filter of its log. The others ask
for the manual or the version, or are refused. -/
def request? (surroundings : Surroundings) (arguments : List String) :
    Option (Job × LogFilter) :=
  match CommandLine.read arguments with
  | .ok (.run choices) => some (job choices surroundings.home,
      logFilter surroundings.library choices surroundings.logLevel)
  | _ => none

variable {surroundings : Surroundings} {arguments : List String} {filter : LogFilter}

theorem run_of_request {job : Job} (asked : request? surroundings arguments = some (job, filter)) :
    run surroundings arguments = runJob job filter surroundings.disk := by
  unfold request? at asked
  unfold run
  split at asked
  · rename_i choices read
    cases asked
    rw [read]
  · cases asked

/-- Without a job, what is told does not depend on the disk, which stays as it is. -/
theorem run_of_no_request (asked : request? surroundings arguments = none) :
    ∃ code stdout stderr, ∀ disk,
      run { surroundings with disk := disk } arguments = ⟨code, stdout, stderr, disk⟩ := by
  unfold request? at asked
  unfold run
  cases read : CommandLine.read arguments with
  | error fault => exact ⟨_, _, _, fun _ => rfl⟩
  | ok request =>
    cases request with
    | run choices => simp [read] at asked
    | help | version => exact ⟨_, _, _, fun _ => rfl⟩

/-! ## Two exits -/

/-- What two runs of one command line have in common, on the disks `first` and
`second` with the keys `one` and `two` in the file at `place`. -/
structure Concealed (request : Option (Job × LogFilter)) (place : Location) (one two : String)
    (first second : Disk) (exit exit' : Exit) : Prop where
  code : exit'.code = exit.code
  stdout : exit'.stdout = exit.stdout
  /-- The log tells the length of the key, where it shows that a key was read. -/
  stderr : (∀ job filter, request = some (job, filter) →
      ∀ keyFile length, filter.shows (.readKey keyFile length) = false) ∨
      one.utf8ByteSize = two.utf8ByteSize →
    exit'.stderr = exit.stderr
  /-- Only the key file and the document may differ. -/
  disk : ∀ other, other ≠ place →
    (∀ job filter, request = some (job, filter) → first.locate job.configFile ≠ .ok other) →
    exit'.disk.node? other = exit.disk.node? other
  /-- The backup is the same, unless a run that fails leaves the key in its place. -/
  backup : ∀ job filter, request = some (job, filter) →
    exit.code = 0 ∨ first.locate job.configFile.backup ≠ .ok place →
    exit'.disk.find? job.configFile.backup = exit.disk.find? job.configFile.backup
  /-- Runs that fail leave their disks as they are. -/
  kept : exit.code ≠ 0 → exit.disk = first ∧ exit'.disk = second
  /-- A run that succeeds keeps the previous document, even in the place of the key, and
  its document differs in the header with the key of the entry that is written. -/
  documents : ∀ job filter, request = some (job, filter) → exit.code = 0 →
    ∃ document updated, Document.read first job.configFile = .ok document ∧
      exit.disk.find? job.configFile.backup = some (.ofText document.render) ∧
      exit'.disk.find? job.configFile.backup = some (.ofText document.render) ∧
      Document.read exit.disk job.configFile = .ok updated ∧
      Document.read exit'.disk job.configFile = .ok ⟨updated.path,
        Json.replaceAt (Document.keyPlace document.target) (.string two) updated.root⟩

section

variable {place : Location} {one two : String} {first second : Disk} {job : Job}

/-! ## From a report to an exit -/

theorem runJob_of_ok {disk : Disk} {outcome : Outcome}
    (succeeded : (job.run disk).result = .ok outcome) (filter : LogFilter) :
    runJob job filter disk = ⟨0, banner job ++ (job.run disk).printed,
      logText filter (job.events disk), (job.run disk).disk⟩ := by
  simp only [runJob, succeeded, Job.events]

theorem runJob_of_error {disk : Disk} {failure : Failure}
    (failed : (job.run disk).result = .error failure) (filter : LogFilter) :
    runJob job filter disk =
      ⟨1, banner job ++ (job.run disk).printed ++ (failureTexts failure).1,
        logText filter (job.events disk) ++ (failureTexts failure).2, (job.run disk).disk⟩ := by
  simp only [runJob, failed, Job.events]

theorem disk_runJob (job : Job) (filter : LogFilter) (disk : Disk) :
    (runJob job filter disk).disk = (job.run disk).disk := by
  cases result : (job.run disk).result with
  | error failure => rw [runJob_of_error result]
  | ok outcome => rw [runJob_of_ok result]

/-- A run exits with zero exactly if its job was carried out. -/
theorem code_runJob_eq_zero_iff (job : Job) (filter : LogFilter) (disk : Disk) :
    (runJob job filter disk).code = 0 ↔ ∃ outcome, (job.run disk).result = .ok outcome := by
  cases result : (job.run disk).result with
  | error failure => simp [runJob_of_error result]
  | ok outcome => simp [runJob_of_ok result]

/-- Runs that end alike exit alike, and their logs are all that may tell them
apart. -/
theorem runJob_alike (alike : RunsAlike job first second (job.run first) (job.run second))
    (filter : LogFilter) :
    (runJob job filter second).code = (runJob job filter first).code ∧
      (runJob job filter second).stdout = (runJob job filter first).stdout ∧
      (logText filter (job.events second) = logText filter (job.events first) →
        (runJob job filter second).stderr = (runJob job filter first).stderr) := by
  cases result : (job.run first).result with
  | error failure =>
    obtain ⟨result', printed, -, -⟩ := alike.of_error result
    rw [runJob_of_error result, runJob_of_error result', printed]
    refine ⟨rfl, rfl, ?_⟩
    intro same
    exact congrArg (· ++ (failureTexts failure).2) same
  | ok outcome =>
    obtain ⟨outcome', result', printed⟩ := alike.of_ok result
    rw [runJob_of_ok result, runJob_of_ok result', printed]
    exact ⟨rfl, rfl, id⟩

theorem runJob_conceals (keys : KeyTwins place one two first second)
    (keyAt : job.KeyAt first place) (wet : job.dryRun = false) (filter : LogFilter) :
    Concealed (some (job, filter)) place one two first second (runJob job filter first)
      (runJob job filter second) := by
  obtain ⟨alike, logs⟩ := runs_alike keys keyAt wet
  obtain ⟨code, stdout, stderr⟩ := runJob_alike alike filter
  have kept : (runJob job filter first).code ≠ 0 →
      (runJob job filter first).disk = first ∧ (runJob job filter second).disk = second := by
    intro nonzero
    rw [disk_runJob, disk_runJob]
    cases result : (job.run first).result with
    | error failure => exact (alike.of_error result).2.2
    | ok outcome =>
      exact absurd ((code_runJob_eq_zero_iff job filter first).mpr ⟨outcome, result⟩) nonzero
  refine ⟨code, stdout, ?_, ?_, ?_, kept, ?_⟩
  · intro same
    apply stderr
    have events : LogsAlike one two (job.events first) (job.events second) :=
      .cons (.same _) logs
    exact logText_congr (events.filter_eq (same.imp_left fun hidden => hidden job filter rfl))
  · intro other notKey notConfig
    rw [disk_runJob, disk_runJob]
    exact node?_of_runs keys keyAt wet notKey (notConfig job filter rfl)
  · rintro _ _ ⟨⟩ safe
    by_cases zero : (runJob job filter first).code = 0
    · obtain ⟨outcome, succeeded⟩ := (code_runJob_eq_zero_iff job filter first).mp zero
      obtain ⟨document, updated, -, backup, backup', -⟩ :=
        documents_of_runs keys keyAt wet succeeded
      rw [disk_runJob, disk_runJob, backup, backup']
    · obtain ⟨same, same'⟩ := kept zero
      rw [same, same']
      exact keys.twins.find?_eq (safe.resolve_left zero)
  · rintro _ _ ⟨⟩ zero
    obtain ⟨outcome, succeeded⟩ := (code_runJob_eq_zero_iff job filter first).mp zero
    rw [disk_runJob, disk_runJob]
    exact documents_of_runs keys keyAt wet succeeded

/-- One command line, without a dry run, tells the same and leaves the same on two
disks that differ in the key alone, but for the key file, the header with the key
and the length of the key in the log. -/
theorem run_conceals (keys : KeyTwins place one two surroundings.disk second)
    (keyAt : ∀ job filter, request? surroundings arguments = some (job, filter) →
      job.dryRun = false ∧ job.KeyAt surroundings.disk place) :
    Concealed (request? surroundings arguments) place one two surroundings.disk second
      (run surroundings arguments) (run { surroundings with disk := second } arguments) := by
  cases asked : request? surroundings arguments with
  | none =>
    obtain ⟨code, stdout, stderr, told⟩ := run_of_no_request asked
    rw [told second, show run surroundings arguments = ⟨code, stdout, stderr, surroundings.disk⟩
      from told surroundings.disk]
    refine ⟨rfl, rfl, fun _ => rfl, ?_, ?_, fun _ => ⟨rfl, rfl⟩, ?_⟩
    · intro other notKey _
      exact keys.elsewhere other notKey
    · intro job filter requested
      cases requested
    · intro job filter requested
      cases requested
  | some request =>
    obtain ⟨job, filter⟩ := request
    obtain ⟨wet, keyAt⟩ := keyAt job filter asked
    have asked' : request? { surroundings with disk := second } arguments = some (job, filter) :=
      asked
    rw [run_of_request asked, run_of_request asked']
    exact runJob_conceals keys keyAt wet filter

end

/-! ## A command line that tells of the key in its log -/

/-- A disk with a key and a configuration. -/
def keyedDisk (name text config : String) : Disk where
  current := ["home"]
  nodes := [(["home"], .directory), (["home", name], .ofText text),
    (["home", "mcp.json"], .ofText config)]
  inside := Disk.inside_of_nodes rfl

theorem heldAt_keyedDisk (name text config : String) (left : Text.trim text.toList ≠ []) :
    KeyFile.HeldAt (keyedDisk name text config) ["home", name]
      (String.ofList (Text.trim text.toList)) := by
  refine ⟨text.toUTF8, text, ?_, Node.text_ofText text, left, rfl⟩
  simp [keyedDisk, Disk.node?, Disk.nodeAt, Table.get?, Node.ofText]

theorem keyTwins_keyedDisk (name config text text' : String)
    (left : Text.trim text.toList ≠ []) (left' : Text.trim text'.toList ≠ []) :
    KeyTwins ["home", name] (String.ofList (Text.trim text.toList))
      (String.ofList (Text.trim text'.toList)) (keyedDisk name text config)
      (keyedDisk name text' config) where
  current := rfl
  onFirst := heldAt_keyedDisk name text config left
  onSecond := heldAt_keyedDisk name text' config left'
  elsewhere := by
    intro other notKey
    simp [keyedDisk, Disk.node?, Disk.nodeAt, Table.get?, notKey.symm]

/-- What a program finds with a disk. -/
def keyedSurroundings (disk : Disk) : Surroundings where
  home := ⟨"/home"⟩
  logLevel := none
  disk := disk

/-- A command line that installs the key, with a log. -/
def keyedArguments : List String := ["--key-file=key", "--config=mcp.json", "-v"]

/-- What it asks for. -/
def keyedJob : Job := .ofFiles ⟨"key"⟩ ⟨"mcp.json"⟩

theorem run_conceals_keyedDisk :
    request? (keyedSurroundings (keyedDisk "key" "secret\n" "\x7b\x7d")) keyedArguments =
        some (keyedJob, LogLibrary.names.lenient "debug") ∧
      (run (keyedSurroundings (keyedDisk "key" "secret\n" "\x7b\x7d")) keyedArguments).code = 0 ∧
      Concealed (some (keyedJob, LogLibrary.names.lenient "debug")) ["home", "key"]
        "secret" "hidden" (keyedDisk "key" "secret\n" "\x7b\x7d")
        (keyedDisk "key" " hidden" "\x7b\x7d")
        (run (keyedSurroundings (keyedDisk "key" "secret\n" "\x7b\x7d")) keyedArguments)
        (run (keyedSurroundings (keyedDisk "key" " hidden" "\x7b\x7d")) keyedArguments) := by
  have asked : request? (keyedSurroundings (keyedDisk "key" "secret\n" "\x7b\x7d"))
      keyedArguments = some (keyedJob, LogLibrary.names.lenient "debug") := rfl
  have keys : KeyTwins ["home", "key"] "secret" "hidden"
      (keyedSurroundings (keyedDisk "key" "secret\n" "\x7b\x7d")).disk
      (keyedDisk "key" " hidden" "\x7b\x7d") :=
    keyTwins_keyedDisk "key" "\x7b\x7d" "secret\n" " hidden" (by decide +kernel)
      (by decide +kernel)
  have keyAt : ∀ job filter, request? (keyedSurroundings (keyedDisk "key" "secret\n" "\x7b\x7d"))
      keyedArguments = some (job, filter) →
      job.dryRun = false ∧ job.KeyAt (keyedDisk "key" "secret\n" "\x7b\x7d") ["home", "key"] := by
    intro job filter same
    rw [asked] at same
    cases same
    exact ⟨rfl, rfl, by decide +kernel⟩
  exact ⟨asked, rfl, run_conceals keys keyAt⟩

/-! ## A key in the place of the backup -/

/-- A command line that installs a key from where the backup goes. -/
def misplacedArguments : List String := ["--key-file=mcp.json.bak", "--config=mcp.json"]

/-- What it asks for. -/
def misplacedJob : Job := .ofFiles ⟨"mcp.json.bak"⟩ ⟨"mcp.json"⟩

/-- Runs on a list fail, and each leaves its key where the backup goes. -/
theorem run_leaves_key :
    KeyTwins ["home", "mcp.json.bak"] "secret" "hidden" (keyedDisk "mcp.json.bak" "secret\n" "[]")
        (keyedDisk "mcp.json.bak" "hidden\n" "[]") ∧
      (∃ filter, request? (keyedSurroundings (keyedDisk "mcp.json.bak" "secret\n" "[]"))
        misplacedArguments = some (misplacedJob, filter)) ∧
      misplacedJob.dryRun = false ∧
      misplacedJob.KeyAt (keyedDisk "mcp.json.bak" "secret\n" "[]") ["home", "mcp.json.bak"] ∧
      (run (keyedSurroundings (keyedDisk "mcp.json.bak" "secret\n" "[]"))
        misplacedArguments).code = 1 ∧
      (run (keyedSurroundings (keyedDisk "mcp.json.bak" "hidden\n" "[]"))
          misplacedArguments).disk.find? misplacedJob.configFile.backup ≠
        (run (keyedSurroundings (keyedDisk "mcp.json.bak" "secret\n" "[]"))
          misplacedArguments).disk.find? misplacedJob.configFile.backup := by
  refine ⟨?_, ⟨_, rfl⟩, rfl, ⟨rfl, ?_⟩, ?_, ?_⟩
  · exact keyTwins_keyedDisk "mcp.json.bak" "[]" "secret\n" "hidden\n" (by decide +kernel)
      (by decide +kernel)
  · decide +kernel
  · decide +kernel
  · decide +kernel

end KeyInstall.Program
