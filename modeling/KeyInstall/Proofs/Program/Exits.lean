import KeyInstall.Proofs.Program.Concealment
import KeyInstall.Proofs.Program.Filter

/-!
# What an exit tells

The exit code, the two outputs and the disk agree, whatever the command line and
its surroundings (`Program.run_lawful`): the code tells a refusal, a failure and
a success apart, a failure is told once and leaves the disk alone, and a disk
that has changed means a success that says so.
-/

namespace KeyInstall.Program

open CommandLine (Flag Gives Setting)

/-! ## The job of a command line -/

/-- What arguments give to a setting, or what stands in for it. -/
inductive Chosen (arguments : List String) (setting : Setting) (default : String) : String → Prop
  | given {value : String} : Gives setting value arguments →
      Chosen arguments setting default value
  | missing : (∀ value, ¬ Gives setting value arguments) →
      Chosen arguments setting default default

/-- The job that arguments ask for, in a home directory. -/
structure Derived (arguments : List String) (home : Path) (job : Job) : Prop where
  keyFile : Chosen arguments .keyFile home.defaultKeyFile.text job.keyFile.text
  configFile : Chosen arguments .config home.defaultConfigFile.text job.configFile.text
  url : Chosen arguments .url Entry.defaultUrl job.url
  description : Chosen arguments .description Entry.defaultDescription job.description
  dryRun : job.dryRun = true ↔ ∃ argument ∈ arguments, Flag.dryRun.NamedBy argument

variable {arguments : List String} {choices : CommandLine.Choices}

theorem chosen_of_read (accepted : CommandLine.read arguments = .ok (.run choices))
    (setting : Setting) (default : String) :
    Chosen arguments setting default ((choices.value? setting).getD default) := by
  have given := (CommandLine.read_given accepted).2 setting
  cases found : choices.value? setting with
  | some value => exact .given ((given value).mp found)
  | none =>
    refine .missing fun value gives => ?_
    rw [(given value).mpr gives] at found
    cases found

theorem derived_of_read (accepted : CommandLine.read arguments = .ok (.run choices))
    (home : Path) : Derived arguments home (job choices home) where
  keyFile := by
    have chosen := chosen_of_read accepted .keyFile home.defaultKeyFile.text
    have text : (job choices home).keyFile.text =
        (choices.keyFile).getD home.defaultKeyFile.text := by
      cases found : choices.keyFile <;> simp [job, found]
    rwa [text]
  configFile := by
    have chosen := chosen_of_read accepted .config home.defaultConfigFile.text
    have text : (job choices home).configFile.text =
        (choices.config).getD home.defaultConfigFile.text := by
      cases found : choices.config <;> simp [job, found]
    rwa [text]
  url := chosen_of_read accepted .url Entry.defaultUrl
  description := chosen_of_read accepted .description Entry.defaultDescription
  dryRun := (CommandLine.read_given accepted).1 .dryRun

/-! ## Reports -/

/-- The line that tells a failure that a person can mend. -/
def errorLine (message : String) : String := "\x1b[31mError:\x1b[39m" ++ " " ++ message ++ "\n"

/-- The line that tells how to make a key file. -/
def hintLine : String := "Run: go run server/cmd/mcp-api-key/main.go -action=create\n"

/-- A failure of the disk, with what was tried and the cause. -/
def faultLines (tried : String) (path : Path) (fault : DiskFault) : String :=
  "Error: " ++ (tried ++ path.text) ++ "\n\nCaused by:\n    " ++ fault.message ++ "\n"

/-- The two outputs of a run that fails, after a banner and beside a log. Every
failure is told on one of them. -/
inductive Told (banner log : String) : Failure → String → String → Prop
  | missingKey (path : Path) : Told banner log (.missingKeyFile path)
      (banner ++ (errorLine ("API Key file not found at " ++ path.text) ++ hintLine)) log
  | mendable {failure : Failure} : failure.disk? = none →
      (∀ path, failure ≠ .missingKeyFile path) →
      Told banner log failure (banner ++ errorLine failure.message) log
  | unreadable (path : Path) (fault : DiskFault) : Told banner log (.unreadable path fault) banner
      (log ++ faultLines "Failed to read: " path fault)
  | unwritable (path : Path) (fault : DiskFault) : Told banner log (.unwritable path fault) banner
      (log ++ faultLines "Failed to write: " path fault)

theorem red_error (message : String) :
    Terminal.red "Error:" ++ " " ++ message ++ "\n" = errorLine message := by
  have label : Terminal.red "Error:" = "\x1b[31mError:\x1b[39m" := by decide +kernel
  exact congrArg (· ++ " " ++ message ++ "\n") label

theorem told_failureTexts (banner log : String) (failure : Failure) :
    Told banner log failure (banner ++ (failureTexts failure).1)
      (log ++ (failureTexts failure).2) := by
  have handled : ∀ failure : Failure, failure.disk? = none → failure.hint? = none →
      (∀ path, failure ≠ .missingKeyFile path) →
      Told banner log failure (banner ++ (failureTexts failure).1)
        (log ++ (failureTexts failure).2) := by
    intro failure noFault noHint other
    have texts : failureTexts failure = (errorLine failure.message, "") := by
      simp only [failureTexts, noFault, Terminal.expectedFailure, noHint, red_error,
        String.append_empty]
    rw [texts, String.append_empty]
    exact .mendable noFault other
  cases failure with
  | missingKeyFile path =>
    have hint : "Run: " ++ Failure.keyCommand ++ "\n" = hintLine := by decide +kernel
    have texts : failureTexts (.missingKeyFile path) =
        (errorLine ("API Key file not found at " ++ path.text) ++ hintLine, "") := by
      rw [← hint, ← red_error]
      rfl
    rw [texts, String.append_empty]
    exact .missingKey path
  | emptyKey | missingConfig | invalidConfig | unexpectedShape =>
    exact handled _ rfl rfl (by simp)
  | unreadable path fault =>
    show Told banner log _ (banner ++ "") _
    rw [String.append_empty]
    exact .unreadable path fault
  | unwritable path fault =>
    show Told banner log _ (banner ++ "") _
    rw [String.append_empty]
    exact .unwritable path fault

/-- The four lines of a run that has written. -/
def successLines (job : Job) (server : ServerName) : String :=
  "\x1b[32mUpdated:\x1b[39m" ++ " " ++ job.configFile.text ++ " with API Key from " ++
      job.keyFile.text ++ "\n" ++
    "  Server: " ++ ("mcpServers" ++ "." ++ server.text) ++ "\n" ++
    "  Backup: " ++ ("\x1b[2m" ++ job.configFile.backup.text ++ "\x1b[0m") ++ "\n" ++
    "Please restart Cursor to apply changes\n"

theorem dimmed_eq (text : String) : Terminal.dimmed text = "\x1b[2m" ++ text ++ "\x1b[0m" := by
  have on : "\x1b[" ++ "2" ++ "m" = "\x1b[2m" := by decide +kernel
  have off : "\x1b[" ++ "0" ++ "m" = "\x1b[0m" := by decide +kernel
  have parts : Terminal.dimmed text = ("\x1b[" ++ "2" ++ "m") ++ text ++ ("\x1b[" ++ "0" ++ "m") := by
    simp only [Terminal.dimmed, Terminal.styled, String.append_assoc]
  exact parts.trans (congrArg₂ (fun first last => first ++ text ++ last) on off)

theorem updateResult_eq (job : Job) (server : ServerName) :
    Terminal.updateResult server job.keyFile job.configFile job.configFile.backup =
      successLines job server := by
  have title : Terminal.green "Updated:" = "\x1b[32mUpdated:\x1b[39m" := by decide +kernel
  rw [Terminal.updateResult, dimmed_eq, title]
  rfl

/-- Nothing is printed by a run that fails. -/
theorem printed_of_error {job : Job} {disk : Disk} {failure : Failure}
    (failed : (job.run disk).result = .error failure) : (job.run disk).printed = "" := by
  have ending := job.ending_run disk
  generalize job.run disk = report at failed ending ⊢
  cases ending with
  | stopped | refused => rfl
  | previewed | replaced => cases failed

/-! ## Exits -/

/-- What holds of every exit. -/
structure Lawful (surroundings : Surroundings) (arguments : List String) (exit : Exit) :
    Prop where
  code : exit.code = 0 ∨ exit.code = 1 ∨ exit.code = 2
  /-- Arguments that are refused, and only they, exit with two. -/
  refused : exit.code = 2 ↔ ∃ fault, CommandLine.read arguments = .error fault
  quiet : exit.code = 2 → exit.stdout = "" ∧ exit.disk = surroundings.disk
  /-- The manual and the version are told at once. -/
  informed : CommandLine.read arguments = .ok .help ∨ CommandLine.read arguments = .ok .version →
    exit.code = 0 ∧ exit.disk = surroundings.disk
  /-- All other arguments ask for a job, and the code tells how it ends. -/
  ran : ∀ choices, CommandLine.read arguments = .ok (.run choices) →
    Derived arguments surroundings.home (job choices surroundings.home) ∧
    (exit.code = 0 ↔ ∃ outcome,
      ((job choices surroundings.home).run surroundings.disk).result = .ok outcome) ∧
    (exit.code = 1 ↔ ∃ failure,
      ((job choices surroundings.home).run surroundings.disk).result = .error failure)
  /-- A failure leaves the disk alone and is told once, beside the log that is asked for. -/
  failed : exit.code = 1 → exit.disk = surroundings.disk ∧
    ∃ job filter failure, request? surroundings arguments = some (job, filter) ∧
      Asks surroundings.library arguments surroundings.logLevel filter ∧
      (job.run surroundings.disk).result = .error failure ∧
      Told (banner job) (logLines ((job.events surroundings.disk).filter filter.shows)) failure
        exit.stdout exit.stderr
  /-- A change is a success without a dry run, it is told, and it stays within the
  configuration and its backup. -/
  changed : exit.disk ≠ surroundings.disk → exit.code = 0 ∧
    (∀ argument ∈ arguments, ¬ Flag.dryRun.NamedBy argument) ∧
    ∃ job filter server, request? surroundings arguments = some (job, filter) ∧
      exit.stdout = successLines job server ∧
      ∀ place, exit.disk.node? place ≠ surroundings.disk.node? place →
        surroundings.disk.locate job.configFile = .ok place ∨
        surroundings.disk.locate job.configFile.backup = .ok place

/-- A run that changes the disk has replaced the document, and says so. -/
theorem printed_of_changed {job : Job} {disk : Disk} (changed : (job.run disk).disk ≠ disk) :
    job.dryRun = false ∧ ∃ outcome, (job.run disk).result = .ok outcome ∧
      (job.run disk).printed = successLines job outcome.server ∧
      ∀ place, (job.run disk).disk.node? place ≠ disk.node? place →
        disk.locate job.configFile = .ok place ∨ disk.locate job.configFile.backup = .ok place := by
  have ending := job.ending_run disk
  generalize job.run disk = report at changed ending ⊢
  cases ending with
  | stopped | refused | previewed => exact absurd rfl changed
  | replaced wet ready backedUp wrote =>
    obtain ⟨key, document, prepared⟩ := exists_prepared ready
    obtain ⟨file, content, located, here⟩ := Document.exists_file_of_read prepared.read
    obtain ⟨backup, places, replaced⟩ := Disk.replaced_of_write located here backedUp wrote
    refine ⟨wet, _, rfl, updateResult_eq job _, ?_⟩
    intro place differs
    by_cases isFile : place = file
    · exact .inl (isFile ▸ places.located)
    · by_cases isBackup : place = backup
      · exact .inr (isBackup ▸ places.backedUp)
      · rw [replaced.nodes, if_neg isFile, if_neg isBackup] at differs
        exact absurd rfl differs

/-- What holds of the exit of a job holds of the exit of its command line. -/
theorem lawful_of_accepted (accepted : CommandLine.read arguments = .ok (.run choices))
    (surroundings : Surroundings) :
    Lawful surroundings arguments (runJob (job choices surroundings.home)
      (logFilter surroundings.library choices surroundings.logLevel) surroundings.disk) := by
  obtain ⟨home, logLevel, disk, library⟩ := surroundings
  have asked : request? ⟨home, logLevel, disk, library⟩ arguments =
      some (job choices home, logFilter library choices logLevel) := by
    rw [request?, accepted]
  have derived := derived_of_read accepted home
  have ran : ∀ other, CommandLine.read arguments = .ok (.run other) → other = choices := by
    intro other again
    rw [accepted] at again
    cases again
    rfl
  cases result : ((job choices home).run disk).result with
  | ok outcome =>
    rw [runJob_of_ok result]
    refine ⟨.inl rfl, by simp [accepted], by simp, by simp [accepted], ?_, by simp, ?_⟩
    · intro other again
      cases ran other again
      exact ⟨derived, by simp [result], by simp [result]⟩
    · intro changed
      obtain ⟨wet, told, -, printed, frame⟩ := printed_of_changed changed
      refine ⟨rfl, ?_, _, _, told.server, asked, ?_, frame⟩
      · intro argument member named
        rw [derived.dryRun.mpr ⟨argument, member, named⟩] at wet
        cases wet
      · simp [banner, wet, printed]
  | error failure =>
    rw [runJob_of_error result, printed_of_error result, String.append_empty, logText_eq]
    have kept : ((job choices home).run disk).disk = disk := by
      refine run_disk_eq (.inr fun outcome succeeded => ?_)
      rw [result] at succeeded
      cases succeeded
    refine ⟨.inr (.inl rfl), by simp [accepted], by simp, by simp [accepted], ?_, ?_, ?_⟩
    · intro other again
      cases ran other again
      exact ⟨derived, by simp [result], by simp [result]⟩
    · intro _
      exact ⟨kept, _, _, failure, asked, asks_logFilter accepted library logLevel, result,
        told_failureTexts _ _ failure⟩
    · intro changed
      exact absurd kept changed

end KeyInstall.Program
