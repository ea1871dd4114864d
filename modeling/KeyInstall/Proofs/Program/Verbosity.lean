import KeyInstall.Proofs.Program.Exits

/-!
# With a log and without

A log is all that asking for one brings about: a run with a log is the run without
one, with lines in front of its error output (`Program.run_shows_log`). They are the
lines of a faithful log: those that the filter shows, and all of them if it hides
none.
-/

namespace KeyInstall.Program

open CommandLine (Choices Flag Gives Setting)

variable {arguments arguments' : List String} {choices choices' : Choices}

/-! ## Command lines that differ in a log -/

/-- Two command lines give the same but for the flag that asks for a log. -/
structure AlikeButVerbose (arguments arguments' : List String) : Prop where
  settings : ∀ setting value, Gives setting value arguments' ↔ Gives setting value arguments
  flags : ∀ flag : Flag, flag ≠ .verbose →
    ((∃ argument ∈ arguments', flag.NamedBy argument) ↔
      ∃ argument ∈ arguments, flag.NamedBy argument)

theorem alikeButVerbose_iff (accepted : CommandLine.read arguments = .ok (.run choices))
    (accepted' : CommandLine.read arguments' = .ok (.run choices')) :
    AlikeButVerbose arguments arguments' ↔
      choices' = { choices with verbose := choices'.verbose } := by
  obtain ⟨flags, values⟩ := CommandLine.read_given accepted
  obtain ⟨flags', values'⟩ := CommandLine.read_given accepted'
  constructor
  · intro alike
    have value : ∀ setting, choices'.value? setting = choices.value? setting := by
      intro setting
      ext given
      rw [values, values', alike.settings]
    have dry : choices'.dryRun = choices.dryRun :=
      Bool.eq_iff_iff.mpr ((flags' .dryRun).trans
        ((alike.flags .dryRun (by decide)).trans (flags .dryRun).symm))
    obtain ⟨keyFile, config, url, description, dryRun, verbose⟩ := choices'
    cases dry
    cases value .keyFile
    cases value .config
    cases value .url
    cases value .description
    rfl
  · intro same
    refine ⟨?_, ?_⟩
    · intro setting value
      rw [← values, ← values', same]
      cases setting <;> rfl
    · intro flag other
      rw [← flags, ← flags', same]
      cases flag with
      | verbose => contradiction
      | dryRun | help | version => rfl

/-! ## Showing a log -/

/-- An exit with the lines that a filter shows, before all else on the error output.
All else is as it is without a log. -/
structure Shows (filter : LogFilter) (events : List Event) (quiet exit : Exit) : Prop where
  code : exit.code = quiet.code
  stdout : exit.stdout = quiet.stdout
  disk : exit.disk = quiet.disk
  stderr : exit.stderr = logLines (events.filter filter.shows) ++ quiet.stderr
  detailed : filter.Detailed → exit.stderr = logLines events ++ quiet.stderr
  silent : filter.Silent → exit.stderr = quiet.stderr

theorem logText_off (events : List Event) : logText .off events = "" := by
  rw [logText_eq, LogFilter.silent_off.filter_shows]
  rfl

/-- A log is put before what else is told of a job. -/
theorem runJob_eq (job : Job) (filter : LogFilter) (disk : Disk) :
    runJob job filter disk = { runJob job .off disk with
      stderr := logText filter (job.events disk) ++ (runJob job .off disk).stderr } := by
  cases result : (job.run disk).result with
  | error failure => simp [runJob_of_error result, logText_off]
  | ok outcome => simp [runJob_of_ok result, logText_off]

theorem shows_runJob (job : Job) (filter : LogFilter) (disk : Disk) :
    Shows filter (job.events disk) (runJob job .off disk) (runJob job filter disk) := by
  rw [runJob_eq job filter disk, logText_eq]
  refine ⟨rfl, rfl, rfl, rfl, ?_, ?_⟩
  · intro detailed
    rw [detailed.filter_shows]
  · intro silent
    rw [silent.filter_shows]
    exact String.empty_append

/-- What a job tells without a log: all that it does, and its failure if it fails. -/
inductive Quiet (job : Job) (disk : Disk) : Exit → Prop
  | success {outcome : Outcome} : (job.run disk).result = .ok outcome →
      Quiet job disk ⟨0, banner job ++ (job.run disk).printed, "", (job.run disk).disk⟩
  | failure {failure : Failure} {stdout stderr : String} :
      (job.run disk).result = .error failure → Told (banner job) "" failure stdout stderr →
      Quiet job disk ⟨1, stdout, stderr, (job.run disk).disk⟩

theorem quiet_runJob (job : Job) (disk : Disk) : Quiet job disk (runJob job .off disk) := by
  cases result : (job.run disk).result with
  | ok outcome =>
    rw [runJob_of_ok result, logText_off]
    exact .success result
  | error failure =>
    rw [runJob_of_error result, printed_of_error result, String.append_empty, logText_off]
    exact .failure result (told_failureTexts _ _ failure)

/-- One run, whatever log is asked for. -/
structure OneRun (arguments arguments' : List String) (home : Path) (disk : Disk) (job : Job)
    (quiet : Exit) (events : List Event) : Prop where
  derived : Derived arguments home job
  tells : Quiet job disk quiet
  faithful : job.Faithful disk quiet.disk events
  shown : ∀ library logLevel, ∃ filter, Asks library arguments logLevel filter ∧
    Shows filter events quiet (run ⟨home, logLevel, disk, library⟩ arguments)
  shown' : ∀ library logLevel, ∃ filter, Asks library arguments' logLevel filter ∧
    Shows filter events quiet (run ⟨home, logLevel, disk, library⟩ arguments')
  /-- Where a log is wanted, it is shown as a whole. -/
  wanted : ∀ library logLevel, LogWanted arguments logLevel →
    (run ⟨home, logLevel, disk, library⟩ arguments).stderr = logLines events ++ quiet.stderr

theorem shows_run (accepted : CommandLine.read arguments = .ok (.run choices)) (home : Path)
    (disk : Disk) (library : LogLibrary) (logLevel : Option String) :
    ∃ filter, Asks library arguments logLevel filter ∧
      Shows filter ((job choices home).events disk) (runJob (job choices home) .off disk)
        (run ⟨home, logLevel, disk, library⟩ arguments) := by
  refine ⟨logFilter library choices logLevel, asks_logFilter accepted library logLevel, ?_⟩
  rw [run, accepted]
  exact shows_runJob _ _ disk

/-- Command lines that give the same but for the flag that asks for a log run the
same, whatever is asked for from outside: the log is all that is added. -/
theorem run_shows_log (accepted : CommandLine.read arguments = .ok (.run choices))
    (accepted' : CommandLine.read arguments' = .ok (.run choices'))
    (alike : AlikeButVerbose arguments arguments') (home : Path) (disk : Disk) :
    ∃ job quiet events, OneRun arguments arguments' home disk job quiet events := by
  have same : job choices' home = job choices home := by
    rw [(alikeButVerbose_iff accepted accepted').mp alike]
    rfl
  refine ⟨job choices home, runJob (job choices home) .off disk, (job choices home).events disk,
    derived_of_read accepted home, quiet_runJob _ disk, ?_, shows_run accepted home disk, ?_, ?_⟩
  · rw [disk_runJob]
    exact (job choices home).faithful_events disk
  · rw [← same]
    exact shows_run accepted' home disk
  · intro library logLevel wanted
    obtain ⟨filter, asks, shows⟩ := shows_run accepted home disk library logLevel
    exact shows.detailed (asks.detailed wanted)

/-- The command line with a log, and one without. -/
theorem run_shows_log_keyedDisk :
    CommandLine.read keyedArguments =
        .ok (.run ⟨some "key", some "mcp.json", none, none, false, true⟩) ∧
      AlikeButVerbose keyedArguments ["--config", "mcp.json", "--key-file", "key"] ∧
      ∃ job quiet events, OneRun keyedArguments ["--config", "mcp.json", "--key-file", "key"]
        ⟨"/home"⟩ (keyedDisk "key" "secret\n" "\x7b\x7d") job quiet events := by
  have accepted : CommandLine.read keyedArguments =
      .ok (.run ⟨some "key", some "mcp.json", none, none, false, true⟩) := rfl
  have accepted' : CommandLine.read ["--config", "mcp.json", "--key-file", "key"] =
      .ok (.run ⟨some "key", some "mcp.json", none, none, false, false⟩) := rfl
  have alike := (alikeButVerbose_iff accepted accepted').mpr rfl
  exact ⟨accepted, alike, run_shows_log accepted accepted' alike _ _⟩

end KeyInstall.Program
