import KeyInstall.CommandLine.Manual
import KeyInstall.CommandLine.Reader
import KeyInstall.Installation

/-!
# The program

From a command line and its surroundings to everything that can be seen
afterwards: the exit code, the two outputs and the disk.

The log goes to the error output before any failure, as far as it is asked for;
what is done does not depend on it.
-/

namespace KeyInstall

open CommandLine (Choices)

/-- What a program finds when it starts. -/
structure Surroundings where
  home : Path
  /-- The text that asks for a log from outside. -/
  logLevel : Option String
  disk : Disk
  /-- The library that reads such texts. Unless it is given, it knows the names of levels. -/
  library : LogLibrary := .names

/-- What can be seen after a program has ended. -/
structure Exit where
  code : Nat
  stdout : String
  /-- Log lines stand here without the time and the colours that a log puts to them. Of a
  command line that is refused only the first line is here, without its line feed; the
  advice and the usage that follow it are left out. -/
  stderr : String
  disk : Disk

namespace Program

/-- The filter of the log. A flag asks for the details, a text from outside for what
it says, and without either only warnings are shown. -/
def logFilter (library : LogLibrary) (choices : Choices) (logLevel : Option String) : LogFilter :=
  if choices.verbose then library.lenient "debug"
  else (logLevel.bind library.strict).getD (library.lenient "warn")

/-- The job that options give, with the default places and texts for those that
are not given. -/
def job (choices : Choices) (home : Path) : Job where
  keyFile := (choices.keyFile.map Path.mk).getD home.defaultKeyFile
  configFile := (choices.config.map Path.mk).getD home.defaultConfigFile
  url := choices.url.getD Entry.defaultUrl
  description := choices.description.getD Entry.defaultDescription
  dryRun := choices.dryRun

/-- What a failure adds to the standard output and to the error output. -/
def failureTexts (failure : Failure) : String × String :=
  match failure.disk? with
  | some (what, fault) => ("", Terminal.diskFailure what fault)
  | none => (Terminal.expectedFailure failure, "")

/-- What is printed before a job is begun. -/
def banner (job : Job) : String := if job.dryRun then Terminal.dryRunBanner else ""

/-- Runs a job and tells about it. -/
def runJob (job : Job) (filter : LogFilter) (disk : Disk) : Exit :=
  let report := job.run disk
  let logged := logText filter (.usingFiles job.keyFile job.configFile :: report.log)
  match report.result with
  | .ok _ => ⟨0, banner job ++ report.printed, logged, report.disk⟩
  | .error failure =>
    let (out, err) := failureTexts failure
    ⟨1, banner job ++ report.printed ++ out, logged ++ err, report.disk⟩

/-- Runs a command line. -/
def run (surroundings : Surroundings) (arguments : List String) : Exit :=
  match CommandLine.read arguments with
  | .error fault => ⟨2, "", fault.message, surroundings.disk⟩
  | .ok .help => ⟨0, CommandLine.helpText, "", surroundings.disk⟩
  | .ok .version => ⟨0, CommandLine.versionText, "", surroundings.disk⟩
  | .ok (.run choices) =>
    runJob (job choices surroundings.home)
      (logFilter surroundings.library choices surroundings.logLevel) surroundings.disk

/-- The paths that a command line may follow. -/
def paths (home : Path) (arguments : List String) : List Path :=
  match CommandLine.read arguments with
  | .ok (.run choices) =>
    let job := job choices home
    [job.keyFile, job.configFile, job.configFile.backup]
  | _ => []

end Program

end KeyInstall
