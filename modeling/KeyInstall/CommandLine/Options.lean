import KeyInstall.Text.ControlSequence
import KeyInstall.Text.Line

/-!
# Options of the command line

Settings take a value, flags take none. What a command line asks for is a
`Choices`, or a `Request` for the manual or the version; what is wrong with one
is an `ArgumentFault`.
-/

namespace KeyInstall.CommandLine

/-! ## Settings and flags -/

/-- An option with a value. -/
inductive Setting where
  | keyFile
  | config
  | url
  | description
  deriving DecidableEq, Repr

/-- An option without a value. -/
inductive Flag where
  | dryRun
  | verbose
  | help
  | version
  deriving DecidableEq, Repr

/-- An option of either kind. -/
inductive Known where
  | setting (setting : Setting)
  | flag (flag : Flag)
  deriving DecidableEq, Repr

/-- The long name of a setting. -/
def Setting.name : Setting → String
  | .keyFile => "key-file"
  | .config => "config"
  | .url => "url"
  | .description => "description"

/-- What stands for the value of a setting in a message. -/
def Setting.placeholder : Setting → String
  | .keyFile => "KEY_FILE"
  | .config => "CONFIG"
  | .url => "URL"
  | .description => "DESCRIPTION"

/-- A setting with its value, as it is called in a message. -/
def Setting.usage (setting : Setting) : String :=
  "--" ++ setting.name ++ " <" ++ setting.placeholder ++ ">"

/-- A path must not be empty. -/
def Setting.needsText : Setting → Bool
  | .keyFile => true
  | .config => true
  | .url => false
  | .description => false

/-- The long name of a flag. -/
def Flag.name : Flag → String
  | .dryRun => "dry-run"
  | .verbose => "verbose"
  | .help => "help"
  | .version => "version"

/-- A flag as it is called in a message. -/
def Flag.usage (flag : Flag) : String := "--" ++ flag.name

/-- The flag with a one-letter name. -/
def Flag.ofLetter? (letter : Char) : Option Flag :=
  if letter = 'n' then some .dryRun
  else if letter = 'v' then some .verbose
  else if letter = 'h' then some .help
  else if letter = 'V' then some .version
  else none

/-- Every option. -/
def Known.all : List Known :=
  [.setting .keyFile, .setting .config, .setting .url, .setting .description,
    .flag .dryRun, .flag .verbose, .flag .help, .flag .version]

/-- The long name of an option. -/
def Known.name : Known → String
  | .setting option => option.name
  | .flag option => option.name

/-- The option with a long name. Names are not shortened. -/
def Known.ofName? (name : String) : Option Known :=
  Known.all.find? fun known => known.name == name

/-! ## Choices -/

/-- The options that a command line gives. -/
structure Choices where
  keyFile : Option String
  config : Option String
  url : Option String
  description : Option String
  dryRun : Bool
  verbose : Bool
  deriving DecidableEq, Repr

/-- No option is given. -/
def Choices.empty : Choices := ⟨none, none, none, none, false, false⟩

/-- The value that was given to a setting. -/
def Choices.value? (choices : Choices) : Setting → Option String
  | .keyFile => choices.keyFile
  | .config => choices.config
  | .url => choices.url
  | .description => choices.description

/-- Gives a value to a setting. -/
def Choices.withValue (choices : Choices) (setting : Setting) (value : String) : Choices :=
  match setting with
  | .keyFile => { choices with keyFile := some value }
  | .config => { choices with config := some value }
  | .url => { choices with url := some value }
  | .description => { choices with description := some value }

/-- What a command line asks for. -/
inductive Request where
  | run (choices : Choices)
  | help
  | version
  deriving DecidableEq, Repr

/-! ## Faults -/

/-- Why a command line is refused. -/
inductive ArgumentFault where
  | unexpectedArgument (argument : String)
  | valueRequired (setting : Setting)
  | repeatedSetting (setting : Setting)
  | repeatedFlag (flag : Flag)
  | unexpectedValue (value : String) (flag : Flag)
  deriving DecidableEq, Repr

/-- What was given, in quotes. No control sequence gets into a message. -/
def quote (given : String) : String :=
  "'" ++ String.ofList (Text.withoutControls given.toList) ++ "'"

/-- The wording of a refusal. -/
def ArgumentFault.wording : ArgumentFault → String
  | .unexpectedArgument argument => "error: unexpected argument " ++ quote argument ++ " found"
  | .valueRequired setting =>
    "error: a value is required for '" ++ setting.usage ++ "' but none was supplied"
  | .repeatedSetting setting =>
    "error: the argument '" ++ setting.usage ++ "' cannot be used multiple times"
  | .repeatedFlag flag =>
    "error: the argument '" ++ flag.usage ++ "' cannot be used multiple times"
  | .unexpectedValue value flag =>
    "error: unexpected value " ++ quote value ++ " for '" ++ flag.usage ++
      "' found; no more were expected"

/-- The first line of what is shown of a refusal, without its line feed. The advice and
the usage that follow it are left out. -/
def ArgumentFault.message (fault : ArgumentFault) : String :=
  String.ofList (Text.firstLine fault.wording.toList)

end KeyInstall.CommandLine
