import KeyInstall.CommandLine.Options

/-!
# Reading a command line

Arguments are read from left to right, and the first fault, or the first call
for the manual or the version, ends the reading.

A setting whose name has been read is *unfinished* until the next option, or the
end, shows that nothing more belongs to it; only then is it checked. So an
argument that is not known at all is refused first, whatever is unfinished.
-/

namespace KeyInstall.CommandLine

/-! ## Shapes of arguments -/

/-- An argument by its shape. -/
inductive Argument where
  /-- Two dashes alone: no option follows. -/
  | separator
  /-- Two dashes and a name, with a value if an equals sign follows the name. -/
  | long (name : String) (value : Option String)
  /-- A dash and letters, each the name of a flag. -/
  | letters (letters : List Char)
  /-- Anything else, a dash alone among it. -/
  | plain (text : String)
  deriving DecidableEq, Repr

/-- The name before an equals sign, and the value after it. -/
def splitValue (text : List Char) : Argument :=
  .long (String.ofList (text.takeWhile (· ≠ '=')))
    (match text.dropWhile (· ≠ '=') with
      | [] => none
      | _ :: value => some (String.ofList value))

/-- The shape of an argument. -/
def Argument.ofText (text : String) : Argument :=
  match text.toList with
  | '-' :: '-' :: [] => .separator
  | '-' :: '-' :: name => splitValue name
  | '-' :: letter :: more => .letters (letter :: more)
  | _ => .plain text

/-! ## Progress -/

/-- What has been read: the options that are finished, and the setting that is
not, with the value that it has got so far. -/
structure Progress where
  choices : Choices
  unfinished : Option (Setting × Option String)
  deriving DecidableEq, Repr

/-- Nothing has been read. -/
def Progress.start : Progress := ⟨.empty, none⟩

/-- Gives a setting its value, once, and no empty one where text is needed. -/
def Choices.put (choices : Choices) (setting : Setting) (value : String) :
    Except ArgumentFault Choices :=
  if (choices.value? setting).isSome then .error (.repeatedSetting setting)
  else if setting.needsText ∧ value = "" then .error (.valueRequired setting)
  else .ok (choices.withValue setting value)

/-- Finishes the setting that is unfinished. -/
def Progress.finish (progress : Progress) : Except ArgumentFault Choices :=
  match progress.unfinished with
  | none => .ok progress.choices
  | some (setting, none) => .error (.valueRequired setting)
  | some (setting, some value) => progress.choices.put setting value

/-- Where the reading stands after an option: it goes on, or it has its answer. -/
inductive Stage where
  | next (progress : Progress)
  | answer (request : Request)
  deriving DecidableEq, Repr

/-- Reads a flag. -/
def readFlag (flag : Flag) (progress : Progress) : Except ArgumentFault Stage := do
  let choices ← progress.finish
  match flag with
  | .help => return .answer .help
  | .version => return .answer .version
  | .dryRun =>
    if choices.dryRun then .error (.repeatedFlag .dryRun)
    else return .next ⟨{ choices with dryRun := true }, none⟩
  | .verbose =>
    if choices.verbose then .error (.repeatedFlag .verbose)
    else return .next ⟨{ choices with verbose := true }, none⟩

/-- Reads flags by their letters. -/
def readFlags : List Char → Progress → Except ArgumentFault Stage
  | [], progress => .ok (.next progress)
  | letter :: letters, progress =>
    match Flag.ofLetter? letter with
    | none => .error (.unexpectedArgument (String.ofList ['-', letter]))
    | some flag =>
      match readFlag flag progress with
      | .error fault => .error fault
      | .ok (.answer request) => .ok (.answer request)
      | .ok (.next progress) => readFlags letters progress

/-- Reads an option by its long name. -/
def readLong (name : String) (value : Option String) (progress : Progress) :
    Except ArgumentFault Stage :=
  match Known.ofName? name, value with
  | none, _ => .error (.unexpectedArgument ("--" ++ name))
  | some (.flag flag), none => readFlag flag progress
  | some (.flag flag), some value => .error (.unexpectedValue value flag)
  | some (.setting setting), none => do
    let choices ← progress.finish
    return .next ⟨choices, some (setting, none)⟩
  | some (.setting setting), some value => do
    let choices ← progress.finish
    let choices ← choices.put setting value
    return .next ⟨choices, none⟩

/-- Reads an argument that is no option: the value of a setting that waits for
one. -/
def readPlain (text : String) (progress : Progress) : Except ArgumentFault Stage :=
  match progress.unfinished with
  | some (setting, none) => .ok (.next ⟨progress.choices, some (setting, some text)⟩)
  | _ => .error (.unexpectedArgument text)

/-- Reads one argument, in front of the others. Nothing may follow a separator. -/
def readArgument (text : String) (rest : List String) (progress : Progress) :
    Except ArgumentFault Stage :=
  match Argument.ofText text with
  | .long name value => readLong name value progress
  | .letters letters => readFlags letters progress
  | .plain text => readPlain text progress
  | .separator =>
    match rest with
    | [] => .ok (.next progress)
    | extra :: _ => .error (.unexpectedArgument extra)

/-- Reads arguments from where the reading stands. -/
def readFrom (progress : Progress) : List String → Except ArgumentFault Request
  | [] => progress.finish.map .run
  | text :: rest =>
    match readArgument text rest progress with
    | .error fault => .error fault
    | .ok (.answer request) => .ok request
    | .ok (.next progress) => readFrom progress rest

/-- What a command line asks for. -/
def read (arguments : List String) : Except ArgumentFault Request :=
  readFrom .start arguments

end KeyInstall.CommandLine
