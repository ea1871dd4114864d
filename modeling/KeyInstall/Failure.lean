import KeyInstall.Disk
import KeyInstall.Json.Fault

/-!
# Failures of a run

Everything that can stop a run, as a cause, with the path as it was given.
Failures that a person can mend by changing a file are *expected* and are told
on the terminal; the two others come from the disk. `readText` is how a run reads
each of its files.
-/

namespace KeyInstall

/-- Why a run stops. -/
inductive Failure where
  | missingKeyFile (path : Path)
  | emptyKey (path : Path)
  | missingConfig (path : Path)
  | invalidConfig (path : Path) (error : Json.ParseError)
  /-- The field is there and is no object. -/
  | unexpectedShape (path : Path) (field : String)
  | unreadable (path : Path) (fault : DiskFault)
  | unwritable (path : Path) (fault : DiskFault)
  deriving DecidableEq, Repr

namespace Failure

/-- The failure of the disk behind a failure, with what could not be done. -/
def disk? : Failure → Option (String × DiskFault)
  | .unreadable path fault => some ("Failed to read: " ++ path.text, fault)
  | .unwritable path fault => some ("Failed to write: " ++ path.text, fault)
  | _ => none

/-- The wording of a failure, on one line. -/
def message : Failure → String
  | .missingKeyFile path => "API Key file not found at " ++ path.text
  | .emptyKey _ => "API Key is empty"
  | .missingConfig path => "mcp.json not found at " ++ path.text
  | .invalidConfig path error => "Failed to parse " ++ path.text ++ ": " ++ error.message
  | .unexpectedShape path field =>
    "Expected `" ++ field ++ "` to be a JSON object in " ++ path.text
  | .unreadable path fault => "Failed to read: " ++ path.text ++ ": " ++ fault.message
  | .unwritable path fault => "Failed to write: " ++ path.text ++ ": " ++ fault.message

/-- The command that makes a key file. -/
def keyCommand : String := "go run server/cmd/mcp-api-key/main.go -action=create"

/-- What to do about a failure, where there is a way. -/
def hint? : Failure → Option String
  | .missingKeyFile _ => some ("Run: " ++ keyCommand)
  | _ => none

end Failure

/-- The text of the file that a path leads to, or `missing` if it leads to nothing. -/
def readText (disk : Disk) (path : Path) (missing : Failure) : Except Failure String :=
  match disk.find? path with
  | none => .error missing
  | some node => node.text.mapError (.unreadable path)

end KeyInstall
