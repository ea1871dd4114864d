import KeyInstall.Failure
import KeyInstall.Text.Blank

/-!
# Key files

A key file holds one secret. What is blank at its ends is not part of it, and
what is left must be something.
-/

namespace KeyInstall.KeyFile

/-- The key in the text of a key file. -/
def key? (text : String) : Option String :=
  match Text.trim text.toList with
  | [] => none
  | c :: rest => some (String.ofList (c :: rest))

/-- The key in a text that was read at a path. -/
def keyIn (path : Path) (text : String) : Except Failure String :=
  match key? text with
  | none => .error (.emptyKey path)
  | some key => .ok key

/-- Reads the key at a path. -/
def read (disk : Disk) (path : Path) : Except Failure String :=
  readText disk path (.missingKeyFile path) >>= keyIn path

end KeyInstall.KeyFile
