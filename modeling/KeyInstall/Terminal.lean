import KeyInstall.Document

/-!
# What is printed

The texts of a run, with the codes that colour them on a terminal.
-/

namespace KeyInstall.Terminal

/-! ## Colours -/

/-- A text between two terminal codes. -/
def styled (on off : String) (text : String) : String :=
  "\x1b[" ++ on ++ "m" ++ text ++ "\x1b[" ++ off ++ "m"

def red (text : String) : String := styled "31" "39" text

def green (text : String) : String := styled "32" "39" text

def blue (text : String) : String := styled "34" "39" text

def dimmed (text : String) : String := styled "2" "0" text

/-! ## Results of a run -/

/-- Where an entry stands in a document. -/
def entryPlace (server : ServerName) : String := serversKey ++ "." ++ server.text

/-- A run without writing: the document as it would be, and what it is. -/
def dryRunResult (document : String) (server : ServerName) (configFile : Path) : String :=
  document ++ "\n\n" ++ blue "(DRY-RUN)" ++ " would update " ++ entryPlace server ++
    " in " ++ configFile.text ++ "\n"

/-- A run that has written both files. -/
def updateResult (server : ServerName) (keyFile configFile backupFile : Path) : String :=
  green "Updated:" ++ " " ++ configFile.text ++ " with API Key from " ++ keyFile.text ++ "\n" ++
    "  Server: " ++ entryPlace server ++ "\n" ++
    "  Backup: " ++ dimmed backupFile.text ++ "\n" ++
    "Please restart Cursor to apply changes\n"

/-- Printed first when nothing is to be written. -/
def dryRunBanner : String := blue "(DRY-RUN MODE - no changes will be made)" ++ "\n"

/-- A failure that a person can mend, with what to do about it. -/
def expectedFailure (failure : Failure) : String :=
  red "Error:" ++ " " ++ failure.message ++ "\n" ++
    (match failure.hint? with
      | some hint => hint ++ "\n"
      | none => "")

/-- A failure of the disk, with its cause. -/
def diskFailure (what : String) (fault : DiskFault) : String :=
  "Error: " ++ what ++ "\n\nCaused by:\n    " ++ fault.message ++ "\n"

end KeyInstall.Terminal
