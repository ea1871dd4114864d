import KeyInstall.KeyFile
import KeyInstall.Log
import KeyInstall.Terminal

/-!
# Installing a key

One run: read the key, read the document, write the entry into it, and put the
new text in the place of the old one, which is kept beside it. `prepare` works
everything out and touches nothing; only `commit` writes, the backup first. So
whatever stops a run before the first write leaves the disk as it was.

What a run does is told in a log of events, each at the point that it reaches.
-/

namespace KeyInstall

/-- What a run is asked to do. -/
structure Job where
  keyFile : Path
  configFile : Path
  url : String
  description : String
  dryRun : Bool
  deriving DecidableEq, Repr

/-- The job for two files, with the entry of a local server. -/
def Job.ofFiles (keyFile configFile : Path) : Job :=
  ⟨keyFile, configFile, Entry.defaultUrl, Entry.defaultDescription, false⟩

/-- The entry that a job writes, with a key. -/
def Job.entry (job : Job) (apiKey : String) : Entry := ⟨apiKey, job.url, job.description⟩

/-! ## Results -/

/-- What a successful run did. -/
structure Outcome where
  server : ServerName
  /-- Where the previous document is kept, unless nothing was written. -/
  backupFile : Option Path
  /-- The new text of the document. -/
  document : String
  deriving DecidableEq, Repr

/-- All that a run shows and leaves. -/
structure Report where
  result : Except Failure Outcome
  disk : Disk
  printed : String
  log : List Event

/-! ## Preparing -/

/-- What a run has worked out before it writes. -/
structure Plan where
  server : ServerName
  previous : String
  updated : String
  deriving DecidableEq, Repr

/-- Reads both files and works out the new text. -/
def prepare (disk : Disk) (job : Job) : Except Failure Plan × List Event :=
  let started := [Event.resolvedPaths job.keyFile job.configFile]
  match KeyFile.read disk job.keyFile with
  | .error failure => (.error failure, started)
  | .ok apiKey =>
    let keyed := started ++ [.readKey job.keyFile apiKey.utf8ByteSize]
    match Document.read disk job.configFile with
    | .error failure => (.error failure, keyed)
    | .ok document =>
      match document.install (job.entry apiKey) with
      | (.error failure, _) => (.error failure, keyed)
      | (.ok server, updated) =>
        (.ok ⟨server, document.render, updated.render⟩, keyed ++ [.appliedEntry server])

/-! ## Writing -/

/-- Writes the backup and then the document. -/
def commit (disk : Disk) (job : Job) (plan : Plan) (log : List Event) : Report :=
  let backupFile := job.configFile.backup
  match disk.write backupFile plan.previous with
  | .error fault => ⟨.error (.unwritable backupFile fault), disk, "", log⟩
  | .ok kept =>
    let log := log ++ [.wroteBackup backupFile]
    match kept.write job.configFile plan.updated with
    | .error fault => ⟨.error (.unwritable job.configFile fault), kept, "", log⟩
    | .ok written =>
      ⟨.ok ⟨plan.server, some backupFile, plan.updated⟩, written,
        Terminal.updateResult plan.server job.keyFile job.configFile backupFile,
        log ++ [.wroteConfig job.configFile plan.server]⟩

/-- Carries a job out. -/
def Job.run (job : Job) (disk : Disk) : Report :=
  match prepare disk job with
  | (.error failure, log) => ⟨.error failure, disk, "", log⟩
  | (.ok plan, log) =>
    if job.dryRun then
      ⟨.ok ⟨plan.server, none, plan.updated⟩, disk,
        Terminal.dryRunResult plan.updated plan.server job.configFile, log⟩
    else commit disk job plan log

end KeyInstall
