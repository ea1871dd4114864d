import KeyInstall.Program

/-!
# Entry point

The program on a real file system. What the paths of a command line lead to is
looked up first and makes the disk that the run works on; what the run has
changed on that disk is written back.
-/

namespace KeyInstall

/-- The name of a location for the operating system. -/
def systemName (location : Location) : String := "/" ++ "/".intercalate location

/-- What the operating system has at a location. -/
def lookUp (location : Location) : IO (Option Node) := do
  match ← (IO.FS.readBinFile (systemName location)).toBaseIO with
  | .ok content => return some (.file content)
  | .error (.inappropriateType ..) => return some .directory
  | .error _ => return none

/-- Adds to a disk what a path leads through. -/
def discover (disk : Disk) (path : Path) : IO Disk := do
  let mut disk := disk
  let mut here := disk.start (path.trail.headD [])
  for piece in path.trail do
    match disk.step here piece with
    | .error _ => break
    | .ok next =>
      here := next
      match ← lookUp next with
      | some node => disk := disk.put next node
      | none => pure ()
  return disk

/-- A disk with the current directory and those around it. -/
def currentDisk : IO Disk := do
  let text := (← IO.currentDir).toString.toList
  let current := ((Path.pieces text).2.filter (· ≠ [])).map String.ofList
  return .ofDirectory current

/-- Writes the files of a disk that differ from those of another one. -/
def writeBack (before after : Disk) : IO Unit := do
  for (location, node) in after.nodes do
    if before.node? location ≠ some node then
      match node with
      | .file content => IO.FS.writeBinFile (systemName location) content
      | .directory => pure ()

/-- Runs a command line on the file system. Of the texts that ask for a log it understands
the names of levels. -/
def runCommand (arguments : List String) : IO UInt32 := do
  let home : Path := ⟨(← IO.getEnv "HOME").getD ""⟩
  let disk ← (Program.paths home arguments).foldlM discover (← currentDisk)
  let exit := Program.run { home, logLevel := ← IO.getEnv "RUST_LOG", disk } arguments
  writeBack disk exit.disk
  IO.print exit.stdout
  IO.eprint exit.stderr
  return exit.code.toUInt32

end KeyInstall

/-- Runs the command line that the program was started with. -/
def main (arguments : List String) : IO UInt32 := KeyInstall.runCommand arguments
