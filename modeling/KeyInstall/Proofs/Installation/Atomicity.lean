import KeyInstall.Proofs.Installation.Endings

/-!
# All or nothing

A run that fails leaves no trace: the disk is the one that it was, nothing is
printed, and no backup was written (`Job.run_atomic`). This is so because the
only write that can be refused is the first one.
-/

namespace KeyInstall

/-- Nothing of a run is left. -/
structure Report.Traceless (report : Report) (disk : Disk) : Prop where
  unchanged : report.disk = disk
  silent : report.printed = ""
  unwritten : ∀ backupFile, .wroteBackup backupFile ∉ report.log

/-- Whatever a run fails with, it leaves no trace, and a document that is a
file can be written after its backup. -/
theorem Job.run_atomic (job : Job) (disk : Disk) :
    (∀ failure, (job.run disk).result = .error failure → (job.run disk).Traceless disk) ∧
      ∀ content previous kept updated,
        disk.find? job.configFile = some (.file content) →
        disk.write job.configFile.backup previous = .ok kept →
        ∃ written, kept.write job.configFile updated = .ok written := by
  refine ⟨?_, ?_⟩
  · intro failure failed
    have unwritten := wroteBackup_not_mem_prepare disk job
    have ending := job.ending_run disk
    -- The two endings with a failure are those before the first write.
    generalize job.run disk = report at failed ending ⊢
    cases ending with
    | stopped => exact ⟨rfl, rfl, unwritten⟩
    | refused => exact ⟨rfl, rfl, unwritten⟩
    | previewed => simp at failed
    | replaced => simp at failed
  · intro content previous kept updated found backedUp
    exact Disk.exists_write_after_write found backedUp updated

/-- A disk with a key, an empty document and a directory where its backup
belongs. -/
def blockedDisk : Disk where
  current := ["home"]
  nodes := [(["home"], .directory), (["home", "key"], .ofText "secret\n"),
    (["home", "mcp.json"], .ofText "\x7b\x7d"), (["home", "mcp.json.bak"], .directory)]
  inside := Disk.inside_of_nodes rfl

/-- A run whose backup is refused leaves no trace. On the same disk the key
file has room for a backup, and is written after it. -/
theorem Job.run_atomic_blockedDisk :
    ((Job.ofFiles ⟨"key"⟩ ⟨"mcp.json"⟩).run blockedDisk).result =
        .error (.unwritable ⟨"mcp.json.bak"⟩ .isDirectory) ∧
      ((Job.ofFiles ⟨"key"⟩ ⟨"mcp.json"⟩).run blockedDisk).Traceless blockedDisk ∧
      ∃ kept, blockedDisk.write (Path.backup ⟨"key"⟩) "" = .ok kept ∧
        ∃ written, kept.write ⟨"key"⟩ "" = .ok written :=
  ⟨rfl, (Job.run_atomic _ _).1 _ rfl, _, rfl,
    (Job.run_atomic (.ofFiles ⟨"mcp.json"⟩ ⟨"key"⟩) blockedDisk).2 _ "" _ "" rfl rfl⟩

end KeyInstall
