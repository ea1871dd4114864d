import KeyInstall.Installation
import KeyInstall.Proofs.Disk.Backup
import KeyInstall.Proofs.Installation.Reading

/-!
# How a run ends

A run ends in one of four ways (`Ending`, `Job.ending_run`): it stops while it
prepares, it previews, its backup is refused, or it replaces the document. The
one other way that its text allows, a backup that is written and a document
that is refused, does not occur: the document was read as a file, and where a
file is read, a file can be written after any other write.
-/

namespace KeyInstall

/-! ## Preparing -/

/-- What a run has read, and the plan that it makes of it. -/
structure Prepared (job : Job) (disk : Disk) (key : String) (document : Document)
    (plan : Plan) : Prop where
  keyed : KeyFile.read disk job.keyFile = .ok key
  read : Document.read disk job.configFile = .ok document
  installed : (document.install (job.entry key)).1 = .ok plan.server
  previous : plan.previous = document.render
  updated : plan.updated = (document.install (job.entry key)).2.render

theorem exists_prepared {job : Job} {disk : Disk} {plan : Plan}
    (ready : (prepare disk job).1 = .ok plan) :
    ∃ key document, Prepared job disk key document plan := by
  unfold prepare at ready
  cases keyed : KeyFile.read disk job.keyFile with
  | error failure => simp [keyed] at ready
  | ok key =>
    cases read : Document.read disk job.configFile with
    | error failure => simp [keyed, read] at ready
    | ok document =>
      simp only [keyed, read] at ready
      cases installed : document.install (job.entry key) with
      | mk result updated =>
        cases result with
        | error failure => simp [installed] at ready
        | ok server =>
          simp only [installed, Except.ok.injEq] at ready
          subst ready
          exact ⟨key, document, keyed, read, by rw [installed], rfl, by rw [installed]⟩

/-- A run that stops while it prepares has found fault with the key, with the
document, or with the shape of the document. -/
theorem fault_of_prepare {job : Job} {disk : Disk} {failure : Failure}
    (failed : (prepare disk job).1 = .error failure) :
    KeyFile.read disk job.keyFile = .error failure ∨
      Document.read disk job.configFile = .error failure ∨
      ∃ key document, Document.read disk job.configFile = .ok document ∧
        (document.install (job.entry key)).1 = .error failure := by
  unfold prepare at failed
  cases keyed : KeyFile.read disk job.keyFile with
  | error failure => exact .inl (by simpa [keyed] using failed)
  | ok key =>
    cases read : Document.read disk job.configFile with
    | error failure => exact .inr (.inl (by simpa [keyed, read] using failed))
    | ok document =>
      refine .inr (.inr ⟨key, document, rfl, ?_⟩)
      simp only [keyed, read] at failed
      cases installed : document.install (job.entry key) with
      | mk result updated =>
        cases result with
        | error failure => simpa [installed] using failed
        | ok server => simp [installed] at failed

/-- Nothing is written while a run prepares. -/
theorem wroteBackup_not_mem_prepare (disk : Disk) (job : Job) (backupFile : Path) :
    .wroteBackup backupFile ∉ (prepare disk job).2 := by
  unfold prepare
  split
  · simp
  · split
    · simp
    · split <;> simp

/-! ## Running after a preparation -/

theorem run_of_error {job : Job} {disk : Disk} {failure : Failure}
    (failed : (prepare disk job).1 = .error failure) :
    job.run disk = ⟨.error failure, disk, "", (prepare disk job).2⟩ := by
  unfold Job.run
  cases prepared : prepare disk job with
  | mk result log =>
    rw [prepared] at failed
    obtain rfl : result = .error failure := failed
    rfl

theorem run_of_ok {job : Job} {disk : Disk} {plan : Plan} (wet : job.dryRun = false)
    (ready : (prepare disk job).1 = .ok plan) :
    job.run disk = commit disk job plan (prepare disk job).2 := by
  unfold Job.run
  cases prepared : prepare disk job with
  | mk result log =>
    rw [prepared] at ready
    obtain rfl : result = .ok plan := ready
    simp [wet]

theorem run_of_dry {job : Job} {disk : Disk} {plan : Plan} (dry : job.dryRun = true)
    (ready : (prepare disk job).1 = .ok plan) :
    job.run disk = ⟨.ok ⟨plan.server, none, plan.updated⟩, disk,
      Terminal.dryRunResult plan.updated plan.server job.configFile, (prepare disk job).2⟩ := by
  unfold Job.run
  cases prepared : prepare disk job with
  | mk result log =>
    rw [prepared] at ready
    obtain rfl : result = .ok plan := ready
    simp [dry]

/-! ## Endings -/

/-- The reports that a run on a disk can end with. -/
inductive Ending (job : Job) (disk : Disk) : Report → Prop
  /-- The run found fault with what it read. -/
  | stopped {failure : Failure} (failed : (prepare disk job).1 = .error failure) :
    Ending job disk ⟨.error failure, disk, "", (prepare disk job).2⟩
  /-- The run only told what it would do. -/
  | previewed {plan : Plan} (dry : job.dryRun = true)
    (ready : (prepare disk job).1 = .ok plan) :
    Ending job disk ⟨.ok ⟨plan.server, none, plan.updated⟩, disk,
      Terminal.dryRunResult plan.updated plan.server job.configFile, (prepare disk job).2⟩
  /-- The backup could not be written. -/
  | refused {plan : Plan} {fault : DiskFault} (wet : job.dryRun = false)
    (ready : (prepare disk job).1 = .ok plan)
    (refused : disk.write job.configFile.backup plan.previous = .error fault) :
    Ending job disk
      ⟨.error (.unwritable job.configFile.backup fault), disk, "", (prepare disk job).2⟩
  /-- The previous document was kept and the new one put in its place. -/
  | replaced {plan : Plan} {kept written : Disk} (wet : job.dryRun = false)
    (ready : (prepare disk job).1 = .ok plan)
    (backedUp : disk.write job.configFile.backup plan.previous = .ok kept)
    (wrote : kept.write job.configFile plan.updated = .ok written) :
    Ending job disk ⟨.ok ⟨plan.server, some job.configFile.backup, plan.updated⟩, written,
      Terminal.updateResult plan.server job.keyFile job.configFile job.configFile.backup,
      (prepare disk job).2 ++ [.wroteBackup job.configFile.backup] ++
        [.wroteConfig job.configFile plan.server]⟩

/-- Once the document was read and the backup written, the document is written. -/
theorem exists_write_of_backup {job : Job} {disk kept : Disk} {plan : Plan}
    (ready : (prepare disk job).1 = .ok plan)
    (backedUp : disk.write job.configFile.backup plan.previous = .ok kept) :
    ∃ written, kept.write job.configFile plan.updated = .ok written := by
  obtain ⟨key, document, prepared⟩ := exists_prepared ready
  -- What can be read is a file, and the backup moves no directory in its way.
  obtain ⟨place, content, located, here⟩ := Document.exists_file_of_read prepared.read
  have found := Disk.find?_eq_some_iff.mpr ⟨place, located, here⟩
  exact Disk.exists_write_after_write found backedUp plan.updated

theorem Job.ending_run (job : Job) (disk : Disk) : Ending job disk (job.run disk) := by
  unfold Job.run
  -- The log of the preparation goes on in all of the reports.
  cases prepared : prepare disk job with
  | mk result log =>
    have logged : (prepare disk job).2 = log := by rw [prepared]
    cases result with
    | error failure =>
      rw [← logged]
      exact .stopped (by rw [prepared])
    | ok plan =>
      have ready : (prepare disk job).1 = .ok plan := by rw [prepared]
      cases dry : job.dryRun with
      | true =>
        rw [← logged]
        exact .previewed dry ready
      | false =>
        show Ending job disk (commit disk job plan log)
        cases backedUp : disk.write job.configFile.backup plan.previous with
        | error fault =>
          simp only [commit, backedUp, ← logged]
          exact .refused dry ready backedUp
        | ok kept =>
          obtain ⟨written, wrote⟩ := exists_write_of_backup ready backedUp
          simp only [commit, backedUp, wrote, ← logged]
          exact .replaced dry ready backedUp wrote

/-! ## What is left on the disk -/

/-- A run that is not dry and succeeds has replaced the document that it read. -/
theorem exists_replaced {job : Job} {disk : Disk} {outcome : Outcome}
    (wet : job.dryRun = false) (succeeded : (job.run disk).result = .ok outcome) :
    ∃ key document plan file backup, Prepared job disk key document plan ∧
      outcome = ⟨plan.server, some job.configFile.backup, plan.updated⟩ ∧
      Disk.Places disk job.configFile file backup ∧
      Disk.Replaced file backup plan.previous plan.updated disk (job.run disk).disk := by
  have ending := job.ending_run disk
  generalize job.run disk = report at succeeded ending ⊢
  cases ending with
  | stopped => simp at succeeded
  | refused => simp at succeeded
  | previewed dry => exact absurd (wet.symm.trans dry) (by simp)
  | @replaced plan kept written _ ready backedUp wrote =>
    obtain ⟨key, document, prepared⟩ := exists_prepared ready
    obtain ⟨file, content, located, here⟩ := Document.exists_file_of_read prepared.read
    obtain ⟨backup, places, replaced⟩ := Disk.replaced_of_write located here backedUp wrote
    exact ⟨key, document, plan, file, backup, prepared, (Except.ok.inj succeeded).symm, places,
      replaced⟩

/-- Every run that succeeds, dry or not, tells what it has prepared. -/
theorem exists_prepared_of_run {job : Job} {disk : Disk} {outcome : Outcome}
    (succeeded : (job.run disk).result = .ok outcome) :
    ∃ key document plan, Prepared job disk key document plan ∧
      outcome.server = plan.server ∧ outcome.document = plan.updated := by
  have ending := job.ending_run disk
  generalize job.run disk = report at succeeded ending
  cases ending with
  | stopped => simp at succeeded
  | refused => simp at succeeded
  | @previewed plan _ ready | @replaced plan _ _ _ ready =>
    obtain ⟨key, document, prepared⟩ := exists_prepared ready
    cases succeeded
    exact ⟨key, document, plan, prepared, rfl, rfl⟩

/-- Every other run leaves the disk alone. -/
theorem run_disk_eq {job : Job} {disk : Disk}
    (other : job.dryRun = true ∨ ∀ outcome, (job.run disk).result ≠ .ok outcome) :
    (job.run disk).disk = disk := by
  have ending := job.ending_run disk
  generalize job.run disk = report at other ending ⊢
  cases ending with
  | stopped | refused | previewed => rfl
  | replaced wet =>
    rcases other with dry | failed
    · exact absurd (wet.symm.trans dry) (by simp)
    · exact absurd rfl (failed _)

end KeyInstall
