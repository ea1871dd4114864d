import KeyInstall.Proofs.Installation.Endings

/-!
# A dry run and the run that it stands for

A dry run works out the same plan as the run that writes (`prepare_with_dryRun`)
and stops there. So it fails with the same failure, and what it prints is what
is written (`Job.dry_run_predicts`). One thing only it cannot foresee: that the
backup is refused.
-/

namespace KeyInstall

variable {job : Job} {disk : Disk}

/-- A plan does not depend on whether it is carried out. -/
theorem prepare_with_dryRun (disk : Disk) (job : Job) (dry : Bool) :
    prepare disk { job with dryRun := dry } = prepare disk job := rfl

/-- The two ways in which a run ends whose preview showed a text. -/
inductive Foreseen (configFile : Path) (disk : Disk) (server : ServerName) (document : String) :
    Report → Prop
  /-- The text is now in the configuration. -/
  | written {report : Report} {backupFile : Option Path} :
    report.result = .ok ⟨server, backupFile, document⟩ →
    report.disk.find? configFile = some (.ofText document) →
    Foreseen configFile disk server document report
  /-- The backup was refused, and nothing was written. -/
  | refused {report : Report} (fault : DiskFault) :
    report.result = .error (.unwritable configFile.backup fault) → report.disk = disk →
    Foreseen configFile disk server document report

/-- What a dry run prints after the new text. -/
def previewStatus (server : ServerName) (configFile : Path) : String :=
  "\x1b[34m(DRY-RUN)\x1b[39m would update mcpServers." ++ server.text ++ " in " ++
    configFile.text ++ "\n"

theorem dryRunResult_eq (document : String) (server : ServerName) (configFile : Path) :
    Terminal.dryRunResult document server configFile =
      document ++ "\n\n" ++ previewStatus server configFile := by
  have label : Terminal.blue "(DRY-RUN)" ++ (" would update " ++ (serversKey ++ ".")) =
      "\x1b[34m(DRY-RUN)\x1b[39m would update mcpServers." := by decide +kernel
  refine Eq.trans ?_ (congrArg (fun start => document ++ "\n\n" ++
    (start ++ server.text ++ " in " ++ configFile.text ++ "\n")) label)
  simp only [Terminal.dryRunResult, Terminal.entryPlace, String.append_assoc]

/-- What a dry run on a disk tells of the run that writes. -/
structure Predicts (job : Job) (disk : Disk) (dry wet : Report) : Prop where
  /-- The dry run itself leaves the disk alone. -/
  unchanged : dry.disk = disk
  /-- Both fail alike. -/
  failure : ∀ failure, dry.result = .error failure →
    wet.result = .error failure ∧ wet.disk = disk
  /-- The new text is printed first, and it is what is written. -/
  success : ∀ outcome, dry.result = .ok outcome →
    outcome.backupFile = none ∧
    dry.printed = outcome.document ++ "\n\n" ++ previewStatus outcome.server job.configFile ∧
    Foreseen job.configFile disk outcome.server outcome.document wet
  /-- Nothing succeeds that was not foreseen. -/
  necessary : ∀ outcome, wet.result = .ok outcome → ∃ foreseen, dry.result = .ok foreseen

/-- A run that is not dry ends as its plan lets foresee. -/
theorem foreseen_of_plan {plan : Plan} (wet : job.dryRun = false)
    (ready : (prepare disk job).1 = .ok plan) :
    Foreseen job.configFile disk plan.server plan.updated (job.run disk) := by
  have ending := job.ending_run disk
  generalize job.run disk = report at ending ⊢
  cases ending with
  | stopped failed =>
    rw [ready] at failed
    cases failed
  | previewed dry =>
    rw [wet] at dry
    cases dry
  | refused _ _ refused => exact .refused _ rfl rfl
  | replaced _ readyAgain backedUp wrote =>
    rw [ready] at readyAgain
    cases readyAgain
    -- The document is found where it was read, with the text of the plan.
    obtain ⟨key, document, prepared⟩ := exists_prepared ready
    obtain ⟨file, content, located, here⟩ := Document.exists_file_of_read prepared.read
    obtain ⟨backup, places, replaced⟩ := Disk.replaced_of_write located here backedUp wrote
    exact .written rfl (replaced.find?_file places)

/-- A dry run changes nothing and tells how the run that writes will end, but for
the backup. -/
theorem Job.dry_run_predicts (job : Job) (disk : Disk) :
    Predicts job disk ({ job with dryRun := true }.run disk)
      ({ job with dryRun := false }.run disk) := by
  cases result : (prepare disk job).1 with
  | error failure =>
    have planned : ∀ dry, (prepare disk { job with dryRun := dry }).1 = .error failure := by
      intro dry
      rw [prepare_with_dryRun, result]
    rw [run_of_error (planned true), run_of_error (planned false)]
    refine ⟨rfl, ?_, ?_, ?_⟩
    · rintro failure ⟨⟩
      exact ⟨rfl, rfl⟩
    · rintro outcome ⟨⟩
    · rintro outcome ⟨⟩
  | ok plan =>
    have planned : ∀ dry, (prepare disk { job with dryRun := dry }).1 = .ok plan := by
      intro dry
      rw [prepare_with_dryRun, result]
    have wet := foreseen_of_plan (show { job with dryRun := false }.dryRun = false from rfl)
      (planned false)
    rw [run_of_dry rfl (planned true)]
    refine ⟨rfl, ?_, ?_, fun _ _ => ⟨_, rfl⟩⟩
    · rintro failure ⟨⟩
    · rintro outcome ⟨⟩
      exact ⟨rfl, dryRunResult_eq plan.updated plan.server job.configFile, wet⟩

end KeyInstall
