import KeyInstall.Proofs.Installation.Endings

/-!
# What a run logs

The log of a run tells what was done, all of it and nothing else
(`Job.faithful_events`). There is one order of events, and a run that stops on
the way has logged the first ones of it; each event is in the log exactly if
what it tells was done, with the paths, the length and the name that were used.

What a log has of an event is one line, whose text is written out in `logLine`.

A preparation logs by how far it gets (`log_prepare`), and of the endings of a
run only the one that replaces the document adds to that (`Job.logs_run`).
-/

namespace KeyInstall

/-! ## The log of a run -/

/-- The events that are logged of a job: that it is begun, and those of its run. -/
def Job.events (job : Job) (disk : Disk) : List Event :=
  .usingFiles job.keyFile job.configFile :: (job.run disk).log

/-- The events of a job that is carried out to the end. -/
def Job.fullLog (job : Job) (length : Nat) (server : ServerName) : List Event :=
  [.usingFiles job.keyFile job.configFile, .resolvedPaths job.keyFile job.configFile,
    .readKey job.keyFile length, .appliedEntry server, .wroteBackup job.configFile.backup,
    .wroteConfig job.configFile server]

/-- A job that is not dry has a plan, and writing its backup to `before` gives
`kept`. -/
structure Job.BacksUp (job : Job) (before : Disk) (plan : Plan) (kept : Disk) : Prop where
  wet : job.dryRun = false
  prepared : ∃ key document, Prepared job before key document plan
  written : before.write job.configFile.backup plan.previous = .ok kept

/-- Events tell what a job has done between two disks. -/
structure Job.Faithful (job : Job) (before after : Disk) (events : List Event) : Prop where
  /-- There is one order. -/
  ordered : ∃ length server, events <+: job.fullLog length server
  begun : .usingFiles job.keyFile job.configFile ∈ events ∧
    .resolvedPaths job.keyFile job.configFile ∈ events
  readKey : ∀ path length, .readKey path length ∈ events ↔ path = job.keyFile ∧
    ∃ key, KeyFile.read before job.keyFile = .ok key ∧ length = key.utf8ByteSize
  appliedEntry : ∀ server, .appliedEntry server ∈ events ↔
    ∃ key document plan, Prepared job before key document plan ∧ server = plan.server
  /-- The backup was written, and is there. -/
  wroteBackup : ∀ path, .wroteBackup path ∈ events ↔ path = job.configFile.backup ∧
    ∃ plan kept, job.BacksUp before plan kept ∧ after.find? path = some (.ofText plan.previous)
  /-- The document was written after the backup, and nothing after it. -/
  wroteConfig : ∀ path server, .wroteConfig path server ∈ events ↔ path = job.configFile ∧
    ∃ plan kept, job.BacksUp before plan kept ∧ kept.write path plan.updated = .ok after ∧
      server = plan.server
  /-- What is not told was not done. -/
  untouched : (∀ path, .wroteBackup path ∉ events) → after = before

/-! ## Lines -/

/-- The line of an event, with the paths, the length and the name that it tells of. -/
def logLine : Event → String
  | .usingFiles keyFile configFile =>
    "DEBUG using files key_file=" ++ keyFile.text ++ " config_file=" ++ configFile.text ++ "\n"
  | .resolvedPaths keyFile configFile =>
    "DEBUG resolved paths key_file=" ++ keyFile.text ++ " config_file=" ++ configFile.text ++ "\n"
  | .readKey keyFile length =>
    "DEBUG read API key path=" ++ keyFile.text ++ " len=" ++ toString length ++ "\n"
  | .appliedEntry server =>
    "DEBUG applied EasyGrid entry server=" ++ ("\"" ++ server.text ++ "\"") ++ "\n"
  | .wroteBackup backupFile => "DEBUG wrote backup path=" ++ backupFile.text ++ "\n"
  | .wroteConfig configFile server =>
    "DEBUG wrote config path=" ++ configFile.text ++ " server=" ++
      ("\"" ++ server.text ++ "\"") ++ "\n"

/-- The lines of events, one after the other. -/
def logLines (events : List Event) : String := String.join (events.map logLine)

/-- What stands before the first value of a line. -/
def lineHead (message name : String) : String := "DEBUG " ++ message ++ (" " ++ name ++ "=")

theorem line_of_value {event : Event} {name value : String}
    (values : event.values = [(name, value)]) :
    event.line ++ "\n" = lineHead event.message name ++ value ++ "\n" := by
  rw [Event.line, values, lineHead]
  show _ ++ ("" ++ (_ ++ value)) ++ _ = _
  rw [String.empty_append, ← String.append_assoc]

theorem line_of_values {event : Event} {name value other last : String}
    (values : event.values = [(name, value), (other, last)]) :
    event.line ++ "\n" =
      lineHead event.message name ++ value ++ (" " ++ other ++ "=") ++ last ++ "\n" := by
  rw [Event.line, values, lineHead]
  show _ ++ ("" ++ (_ ++ value) ++ (_ ++ last)) ++ _ = _
  simp only [String.empty_append, ← String.append_assoc]

/-- What a log puts together is the line of the event. -/
theorem line_eq (event : Event) : event.line ++ "\n" = logLine event := by
  have between : " " ++ "config_file" ++ "=" = " config_file=" := by decide +kernel
  cases event with
  | usingFiles keyFile configFile =>
    have head : lineHead "using files" "key_file" = "DEBUG using files key_file=" := by
      decide +kernel
    exact (line_of_values rfl).trans
      (congrArg₂ (· ++ keyFile.text ++ · ++ configFile.text ++ "\n") head between)
  | resolvedPaths keyFile configFile =>
    have head : lineHead "resolved paths" "key_file" = "DEBUG resolved paths key_file=" := by
      decide +kernel
    exact (line_of_values rfl).trans
      (congrArg₂ (· ++ keyFile.text ++ · ++ configFile.text ++ "\n") head between)
  | readKey keyFile length =>
    have head : lineHead "read API key" "path" = "DEBUG read API key path=" := by decide +kernel
    have between : " " ++ "len" ++ "=" = " len=" := by decide +kernel
    exact (line_of_values rfl).trans
      (congrArg₂ (· ++ keyFile.text ++ · ++ toString length ++ "\n") head between)
  | appliedEntry server =>
    have head : lineHead "applied EasyGrid entry" "server" =
        "DEBUG applied EasyGrid entry server=" := by decide +kernel
    exact (line_of_value rfl).trans (congrArg (· ++ Event.quoted server ++ "\n") head)
  | wroteBackup backupFile =>
    have head : lineHead "wrote backup" "path" = "DEBUG wrote backup path=" := by decide +kernel
    exact (line_of_value rfl).trans (congrArg (· ++ backupFile.text ++ "\n") head)
  | wroteConfig configFile server =>
    have head : lineHead "wrote config" "path" = "DEBUG wrote config path=" := by decide +kernel
    have between : " " ++ "server" ++ "=" = " server=" := by decide +kernel
    exact (line_of_values rfl).trans
      (congrArg₂ (· ++ configFile.text ++ · ++ Event.quoted server ++ "\n") head between)

/-- A log has the lines of the events that its filter shows. -/
theorem logText_eq (filter : LogFilter) (events : List Event) :
    logText filter events = logLines (events.filter filter.shows) := by
  rw [logText, logLines, List.map_congr_left fun event _ => line_eq event]

/-- A log is the same if the same is shown. -/
theorem logText_congr {filter : LogFilter} {events events' : List Event}
    (same : events'.filter filter.shows = events.filter filter.shows) :
    logText filter events' = logText filter events := by
  rw [logText, logText, same]

variable {job : Job} {disk : Disk} {plan : Plan}

/-! ## Preparing -/

theorem prepare_of_prepared {key : String} {document : Document}
    (prepared : Prepared job disk key document plan) : (prepare disk job).1 = .ok plan := by
  have installed := prepared.installed
  have previous := prepared.previous
  have updated := prepared.updated
  simp only [prepare, prepared.keyed, prepared.read]
  cases found : document.install (job.entry key) with
  | mk result after =>
    rw [found] at installed updated
    obtain rfl : result = .ok plan.server := installed
    simp only [← previous, ← updated]

/-- What is prepared is the plan that a preparation ends with. -/
theorem exists_prepared_iff :
    (∃ key document, Prepared job disk key document plan) ↔ (prepare disk job).1 = .ok plan :=
  ⟨fun ⟨_, _, prepared⟩ => prepare_of_prepared prepared, exists_prepared⟩

/-- The event of a key that is read. -/
def keyEvents (job : Job) : Except Failure String → List Event
  | .ok key => [.readKey job.keyFile key.utf8ByteSize]
  | .error _ => []

/-- The event of an entry that is applied. -/
def planEvents : Except Failure Plan → List Event
  | .ok plan => [.appliedEntry plan.server]
  | .error _ => []

/-- A preparation logs how far it gets. -/
theorem log_prepare (job : Job) (disk : Disk) :
    (prepare disk job).2 = .resolvedPaths job.keyFile job.configFile ::
      (keyEvents job (KeyFile.read disk job.keyFile) ++ planEvents (prepare disk job).1) := by
  unfold prepare
  cases KeyFile.read disk job.keyFile with
  | error failure => rfl
  | ok key =>
    cases Document.read disk job.configFile with
    | error failure => rfl
    | ok document =>
      cases installed : document.install (job.entry key) with
      | mk result updated => cases result <;> simp [installed, keyEvents, planEvents]

/-- A plan needs a key. -/
theorem exists_key_of_plan (ready : (prepare disk job).1 = .ok plan) :
    ∃ key, KeyFile.read disk job.keyFile = .ok key := by
  obtain ⟨key, document, prepared⟩ := exists_prepared ready
  exact ⟨key, prepared.keyed⟩

/-! ## Running -/

/-- What is logged of a job before it writes. -/
def Job.readEvents (job : Job) (disk : Disk) : List Event :=
  [.usingFiles job.keyFile job.configFile, .resolvedPaths job.keyFile job.configFile] ++
    (keyEvents job (KeyFile.read disk job.keyFile) ++ planEvents (prepare disk job).1)

/-- A run writes both files or none, and logs accordingly. -/
inductive Job.Logs (job : Job) (disk : Disk) : List Event → Disk → Prop
  | unwritten : (∀ plan kept, ¬ job.BacksUp disk plan kept) →
      Job.Logs job disk (job.readEvents disk) disk
  | written {plan : Plan} {kept after : Disk} : job.BacksUp disk plan kept →
      kept.write job.configFile plan.updated = .ok after →
      after.find? job.configFile.backup = some (.ofText plan.previous) →
      Job.Logs job disk (job.readEvents disk ++ [.wroteBackup job.configFile.backup,
        .wroteConfig job.configFile plan.server]) after

theorem Job.BacksUp.ready {kept : Disk} (backsUp : job.BacksUp disk plan kept) :
    (prepare disk job).1 = .ok plan :=
  exists_prepared_iff.mp backsUp.prepared

theorem Job.logs_run (job : Job) (disk : Disk) :
    job.Logs disk (job.events disk) (job.run disk).disk := by
  have read : .usingFiles job.keyFile job.configFile :: (prepare disk job).2 =
      job.readEvents disk := by
    rw [log_prepare]
    rfl
  have ending := job.ending_run disk
  unfold Job.events
  generalize job.run disk = report at ending ⊢
  cases ending with
  | stopped failed =>
    rw [read]
    refine .unwritten fun plan kept backsUp => ?_
    rw [backsUp.ready] at failed
    cases failed
  | previewed dry ready =>
    rw [read]
    refine .unwritten fun plan kept backsUp => ?_
    rw [backsUp.wet] at dry
    cases dry
  | refused wet ready refused =>
    rw [read]
    refine .unwritten fun plan kept backsUp => ?_
    rw [backsUp.ready] at ready
    cases ready
    rw [backsUp.written] at refused
    cases refused
  | replaced wet ready backedUp wrote =>
    obtain ⟨key, document, prepared⟩ := exists_prepared ready
    obtain ⟨file, content, located, here⟩ := Document.exists_file_of_read prepared.read
    obtain ⟨backup, places, replaced⟩ := Disk.replaced_of_write located here backedUp wrote
    rw [List.append_assoc, ← List.cons_append, read]
    exact .written ⟨wet, ⟨key, document, prepared⟩, backedUp⟩ wrote (replaced.find?_backup places)

/-! ## Faithful logs -/

theorem readKey_mem_readEvents (path : Path) (length : Nat) :
    .readKey path length ∈ job.readEvents disk ↔ path = job.keyFile ∧
      ∃ key, KeyFile.read disk job.keyFile = .ok key ∧ length = key.utf8ByteSize := by
  cases read : KeyFile.read disk job.keyFile <;> cases planned : (prepare disk job).1 <;>
    simp [Job.readEvents, read, planned, keyEvents, planEvents]

theorem appliedEntry_mem_readEvents (server : ServerName) :
    .appliedEntry server ∈ job.readEvents disk ↔
      ∃ plan, (prepare disk job).1 = .ok plan ∧ server = plan.server := by
  cases read : KeyFile.read disk job.keyFile <;> cases planned : (prepare disk job).1 <;>
    simp [Job.readEvents, read, planned, keyEvents, planEvents]

/-- Nothing is written while a run reads. -/
theorem written_not_mem_readEvents (job : Job) (disk : Disk) (path : Path) :
    .wroteBackup path ∉ job.readEvents disk ∧
      ∀ server, .wroteConfig path server ∉ job.readEvents disk := by
  cases read : KeyFile.read disk job.keyFile <;> cases planned : (prepare disk job).1 <;>
    simp [Job.readEvents, read, planned, keyEvents, planEvents]

/-- With a plan, all but the writes is logged before the first write. -/
theorem exists_fullLog (ready : (prepare disk job).1 = .ok plan) :
    ∃ length, job.readEvents disk ++ [.wroteBackup job.configFile.backup,
      .wroteConfig job.configFile plan.server] = job.fullLog length plan.server := by
  obtain ⟨key, read⟩ := exists_key_of_plan ready
  refine ⟨key.utf8ByteSize, ?_⟩
  simp [Job.readEvents, Job.fullLog, read, ready, keyEvents, planEvents]

theorem readEvents_begins (job : Job) (disk : Disk) :
    ∃ length server, job.readEvents disk <+: job.fullLog length server := by
  cases planned : (prepare disk job).1 with
  | ok plan =>
    obtain ⟨length, whole⟩ := exists_fullLog planned
    exact ⟨length, plan.server, _, whole⟩
  | error failure =>
    cases read : KeyFile.read disk job.keyFile with
    | ok key =>
      refine ⟨key.utf8ByteSize, .easygrid, ?_⟩
      simp [Job.readEvents, Job.fullLog, read, planned, keyEvents, planEvents]
    | error failure =>
      refine ⟨0, .easygrid, ?_⟩
      simp [Job.readEvents, Job.fullLog, read, planned, keyEvents, planEvents]

/-- What a job logs is what it does, whatever it runs into. -/
theorem Job.faithful_events (job : Job) (disk : Disk) :
    job.Faithful disk (job.run disk).disk (job.events disk) := by
  have logs := job.logs_run disk
  have applied : ∀ server, (∃ plan, (prepare disk job).1 = .ok plan ∧ server = plan.server) ↔
      ∃ key document plan, Prepared job disk key document plan ∧ server = plan.server := by
    intro server
    simp only [← exists_prepared_iff]
    constructor
    · rintro ⟨plan, ⟨key, document, prepared⟩, same⟩
      exact ⟨key, document, plan, prepared, same⟩
    · rintro ⟨key, document, plan, prepared, same⟩
      exact ⟨plan, ⟨key, document, prepared⟩, same⟩
  generalize job.events disk = events at logs ⊢
  generalize (job.run disk).disk = after at logs ⊢
  cases logs with
  | unwritten nothing =>
    obtain ⟨unlogged, unlogged'⟩ := forall_and.mp (written_not_mem_readEvents job disk)
    refine ⟨readEvents_begins job disk, by simp [readEvents], readKey_mem_readEvents,
      fun server => (appliedEntry_mem_readEvents server).trans (applied server), ?_, ?_,
      fun _ => rfl⟩
    · refine fun path => iff_of_false (unlogged path) ?_
      rintro ⟨-, plan, kept, backsUp, -⟩
      exact nothing plan kept backsUp
    · refine fun path server => iff_of_false (unlogged' path server) ?_
      rintro ⟨-, plan, kept, backsUp, -⟩
      exact nothing plan kept backsUp
  | @written plan kept _ backsUp wrote holds =>
    have ready := backsUp.ready
    -- There is only one plan, and only one disk after its backup.
    have unique : ∀ other kept', job.BacksUp disk other kept' → other = plan := by
      intro other kept' again
      rw [again.ready, Except.ok.injEq] at ready
      exact ready
    obtain ⟨length, whole⟩ := exists_fullLog ready
    refine ⟨⟨length, plan.server, ?_⟩, by simp [readEvents], ?_, ?_, ?_, ?_, ?_⟩
    · exact whole ▸ List.prefix_rfl
    · intro path size
      simp [readKey_mem_readEvents]
    · intro server
      simp [appliedEntry_mem_readEvents, applied]
    · intro path
      simp only [List.mem_append, written_not_mem_readEvents, false_or]
      constructor
      · intro told
        obtain rfl : path = job.configFile.backup := by simpa using told
        exact ⟨rfl, plan, kept, backsUp, holds⟩
      · rintro ⟨rfl, -⟩
        simp
    · intro path server
      simp only [List.mem_append, written_not_mem_readEvents, false_or]
      constructor
      · intro told
        obtain ⟨rfl, rfl⟩ : path = job.configFile ∧ server = plan.server := by simpa using told
        exact ⟨rfl, plan, kept, backsUp, wrote, rfl⟩
      · rintro ⟨rfl, other, kept', again, -, rfl⟩
        simp [unique other kept' again]
    · intro unlogged
      exact absurd (by simp) (unlogged job.configFile.backup)

end KeyInstall
