import KeyInstall.Proofs.Installation.Endings

/-!
# Runs one after another

Runs on one document, whatever each of them comes to, leave what the last two
entries make of the document that was there at first (`History.account`): the
document holds the last entry that was written, and the backup the one before
it, or the first document if there was none. So nothing piles up, however often
an installation is repeated.

The invariant is `Stage`. It holds at the start and every run keeps it
(`Stage.next`), because of two entries only the last one counts and because a
document is read from its own text.
-/

namespace KeyInstall

open Disk (SameDirectories Places Replaced)

/-! ## Histories -/

/-- The entry that a job writes to a disk, unless it is dry or fails. -/
def Job.entryWritten? (job : Job) (disk : Disk) : Option Entry :=
  match job.dryRun, (job.run disk).result, KeyFile.read disk job.keyFile with
  | false, .ok _, .ok key => some (job.entry key)
  | _, _, _ => none

/-- Where a sequence of runs has come to. -/
structure History where
  disk : Disk
  /-- The entries that were written, the last one first. -/
  written : List Entry

/-- One more run. -/
def History.next (history : History) (job : Job) : History :=
  ⟨(job.run history.disk).disk, (job.entryWritten? history.disk).toList ++ history.written⟩

/-- The runs of some jobs on a disk, each on what the one before it left. -/
def History.of (disk : Disk) (jobs : List Job) : History := jobs.foldl .next ⟨disk, []⟩

theorem entryWritten?_of_ok {job : Job} {disk : Disk} {outcome : Outcome} {key : String}
    (wet : job.dryRun = false) (succeeded : (job.run disk).result = .ok outcome)
    (keyed : KeyFile.read disk job.keyFile = .ok key) :
    job.entryWritten? disk = some (job.entry key) := by
  simp only [Job.entryWritten?, wet, succeeded, keyed]

/-- A run writes its entry exactly if it is not dry and succeeds. -/
theorem entryWritten?_eq_none_iff {job : Job} {disk : Disk} :
    job.entryWritten? disk = none ↔
      job.dryRun = true ∨ ∀ outcome, (job.run disk).result ≠ .ok outcome := by
  cases dry : job.dryRun with
  | true => simp [Job.entryWritten?, dry]
  | false =>
    cases result : (job.run disk).result with
    | error failure => simp [Job.entryWritten?, dry, result]
    | ok outcome =>
      obtain ⟨key, _, _, prepared, -⟩ := exists_prepared_of_run result
      simp [entryWritten?_of_ok dry result prepared.keyed]

theorem History.of_append (disk : Disk) (jobs more : List Job) :
    History.of disk (jobs ++ more) = more.foldl .next (History.of disk jobs) :=
  List.foldl_append

/-- The key lies neither in the document nor in its backup. -/
def Job.KeyApart (job : Job) (disk : Disk) : Prop :=
  ∀ place, disk.locate job.keyFile = .ok place →
    disk.locate job.configFile ≠ .ok place ∧ disk.locate job.configFile.backup ≠ .ok place

/-! ## The invariant -/

/-- What holds of every history on a document. -/
structure Stage (config : Path) (document : Document) (before : Disk)
    (history : History) : Prop where
  directories : SameDirectories before history.disk
  others : ∀ place, before.locate config ≠ .ok place → before.locate config.backup ≠ .ok place →
    history.disk.node? place = before.node? place
  idle : history.written = [] → history.disk = before
  /-- Once there was a write, any entry can be installed. -/
  contents : ∀ last earlier, history.written = last :: earlier →
    (document.install last).1 = .ok document.target ∧
      history.disk.find? config = some (.ofText (document.install last).2.render) ∧
      history.disk.find? config.backup = some (.ofText (document.latest earlier).render)

section

variable {config : Path} {document : Document} {before : Disk} {history : History} {job : Job}
  {outcome : Outcome}

theorem Stage.start (config : Path) (document : Document) (before : Disk) :
    Stage config document before ⟨before, []⟩ :=
  ⟨.refl before, fun _ _ _ => rfl, fun _ => rfl, by simp⟩

/-- Every run of a history reads the document that the last entry made. -/
theorem Stage.read (stage : Stage config document before history)
    (read : Document.read before config = .ok document) :
    Document.read history.disk config = .ok (document.latest history.written) := by
  cases written : history.written with
  | nil =>
    rw [stage.idle written]
    exact read
  | cons last earlier =>
    -- The document was written by the run before, and is read from its own text.
    have storable := Document.storable_install last (Document.storable_of_read read)
    rw [Document.read_ofText storable (stage.contents last earlier written).2.1,
      ← Document.path_of_read read]
    rfl

/-- What a run of a history prepares is told by the first document. -/
theorem Stage.prepared (stage : Stage config document before history)
    (read : Document.read before config = .ok document) (onConfig : job.configFile = config)
    {key : String} {found : Document} {plan : Plan}
    (prepared : Prepared job history.disk key found plan) :
    found = document.latest history.written ∧
      (document.install (job.entry key)).1 = .ok document.target ∧
      plan.server = document.target ∧
      plan.updated = (document.install (job.entry key)).2.render := by
  have same := prepared.read
  rw [onConfig, stage.read read] at same
  cases same
  have installed := prepared.installed
  have server := Document.eq_target_of_install installed
  rw [Document.target_latest] at server
  rw [Document.install_latest, server] at installed
  refine ⟨rfl, installed, server, ?_⟩
  rw [prepared.updated, Document.install_latest]

/-- A run that writes. -/
theorem Stage.replace (stage : Stage config document before history)
    (read : Document.read before config = .ok document) (onConfig : job.configFile = config)
    (wet : job.dryRun = false) (succeeded : (job.run history.disk).result = .ok outcome) :
    ∃ key, KeyFile.read history.disk job.keyFile = .ok key ∧
      outcome = ⟨document.target, some config.backup,
        (document.install (job.entry key)).2.render⟩ ∧
      (history.next job).written = job.entry key :: history.written ∧
      Stage config document before (history.next job) := by
  obtain ⟨key, found, plan, file, backup, prepared, told, places, replaced⟩ :=
    exists_replaced wet succeeded
  obtain ⟨rfl, installed, server, updated⟩ := stage.prepared read onConfig prepared
  have written : (history.next job).written = job.entry key :: history.written := by
    rw [History.next, entryWritten?_of_ok wet succeeded prepared.keyed]
    rfl
  subst onConfig
  refine ⟨key, prepared.keyed, by rw [told, server, updated], written, ?_⟩
  refine ⟨stage.directories.trans replaced.directories, ?_, ?_, ?_⟩
  · intro place notFile notBackup
    -- The two files are where the first disk has their places.
    have located := (stage.directories.locate_eq_ok_iff _ file).mp places.located
    have backedUp := (stage.directories.locate_eq_ok_iff _ backup).mp places.backedUp
    have apart : place ≠ file := fun same => notFile (same ▸ located)
    have apart' : place ≠ backup := fun same => notBackup (same ▸ backedUp)
    show (job.run history.disk).disk.node? place = _
    rw [replaced.nodes, if_neg apart, if_neg apart']
    exact stage.others place notFile notBackup
  · intro none
    rw [written] at none
    cases none
  · intro last earlier same
    rw [written] at same
    cases same
    refine ⟨installed, ?_, ?_⟩
    · rw [← updated]
      exact replaced.find?_file places
    · rw [← prepared.previous]
      exact replaced.find?_backup places

/-- Every run keeps the invariant. -/
theorem Stage.next (stage : Stage config document before history)
    (read : Document.read before config = .ok document) (onConfig : job.configFile = config) :
    Stage config document before (history.next job) := by
  by_cases idle : job.dryRun = true ∨ ∀ outcome, (job.run history.disk).result ≠ .ok outcome
  · have same : history.next job = history := by
      rw [History.next, run_disk_eq idle, entryWritten?_eq_none_iff.mpr idle]
      rfl
    rw [same]
    exact stage
  · simp only [not_or, Bool.not_eq_true, not_forall, not_not] at idle
    obtain ⟨wet, outcome, succeeded⟩ := idle
    obtain ⟨key, -, -, -, next⟩ := stage.replace read onConfig wet succeeded
    exact next

theorem Stage.runs (stage : Stage config document before history)
    (read : Document.read before config = .ok document) {jobs : List Job}
    (onConfig : ∀ job ∈ jobs, job.configFile = config) :
    Stage config document before (jobs.foldl .next history) := by
  induction jobs generalizing history with
  | nil => exact stage
  | cons job jobs ih =>
    have next := stage.next read (onConfig job List.mem_cons_self)
    exact ih next fun job member => onConfig job (List.mem_cons_of_mem _ member)

/-- Once there was a write, a run can only fail for its key. -/
theorem Stage.error_of_run (stage : Stage config document before history)
    (read : Document.read before config = .ok document) (onConfig : job.configFile = config)
    (wrote : history.written ≠ []) {failure : Failure}
    (failed : (job.run history.disk).result = .error failure) :
    KeyFile.read history.disk job.keyFile = .error failure := by
  obtain ⟨last, earlier, written⟩ := List.exists_cons_of_ne_nil wrote
  obtain ⟨installs, -, kept⟩ := stage.contents last earlier written
  have ending := job.ending_run history.disk
  generalize job.run history.disk = report at failed ending
  cases ending with
  | previewed => simp at failed
  | replaced => simp at failed
  | refused _ _ refused =>
    -- The backup is a file, so nothing can refuse it.
    obtain ⟨place, located, here⟩ := Disk.find?_eq_some_iff.mp kept
    rw [← onConfig] at located
    rw [Disk.write_of_locate _ located (by rw [here]; simp [Node.ofText])] at refused
    cases refused
  | stopped stopped =>
    cases failed
    have reads := stage.read read
    rcases fault_of_prepare stopped with keyless | unread | ⟨key, found, readsToo, refused⟩
    · exact keyless
    · rw [onConfig, reads] at unread
      cases unread
    · rw [onConfig, reads] at readsToo
      cases readsToo
      rw [Document.install_latest, Document.install_fst _ last, installs] at refused
      cases refused

/-- No run of a history changes the key of another one. -/
theorem Stage.key_eq (stage : Stage config document before history)
    (onConfig : job.configFile = config) (apart : job.KeyApart before) :
    KeyFile.read history.disk job.keyFile = KeyFile.read before job.keyFile := by
  apply KeyFile.read_congr
  apply stage.directories.find?_eq
  intro place located
  subst onConfig
  obtain ⟨notFile, notBackup⟩ := apart place located
  exact stage.others place notFile notBackup

/-- A run that is made again succeeds again and leaves the document as it is. -/
theorem Stage.repeated (stage : Stage config document before history)
    (read : Document.read before config = .ok document) (onConfig : job.configFile = config)
    (apart : job.KeyApart before) (wet : job.dryRun = false)
    (succeeded : (job.run history.disk).result = .ok outcome) :
    (job.run (history.next job).disk).result = .ok outcome ∧
      ((history.next job).next job).disk.find? config = (history.next job).disk.find? config ∧
      ((history.next job).next job).disk.find? config.backup =
        (history.next job).disk.find? config := by
  obtain ⟨key, keyed, told, written, once⟩ := stage.replace read onConfig wet succeeded
  -- Neither run has touched the key.
  have keyedAgain : KeyFile.read (history.next job).disk job.keyFile = .ok key := by
    rw [once.key_eq onConfig apart, ← stage.key_eq onConfig apart]
    exact keyed
  cases again : (job.run (history.next job).disk).result with
  | error failure =>
    have unread := once.error_of_run read onConfig (by simp [written]) again
    rw [keyedAgain] at unread
    cases unread
  | ok outcome' =>
    obtain ⟨key', keyed', told', written', twice⟩ := once.replace read onConfig wet again
    rw [keyedAgain] at keyed'
    cases keyed'
    obtain ⟨-, contentOnce, -⟩ := once.contents _ _ written
    obtain ⟨-, contentTwice, backupTwice⟩ := twice.contents _ _ written'
    refine ⟨by rw [told', told], by rw [contentTwice, contentOnce], ?_⟩
    rw [backupTwice, contentOnce, written]
    rfl

end

/-! ## The account -/

namespace History

theorem stage_of {config : Path} {document : Document} {disk : Disk} {jobs : List Job}
    (read : Document.read disk config = .ok document)
    (onConfig : ∀ job ∈ jobs, job.configFile = config) :
    Stage config document disk (of disk jobs) :=
  (Stage.start config document disk).runs read onConfig

/-- What some runs on one document come to. Each of them is `job`, after the
`earlier` ones and before the `later` ones. -/
structure Account (config : Path) (document : Document) (disk : Disk)
    (jobs : List Job) : Prop where
  /-- Without a write, nothing has changed. -/
  idle : (of disk jobs).written = [] → (of disk jobs).disk = disk
  /-- After the first write, the backup holds the first document. -/
  once : ∀ only, (of disk jobs).written = [only] →
    (of disk jobs).disk.find? config = some (.ofText (document.install only).2.render) ∧
      (of disk jobs).disk.find? config.backup = some (.ofText document.render)
  /-- After every other one, it holds what the write before has made. -/
  again : ∀ last previous others, (of disk jobs).written = last :: previous :: others →
    (of disk jobs).disk.find? config = some (.ofText (document.install last).2.render) ∧
      (of disk jobs).disk.find? config.backup =
        some (.ofText (document.install previous).2.render)
  /-- An entry that is written can be installed in the first document. -/
  installs : ∀ entry ∈ (of disk jobs).written,
    (document.install entry).1 = .ok document.target
  /-- A run that is not dry and succeeds writes its entry, with the key that
  was there at first. -/
  wrote : ∀ earlier job later outcome, jobs = earlier ++ job :: later → job.dryRun = false →
    (job.run (of disk earlier).disk).result = .ok outcome →
    ∃ key, KeyFile.read disk job.keyFile = .ok key ∧
      (of disk (earlier ++ [job])).written = job.entry key :: (of disk earlier).written
  /-- Every other run writes none. -/
  kept : ∀ earlier job later, jobs = earlier ++ job :: later →
    (job.dryRun = true ∨ ∀ outcome, (job.run (of disk earlier).disk).result ≠ .ok outcome) →
    (of disk (earlier ++ [job])).written = (of disk earlier).written
  /-- All runs that succeed, dry or not, tell the same name. -/
  server : ∀ earlier job later outcome, jobs = earlier ++ job :: later →
    (job.run (of disk earlier).disk).result = .ok outcome → outcome.server = document.target
  /-- After the first write, a run can only fail for its key. -/
  failures : ∀ earlier job later failure, jobs = earlier ++ job :: later →
    (of disk earlier).written ≠ [] →
    (job.run (of disk earlier).disk).result = .error failure →
    KeyFile.Unusable job.keyFile failure
  /-- A run that is made again does nothing new. -/
  repeated : ∀ earlier job later outcome, jobs = earlier ++ job :: job :: later →
    job.dryRun = false → (job.run (of disk earlier).disk).result = .ok outcome →
    (job.run (of disk (earlier ++ [job])).disk).result = .ok outcome ∧
      (of disk (earlier ++ [job, job])).disk.find? config =
        (of disk (earlier ++ [job])).disk.find? config ∧
      (of disk (earlier ++ [job, job])).disk.find? config.backup =
        (of disk (earlier ++ [job])).disk.find? config

/-- A disk with a key and an empty document. -/
def freshDisk : Disk where
  current := ["home"]
  nodes := [(["home"], .directory), (["home", "key"], .ofText "secret\n"),
    (["home", "mcp.json"], .ofText "\x7b\x7d")]
  inside := Disk.inside_of_nodes rfl

/-- A job on it. -/
def freshJob (dryRun : Bool) : Job :=
  ⟨⟨"key"⟩, ⟨"mcp.json"⟩, Entry.defaultUrl, Entry.defaultDescription, dryRun⟩

end History

end KeyInstall
