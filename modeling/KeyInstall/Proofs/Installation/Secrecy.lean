import Mathlib.Data.List.Forall2
import KeyInstall.Proofs.Disk.Twins
import KeyInstall.Proofs.Document.KeyHeader
import KeyInstall.Proofs.Installation.Endings

/-!
# Two runs with two keys

What a run does with the key is to write it into one header. So two runs of one
job, on disks that differ in the key alone (`KeyTwins`), end alike
(`runs_alike`): they fail in the same way, or both replace the document, print
the same and keep the same backup. The events that they tell differ in the length
of the key (`LogsAlike`). The disks that they leave differ in the key file and in
the document (`node?_of_runs`), and there in the header alone
(`documents_of_runs`).
-/

namespace KeyInstall

open Disk (TwinsAt Places Replaced)

/-! ## Two keys -/

/-- The file at a place holds a key: it is text, of which something is left
between the blanks at its ends. -/
def KeyFile.HeldAt (disk : Disk) (place : Location) (key : String) : Prop :=
  ∃ content text, disk.node? place = some (.file content) ∧ (Node.file content).text = .ok text ∧
    Text.trim text.toList ≠ [] ∧ key = String.ofList (Text.trim text.toList)

theorem KeyFile.read_of_heldAt {disk : Disk} {path : Path} {place : Location} {key : String}
    (located : disk.locate path = .ok place) (held : HeldAt disk place key) :
    read disk path = .ok key := by
  obtain ⟨content, text, here, holds, trimmed⟩ := held
  have found := Disk.find?_eq_some_iff.mpr ⟨place, located, here⟩
  exact read_eq_ok_iff.mpr ⟨_, text, found, holds, key?_eq_some_iff.mpr trimmed⟩

/-- Two disks that differ at most in the key that the file at `place` holds. -/
structure KeyTwins (place : Location) (one two : String) (first second : Disk) : Prop where
  current : second.current = first.current
  onFirst : KeyFile.HeldAt first place one
  onSecond : KeyFile.HeldAt second place two
  elsewhere : ∀ other, other ≠ place → second.node? other = first.node? other

theorem KeyTwins.twins {place : Location} {one two : String} {first second : Disk}
    (keys : KeyTwins place one two first second) : TwinsAt place first second := by
  obtain ⟨content, -, onFirst, -⟩ := keys.onFirst
  obtain ⟨content', -, onSecond, -⟩ := keys.onSecond
  exact ⟨keys.current, ⟨content, onFirst⟩, ⟨content', onSecond⟩, keys.elsewhere⟩

/-- The key of a job lies at a place, and its document elsewhere. -/
structure Job.KeyAt (job : Job) (disk : Disk) (place : Location) : Prop where
  located : disk.locate job.keyFile = .ok place
  apart : disk.locate job.configFile ≠ .ok place

section

variable {job : Job} {place : Location} {one two : String} {first second : Disk}

/-- Both runs read the same document. -/
theorem KeyTwins.read_eq (keys : KeyTwins place one two first second)
    (keyAt : job.KeyAt first place) :
    Document.read second job.configFile = Document.read first job.configFile :=
  Document.read_congr (keys.twins.find?_eq keyAt.apart)

theorem KeyTwins.read_key (keys : KeyTwins place one two first second)
    (keyAt : job.KeyAt first place) :
    KeyFile.read first job.keyFile = .ok one ∧ KeyFile.read second job.keyFile = .ok two := by
  refine ⟨KeyFile.read_of_heldAt keyAt.located keys.onFirst, ?_⟩
  exact KeyFile.read_of_heldAt ((keys.twins.locate_eq _).trans keyAt.located) keys.onSecond

/-! ## Telling of two keys -/

/-- Two events that tell the same, but for the length of the key. -/
inductive Event.Alike (one two : String) : Event → Event → Prop
  | same (event : Event) : Alike one two event event
  | keys (keyFile : Path) :
    Alike one two (.readKey keyFile one.utf8ByteSize) (.readKey keyFile two.utf8ByteSize)

/-- Two logs that tell the same, event by event, but for the length of the key. -/
def LogsAlike (one two : String) : List Event → List Event → Prop :=
  List.Forall₂ (Event.Alike one two)

namespace LogsAlike

variable {log log' : List Event} {filter : LogFilter}

theorem refl (one two : String) (log : List Event) : LogsAlike one two log log :=
  List.forall₂_same.mpr fun event _ => .same event

theorem append {more more' : List Event} (alike : LogsAlike one two log log')
    (moreAlike : LogsAlike one two more more') :
    LogsAlike one two (log ++ more) (log' ++ more') :=
  List.rel_append alike moreAlike

/-- Where lengths are not shown, or are the same, the same is shown. -/
theorem filter_eq (alike : LogsAlike one two log log')
    (same : (∀ keyFile length, filter.shows (.readKey keyFile length) = false) ∨
      one.utf8ByteSize = two.utf8ByteSize) :
    log'.filter filter.shows = log.filter filter.shows := by
  induction alike with
  | nil => rfl
  | @cons event event' rest rest' first _ ih =>
    cases first with
    | same => rw [List.filter_cons, List.filter_cons, ih]
    | keys keyFile =>
      rcases same with hidden | equal
      · rw [List.filter_cons_of_neg (by simp [hidden]), List.filter_cons_of_neg (by simp [hidden]),
          ih]
      · rw [List.filter_cons, List.filter_cons, equal, ih]

end LogsAlike

/-! ## Preparing twice -/

/-- What two keys leave alike of a preparation: the failure, or all of the plan
but the new text. -/
inductive PlansAlike : Except Failure Plan → Except Failure Plan → Prop
  | failed (failure : Failure) : PlansAlike (.error failure) (.error failure)
  | ready (server : ServerName) (previous updated updated' : String) :
      PlansAlike (.ok ⟨server, previous, updated⟩) (.ok ⟨server, previous, updated'⟩)

/-- Of the key, only its length is told while a run prepares. -/
theorem prepare_alike (keys : KeyTwins place one two first second)
    (keyAt : job.KeyAt first place) :
    PlansAlike (prepare first job).1 (prepare second job).1 ∧
      LogsAlike one two (prepare first job).2 (prepare second job).2 := by
  obtain ⟨keyed, keyed'⟩ := keys.read_key keyAt
  have sameDocument := keys.read_eq keyAt
  have told : LogsAlike one two
      ([.resolvedPaths job.keyFile job.configFile] ++ [.readKey job.keyFile one.utf8ByteSize])
      ([.resolvedPaths job.keyFile job.configFile] ++ [.readKey job.keyFile two.utf8ByteSize]) :=
    .append (.refl one two _) (.cons (.keys job.keyFile) .nil)
  simp only [prepare, keyed, keyed', sameDocument]
  cases Document.read first job.configFile with
  | error failure => exact ⟨.failed failure, told⟩
  | ok document =>
    have sameEnd := Document.install_fst (job.entry two) (job.entry one) document
    cases installed : document.install (job.entry one) with
    | mk result updated =>
      cases installed' : document.install (job.entry two) with
      | mk result' updated' =>
        rw [installed, installed'] at sameEnd
        obtain rfl : result' = result := sameEnd
        simp only [installed, installed']
        cases result' with
        | error failure => exact ⟨.failed failure, told⟩
        | ok server => exact ⟨.ready server _ _ _, told.append (.refl one two _)⟩

/-! ## Running twice -/

/-- How two runs end alike: in one failure, or with the document replaced by texts
of their own. -/
inductive RunsAlike (job : Job) (first second : Disk) : Report → Report → Prop
  | failed (failure : Failure) (log log' : List Event) :
      RunsAlike job first second ⟨.error failure, first, "", log⟩ ⟨.error failure, second, "", log'⟩
  | replaced (server : ServerName) (backupFile : Option Path) (updated updated' printed : String)
      (written written' : Disk) (log log' : List Event) :
      RunsAlike job first second ⟨.ok ⟨server, backupFile, updated⟩, written, printed, log⟩
        ⟨.ok ⟨server, backupFile, updated'⟩, written', printed, log'⟩

/-- A commit is refused with its backup, or replaces the document. -/
theorem commit_eq {disk : Disk} {plan : Plan} (ready : (prepare disk job).1 = .ok plan)
    (log : List Event) :
    (∃ fault, disk.write job.configFile.backup plan.previous = .error fault ∧
        commit disk job plan log =
          ⟨.error (.unwritable job.configFile.backup fault), disk, "", log⟩) ∨
      ∃ kept written, disk.write job.configFile.backup plan.previous = .ok kept ∧
        commit disk job plan log =
          ⟨.ok ⟨plan.server, some job.configFile.backup, plan.updated⟩, written,
            Terminal.updateResult plan.server job.keyFile job.configFile job.configFile.backup,
            log ++ [.wroteBackup job.configFile.backup] ++
              [.wroteConfig job.configFile plan.server]⟩ := by
  cases backedUp : disk.write job.configFile.backup plan.previous with
  | error fault => exact .inl ⟨fault, rfl, by simp only [commit, backedUp]⟩
  | ok kept =>
    obtain ⟨written, wrote⟩ := exists_write_of_backup ready backedUp
    exact .inr ⟨kept, written, rfl, by simp only [commit, backedUp, wrote]⟩

/-- Two runs of one job with two keys end alike, and tell the same but for the
length of the key. -/
theorem runs_alike (keys : KeyTwins place one two first second)
    (keyAt : job.KeyAt first place) (wet : job.dryRun = false) :
    RunsAlike job first second (job.run first) (job.run second) ∧
      LogsAlike one two (job.run first).log (job.run second).log := by
  obtain ⟨plans, logs⟩ := prepare_alike keys keyAt
  cases prepared : (prepare first job).1 with
  | error failure =>
    have failed' : (prepare second job).1 = .error failure := by
      rw [prepared] at plans
      generalize (prepare second job).1 = other at plans ⊢
      cases plans
      rfl
    rw [run_of_error prepared, run_of_error failed']
    exact ⟨.failed failure _ _, logs⟩
  | ok plan =>
    obtain ⟨updated, ready'⟩ : ∃ updated,
        (prepare second job).1 = .ok ⟨plan.server, plan.previous, updated⟩ := by
      rw [prepared] at plans
      generalize (prepare second job).1 = other at plans ⊢
      cases plans
      exact ⟨_, rfl⟩
    rw [run_of_ok wet prepared, run_of_ok wet ready']
    have refused := keys.twins.write_eq_error_iff job.configFile.backup plan.previous
    -- The backups are the same, and one is refused exactly if the other one is.
    rcases commit_eq prepared (prepare first job).2 with
      ⟨fault, backup, ends⟩ | ⟨kept, written, backup, ends⟩ <;>
    rcases commit_eq ready' (prepare second job).2 with
      ⟨fault', backup', ends'⟩ | ⟨kept', written', backup', ends'⟩ <;>
    rw [ends, ends']
    · rw [(refused fault).mpr backup] at backup'
      cases backup'
      exact ⟨.failed _ _ _, logs⟩
    · rw [(refused fault).mpr backup] at backup'
      cases backup'
    · rw [(refused fault').mp backup'] at backup
      cases backup
    · refine ⟨.replaced _ _ _ _ _ _ _ _ _, ?_⟩
      exact (logs.append (.refl one two _)).append (.refl one two _)

/-! ## What the two runs leave -/

/-- A run that succeeds has read a document, which is then in the backup, and has
written it with the key. -/
theorem exists_document_of_run {disk : Disk} {key : String} {outcome : Outcome}
    (keyed : KeyFile.read disk job.keyFile = .ok key) (wet : job.dryRun = false)
    (succeeded : (job.run disk).result = .ok outcome) :
    ∃ document, Document.read disk job.configFile = .ok document ∧
      (document.install (job.entry key)).1 = .ok document.target ∧
      ∃ file backup, Places disk job.configFile file backup ∧
        Replaced file backup document.render (document.install (job.entry key)).2.render
          disk (job.run disk).disk := by
  obtain ⟨found, document, plan, file, backup, prepared, -, places, replaced⟩ :=
    exists_replaced wet succeeded
  obtain rfl : found = key := Except.ok.inj (prepared.keyed.symm.trans keyed)
  have installed := prepared.installed
  rw [Document.eq_target_of_install installed] at installed
  rw [prepared.previous, prepared.updated] at replaced
  exact ⟨document, prepared.read, installed, file, backup, places, replaced⟩

/-- Runs that fail leave their disks as they are. -/
theorem RunsAlike.of_error {report report' : Report} {failure : Failure}
    (alike : RunsAlike job first second report report') (failed : report.result = .error failure) :
    report'.result = .error failure ∧ report'.printed = report.printed ∧
      report.disk = first ∧ report'.disk = second := by
  cases alike with
  | failed => exact ⟨failed, rfl, rfl, rfl⟩
  | replaced => cases failed

theorem RunsAlike.of_ok {report report' : Report} {outcome : Outcome}
    (alike : RunsAlike job first second report report') (succeeded : report.result = .ok outcome) :
    ∃ outcome', report'.result = .ok outcome' ∧ report'.printed = report.printed := by
  cases alike with
  | failed => cases succeeded
  | replaced => exact ⟨_, rfl, rfl⟩

/-- If the first run succeeds, both read one document and replace it, in the same
places and with the same backup. -/
theorem exists_replaced_twice (keys : KeyTwins place one two first second)
    (keyAt : job.KeyAt first place) (wet : job.dryRun = false) {outcome : Outcome}
    (succeeded : (job.run first).result = .ok outcome) :
    ∃ document file backup, Document.read first job.configFile = .ok document ∧
      (document.install (job.entry one)).1 = .ok document.target ∧
      Places first job.configFile file backup ∧ Places second job.configFile file backup ∧
      Replaced file backup document.render (document.install (job.entry one)).2.render
        first (job.run first).disk ∧
      Replaced file backup document.render (document.install (job.entry two)).2.render
        second (job.run second).disk := by
  obtain ⟨keyed, keyed'⟩ := keys.read_key keyAt
  obtain ⟨outcome', succeeded', -⟩ := (runs_alike keys keyAt wet).1.of_ok succeeded
  obtain ⟨document, read, installed, file, backup, places, replaced⟩ :=
    exists_document_of_run keyed wet succeeded
  obtain ⟨document', read', -, file', backup', places', replaced'⟩ :=
    exists_document_of_run keyed' wet succeeded'
  rw [keys.read_eq keyAt, read] at read'
  cases read'
  have located := places'.located
  have backedUp := places'.backedUp
  rw [keys.twins.locate_eq, places.located] at located
  rw [keys.twins.locate_eq, places.backedUp] at backedUp
  cases located
  cases backedUp
  exact ⟨document, file, backup, read, installed, places, places', replaced, replaced'⟩

/-- After both runs, the disks differ in the key file and in the document alone. -/
theorem node?_of_runs (keys : KeyTwins place one two first second)
    (keyAt : job.KeyAt first place) (wet : job.dryRun = false) {other : Location}
    (notKey : other ≠ place) (notConfig : first.locate job.configFile ≠ .ok other) :
    (job.run second).disk.node? other = (job.run first).disk.node? other := by
  cases result : (job.run first).result with
  | error failure =>
    obtain ⟨-, -, kept, kept'⟩ := (runs_alike keys keyAt wet).1.of_error result
    rw [kept, kept']
    exact keys.elsewhere other notKey
  | ok outcome =>
    obtain ⟨document, file, backup, -, -, places, -, replaced, replaced'⟩ :=
      exists_replaced_twice keys keyAt wet result
    have notFile : other ≠ file := fun same => notConfig (same ▸ places.located)
    rw [replaced.nodes, replaced'.nodes, if_neg notFile, if_neg notFile,
      keys.elsewhere other notKey]

/-- After two runs that succeed, both backups hold the document that was there,
even in the place of the key, and the documents that replace it differ in the
header with the key alone. -/
theorem documents_of_runs (keys : KeyTwins place one two first second)
    (keyAt : job.KeyAt first place) (wet : job.dryRun = false) {outcome : Outcome}
    (succeeded : (job.run first).result = .ok outcome) :
    ∃ document updated, Document.read first job.configFile = .ok document ∧
      (job.run first).disk.find? job.configFile.backup = some (.ofText document.render) ∧
      (job.run second).disk.find? job.configFile.backup = some (.ofText document.render) ∧
      Document.read (job.run first).disk job.configFile = .ok updated ∧
      Document.read (job.run second).disk job.configFile = .ok ⟨updated.path,
        Json.replaceAt (Document.keyPlace document.target) (.string two) updated.root⟩ := by
  obtain ⟨document, file, backup, read, installed, places, places', replaced, replaced'⟩ :=
    exists_replaced_twice keys keyAt wet succeeded
  have storable := Document.storable_of_read read
  have readUpdated : ∀ {key : String} {disk after : Disk}, Places disk job.configFile file backup →
      Replaced file backup document.render (document.install (job.entry key)).2.render disk after →
      Document.read after job.configFile =
        .ok ⟨job.configFile, (document.install (job.entry key)).2.root⟩ :=
    fun places replaced => Document.read_ofText (Document.storable_install _ storable)
      (replaced.find?_file places)
  refine ⟨document, _, read, replaced.find?_backup places, replaced'.find?_backup places',
    readUpdated places replaced, ?_⟩
  rw [readUpdated places' replaced', Document.install_eq, Document.install_eq]
  -- The two entries of the job differ in their keys alone.
  have url : (job.entry two).url = (job.entry one).url := rfl
  have description : (job.entry two).description = (job.entry one).description := rfl
  rw [Document.installIn_eq_replaceAt url description (Document.install_eq_ok_iff.mp installed)]
  rfl

end

end KeyInstall
