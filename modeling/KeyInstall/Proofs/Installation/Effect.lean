import KeyInstall.Proofs.Installation.Endings

/-!
# The effect of an installation

A run that succeeds and is not dry sets two files and touches nothing else: the
document holds the entry, and its backup holds the document as it was read
(`Job.run_effect`). Both are read from the new disk as what they were written
for. Key, document and backup are what they were before the run, even where
their paths lead to one file.
-/

namespace KeyInstall

/-- What a job does to a disk, and what it tells of it. The key and the document
are those before the run, and `updated` is the document with the entry. -/
structure Effect (job : Job) (key : String) (document updated : Document)
    (before after : Disk) (outcome : Outcome) : Prop where
  keyed : ∃ node text, before.find? job.keyFile = some node ∧ node.text = .ok text ∧
    Text.trim text.toList ≠ [] ∧ key = String.ofList (Text.trim text.toList)
  read : Document.read before job.configFile = .ok document
  installed : document.install (job.entry key) = (.ok document.target, updated)
  files : ∃ file backup, Disk.Places before job.configFile file backup ∧
    Disk.Replaced file backup document.render updated.render before after
  told : outcome = ⟨document.target, some job.configFile.backup, updated.render⟩
  readUpdated : Document.read after job.configFile = .ok updated
  readPrevious : Document.read after job.configFile.backup =
    .ok ⟨job.configFile.backup, document.root⟩

/-- A disk whose backup is a key file. -/
def keptKeyDisk : Disk where
  current := ["home"]
  nodes := [(["home"], .directory), (["home", "mcp.json"], .ofText "\x7b\x7d"),
    (["home", "mcp.json.bak"], .ofText " secret\n")]
  inside := Disk.inside_of_nodes rfl

end KeyInstall
