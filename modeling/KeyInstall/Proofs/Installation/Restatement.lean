import KeyInstall.Proofs.Installation.Endings
import KeyInstall.Proofs.Json.Lexing

/-!
# What a backup restates

The backup of a run is written from the document that was read, not copied, so it
is the text of the document once more, with another layout and another spelling of
strings. Beyond that it keeps the tokens of the text (`Job.backup_restates`), but
for two things: the exponent of a number comes in its normal form, and an object
with the tag of a number comes as that number. Where neither is in the text, the
tokens are the same; where one is, they are not.
-/

namespace KeyInstall

open Json (tokens? respelled distinctKeys Plain)

/-- A text has tokens, and if no key comes twice in an object of it, the backup has
the same, respelled. These are the same only if there is nothing to respell. -/
structure Restates (text backup : String) (source : List Json.Token) : Prop where
  tokens : tokens? text.toList = some source
  respelled : distinctKeys source [] = true → tokens? backup.toList = some (respelled source)
  same : distinctKeys source [] = true →
    (tokens? backup.toList = tokens? text.toList ↔ Plain source)

theorem restates_of_parse {path : Path} {text : String} {document : Document}
    (parsed : Document.parse path text = .ok document) :
    ∃ source, Restates text document.render source := by
  unfold Document.parse at parsed
  split at parsed
  · simp at parsed
  · rename_i root read
    cases parsed
    obtain ⟨source, taken, respell⟩ := Json.tokens?_of_parse read
    have written := Json.tokens?_render (Json.storable_of_parse read)
    refine ⟨source, taken, ?_, ?_⟩
    · intro distinct
      rw [respell distinct]
      exact written
    · intro distinct
      rw [← Json.respelled_eq_self_iff, respell distinct, taken, Document.render, written,
        Option.some.injEq]

/-- After a run that succeeds, the backup restates the text of the document that
was there. -/
theorem Job.backup_restates {job : Job} {disk : Disk} {outcome : Outcome}
    (wet : job.dryRun = false) (succeeded : (job.run disk).result = .ok outcome) :
    ∃ node text backup source, disk.find? job.configFile = some node ∧ node.text = .ok text ∧
      (job.run disk).disk.find? job.configFile.backup = some (.ofText backup) ∧
      Restates text backup source := by
  obtain ⟨key, document, plan, file, backup, prepared, -, places, replaced⟩ :=
    exists_replaced wet succeeded
  obtain ⟨node, text, found, holds, parsed⟩ := Document.read_eq_ok_iff.mp prepared.read
  obtain ⟨source, restates⟩ := restates_of_parse parsed
  rw [prepared.previous] at replaced
  exact ⟨node, text, document.render, source, found, holds, replaced.find?_backup places, restates⟩

/-- A disk with a key and a document. -/
def documentDisk (text : String) : Disk where
  current := ["home"]
  nodes := [(["home"], .directory), (["home", "key"], .ofText "secret\n"),
    (["home", "mcp.json"], .ofText text)]
  inside := Disk.inside_of_nodes rfl

/-- A document with a tagged number. -/
def taggedText : String :=
  "\x7b\"timeout\": \x7b\"$serde_json::private::Number\": \"5\"\x7d\x7d"

theorem Job.backup_restates_taggedText :
    ∃ outcome backup source,
      ((Job.ofFiles ⟨"key"⟩ ⟨"mcp.json"⟩).run (documentDisk taggedText)).result = .ok outcome ∧
        ((Job.ofFiles ⟨"key"⟩ ⟨"mcp.json"⟩).run (documentDisk taggedText)).disk.find?
          ⟨"mcp.json.bak"⟩ = some (.ofText backup) ∧
        Restates taggedText backup source := by
  have ends : ((Job.ofFiles ⟨"key"⟩ ⟨"mcp.json"⟩).run (documentDisk taggedText)).result.map
      (·.server) = .ok .easygrid := by decide +kernel
  obtain ⟨outcome, succeeded, -⟩ := Json.map_eq_ok_iff.mp ends
  obtain ⟨node, text, backup, source, found, holds, kept, restates⟩ :=
    Job.backup_restates (show (Job.ofFiles ⟨"key"⟩ ⟨"mcp.json"⟩).dryRun = false from rfl) succeeded
  cases Option.some.inj (found.symm.trans
    (show (documentDisk taggedText).find? ⟨"mcp.json"⟩ = some (.ofText taggedText) from rfl))
  cases Except.ok.inj (holds.symm.trans (Node.text_ofText taggedText))
  exact ⟨outcome, backup, source, succeeded, kept, restates⟩

/-- A document with an exponent in another form than the normal one, in a field that
a run replaces. -/
def rawExponent : String :=
  "\x7b\"mcpServers\":\x7b\"easygrid\":\x7b\"url\":1E5\x7d\x7d\x7d"

/-- What is in the backup after a run on that document. -/
def rawExponentBackup : String :=
  "\x7b\n  \"mcpServers\": \x7b\n    \"easygrid\": \x7b\n      \"url\": 1e+5\n    \x7d\n  \x7d\n\x7d"

/-- Not every backup has the tokens of the text that it was made from, even if no key
comes twice. -/
theorem Job.backup_not_verbatim :
    ¬ ∀ (job : Job) (disk : Disk) (outcome : Outcome) (text backup : String)
      (source : List Json.Token), job.dryRun = false → (job.run disk).result = .ok outcome →
        disk.find? job.configFile = some (.ofText text) →
        (job.run disk).disk.find? job.configFile.backup = some (.ofText backup) →
        tokens? text.toList = some source → distinctKeys source [] = true →
        tokens? backup.toList = tokens? text.toList := by
  intro verbatim
  have ends : ((Job.ofFiles ⟨"key"⟩ ⟨"mcp.json"⟩).run (documentDisk rawExponent)).result.map
      (·.server) = .ok .easygrid := by decide +kernel
  obtain ⟨outcome, succeeded, -⟩ := Json.map_eq_ok_iff.mp ends
  have kept : ((Job.ofFiles ⟨"key"⟩ ⟨"mcp.json"⟩).run (documentDisk rawExponent)).disk.find?
      ⟨"mcp.json.bak"⟩ = some (.ofText rawExponentBackup) := by decide +kernel
  have distinct : (tokens? rawExponent.toList).map (distinctKeys · []) = some true := by
    decide +kernel
  obtain ⟨source, taken, distinct⟩ := Option.map_eq_some_iff.mp distinct
  have same := verbatim _ _ _ _ _ _ rfl succeeded rfl kept taken distinct
  exact absurd same (by decide +kernel)

end KeyInstall
