import KeyInstall.Editing
import KeyInstall.Proofs.Document.Overwriting
import KeyInstall.Proofs.Document.Refusal

/-!
# Edits as a whole

However a document was edited, it is read from its own texts again: a document
that comes of a text and any entries is read from the pretty text and from the
compact one (`parse_texts_installs`).

An edit of any length comes to one of two things, and the document that it
starts from tells which (`edits_collapse`). Either every entry is refused, for
the same reason, and the document never changes; or every entry is installed,
and the document is at each point the first one with the latest entry alone.
The invariant for both is `Settled`: it says what any entries leave, and a step
adds at most one entry to them (`Settled.edit`, `Settled.after`).
-/

namespace KeyInstall

/-! ## The entries of an edit -/

/-- The entry that a step installs. -/
def EditStep.entry? : EditStep → Option Entry
  | .install entry => some entry
  | _ => none

/-- The entries that some steps install, the last one first. -/
def EditStep.entries (steps : List EditStep) : List Entry :=
  (steps.filterMap EditStep.entry?).reverse

theorem EditStep.entries_concat (steps : List EditStep) (step : EditStep) :
    EditStep.entries (steps ++ [step]) = step.entry?.toList ++ EditStep.entries steps := by
  rw [entries, entries, List.filterMap_append, List.reverse_append]
  cases step <;> rfl

namespace Document

open Json (Storable nestingLimit)

/-! ## Texts after any entries -/

/-- A document after some entries, each of them installed in what the one before
it left, whether that one was refused or not. -/
def installs (document : Document) (entries : List Entry) : Document :=
  entries.foldl (fun document entry => (document.install entry).2) document

theorem path_installs (document : Document) (entries : List Entry) :
    (document.installs entries).path = document.path := by
  induction entries generalizing document with
  | nil => rfl
  | cons entry entries ih => exact ih (document.install entry).2

theorem storable_installs {document : Document}
    (storable : Storable nestingLimit document.root) (entries : List Entry) :
    Storable nestingLimit (document.installs entries).root := by
  induction entries generalizing document with
  | nil => exact storable
  | cons entry entries ih => exact ih (storable_install entry storable)

theorem path_of_parse {path : Path} {text : String} {document : Document}
    (read : parse path text = .ok document) : document.path = path := by
  unfold parse at read
  split at read
  · simp at read
  · cases read
    rfl

/-- A document is read from its compact text, too. -/
theorem parse_renderCompact {document : Document}
    (storable : Storable nestingLimit document.root) (path : Path) :
    parse path document.root.renderCompact = .ok ⟨path, document.root⟩ := by
  rw [parse, Json.parse_renderCompact storable]

/-- After any entries, a document that was read from a text is read from both of
its own texts. -/
theorem parse_texts_installs {path : Path} {text : String} {document : Document}
    (read : parse path text = .ok document) (entries : List Entry) :
    parse path (document.installs entries).render = .ok (document.installs entries) ∧
      parse path (document.installs entries).root.renderCompact =
        .ok (document.installs entries) := by
  have storable := storable_installs (storable_of_parse read) entries
  have path : Document.mk path (document.installs entries).root = document.installs entries := by
    rw [← path_of_parse read, ← path_installs document entries]
  refine ⟨?_, ?_⟩
  · rw [parse_render storable, path]
  · rw [parse_renderCompact storable, path]

/-- A text with layout, a number and a key that are not spelled as a document
spells them. -/
def spelledText : String := "\x7b \"n\": -1E5, \"\\u00e9\\n\": [true] \x7d"

/-- The texts of that document after two entries with characters that have to be
escaped. -/
theorem parse_texts_installs_spelledText :
    ∃ document, parse ⟨"mcp.json"⟩ spelledText = .ok document ∧
      document.root.renderCompact = "\x7b\"n\":-1e+5,\"é\\n\":[true]\x7d" ∧
      parse ⟨"mcp.json"⟩ (document.installs [.ofKey "\"\x00\\", .ofKey "é😀"]).render =
        .ok (document.installs [.ofKey "\"\x00\\", .ofKey "é😀"]) ∧
      parse ⟨"mcp.json"⟩
          (document.installs [.ofKey "\"\x00\\", .ofKey "é😀"]).root.renderCompact =
        .ok (document.installs [.ofKey "\"\x00\\", .ofKey "é😀"]) := by
  have reads : (parse ⟨"mcp.json"⟩ spelledText).map (fun document => document.root.renderCompact) =
      .ok "\x7b\"n\":-1e+5,\"é\\n\":[true]\x7d" := by decide +kernel
  obtain ⟨document, read, compact⟩ := Json.map_eq_ok_iff.mp reads
  exact ⟨document, read, compact, parse_texts_installs read _⟩

/-! ## One step -/

/-- What is answered to a step that leaves `current`, where `target` is the entry
that is written to and every installation ends with `result`. -/
inductive Answers (target : ServerName) (result : Except Failure ServerName)
    (current : Document) : EditStep → EditAnswer → Prop
  | select : Answers target result current .select (.selected target)
  | look : Answers target result current .look (.value current.root)
  | install (entry : Entry) :
      Answers target result current (.install entry) (.installed result)
  /-- The text is read, and gives the same document. -/
  | reread : Answers target result current .reread (.reread (.ok true))

/-- Every entry ends with `result`, and any entries, the last one first, leave of
`document` what `left` says. -/
structure Settled (document : Document) (result : Except Failure ServerName)
    (left : List Entry → Document) : Prop where
  start : left [] = document
  target : ∀ entries, (left entries).target = document.target
  install : ∀ entries entry, (left entries).install entry = (result, left (entry :: entries))
  storable : ∀ entries, Storable nestingLimit (left entries).root

section

variable {document : Document} {result : Except Failure ServerName}
  {left : List Entry → Document}

/-- A step adds its entry, if it has one, and is answered as it should be. -/
theorem Settled.edit (settled : Settled document result left) (entries : List Entry)
    (step : EditStep) :
    ∃ answer, (left entries).edit step = (answer, left (step.entry?.toList ++ entries)) ∧
      Answers document.target result (left (step.entry?.toList ++ entries)) step answer := by
  cases step with
  | select =>
    refine ⟨.selected document.target, ?_, .select⟩
    rw [Document.edit, settled.target]
    rfl
  | look => exact ⟨.value (left entries).root, rfl, .look⟩
  | install entry =>
    refine ⟨.installed result, ?_, .install entry⟩
    simp only [Document.edit, settled.install]
    rfl
  | reread =>
    refine ⟨.reread (.ok true), ?_, .reread⟩
    have storable := settled.storable entries
    simp only [Document.edit, parse_render storable, storable.same_self]
    rfl

/-! ## Any number of steps -/

/-- The document after some steps. -/
def after (document : Document) (steps : List EditStep) : Document :=
  steps.foldl (fun document step => (document.edit step).2) document

theorem after_concat (document : Document) (steps : List EditStep) (step : EditStep) :
    document.after (steps ++ [step]) = ((document.after steps).edit step).2 := by
  simp [after]

/-- The answer to a step of an edit is the one to that step on what the steps
before it left. -/
theorem getElem?_edits (document : Document) (earlier later : List EditStep)
    (step : EditStep) :
    (document.edits (earlier ++ step :: later))[earlier.length]? =
      some ((document.after earlier).edit step) := by
  induction earlier generalizing document with
  | nil => rfl
  | cons first earlier ih =>
    rw [List.cons_append, edits, List.length_cons, List.getElem?_cons_succ]
    exact ih (document.edit first).2

/-- Some steps leave what their entries leave. -/
theorem Settled.after (settled : Settled document result left) (steps : List EditStep) :
    document.after steps = left (EditStep.entries steps) := by
  -- Steps are added at the end, where the latest entry comes from.
  induction steps using List.reverseRecOn with
  | nil => exact settled.start.symm
  | append_singleton steps step ih =>
    obtain ⟨answer, edited, -⟩ := settled.edit (EditStep.entries steps) step
    rw [after_concat, ih, EditStep.entries_concat, edited]

/-- Each of some steps is answered as it should be and leaves what the entries
up to it leave. -/
def Follows (document : Document) (result : Except Failure ServerName)
    (left : List Entry → Document) (steps : List EditStep) : Prop :=
  ∀ earlier step later, steps = earlier ++ step :: later →
    ∃ answer, (document.edits steps)[earlier.length]? =
        some (answer, left (EditStep.entries (earlier ++ [step]))) ∧
      Answers document.target result (left (EditStep.entries (earlier ++ [step]))) step answer

theorem Settled.follows (settled : Settled document result left) (steps : List EditStep) :
    document.Follows result left steps := by
  rintro earlier step later rfl
  obtain ⟨answer, edited, answers⟩ := settled.edit (EditStep.entries earlier) step
  rw [EditStep.entries_concat, getElem?_edits, settled.after]
  exact ⟨answer, congrArg some edited, answers⟩

end

/-! ## The two kinds of documents -/

/-- A document that refuses one entry refuses every one and stays as it is. -/
theorem settled_of_error {document : Document} {entry : Entry} {failure : Failure}
    (storable : Storable nestingLimit document.root)
    (refused : (document.install entry).1 = .error failure) :
    Settled document (.error failure) (fun _ => document) := by
  refine ⟨rfl, fun _ => rfl, ?_, fun _ => storable⟩
  intro _ other
  exact install_of_error ((install_fst other entry document).trans refused)

/-- In a document that takes one entry, every one takes the place of those before
it. -/
theorem settled_of_ok {document : Document} {entry : Entry} {name : ServerName}
    (storable : Storable nestingLimit document.root)
    (installed : (document.install entry).1 = .ok name) :
    Settled document (.ok document.target) document.latest := by
  refine ⟨rfl, target_latest document, ?_, storable_latest storable⟩
  intro entries other
  rw [install_latest]
  refine Prod.ext ?_ rfl
  rw [install_fst other entry, installed, eq_target_of_install installed]

/-- Of a document that was read from a text, either every edit refuses all
entries for one reason and changes nothing, or every edit installs all entries
and leaves the latest one only. -/
theorem edits_collapse {path : Path} {text : String} {document : Document}
    (read : parse path text = .ok document) :
    (∃ failure, ∀ steps, document.Follows (.error failure) (fun _ => document) steps) ∨
      ∀ steps, document.Follows (.ok document.target) document.latest steps := by
  have storable := storable_of_parse read
  -- Any entry will do: whether it can be installed is a matter of the document.
  cases tried : (document.install (.ofKey "")).1 with
  | error failure => exact .inl ⟨failure, (settled_of_error storable tried).follows⟩
  | ok name => exact .inr (settled_of_ok storable tried).follows

/-- A text whose older entry has something else than headers. -/
def headerlessText : String := "\x7b\"mcpServers\":\x7b\"easygrid-mcp\":\x7b\"headers\":null\x7d\x7d\x7d"

/-- The edits of that document, which refuses every entry at its headers. -/
theorem edits_collapse_headerlessText :
    ∃ document, parse ⟨"mcp.json"⟩ headerlessText = .ok document ∧
      (document.install (.ofKey "k")).1 =
        .error (.unexpectedShape ⟨"mcp.json"⟩ "mcpServers.easygrid-mcp.headers") ∧
      ((∃ failure, ∀ steps, document.Follows (.error failure) (fun _ => document) steps) ∨
        ∀ steps, document.Follows (.ok document.target) document.latest steps) := by
  have reads : (parse ⟨"mcp.json"⟩ headerlessText).map
      (fun document => (document.install (.ofKey "k")).1) =
        .ok (.error (.unexpectedShape ⟨"mcp.json"⟩ "mcpServers.easygrid-mcp.headers")) := by
    decide +kernel
  obtain ⟨document, read, refused⟩ := Json.map_eq_ok_iff.mp reads
  exact ⟨document, read, refused, edits_collapse read⟩

end Document

end KeyInstall
