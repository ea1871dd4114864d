import KeyInstall.Document

/-!
# Editing a document step by step

A sequence of steps on one document, each with an answer and the document that
it leaves: asking for the entry that would be written, looking at the value,
writing an entry, and reading back the document's own text.
-/

namespace KeyInstall

/-- A step of an edit. -/
inductive EditStep where
  | select
  | look
  | install (entry : Entry)
  | reread
  deriving DecidableEq, Repr

/-- What a step tells. -/
inductive EditAnswer where
  | selected (name : ServerName)
  | value (root : Json)
  | installed (result : Except Failure ServerName)
  /-- Whether the text gave the same document again, as data. -/
  | reread (result : Except Failure Bool)

namespace Document

/-- One step. A text that cannot be read leaves the document as it is. -/
def edit (document : Document) : EditStep → EditAnswer × Document
  | .select => (.selected document.target, document)
  | .look => (.value document.root, document)
  | .install entry =>
    let (result, document) := document.install entry
    (.installed result, document)
  | .reread =>
    match parse document.path document.render with
    | .ok again => (.reread (.ok (document.root.same again.root)), again)
    | .error failure => (.reread (.error failure), document)

/-- The answers of a sequence of steps, each with the document after it. -/
def edits (document : Document) : List EditStep → List (EditAnswer × Document)
  | [] => []
  | step :: steps =>
    let answered := document.edit step
    answered :: answered.2.edits steps

end Document

end KeyInstall
