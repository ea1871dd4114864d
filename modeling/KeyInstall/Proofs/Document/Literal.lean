import KeyInstall.Proofs.Document.Editing
import KeyInstall.Proofs.Json.Literal

/-!
# Documents are written as they are

Whatever text a document comes of, and whatever entries are installed in it, its
text has every character beyond ASCII as it is and escapes no more than it has
to: control characters are in it for its lines alone, and digits only stand for
control characters (`render_literal`).
-/

namespace KeyInstall.Document

open Json (Fits Literal Place isWide wideOf)

/-- How a text is written that has some keys and strings in it, given in their
order. -/
structure WritesLiterally (text : List Char) (texts : List String) : Prop where
  /-- The characters from U+0080 on are those of the keys and strings. -/
  wide : text.filter isWide = texts.flatMap fun inner => inner.toList.filter isWide
  /-- A character below U+0020 is a line feed outside of strings. The line that it
  begins is indented by two blanks for each bracket that is open, and not empty. -/
  control : ∀ before c after, text = before ++ c :: after → c < ' ' →
    c = '\n' ∧ ((Place.outside 0).after before).quoted = false ∧
      ∃ mark rest, ' ' < mark ∧
        after = List.replicate (((Place.outside 0).after before).indentation mark) ' ' ++
          mark :: rest
  /-- The last line has no line feed. -/
  ending : text.getLast? ≠ some '\n'
  /-- A backslash that is not escaped itself, and the letter of digits, have the
  digits of a character below U+0020 after them. -/
  escape : ∀ before after, text = before ++ '\\' :: 'u' :: after →
    ((Place.outside 0).after before).escaped = false →
    ∃ digits c rest, after = digits ++ rest ∧ Json.Grammar.HexUnit digits c.toNat ∧ c < ' '

theorem control_of_fits {place : Place} {c : Char} {after : List Char} (fits : Fits place c after)
    (control : c < ' ') :
    c = '\n' ∧ place.quoted = false ∧ ∃ mark rest, ' ' < mark ∧
      after = List.replicate (place.indentation mark) ' ' ++ mark :: rest := by
  cases fits with
  | visible visible => exact absurd visible (Char.not_le.mpr control)
  | line begins => exact ⟨rfl, rfl, _, _, begins, rfl⟩
  | letter => exact absurd control (by decide)
  | digits => exact absurd control (by decide)

theorem digits_of_fits {place : Place} {after : List Char}
    (fits : Fits place '\\' ('u' :: after)) (active : place.escaped = false) :
    ∃ digits c rest, after = digits ++ rest ∧ Json.Grammar.HexUnit digits c.toNat ∧ c < ' ' := by
  cases fits with
  | visible _ escaped =>
    rw [escaped rfl] at active
    cases active
  | letter other => exact absurd rfl other
  | digits hex control => exact ⟨_, _, _, rfl, hex, control⟩

theorem writesLiterally_of_literal {text : List Char} {texts : List String}
    (literal : Literal (.outside 0) text (wideOf texts)) : WritesLiterally text texts where
  wide := literal.filter_isWide
  control _ _ _ split control := control_of_fits (literal.fits split) control
  ending last := by
    obtain ⟨before, split⟩ := List.getLast?_eq_some_iff.mp last
    obtain ⟨-, -, mark, rest, -, none⟩ := control_of_fits (literal.fits split) (by decide)
    simp at none
  escape _ _ split active := digits_of_fits (literal.fits split) active

/-- After any entries, a document that was read from a text writes its keys and
strings literally. -/
theorem render_literal {path : Path} {text : String} {document : Document}
    (read : parse path text = .ok document) (entries : List Entry) :
    WritesLiterally (document.installs entries).render.toList
      (document.installs entries).root.texts := by
  have storable := storable_installs (storable_of_parse read) entries
  have literal := Json.literal_write storable 0 .nil
  rw [List.append_nil, List.append_nil] at literal
  rw [render, Json.render, String.toList_ofList]
  exact writesLiterally_of_literal literal

/-- Characters beyond ASCII in a key and in a string, and control characters in
a key that is installed. -/
theorem render_literal_spelledText :
    ∃ document, parse ⟨"mcp.json"⟩ spelledText = .ok document ∧
      wideOf (document.installs [.ofKey "\x01\\u", .ofKey "😀\n\x7fé"]).root.texts =
        ['é', '😀', 'é'] ∧
      WritesLiterally (document.installs [.ofKey "\x01\\u", .ofKey "😀\n\x7fé"]).render.toList
        (document.installs [.ofKey "\x01\\u", .ofKey "😀\n\x7fé"]).root.texts := by
  have reads : (parse ⟨"mcp.json"⟩ spelledText).map (fun document =>
      wideOf (document.installs [.ofKey "\x01\\u", .ofKey "😀\n\x7fé"]).root.texts) =
        .ok ['é', '😀', 'é'] := by decide +kernel
  obtain ⟨document, read, wide⟩ := Json.map_eq_ok_iff.mp reads
  exact ⟨document, read, wide, render_literal read _⟩

end KeyInstall.Document
